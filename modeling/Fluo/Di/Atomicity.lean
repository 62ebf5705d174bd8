import Fluo.Di.Records
/-!
# What a refused registration leaves behind

`register` and `override` take a list of providers. Both write one token after the
other, so a refusal comes too late for what stands before it.
-/

namespace Fluo.Di

variable {τ : Type} [DecidableEq τ] {s s' : State τ} {c : ContainerId} {t : τ}

/-- The providers, the overridden tokens and the instance caches of every container are what they were. -/
structure State.SameProviders (s s' : State τ) : Prop where
  registrations         : ∀ c, (s'.graph c).registrations = (s.graph c).registrations
  multiRegistrations    : ∀ c, (s'.graph c).multiRegistrations = (s.graph c).multiRegistrations
  multiOverriddenTokens : ∀ c t, t ∈ (s'.graph c).multiOverriddenTokens ↔ t ∈ (s.graph c).multiOverriddenTokens
  cache                 : ∀ c, (s'.container c).cache = (s.container c).cache

/-- A call that throws leaves what it found. -/
def State.Atomic (s : State τ) (result : State τ × Option (DiError τ)) : Prop := result.2 ≠ none → s.SameProviders result.1

/-- Two records of one call: both multi, where they are for one token. -/
def NormalizedProvider.Compatible (p q : NormalizedProvider τ) : Prop := p.provide = q.provide → p.multi = true ∧ q.multi = true

/-- No provider of the list is a reason to refuse it. -/
def State.Registrable (s : State τ) (c : ContainerId) (providers : List (Provider τ)) : Prop :=
  ∃ ps, normalizeAll s.classes s.nextProvider providers = .ok ps ∧ (∀ p ∈ ps, s.Accepts c p) ∧ ps.Pairwise NormalizedProvider.Compatible

/-- The container is disposed, or `register` refuses the first provider or none. -/
def State.RegistersAtOnce (s : State τ) (c : ContainerId) (providers : List (Provider τ)) : Prop :=
  s.isDisposedInHierarchy c = true ∨ ¬ s.Registrable c (providers.take 1) ∨ s.Registrable c providers

/-- The records for the token of the first one. -/
def firstGroup : List (NormalizedProvider τ) → List (NormalizedProvider τ)
  | [] => []
  | p :: ps => (p :: ps).filter (·.provide = p.provide)

/-- The container is disposed, or a provider is invalid, or the providers mix single and multi ones for the first token or for none. -/
def State.OverridesAtOnce (s : State τ) (c : ContainerId) (providers : List (Provider τ)) : Prop :=
  s.isDisposedInHierarchy c = true ∨
    ∀ ps, normalizeAll s.classes s.nextProvider providers = .ok ps → (firstGroup ps).Pairwise NormalizedProvider.Compatible → ps.Pairwise NormalizedProvider.Compatible

/-! ## The records of a token -/

theorem State.SameProviders.ownRecords (h : s.SameProviders s') (c : ContainerId) (t : τ) :
    s'.graph.ownRecords c t = s.graph.ownRecords c t := by
  simp only [Graph.ownRecords, Graph.registration, Graph.multiRegistration, h.registrations c, h.multiRegistrations c]

omit [DecidableEq τ] in
theorem State.SameProviders.refl (s : State τ) : s.SameProviders s := ⟨fun _ => rfl, fun _ => rfl, fun _ _ => .rfl, fun _ => rfl⟩

theorem mem_registrations_registered (p : NormalizedProvider τ) (d : ContainerId) (t : τ) :
    t ∈ ((s.registered c p).graph d).registrations ↔ t ∈ (s.graph d).registrations ∨ d = c ∧ p.multi = false ∧ t = p.provide := by
  by_cases hd : d = c
  · subst hd
    cases hm : p.multi <;> simp [State.registered, State.setRegistry, hm, AList.mem_insert, or_comm]
  · simp [State.registered, State.setRegistry, hd]

theorem mem_multiRegistrations_registered (p : NormalizedProvider τ) (d : ContainerId) (t : τ) :
    t ∈ ((s.registered c p).graph d).multiRegistrations ↔ t ∈ (s.graph d).multiRegistrations ∨ d = c ∧ p.multi = true ∧ t = p.provide := by
  by_cases hd : d = c
  · subst hd
    cases hm : p.multi <;> simp [State.registered, State.setRegistry, hm, AList.mem_insert, or_comm]
  · simp [State.registered, State.setRegistry, hd]

theorem conflict_registered (p : NormalizedProvider τ) (t : τ) (multi : Bool) : (s.registered c p).hasRegistrationConflict c t multi = true ↔
    s.hasRegistrationConflict c t multi = true ∨ p.provide = t ∧ ¬ (p.multi = true ∧ multi = true) := by
  have hmem : c ∈ s.graph.lineage c := List.mem_cons_self
  cases multi with
  | true =>
    simp only [State.hasRegistrationConflict, if_true, lineage_registered, List.any_eq_true, decide_eq_true_eq, mem_registrations_registered]
    constructor
    · rintro ⟨d, hd, h | ⟨rfl, hm, rfl⟩⟩
      · exact .inl ⟨d, hd, h⟩
      · exact .inr ⟨rfl, by simp [hm]⟩
    · rintro (⟨d, hd, h⟩ | ⟨rfl, hm⟩)
      · exact ⟨d, hd, .inl h⟩
      · exact ⟨c, hmem, .inr ⟨rfl, by simpa using hm, rfl⟩⟩
  | false =>
    simp only [State.hasRegistrationConflict, Bool.false_eq_true, if_false, lineage_registered, Bool.or_eq_true, List.any_eq_true,
      decide_eq_true_eq, mem_registrations_registered, mem_multiRegistrations_registered]
    constructor
    · rintro ((h | ⟨-, hm, rfl⟩) | ⟨d, hd, h | ⟨rfl, hm, rfl⟩⟩)
      · exact .inl (.inl h)
      · exact .inr ⟨rfl, by simp⟩
      · exact .inl (.inr ⟨d, hd, h⟩)
      · exact .inr ⟨rfl, by simp⟩
    · rintro ((h | ⟨d, hd, h⟩) | ⟨rfl, -⟩)
      · exact .inl (.inl h)
      · exact .inr ⟨d, hd, .inl h⟩
      · cases hm : p.multi with
        | true => exact .inr ⟨c, hmem, .inr ⟨rfl, rfl, rfl⟩⟩
        | false => exact .inl (.inr (by simp))

theorem accepts_registered (p q : NormalizedProvider τ) : (s.registered c p).Accepts c q ↔ s.Accepts c q ∧ p.Compatible q := by
  have hscope : (s.registered c p).graph.requestScopeEnabled c = s.graph.requestScopeEnabled c := by
    have hlineage := lineage_registered (s := s) (c := c) p c
    simp only [Graph.lineage, List.cons.injEq, true_and] at hlineage
    rw [Graph.requestScopeEnabled, Graph.requestScopeEnabled, hlineage]
  have hconflict := conflict_registered (s := s) (c := c) p q.provide q.multi
  simp only [State.Accepts, NormalizedProvider.Compatible, hscope, ← Bool.not_eq_true, hconflict]
  tauto

/-! ## `register` -/

variable {rest : List (Provider τ)}

theorem registrable_cons {provider : Provider τ} {p : NormalizedProvider τ}
    (hp : normalizeProvider s.classes s.nextProvider provider = .ok p) (ha : s.Accepts c p) :
    s.Registrable c (provider :: rest) ↔ (s.registered c p).Registrable c rest := by
  have hrest : normalizeAll s.classes s.nextProvider (provider :: rest) =
      (normalizeAll s.classes (s.nextProvider + 1) rest).map (p :: ·) := by
    simp only [normalizeAll, hp, bind, Except.bind, pure, Except.pure]
    cases normalizeAll s.classes (s.nextProvider + 1) rest <;> rfl
  unfold State.Registrable
  rw [hrest, show (s.registered c p).classes = s.classes from rfl, show (s.registered c p).nextProvider = s.nextProvider + 1 from rfl]
  constructor
  · rintro ⟨ps, hps, hall, hpair⟩
    cases hn : normalizeAll s.classes (s.nextProvider + 1) rest with
    | error e => rw [hn] at hps; cases hps
    | ok qs =>
      rw [hn] at hps
      cases hps
      obtain ⟨hfirst, hpair⟩ := List.pairwise_cons.1 hpair
      exact ⟨qs, rfl, fun q hq => (accepts_registered p q).2 ⟨hall q (List.mem_cons_of_mem _ hq), hfirst q hq⟩, hpair⟩
  · rintro ⟨qs, hqs, hall, hpair⟩
    rw [hqs]
    refine ⟨p :: qs, rfl, List.forall_mem_cons.2 ⟨ha, fun q hq => ((accepts_registered p q).1 (hall q hq)).1⟩, ?_⟩
    exact List.pairwise_cons.2 ⟨fun q hq => ((accepts_registered p q).1 (hall q hq)).2, hpair⟩

theorem not_registrable {provider : Provider τ} {e : DiError τ} (h : s.registerOne c provider = .error e) :
    ¬ s.Registrable c (provider :: rest) := by
  rintro ⟨ps, hps, hall, -⟩
  simp only [normalizeAll, bind, Except.bind, pure, Except.pure] at hps
  cases hp : normalizeProvider s.classes s.nextProvider provider with
  | error e => rw [hp] at hps; cases hps
  | ok p =>
    rw [hp] at hps
    dsimp only at hps
    cases hn : normalizeAll s.classes (s.nextProvider + 1) rest with
    | error e => rw [hn] at hps; cases hps
    | ok qs =>
      rw [hn] at hps
      cases hps
      rw [registerOne_eq_ok.2 ⟨p, hp, hall p List.mem_cons_self, rfl⟩] at h
      cases h

theorem registerAll_eq_none (providers : List (Provider τ)) : (s.registerAll c providers).2 = none ↔ s.Registrable c providers := by
  induction providers generalizing s with
  | nil => simp [State.registerAll, State.Registrable, normalizeAll]
  | cons provider rest ih =>
    cases hone : s.registerOne c provider with
    | error e => simp [State.registerAll, hone, not_registrable hone]
    | ok s' =>
      obtain ⟨p, hp, ha, rfl⟩ := registerOne_eq_ok.1 hone
      rw [State.registerAll, hone, registrable_cons hp ha]
      exact ih

theorem ownRecords_registerAll (providers : List (Provider τ)) (t : τ) :
    s.graph.ownRecords c t <+: (s.registerAll c providers).1.graph.ownRecords c t := by
  induction providers generalizing s with
  | nil => exact List.prefix_rfl
  | cons provider rest ih =>
    cases hone : s.registerOne c provider with
    | error e => simp [State.registerAll, hone]
    | ok s' =>
      obtain ⟨p, -, ha, rfl⟩ := registerOne_eq_ok.1 hone
      rw [State.registerAll, hone]
      have hgrown : s.graph.ownRecords c t <+: (s.registered c p).graph.ownRecords c t := by
        rw [ownRecords_registered ha]
        exact List.prefix_append _ _
      exact hgrown.trans ih

theorem register_atomic (providers : List (Provider τ)) : s.Atomic (s.register c providers) ↔ s.RegistersAtOnce c providers := by
  unfold State.register State.RegistersAtOnce
  split
  · next hdisposed => simp [State.Atomic, hdisposed, State.SameProviders.refl]
  · next hdisposed =>
    simp only [hdisposed, Bool.false_eq_true, false_or]
    cases providers with
    | nil => simp [State.Atomic, State.registerAll, State.Registrable, normalizeAll]
    | cons provider rest =>
      cases hone : s.registerOne c provider with
      | error e =>
        simp only [State.registerAll, hone, List.take_succ_cons, List.take_zero, not_registrable hone, not_false_eq_true, true_or, iff_true]
        exact fun _ => .refl s
      | ok s' =>
        have hfirst : s.Registrable c [provider] := (registerAll_eq_none _).1 (by simp [State.registerAll, hone])
        rw [List.take_succ_cons, List.take_zero, ← registerAll_eq_none (provider :: rest)]
        refine ⟨fun h => .inr ?_, fun h hne => absurd (h.resolve_left (not_not.2 hfirst)) hne⟩
        by_contra hne
        -- the first record is there to stay, and it was not there before
        have hsame := h hne
        obtain ⟨p, -, ha, rfl⟩ := registerOne_eq_ok.1 hone
        have hlonger := (ownRecords_registerAll (s := s.registered c p) (c := c) rest p.provide).length_le
        rw [State.registerAll, hone] at hsame
        rw [ownRecords_registered ha, hsame.ownRecords] at hlonger
        simp only [if_true, List.length_append, List.length_singleton] at hlonger
        omega

/-! ## `override` -/

omit [DecidableEq τ] in
theorem replaceable_iff {ps : List (NormalizedProvider τ)} (hps : ∀ p ∈ ps, p.provide = t) :
    replaceable ps = true ↔ ps.Pairwise NormalizedProvider.Compatible := by
  match ps with
  | [] => simp [replaceable]
  | [p] => cases hm : p.multi <;> simp [replaceable, hm]
  | p :: q :: rest =>
    have hto : ∀ a b, a ∈ p :: q :: rest → b ∈ p :: q :: rest → a.provide = b.provide := fun a b ha hb => (hps a ha).trans (hps b hb).symm
    constructor
    · intro h
      have hall : ∀ a ∈ p :: q :: rest, a.multi = true := by simpa [replaceable] using h
      exact List.Pairwise.imp_mem.2 (List.pairwise_of_forall fun a b ha hb _ => ⟨hall a ha, hall b hb⟩)
    · intro h
      obtain ⟨hfirst, -⟩ := List.pairwise_cons.1 h
      have hother : ∀ a ∈ q :: rest, p.multi = true ∧ a.multi = true := fun a ha =>
        hfirst a ha (hto p a List.mem_cons_self (List.mem_cons_of_mem _ ha))
      have hall : (p :: q :: rest).all (·.multi) = true := List.all_eq_true.2 (List.forall_mem_cons.2
        ⟨(hother q List.mem_cons_self).1, fun a ha => (hother a ha).2⟩)
      simp [replaceable, hall]

theorem overrideAll_eq_none (groups : List (τ × List (NormalizedProvider τ))) :
    (s.overrideAll c groups).2 = none ↔ ∀ group ∈ groups, replaceable group.2 = true := by
  induction groups generalizing s with
  | nil => simp [State.overrideAll]
  | cons group groups ih =>
    obtain ⟨u, ps⟩ := group
    cases hps : replaceable ps with
    | false => simp [State.overrideAll, overrideToken_error hps, hps]
    | true =>
      obtain ⟨s', hs'⟩ := overrideToken_isOk (s := s) (c := c) (t := u).2 hps
      simp [State.overrideAll, hs', hps, ih]

theorem ownRecords_overrideAll {groups : List (τ × List (NormalizedProvider τ))} (hne : ∀ group ∈ groups, group.2 ≠ [])
    (ht : t ∉ groups.map (·.1)) : (s.overrideAll c groups).1.graph.ownRecords c t = s.graph.ownRecords c t := by
  induction groups generalizing s with
  | nil => rfl
  | cons group groups ih =>
    obtain ⟨u, ps⟩ := group
    rw [List.map_cons, List.mem_cons, not_or] at ht
    obtain ⟨hu, hrest⟩ := ht
    obtain ⟨hps, hothers⟩ := List.forall_mem_cons.1 hne
    cases hs : s.overrideToken c u ps with
    | error e => simp [State.overrideAll, hs]
    | ok s' =>
      obtain ⟨p, rest, rfl⟩ := List.exists_cons_of_ne_nil hps
      rw [State.overrideAll, hs]
      exact (ih hothers hrest).trans (by rw [ownRecords_overrideToken hs, if_neg hu])

theorem normalizedByToken_ne_nil (ps : List (NormalizedProvider τ)) : ∀ group ∈ normalizedByToken ps, group.2 ≠ [] := by
  intro group hgroup
  obtain ⟨t, ht, rfl⟩ := List.mem_map.1 hgroup
  obtain ⟨p, hp, rfl⟩ := List.mem_map.1 (List.mem_eraseDups.1 ht)
  exact List.ne_nil_of_mem (List.mem_filter.2 ⟨hp, by simp⟩)

theorem replaceable_groups (ps : List (NormalizedProvider τ)) :
    (∀ group ∈ normalizedByToken ps, replaceable group.2 = true) ↔ ps.Pairwise NormalizedProvider.Compatible := by
  have hgroup : ∀ group ∈ normalizedByToken ps, (replaceable group.2 = true ↔ group.2.Pairwise NormalizedProvider.Compatible) :=
    fun group h => replaceable_iff (mem_normalizedByToken h)
  constructor
  · intro h
    rw [List.pairwise_iff_forall_sublist]
    intro p q hpq heq
    have hp : p ∈ ps := hpq.subset (by simp)
    have hmem : (p.provide, ps.filter (·.provide = p.provide)) ∈ normalizedByToken ps :=
      List.mem_map.2 ⟨p.provide, List.mem_eraseDups.2 (List.mem_map_of_mem hp), rfl⟩
    have hpair := (hgroup _ hmem).1 (h _ hmem)
    have hsub : [p, q].Sublist (ps.filter (·.provide = p.provide)) := by
      simpa [heq] using hpq.filter (·.provide = p.provide)
    exact List.pairwise_iff_forall_sublist.1 hpair hsub heq
  · intro h group hmem
    rw [hgroup group hmem]
    obtain ⟨t, -, rfl⟩ := List.mem_map.1 hmem
    exact h.filter _

theorem normalizedByToken_cons (p : NormalizedProvider τ) (ps : List (NormalizedProvider τ)) :
    ∃ groups, normalizedByToken (p :: ps) = (p.provide, firstGroup (p :: ps)) :: groups ∧ p.provide ∉ groups.map (·.1) := by
  refine ⟨((ps.map (·.provide)).filter fun t => !t == p.provide).eraseDups.map fun t => (t, (p :: ps).filter (·.provide = t)), ?_, ?_⟩
  · rw [normalizedByToken, List.map_cons, List.eraseDups_cons, List.map_cons]
    rfl
  · rw [List.map_map]
    simp

theorem override_atomic (hmade : s.Normalized) (providers : List (Provider τ)) :
    s.Atomic (s.override c providers) ↔ s.OverridesAtOnce c providers := by
  unfold State.override State.OverridesAtOnce
  split
  · next hdisposed => simp [State.Atomic, hdisposed, State.SameProviders.refl]
  next hdisposed =>
  cases hn : normalizeAll s.classes s.nextProvider providers with
  | error e => simp [State.Atomic, State.SameProviders.refl]
  | ok ps =>
    simp only [hdisposed, Bool.false_eq_true, false_or, Except.ok.injEq, forall_eq']
    match ps with
    | [] => simp [State.Atomic, normalizedByToken, State.overrideAll]
    | p :: ps =>
      obtain ⟨groups, hgroups, hnot⟩ := normalizedByToken_cons p ps
      have hne := normalizedByToken_ne_nil (p :: ps)
      have hfirst : replaceable (firstGroup (p :: ps)) = true ↔ (firstGroup (p :: ps)).Pairwise NormalizedProvider.Compatible :=
        replaceable_iff (t := p.provide) (fun q hq => of_decide_eq_true (List.mem_filter.1 hq).2)
      have hall := replaceable_groups (p :: ps)
      rw [hgroups] at hne hall
      rw [hgroups, ← hfirst, ← hall]
      generalize hs : ({ s with nextProvider := s.nextProvider + (p :: ps).length } : State τ) = s₀
      have hsame : s.SameProviders s₀ := by
        subst hs
        exact ⟨fun _ => rfl, fun _ => rfl, fun _ _ => .rfl, fun _ => rfl⟩
      constructor
      · intro hatomic hok
        rw [← overrideAll_eq_none (s := s₀) (c := c)]
        by_contra hthrows
        -- the first group is in place of the old records, and it is newer
        have hafter := (hatomic hthrows).ownRecords c p.provide
        obtain ⟨s', hs'⟩ := overrideToken_isOk (s := s₀) (c := c) (t := p.provide).2 hok
        have hgroup : firstGroup (p :: ps) ≠ [] := hne _ List.mem_cons_self
        obtain ⟨q, rest, hq⟩ := List.exists_cons_of_ne_nil hgroup
        have hreplaced := (ownRecords_overrideToken (hq ▸ hs') p.provide).trans (if_pos rfl)
        rw [State.overrideAll, hs'] at hafter
        have hlast := ownRecords_overrideAll (s := s') (c := c) (fun group h => hne group (List.mem_cons_of_mem _ h)) hnot
        have hmem : q ∈ s.graph.ownRecords c p.provide := by
          rw [← hafter, hlast, hreplaced]
          exact List.mem_cons_self
        obtain ⟨id, hid, provider, hold⟩ := hmade c p.provide q hmem
        have hold := normalizeProvider_id hold
        have hq' : q ∈ p :: ps := (List.mem_filter.1 (hq ▸ List.mem_cons_self : q ∈ firstGroup (p :: ps))).1
        have hnew := (normalizeAll_id hn q hq').1
        omega
      · intro h hthrows
        by_cases hok : replaceable (firstGroup (p :: ps)) = true
        · exact absurd ((overrideAll_eq_none _).2 (h hok)) hthrows
        · simp only [State.overrideAll, overrideToken_error (Bool.eq_false_iff.2 hok)]
          exact hsame

/-- In every state that a program reaches, a `register` or an `override` that throws has changed nothing exactly if it is
refused at once. -/
theorem registration_atomic_iff {classes : JsMap τ (ClassMetadata τ)} {ls : List (Label τ)} {s : State τ}
    (h : Lib.Run step (fun _ _ => True) (State.init classes) ls s) (c : ContainerId) (providers : List (Provider τ)) :
    (s.Atomic (s.register c providers) ↔ s.RegistersAtOnce c providers) ∧
      (s.Atomic (s.override c providers) ↔ s.OverridesAtOnce c providers) := by
  exact ⟨register_atomic providers, override_atomic (run_normalized h).2 providers⟩

private def valueFor (token : Nat) : Provider Nat := .object { provide := some token, useValue := some (.given token false) }

private def registered0 : State Nat := Lib.after step (State.init ∅) [.register root [valueFor 0]]

theorem registration_atomic_duplicate : registered0.RegistersAtOnce root [valueFor 0, valueFor 1] ∧
    registered0.Atomic (registered0.register root [valueFor 0, valueFor 1]) := by
  have hrun : Lib.Run step (fun _ _ => True) (State.init ∅) [.register root [valueFor 0]] registered0 :=
    Lib.Run.of_passes (p := fun _ _ => true) (fun _ _ _ => trivial) (by decide)
  have hrefused : registered0.registerOne root (valueFor 0) = .error (.duplicateProvider 0) := rfl
  have hat : registered0.RegistersAtOnce root [valueFor 0, valueFor 1] := .inr (.inl (not_registrable hrefused))
  exact ⟨hat, (registration_atomic_iff hrun root [valueFor 0, valueFor 1]).1.2 hat⟩

/-- A duplicate at the end of the list: what stands before it is registered, and overridden. -/
theorem refused_after_first : ∃ s : State Nat, (∃ ls, Lib.Run step (fun _ _ => True) (State.init ∅) ls s) ∧
    (∃ providers, ¬ s.Atomic (s.register root providers)) ∧ ∃ providers, ¬ s.Atomic (s.override root providers) := by
  refine ⟨State.init ∅, ⟨[], .nil⟩, ⟨[valueFor 0, valueFor 0], fun h => ?_⟩, [valueFor 0, valueFor 1, valueFor 1], fun h => ?_⟩
  · have hsame := (h (by decide)).ownRecords root 0
    revert hsame
    decide
  · have hsame := (h (by decide)).ownRecords root 0
    revert hsame
    decide

end Fluo.Di
