import Mathlib.Data.List.Find
import Fluo.Di.Answers
/-!
# The records of a token

What `register` and `override` do to the records that a container has for a token, and
where the records come from.
-/

namespace Fluo.Di

variable {τ : Type} [DecidableEq τ] {s s' : State τ} {c : ContainerId} {t : τ}

/-! ## Records of registrations -/

variable {classes : JsMap τ (ClassMetadata τ)} {p : NormalizedProvider τ} {provider : Provider τ} {ps : List (NormalizedProvider τ)}

theorem normalizeProvider_spec {id : Nat}
    (h : normalizeProvider classes id provider = .ok p) :
    p.id = id ∧ (∀ target, p.type = .existing target → p.scope = .default ∧ p.inject = []) ∧
      ∀ o, p.type = .value o → p.scope = .default := by
  have hpure : ∀ {α : Type} {m : Except (DiError τ) α} {f : α → Except (DiError τ) (NormalizedProvider τ)},
      (m >>= f) = .ok p → ∃ a, f a = .ok p := by
    intro α m f hm
    cases m with
    | error e => cases hm
    | ok a => exact ⟨a, hm⟩
  unfold normalizeProvider at h
  split at h
  · obtain ⟨inject, h⟩ := hpure h
    cases h; exact ⟨rfl, nofun, nofun⟩
  · cases h
  · split at h
    · obtain ⟨provide, h⟩ := hpure h
      cases h; exact ⟨rfl, nofun, fun _ _ => rfl⟩
    · obtain ⟨provide, h⟩ := hpure h
      split at h
      · obtain ⟨_, h⟩ := hpure h
        obtain ⟨inject, h⟩ := hpure h
        cases h; exact ⟨rfl, nofun, nofun⟩
      · obtain ⟨inject, h⟩ := hpure h
        cases h; exact ⟨rfl, nofun, nofun⟩
    · obtain ⟨provide, h⟩ := hpure h
      split at h
      · obtain ⟨inject, h⟩ := hpure h
        cases h; exact ⟨rfl, nofun, nofun⟩
      · cases h
    · obtain ⟨provide, h⟩ := hpure h
      split at h
      · cases h; exact ⟨rfl, fun _ _ => ⟨rfl, rfl⟩, nofun⟩
      · cases h
    · cases h

theorem normalizeProvider_id {id : Nat}
    (h : normalizeProvider classes id provider = .ok p) : p.id = id := (normalizeProvider_spec h).1

theorem normalizeAll_id : ∀ {providers : List (Provider τ)} {id : Nat}
    {ps : List (NormalizedProvider τ)}, normalizeAll classes id providers = .ok ps →
    ∀ p ∈ ps, id ≤ p.id ∧ p.id < id + ps.length
  | [], _, _, h => by cases h; simp
  | provider :: providers, id, ps, h => by
    simp only [normalizeAll, bind, Except.bind, pure, Except.pure] at h
    cases hn : normalizeProvider classes id provider with
    | error e => rw [hn] at h; cases h
    | ok p =>
      rw [hn] at h
      dsimp only at h
      cases hr : normalizeAll classes (id + 1) providers with
      | error e => rw [hr] at h; cases h
      | ok rest =>
        rw [hr] at h
        cases h
        refine List.forall_mem_cons.2 ⟨?_, fun p' hp' => ?_⟩
        · rw [normalizeProvider_id hn, List.length_cons]; omega
        · have := normalizeAll_id hr p' hp'
          rw [List.length_cons]; omega

/-! ## What a container has -/

theorem Graph.lookup_mem {g : Graph τ} (hp : g.lookupProvider c t = some p) :
    ∃ d ∈ g.lineage c, g.registration d t = some p := by
  obtain ⟨d, hd, h⟩ := List.exists_of_findSome?_eq_some hp
  exact ⟨d, hd, h⟩

def Graph.ownRecords (g : Graph τ) (c : ContainerId) (t : τ) : List (NormalizedProvider τ) :=
  (g.registration c t).toList ++ g.multiRegistration c t

/-- `register` takes the record, if no other one comes with it. -/
def State.Accepts (s : State τ) (c : ContainerId) (p : NormalizedProvider τ) : Prop :=
  ¬ (s.graph.requestScopeEnabled c ∧ p.scope = .default) ∧ s.hasRegistrationConflict c p.provide p.multi = false

def State.registered (s : State τ) (c : ContainerId) (p : NormalizedProvider τ) : State τ :=
  let v := s.graph c
  let v := if p.multi then { v with
      multiRegistrations := v.multiRegistrations.insert p.provide (s.graph.multiRegistration c p.provide ++ [p]) }
    else { v with registrations := v.registrations.insert p.provide p }
  { s.setRegistry c v with nextProvider := s.nextProvider + 1 }

theorem registerOne_eq_ok : s.registerOne c provider = .ok s' ↔
    ∃ p, normalizeProvider s.classes s.nextProvider provider = .ok p ∧ s.Accepts c p ∧ s' = s.registered c p := by
  unfold State.registerOne State.Accepts
  cases normalizeProvider s.classes s.nextProvider provider with
  | error e => simp [bind, Except.bind]
  | ok p =>
    simp only [bind, Except.bind, pure, Except.pure, Except.ok.injEq, exists_eq_left']
    split
    · next hscope => simp [hscope, throw, throwThe, MonadExceptOf.throw]
    split
    · next hconflict => simp [hconflict, throw, throwThe, MonadExceptOf.throw]
    · next hscope hconflict =>
      simp only [Except.ok.injEq, hscope, hconflict, not_false_eq_true, true_and]
      exact eq_comm

theorem lineage_registered (p : NormalizedProvider τ) (d : ContainerId) : (s.registered c p).graph.lineage d = s.graph.lineage d := by
  unfold Graph.lineage State.registered
  congr 1
  exact ancestors_update (by split <;> rfl) d

theorem ownRecords_registered (h : s.Accepts c p) (t : τ) :
    (s.registered c p).graph.ownRecords c t = s.graph.ownRecords c t ++ if t = p.provide then [p] else [] := by
  have hfree := h.2
  cases hm : p.multi with
  | true =>
    by_cases ht : t = p.provide
    · subst ht
      simp [Graph.ownRecords, Graph.registration, Graph.multiRegistration, State.registered, State.setRegistry, hm]
    · simp [Graph.ownRecords, Graph.registration, Graph.multiRegistration, State.registered, State.setRegistry, hm, ht, AList.lookup_insert_ne]
  | false =>
    by_cases ht : t = p.provide
    · subst ht
      simp only [State.hasRegistrationConflict, hm, Bool.false_eq_true, if_false, Bool.or_eq_false_iff, decide_eq_false_iff_not,
        List.any_eq_false, decide_eq_true_eq] at hfree
      have hsingle : s.graph.registration c p.provide = none := AList.lookup_eq_none.2 hfree.1
      have hmulti : s.graph.multiRegistration c p.provide = [] := by
        rw [Graph.multiRegistration, AList.lookup_eq_none.2 (hfree.2 c List.mem_cons_self)]
        rfl
      rw [Graph.ownRecords, Graph.ownRecords, hsingle, hmulti]
      simp_all [Graph.registration, Graph.multiRegistration, State.registered, State.setRegistry]
    · simp [Graph.ownRecords, Graph.registration, Graph.multiRegistration, State.registered, State.setRegistry, hm, ht, AList.lookup_insert_ne]

theorem ownRecords_overrideToken {rest : List (NormalizedProvider τ)}
    (h : s.overrideToken c t (p :: rest) = .ok s') (u : τ) :
    s'.graph.ownRecords c u = if u = t then p :: rest else s.graph.ownRecords c u := by
  cases hok : replaceable (p :: rest) with
  | false => rw [overrideToken_error hok] at h; cases h
  | true =>
    have hcond : ((p :: rest).all (·.multi) || (!p.multi && rest.isEmpty)) = true := hok
    rw [State.overrideToken, if_pos hcond] at h
    cases h
    have hgraph : (s.invalidateInHierarchy c t).graph = s.graph := (invalidateAll_outside (s.invalidationScope c) t s).2
    simp only [Graph.ownRecords, Graph.registration, Graph.multiRegistration, State.setRegistry, Function.update_self, hgraph, Registry.override]
    by_cases hu : u = t
    · subst hu
      cases hm : p.multi with
      | true => simp
      | false =>
        have hrest : rest = [] := by simpa [replaceable, hm] using hok
        simp [hrest]
    · cases p.multi <;> simp [hu, AList.lookup_erase_ne, AList.lookup_insert_ne]

theorem overrideToken_isOk : (∃ s', s.overrideToken c t ps = .ok s') ↔ replaceable ps = true := by
  cases hps : replaceable ps with
  | false => simp [overrideToken_error hps]
  | true =>
    obtain ⟨s', hs', -⟩ := overrideToken_ok (s := s) (t := t) (c := c) hps
    simp [hs']

theorem invalidateInHierarchy_nextProvider (s : State τ) (c : ContainerId) (t : τ) : (s.invalidateInHierarchy c t).nextProvider = s.nextProvider := by
  unfold State.invalidateInHierarchy
  generalize s.invalidationScope c = ds
  induction ds generalizing s with
  | nil => rfl
  | cons d ds ih => exact ih (s.invalidateAffectedCachedEntries d t)

/-! ## Where records come from -/

def State.Normalized (s : State τ) : Prop := ∀ c t, ∀ p ∈ s.graph.ownRecords c t,
  ∃ id < s.nextProvider, ∃ provider, normalizeProvider s.classes id provider = .ok p

theorem mem_normalizeAll {providers : List (Provider τ)} {id : Nat}
    (h : normalizeAll classes id providers = .ok ps) (hp : p ∈ ps) :
    ∃ n < id + ps.length, ∃ provider, normalizeProvider classes n provider = .ok p := by
  induction providers generalizing id ps with
  | nil => cases h; cases hp
  | cons provider rest ih =>
    simp only [normalizeAll, bind, Except.bind, pure, Except.pure] at h
    cases hfirst : normalizeProvider classes id provider with
    | error e => rw [hfirst] at h; cases h
    | ok q =>
      rw [hfirst] at h
      dsimp only at h
      cases hrest : normalizeAll classes (id + 1) rest with
      | error e => rw [hrest] at h; cases h
      | ok qs =>
        rw [hrest] at h
        cases h
        rcases List.mem_cons.1 hp with rfl | hp
        · exact ⟨id, by simp, provider, hfirst⟩
        · obtain ⟨n, hn, hmade⟩ := ih hrest hp
          exact ⟨n, by rw [List.length_cons]; omega, hmade⟩

namespace State.Normalized

theorem empty (classes : JsMap τ (ClassMetadata τ)) : (State.init classes).Normalized := by
  intro c t p hp
  simp [State.init, Graph.ownRecords, Graph.registration, Graph.multiRegistration] at hp

theorem registerAll (h : s.Normalized) (providers : List (Provider τ)) : (s.registerAll c providers).1.Normalized := by
  induction providers generalizing s with
  | nil => exact h
  | cons provider rest ih =>
    cases hone : s.registerOne c provider with
    | error e => simpa [State.registerAll, hone] using h
    | ok s' =>
      rw [State.registerAll, hone]
      apply ih
      obtain ⟨p, hp, ha, rfl⟩ := registerOne_eq_ok.1 hone
      intro d t q hq
      have hold : q ∈ s.graph.ownRecords d t → ∃ id < s.nextProvider + 1, ∃ provider, normalizeProvider s.classes id provider = .ok q := by
        intro hq
        obtain ⟨id, hid, hmade⟩ := h d t q hq
        exact ⟨id, by omega, hmade⟩
      by_cases hd : d = c
      · subst hd
        rw [ownRecords_registered ha, List.mem_append] at hq
        rcases hq with hq | hq
        · exact hold hq
        · split at hq
          · obtain rfl := List.mem_singleton.1 hq
            exact ⟨s.nextProvider, Nat.lt_succ_self _, provider, hp⟩
          · cases hq
      · exact hold (by simpa [Graph.ownRecords, Graph.registration, Graph.multiRegistration, State.registered, State.setRegistry, hd] using hq)

theorem overrideToken (h : s.Normalized) {ps : List (NormalizedProvider τ)}
    (hps : ∀ p ∈ ps, ∃ id < s.nextProvider, ∃ provider, normalizeProvider s.classes id provider = .ok p) (hs : s.overrideToken c t ps = .ok s') :
    s'.Normalized ∧ s'.nextProvider = s.nextProvider ∧ s'.classes = s.classes := by
  cases ps with
  | nil => cases hs; exact ⟨h, rfl, rfl⟩
  | cons p rest =>
    obtain ⟨hnext, hclasses⟩ : s'.nextProvider = s.nextProvider ∧ s'.classes = s.classes := by
      cases hok : replaceable (p :: rest) with
      | false => rw [overrideToken_error hok] at hs; cases hs
      | true =>
        have hcond : ((p :: rest).all (·.multi) || (!p.multi && rest.isEmpty)) = true := hok
        rw [State.overrideToken, if_pos hcond] at hs
        cases hs
        exact ⟨invalidateInHierarchy_nextProvider s c t, (invalidateAll_outside (s.invalidationScope c) t s).1.classes⟩
    refine ⟨fun d u q hq => ?_, hnext, hclasses⟩
    rw [hnext, hclasses]
    by_cases hd : d = c
    · subst hd
      rw [ownRecords_overrideToken hs] at hq
      split at hq
      · exact hps q hq
      · exact h d u q hq
    · have hgraph := (overrideToken_writesOn hs).graph d hd
      simp only [Graph.ownRecords, Graph.registration, Graph.multiRegistration, hgraph] at hq
      exact h d u q hq

theorem overrideAll {groups : List (τ × List (NormalizedProvider τ))} (h : s.Normalized)
    (hall : ∀ group ∈ groups, ∀ p ∈ group.2, ∃ id < s.nextProvider, ∃ provider, normalizeProvider s.classes id provider = .ok p) :
    (s.overrideAll c groups).1.Normalized := by
  induction groups generalizing s with
  | nil => exact h
  | cons group groups ih =>
    obtain ⟨u, ps⟩ := group
    obtain ⟨hps, hall⟩ := List.forall_mem_cons.1 hall
    cases hs : s.overrideToken c u ps with
    | error e => simpa [State.overrideAll, hs] using h
    | ok s' =>
      obtain ⟨h', hnext, hclasses⟩ := overrideToken h hps hs
      rw [State.overrideAll, hs]
      exact ih h' (by rwa [hnext, hclasses])

theorem override (h : s.Normalized) (providers : List (Provider τ)) : (s.override c providers).1.Normalized := by
  unfold State.override
  split
  · exact h
  cases hn : normalizeAll s.classes s.nextProvider providers with
  | error e => exact h
  | ok ps =>
    refine overrideAll (fun d t p hp => ?_) fun group hgroup p hp => ?_
    · obtain ⟨id, hid, hmade⟩ := h d t p hp
      exact ⟨id, Nat.lt_of_lt_of_le hid (Nat.le_add_right _ _), hmade⟩
    · obtain ⟨t, -, rfl⟩ := List.mem_map.1 hgroup
      exact mem_normalizeAll hn (List.mem_filter.1 hp).1

theorem step (hi : Inv s) (h : s.Normalized) {l : Label τ} (hs : Di.step s l = some s') : s'.Normalized := by
  have hsame : ∀ {s' : State τ}, s'.graph = s.graph → s'.nextProvider = s.nextProvider → s'.classes = s.classes → s'.Normalized := by
    intro s' hgraph hnext hclasses c t p hp
    rw [hgraph] at hp
    rw [hnext, hclasses]
    exact h c t p hp
  have hturn : ∀ {k v}, s.call k = some v → CallStep s k v s' → s'.Normalized := by
    rintro k v hv ⟨ht⟩
    have he := hi.turn_effect hv ht
    refine hsame (by rw [goOn_graph, he.graph.1]) ?_ (by rw [goOn_classes, he.graph.2.1])
    rw [goOn_eq]
    exact he.nextProvider
  cases step_cases hs with
  | register =>
    unfold State.register
    split
    · exact h
    · exact registerAll h _
  | override => exact override h _
  | createRequestScope =>
    intro d t p hp
    by_cases hd : d = s.containers
    · subst hd
      simp [Graph.ownRecords, Graph.registration, Graph.multiRegistration, State.createRequestScope, State.setRegistry] at hp
    · exact h d t p (by simpa [Graph.ownRecords, Graph.registration, Graph.multiRegistration, State.createRequestScope, State.setRegistry, hd] using hp)
  | resolve => exact hsame (by rw [startResolve_eq]) (by rw [startResolve_eq]) (by rw [startResolve_eq])
  | dispose => exact hsame (by rw [dispose_eq]) (by rw [dispose_eq]) (by rw [dispose_eq])
  | advance _ hv ht | resume _ hv ht | settle _ hv _ ht => exact hturn hv ht
  | stale _ ht => exact hsame (by rw [runStale_eq ht]) (by rw [runStale_eq ht]) (by rw [runStale_eq ht])
  | disposal _ ht => exact hsame (by rw [continueDisposal_eq ht]) (by rw [continueDisposal_eq ht]) (by rw [continueDisposal_eq ht])

theorem providersOf (h : s.Normalized) {p : NormalizedProvider τ} (hp : p ∈ s.graph.providersOf c t) :
    ∃ id provider, normalizeProvider s.classes id provider = .ok p := by
  have hown {d : ContainerId} (hp : p ∈ s.graph.ownRecords d t) : ∃ id provider, normalizeProvider s.classes id provider = .ok p := by
    obtain ⟨id, -, provider, hmade⟩ := h d t p hp
    exact ⟨id, provider, hmade⟩
  rcases List.mem_append.1 hp with hp | hp
  · obtain ⟨d, -, hreg⟩ := Graph.lookup_mem (Option.mem_toList.1 hp)
    exact hown (d := d) (List.mem_append_left _ (by simp [hreg]))
  · unfold Graph.collectMultiProviders at hp
    generalize s.graph.lineage c = ds at hp
    induction ds with
    | nil => cases hp
    | cons d ds ih =>
      rw [Graph.collectFrom] at hp
      split at hp
      · exact hown (List.mem_append_right _ hp)
      · rcases List.mem_append.1 hp with hp | hp
        · exact ih hp
        · exact hown (List.mem_append_right _ hp)

end State.Normalized

theorem run_normalized {ls : List (Label τ)} {s : State τ}
    (h : Lib.Run step (fun _ _ => True) (State.init classes) ls s) : Inv s ∧ s.Normalized :=
  h.keeps (fun s => Inv s ∧ s.Normalized) (fun _ _ _ _ ⟨hi, hn⟩ hs => ⟨hi.step hs, hn.step hi hs⟩)
    ⟨Inv.init classes, .empty classes⟩

end Fluo.Di
