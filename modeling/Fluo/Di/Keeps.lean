import Fluo.Di.Invariants
/-!
# What every step keeps

Where a promise is cached and what it is settled with never change, a
container stays where it is in the tree, and a disposed container stays
disposed.
-/

namespace Fluo.Di

variable {τ : Type} [DecidableEq τ] {s s' base : State τ} {g : Graph τ} {k : CallId} {v w : Call τ} {sync : Bool}

/-! ## Promises -/

section GoOn
variable (s : State τ) (sync : Bool) (k : CallId) (w : Call τ)

@[simp] theorem goOn_keyOf : (s.goOn sync k w).keyOf = s.keyOf := by funext q; simp [State.keyOf]
@[simp] theorem goOn_status : (s.goOn sync k w).status = s.status := by funext q; simp [State.status]

end GoOn

variable {c d : ContainerId} {key : CacheKey τ} {q : PromiseId} {l : Label τ} {n : Nat}

theorem WF.cached_goOn (h : WF (base.proceed k w))
    (hq : base.cached c key = some q) : (base.goOn sync k w).cached c key = some q := by
  cases sync with
  | true => exact hq
  | false =>
    refine (cached_publishAll base.unpublished c key q (base.proceed k w) (h.keyOf_unpublished rfl)).2 (.inr ⟨?_, hq⟩)
    intro hm
    obtain ⟨q', hq', hk⟩ := List.mem_map.1 hm
    have := h.free q' hq' c key hk
    rw [show (base.proceed k w).cached c key = some q from hq] at this
    cases this

theorem WF.publish_goOn (h : WF (base.proceed k w))
    (hq : q ∈ base.unpublished) (hk : base.keyOf q = some (c, key)) :
    q ∈ (base.goOn sync k w).unpublished ∨ (base.goOn sync k w).cached c key = some q := by
  cases sync with
  | true => exact .inl hq
  | false =>
    exact .inr ((cached_publishAll base.unpublished c key q (base.proceed k w) (h.keyOf_unpublished rfl)).2
      (.inl ⟨hq, hk⟩))

/-! ## Effects -/

namespace Effect
variable {ctl : Control τ} {bs bs' : List (Build τ)}

theorem unpublished (h : Effect s ctl bs bs' base) {q : PromiseId} (hq : q ∈ s.unpublished) : q ∈ base.unpublished := by
  cases h with
  | allocate => exact List.mem_cons_of_mem _ hq
  | reject => unfold State.reject; split <;> exact hq
  | _ => exact hq

theorem promise (h : Effect s ctl bs bs' base) (hs : WF s) (hk : bs = s.buildsOf k) {q : PromiseId}
    {r : Construction τ} (hr : s.promise q = some r) :
    ∃ r', base.promise q = some r' ∧ r'.container = r.container ∧ r'.key = r.key ∧ r'.provider = r.provider ∧
      (r.status ≠ .pending → r'.status = r.status) := by
  have hset : ∀ (b : Build τ) (σ : Status τ) (r₀ : Construction τ), b ∈ s.buildsOf k → s.promise b.2.2 = some r₀ →
      ∃ r', Function.update s.promise b.2.2 (some { r₀ with status := σ }) q = some r' ∧
        r'.container = r.container ∧ r'.key = r.key ∧ r'.provider = r.provider ∧
        (r.status ≠ .pending → r'.status = r.status) := by
    intro b σ r₀ hb hr₀
    by_cases hq : q = b.2.2
    · subst hq
      rw [hr] at hr₀
      cases hr₀
      refine ⟨_, Function.update_self _ _ _, rfl, rfl, rfl, fun hp => absurd ?_ hp⟩
      obtain ⟨key, hb', _⟩ := hs.building k b hb
      rw [hr] at hb'
      cases hb'
      rfl
    · exact ⟨r, by rwa [Function.update_of_ne hq], rfl, rfl, rfl, fun _ => rfl⟩
  cases h with
  | quiet => exact ⟨r, hr, rfl, rfl, rfl, fun _ => rfl⟩
  | allocate =>
    refine ⟨r, (Function.update_of_ne ?_ _ _).trans hr, rfl, rfl, rfl, fun _ => rfl⟩
    exact Nat.ne_of_lt (hs.promiseBound q r hr)
  | @fulfil b _ x =>
    obtain ⟨key, hb', _⟩ := hs.building k b (hk ▸ List.mem_cons_self)
    simp only [State.fulfil, hb']
    exact hset b (.fulfilled x) _ (hk ▸ List.mem_cons_self) hb'
  | @reject b _ e =>
    obtain ⟨key, hb', _⟩ := hs.building k b (hk ▸ List.mem_cons_self)
    simp only [State.reject, hb']
    exact hset b (.rejected e) _ (hk ▸ List.mem_cons_self) hb'

end Effect

theorem Inv.turn_effect (h : Inv s) (hv : s.call k = some v) (ht : Turn s v base sync w) :
    Effect s v.control (builds v.stack) (builds w.stack) base :=
  ht.effect h.keyed (h.shape k v hv).1 (h.shape k v hv).2

theorem Inv.turn_wf (h : Inv s) (hv : s.call k = some v) (hrun : s.running = none ∨ s.running = some k)
    (ht : Turn s v base sync w) : WF (base.proceed k w) := by
  have hidle : v.control.isSync = false → s.unpublished = [] := by
    intro hs
    rcases hrun with hr | hr
    · exact h.idle hr
    · rw [(h.scheduled k v hv).2 hr] at hs; cases hs
  obtain ⟨hsh, hm⟩ := h.shape k v hv
  exact h.toWF.effect_turn hv hrun hidle (ht.shape h.keyed hsh hm) (h.turn_effect hv ht)

inductive Kind (s s' : State τ) : Prop
  | turn {k : CallId} {v w : Call τ} {base : State τ} {sync : Bool} : s.call k = some v → (s.running = none ∨ s.running = some k) → Turn s v base sync w →
      s' = base.goOn sync k w → Kind s s'
  | start {c t} : s.running = none → s.isContainer c → s' = s.startResolve c t → Kind s s'
  | outside : s.running = none → Outside s s' → Kind s s'

theorem Inv.kind (h : Inv s) (hs : Di.step s l = some s') : Kind s s' := by
  cases step_cases hs with
  | register hr => exact .outside hr (register_outside h.keyed _ _).1
  | override hr => exact .outside hr (override_outside h.keyed _ _).1
  | createRequestScope hr hc => exact .outside hr (createRequestScope_outside h.keyed hc).1
  | resolve hr hc => exact .start hr hc rfl
  | dispose hr => exact .outside hr (dispose_outside s _).1
  | advance hr hv ht => obtain ⟨ht⟩ := ht; exact .turn hv (.inr hr) ht rfl
  | resume hr hv ht => obtain ⟨ht⟩ := ht; exact .turn hv (.inl hr) ht rfl
  | settle hr hv _ ht => obtain ⟨ht⟩ := ht; exact .turn hv (.inl hr) ht rfl
  | stale hr ht => exact .outside hr (runStale_outside ht).1
  | disposal hr ht => exact .outside hr (continueDisposal_outside ht).1

omit [DecidableEq τ] in
theorem startResolve_eq (s : State τ) (c : ContainerId) (t : τ) : s.startResolve c t = { s with
    call := (s.startResolve c t).call, calls := s.calls + 1, running := (s.startResolve c t).running } := by
  unfold State.startResolve
  dsimp only
  split <;> rfl

theorem Inv.step_promise (h : Inv s) (hs : Di.step s l = some s') {r : Construction τ}
    (hr : s.promise q = some r) :
    ∃ r', s'.promise q = some r' ∧ r'.container = r.container ∧ r'.key = r.key ∧ r'.provider = r.provider ∧
      (r.status ≠ .pending → r'.status = r.status) := by
  cases h.kind hs with
  | turn hv hrun ht he =>
    rw [he, goOn_promise]
    exact (h.turn_effect hv ht).promise h.toWF (buildsOf_eq hv).symm hr
  | start _ _ he =>
    rw [he, startResolve_eq]
    exact ⟨r, hr, rfl, rfl, rfl, fun _ => rfl⟩
  | outside _ ho =>
    rw [ho.promise]
    exact ⟨r, hr, rfl, rfl, rfl, fun _ => rfl⟩

theorem Inv.step_keyOf (h : Inv s) (hs : Di.step s l = some s')
    {at' : ContainerId × CacheKey τ} (hq : s.keyOf q = some at') : s'.keyOf q = some at' := by
  obtain ⟨r, hr, rfl⟩ := Option.map_eq_some_iff.1 hq
  obtain ⟨r', hr', hc, hk, _⟩ := h.step_promise hs hr
  simp [State.keyOf, hr', hc, hk]

theorem WF.cached_keyOf (h : WF s) (hq : s.cached c key = some q) :
    s.keyOf q = some (c, key) := by
  obtain ⟨r, hr, rfl, rfl, _⟩ := h.cached c key q hq
  simp [State.keyOf, hr]

theorem Inv.step_status (h : Inv s) (hs : Di.step s l = some s') {σ : Status τ}
    (hq : s.status q = some σ) (hσ : σ ≠ .pending) : s'.status q = some σ := by
  obtain ⟨r, hr, rfl⟩ := Option.map_eq_some_iff.1 hq
  obtain ⟨r', hr', _, _, _, hst⟩ := h.step_promise hs hr
  simp [State.status, hr', hst hσ]

/-! ## Disposed containers -/

theorem Inv.step_evolves (h : Inv s) (hs : Di.step s l = some s') (d : ContainerId) :
    (s.container d).Evolves (s'.container d) := by
  cases h.kind hs with
  | turn hv hrun ht he =>
    obtain ⟨hd, hp⟩ := ht.disposal d
    rw [he, goOn_container]
    exact .of_eq hd hp
  | start _ _ he => rw [he, startResolve_eq]; exact .refl _
  | outside _ ho => exact ho.evolves d

/-! ## What register and override write -/

structure WritesOn (c : ContainerId) (s s' : State τ) : Prop where
  graph : ∀ d, d ≠ c → s'.graph d = s.graph d
  ancestors : (s'.graph c).ancestors = (s.graph c).ancestors
  containers : s'.containers = s.containers
  disposed : ∀ d, (s'.container d).disposed = (s.container d).disposed

omit [DecidableEq τ] in
theorem WritesOn.refl (c : ContainerId) (s : State τ) : WritesOn c s s := ⟨fun _ _ => rfl, rfl, rfl, fun _ => rfl⟩

omit [DecidableEq τ] in
theorem WritesOn.trans {s₁ s₂ s₃ : State τ} (h : WritesOn c s₁ s₂) (h' : WritesOn c s₂ s₃) :
    WritesOn c s₁ s₃ :=
  ⟨fun d hd => (h'.graph d hd).trans (h.graph d hd), h'.ancestors.trans h.ancestors,
    h'.containers.trans h.containers, fun d => (h'.disposed d).trans (h.disposed d)⟩

omit [DecidableEq τ] in
theorem WritesOn.setRegistry {v : Registry τ} (hv : v.ancestors = (s.graph c).ancestors) :
    WritesOn c s { s.setRegistry c v with nextProvider := n } :=
  ⟨fun d hd => Function.update_of_ne hd _ _, by simpa [State.setRegistry] using hv, rfl, fun _ => rfl⟩

theorem registerOne_writesOn {p : Provider τ} (h : s.registerOne c p = .ok s') : WritesOn c s s' := by
  unfold State.registerOne at h
  cases hn : normalizeProvider s.classes s.nextProvider p with
  | error e => rw [hn] at h; cases h
  | ok p' =>
    rw [hn] at h
    simp only [bind, Except.bind, pure, Except.pure] at h
    split at h
    · cases h
    split at h
    · cases h
    cases h
    exact .setRegistry (by split <;> rfl)

theorem register_writesOn (s : State τ) (c : ContainerId) (ps : List (Provider τ)) : WritesOn c s (s.register c ps).1 := by
  unfold State.register
  split
  · exact .refl c s
  rename_i hd
  clear hd
  induction ps generalizing s with
  | nil => exact .refl c s
  | cons p ps ih =>
    simp only [State.registerAll]
    split
    · exact .refl c s
    · rename_i s₁ h₁
      exact (registerOne_writesOn h₁).trans (ih s₁)

theorem invalidate_writesOn (c : ContainerId) (t : τ) : ∀ (cs : List ContainerId) (s : State τ),
    WritesOn c s (cs.foldl (fun s d => s.invalidateAffectedCachedEntries d t) s)
  | [], s => .refl c s
  | d :: cs, s => by
    have h₁ : WritesOn c s (s.invalidateAffectedCachedEntries d t) := by
      refine ⟨fun _ _ => rfl, rfl, rfl, fun e => ?_⟩
      unfold State.invalidateAffectedCachedEntries State.setContainer
      by_cases he : e = d
      · subst he; simp
      · simp [he]
    exact h₁.trans (invalidate_writesOn c t cs _)

theorem overrideToken_writesOn {t : τ} {ps : List (NormalizedProvider τ)} (h : s.overrideToken c t ps = .ok s') :
    WritesOn c s s' := by
  unfold State.overrideToken at h
  split at h
  · cases h; exact .refl c s
  split at h <;> cases h
  have hinv : WritesOn c s (s.invalidateInHierarchy c t) := invalidate_writesOn c t _ s
  exact hinv.trans (.setRegistry (n := (s.invalidateInHierarchy c t).nextProvider) (Registry.override_ancestors _ _ _ _))

theorem override_writesOn (s : State τ) (c : ContainerId) (ps : List (Provider τ)) : WritesOn c s (s.override c ps).1 := by
  have hall : ∀ (groups : List (τ × List (NormalizedProvider τ))) (s : State τ), WritesOn c s (s.overrideAll c groups).1 := by
    intro groups
    induction groups with
    | nil => exact fun s => .refl c s
    | cons e groups ih =>
      intro s
      simp only [State.overrideAll]
      split
      · exact .refl c s
      · rename_i s₁ h₁
        exact (overrideToken_writesOn h₁).trans (ih s₁)
  unfold State.override
  split
  · exact .refl c s
  split
  · exact .refl c s
  · rename_i ps' _
    have hnext : WritesOn c s { s with nextProvider := s.nextProvider + ps'.length } :=
      ⟨fun _ _ => rfl, rfl, rfl, fun _ => rfl⟩
    exact hnext.trans (hall _ _)

/-! ## What a disposal writes -/

omit [DecidableEq τ] in
theorem dispose_eq (s : State τ) (c : ContainerId) : s.dispose c = { s with container := (s.dispose c).container } := by
  have hone : ∀ (s : State τ) d, s.startDisposal d = { s with container := (s.startDisposal d).container } := by
    intro s d
    unfold State.startDisposal
    dsimp only
    split <;> rfl
  have hfold : ∀ (cs : List ContainerId) (s : State τ),
      cs.foldl State.startDisposal s = { s with container := (cs.foldl State.startDisposal s).container } := by
    intro cs
    induction cs with
    | nil => exact fun s => rfl
    | cons d cs ih => intro s; rw [List.foldl_cons, ih, hone s d]
  unfold State.dispose
  dsimp only
  split
  · rfl
  split
  · exact hone s c
  · exact hfold _ _

omit [DecidableEq τ] in
theorem runStale_eq {i : Nat} {error : Option Nat} (h : s.runStale i error = some s') : s' = { s with
    container := s'.container, staleTasks := s'.staleTasks, destroyed := s'.destroyed } := by
  unfold State.runStale at h
  obtain ⟨⟨c, q⟩, _, h⟩ := Option.bind_eq_some_iff.1 h
  obtain ⟨σ, _, h⟩ := Option.bind_eq_some_iff.1 h
  dsimp only at h
  split at h
  · cases h
  · cases h; rfl
  · split at h <;> cases h <;> rfl
  · cases h; rfl

omit [DecidableEq τ] in
theorem continueDisposal_eq {error : Option Nat} (h : s.continueDisposal c error = some s') :
    s' = { s with container := s'.container, destroyed := s'.destroyed } := by
  unfold State.continueDisposal at h
  dsimp only at h
  split at h
  · obtain ⟨errors, _, h⟩ := Option.bind_eq_some_iff.1 h
    cases h; rfl
  · split at h <;> cases h
    rfl
  · obtain ⟨⟨values, reasons⟩, _, h⟩ := Option.bind_eq_some_iff.1 h
    cases h; rfl
  · cases h; rfl
  · cases h
    split <;> rfl
  · cases h

/-! ## Finite graphs -/

def Graph.Finite (g : Graph τ) (n : Nat) : Prop := ∀ c, n ≤ c → g c = {}

def Graph.tokens (g : Graph τ) (n : Nat) : List τ :=
  (List.range n).flatMap fun c => (g c).registrations.keys ++ (g c).multiRegistrations.keys

omit [DecidableEq τ] in
theorem Graph.Finite.mem_tokens (h : g.Finite n) {t : τ}
    (ht : t ∈ (g d).registrations ∨ t ∈ (g d).multiRegistrations) : d < n ∧ t ∈ g.tokens n := by
  have hd : d < n := by
    by_contra hd
    rw [h d (Nat.le_of_not_lt hd)] at ht
    rcases ht with ht | ht <;> exact absurd ht (AList.notMem_empty t)
  exact ⟨hd, List.mem_flatMap.2 ⟨d, List.mem_range.2 hd, List.mem_append.2 ht⟩⟩

theorem Graph.Finite.lookup (h : g.Finite n) {t : τ} {p : NormalizedProvider τ}
    (hp : g.lookupProvider c t = some p) : t ∈ g.tokens n := by
  obtain ⟨d, _, hd⟩ := List.exists_of_findSome?_eq_some hp
  exact (h.mem_tokens (.inl (AList.lookup_isSome.1 (by rw [show (g d).registrations.lookup t = some p from hd]; rfl)))).2

theorem Graph.Finite.collect (h : g.Finite n) {t : τ}
    (hc : g.collectMultiProviders c t ≠ []) : t ∈ g.tokens n := by
  unfold Graph.collectMultiProviders at hc
  generalize g.lineage c = ds at hc
  have hmem : ∀ d, g.multiRegistration d t ≠ [] → t ∈ g.tokens n := by
    intro d hd
    refine (h.mem_tokens (d := d) (.inr (AList.lookup_isSome.1 ?_))).2
    cases hl : (g d).multiRegistrations.lookup t with
    | none => simp [Graph.multiRegistration, hl] at hd
    | some ps => rfl
  induction ds with
  | nil => exact absurd rfl hc
  | cons d ds ih =>
    simp only [Graph.collectFrom] at hc
    split at hc
    · exact hmem d hc
    · by_cases hd : g.multiRegistration d t = []
      · rw [hd, List.append_nil] at hc; exact ih hc
      · exact hmem d hd

theorem Graph.Finite.providersOf (h : g.Finite n) {t : τ} (hp : g.providersOf c t ≠ []) :
    c < n ∧ t ∈ g.tokens n := by
  constructor
  · by_contra hc
    refine hp ?_
    simp [Graph.providersOf, Graph.lookupProvider, Graph.collectMultiProviders, Graph.lineage, Graph.collectFrom,
      Graph.registration, Graph.multiRegistration, h c (Nat.le_of_not_lt hc)]
  · unfold Graph.providersOf at hp
    cases hl : g.lookupProvider c t with
    | some p => exact h.lookup hl
    | none =>
      rw [hl] at hp
      exact h.collect hp

theorem Inv.step_finite (h : Inv s) (hf : s.graph.Finite s.containers) (hs : Di.step s l = some s') :
    s'.graph.Finite s'.containers := by
  have hwrites : ∀ {c}, s.isContainer c → WritesOn c s s' → s'.graph.Finite s'.containers := by
    intro c hc hw d hd
    rw [hw.containers] at hd
    rw [hw.graph d (Nat.ne_of_gt (Nat.lt_of_lt_of_le hc hd))]
    exact hf d hd
  have hturn : ∀ {k v}, s.call k = some v → CallStep s k v s' → s'.graph.Finite s'.containers := by
    rintro k v hv ⟨ht⟩
    obtain ⟨hg, _, hc⟩ := (h.turn_effect hv ht).graph
    rw [goOn_graph, goOn_containers, hg, hc]
    exact hf
  cases step_cases hs with
  | register _ hc => exact hwrites hc (register_writesOn s _ _)
  | override _ hc => exact hwrites hc (override_writesOn s _ _)
  | createRequestScope =>
    intro d hd
    have hd : s.containers < d := hd
    exact (Function.update_of_ne (Nat.ne_of_gt hd) _ _).trans (hf d (Nat.le_of_lt hd))
  | resolve => rw [startResolve_eq]; exact hf
  | dispose => rw [dispose_eq]; exact hf
  | advance _ hv ht | resume _ hv ht | settle _ hv _ ht => exact hturn hv ht
  | stale _ ht => rw [runStale_eq ht]; exact hf
  | disposal _ ht => rw [continueDisposal_eq ht]; exact hf

/-! ## Lost cache entries -/

inductive Loses (s : State τ) (d : ContainerId) (key : CacheKey τ) : Label τ → Prop
  | override {c ps} : Loses s d key (.override c ps)
  /-- A construction for the key rejects, whichever promise the cache holds. -/
  | rejects {k : CallId} {v : Call τ} {e c p rest deps q st} : s.call k = some v → v.control = .rejected e →
      v.stack = .build c p rest deps (some q) :: st → s.keyOf q = some (d, key) → Loses s d key (.resume k)
  | disposed {c error} : (s.container d).disposed = true → Loses s d key (.disposal c error)

theorem register_container (s : State τ) (c : ContainerId) (ps : List (Provider τ)) :
    (s.register c ps).1.container = s.container := by
  unfold State.register
  split
  · rfl
  rename_i hd
  clear hd
  induction ps generalizing s with
  | nil => rfl
  | cons p ps ih =>
    simp only [State.registerAll]
    split
    · rfl
    · rename_i s₁ h₁
      rw [ih s₁]
      unfold State.registerOne at h₁
      cases hn : normalizeProvider s.classes s.nextProvider p with
      | error e => rw [hn] at h₁; cases h₁
      | ok p' =>
        rw [hn] at h₁
        simp only [bind, Except.bind, pure, Except.pure] at h₁
        split at h₁
        · cases h₁
        split at h₁
        · cases h₁
        cases h₁
        rfl

omit [DecidableEq τ] in
theorem startDisposal_cache (s : State τ) (c d : ContainerId) :
    ((s.startDisposal c).container d).cache = (s.container d).cache := by
  unfold State.startDisposal
  dsimp only
  split
  · rfl
  · exact cache_update (by rfl) d

omit [DecidableEq τ] in
theorem dispose_cache (s : State τ) (c d : ContainerId) :
    ((s.dispose c).container d).cache = (s.container d).cache := by
  have hfold : ∀ (cs : List ContainerId) (s : State τ),
      ((cs.foldl State.startDisposal s).container d).cache = (s.container d).cache := by
    intro cs
    induction cs with
    | nil => exact fun s => rfl
    | cons e cs ih => exact fun s => (ih _).trans (startDisposal_cache s e d)
  unfold State.dispose
  dsimp only
  split
  · rfl
  split
  · exact startDisposal_cache s c d
  · exact (hfold _ _).trans (cache_update (by rfl) d)

omit [DecidableEq τ] in
theorem runStale_cache {i : Nat} {error : Option Nat} (h : s.runStale i error = some s') (d : ContainerId) :
    (s'.container d).cache = (s.container d).cache := by
  unfold State.runStale at h
  obtain ⟨⟨c, q⟩, _, h⟩ := Option.bind_eq_some_iff.1 h
  obtain ⟨σ, _, h⟩ := Option.bind_eq_some_iff.1 h
  dsimp only at h
  split at h
  · cases h
  · cases h; exact cache_update (by rfl) d
  · split at h <;> cases h
    · exact cache_update (by rfl) d
    · rfl
  · cases h; rfl

omit [DecidableEq τ] in
theorem continueDisposal_cache {error : Option Nat} (h : s.continueDisposal c error = some s')
    (hf : ∀ d, (s.container d).Flagged) (d : ContainerId) :
    (s'.container d).cache = (s.container d).cache ∨ (s.container d).disposed = true := by
  unfold State.continueDisposal at h
  dsimp only at h
  split at h
  · obtain ⟨errors, _, h⟩ := Option.bind_eq_some_iff.1 h
    cases h
    exact .inl (cache_update (by rfl) d)
  · split at h <;> cases h
    exact .inl (cache_update (by rfl) d)
  · obtain ⟨⟨values, reasons⟩, _, h⟩ := Option.bind_eq_some_iff.1 h
    cases h
    exact .inl (cache_update (by rfl) d)
  · cases h
    exact .inl (cache_update (by rfl) d)
  · rename_i errors hd
    cases h
    by_cases hdc : d = c
    · subst hdc; exact .inr (hf d (by simp [hd]))
    left
    split
    · exact (cache_update (by rfl) d).trans (by simp [State.setContainer, hdc])
    · simp [State.setContainer, hdc]
  · cases h

theorem Turn.cached (h : Turn s v base sync w)
    (hq : s.cached d key = some q) : base.cached d key = some q ∨
      ∃ e c p rest deps q' st, v.control = .rejected e ∧ v.stack = .build c p rest deps (some q') :: st ∧
        s.keyOf q' = some (d, key) := by
  have hcomplete : ∀ (promise : Option PromiseId) (x : Value), (s.complete promise x).container = s.container := by
    intro promise x
    cases promise with
    | none => rfl
    | some q => show (s.fulfil q x).container = _; rw [fulfil_eq]
  cases h with
  | wait => left; simp only [State.cached]; rw [ensureTracked_container]; exact hq
  | build => left; simp only [State.cached, State.allocate]; rw [ensureTracked_container]; exact hq
  | value | created | returned => left; simpa only [State.cached, State.built, hcomplete] using hq
  | @fail e c p rest deps promise st hctl hst =>
    cases promise with
    | none => exact .inl hq
    | some q' =>
      simp only [State.fail, cached_reject]
      split
      · exact .inr ⟨e, c, p, rest, deps, q', st, hctl, hst, ‹_›⟩
      · exact .inl hq
  | _ => exact .inl hq

theorem Inv.step_cached (h : Inv s) (hs : Di.step s l = some s')
    (hq : s.cached d key = some q) :
    s'.cached d key = some q ∨ Loses s d key l := by
  have hturn : ∀ {k v}, s.call k = some v → (s.running = none ∨ s.running = some k) → CallStep s k v s' →
      s'.cached d key = some q ∨ ∃ e c p rest deps q' st, v.control = .rejected e ∧
        v.stack = .build c p rest deps (some q') :: st ∧ s.keyOf q' = some (d, key) := by
    rintro k v hv hrun ⟨ht⟩
    exact (ht.cached hq).imp_left (h.turn_wf hv hrun ht).cached_goOn
  cases step_cases hs with
  | register => left; simp only [State.cached, register_container]; exact hq
  | override => exact .inr .override
  | createRequestScope => exact .inl hq
  | resolve => left; rw [startResolve_eq]; exact hq
  | dispose => left; simp only [State.cached, dispose_cache]; exact hq
  | advance hr hv ht =>
    refine (hturn hv (.inr hr) ht).imp_right ?_
    rintro ⟨e, _, _, _, _, _, _, hctl, _⟩
    have := (h.scheduled _ _ hv).2 hr
    rw [hctl] at this
    cases this
  | resume hr hv ht =>
    refine (hturn hv (.inl hr) ht).imp_right ?_
    rintro ⟨e, _, _, _, _, _, _, hctl, hst, hk⟩
    exact .rejects hv hctl hst hk
  | settle hr hv hu ht =>
    refine (hturn hv (.inl hr) ht).imp_right ?_
    rintro ⟨e, _, _, _, _, _, _, hctl, _⟩
    rw [hu] at hctl
    cases hctl
  | stale _ ht => left; simp only [State.cached, runStale_cache ht]; exact hq
  | disposal _ ht =>
    rcases continueDisposal_cache ht h.flagged d with hc | hd
    · left; simp only [State.cached, hc]; exact hq
    · exact .inr (.disposed hd)

theorem Inv.step_call (h : Inv s) (hs : Di.step s l = some s') (hv : s.call k = some v) :
    s'.call k = some v ∨ ∃ base sync w, Turn s v base sync w ∧ s' = base.goOn sync k w ∧
      (s.running = none ∨ s.running = some k) := by
  cases h.kind hs with
  | @turn j u w base sync hu hrun ht he =>
    by_cases hj : k = j
    · subst hj
      rw [hv] at hu
      cases hu
      exact .inr ⟨base, sync, w, ht, he, hrun⟩
    · left
      rw [he, goOn_call, Function.update_of_ne hj, (h.turn_effect hu ht).call]
      exact hv
  | @start c t hr hc he =>
    have hne : k ≠ s.calls := Nat.ne_of_lt (h.callBound k v hv)
    left
    rw [he]
    unfold State.startResolve
    dsimp only
    split <;> exact (Function.update_of_ne hne _ _).trans hv
  | outside _ ho => left; rw [ho.call]; exact hv

theorem Inv.step_unpublished (h : Inv s) (hs : Di.step s l = some s')
    (hq : q ∈ s.unpublished) (hk : s.keyOf q = some (c, key)) :
    q ∈ s'.unpublished ∨ s'.cached c key = some q := by
  have hidle : s.running = none → False := fun hr => by rw [h.idle hr] at hq; cases hq
  cases h.kind hs with
  | @turn j u w base sync hu hrun ht he =>
    have hpub := (h.turn_effect hu ht).unpublished hq
    obtain ⟨r, hr, hk'⟩ := Option.map_eq_some_iff.1 hk
    obtain ⟨r', hr', hc, hkey, _⟩ := (h.turn_effect hu ht).promise h.toWF (buildsOf_eq hu).symm hr
    subst he
    refine (h.turn_wf hu hrun ht).publish_goOn hpub ?_
    rw [← hk', State.keyOf, hr', Option.map_some, hc, hkey]
  | start hr => exact (hidle hr).elim
  | outside hr => exact (hidle hr).elim

theorem Turn.creates (ht : Turn s v base sync w) {r : Construction τ} (hn : s.promise q = none)
    (hr : base.promise q = some r) : ∃ d key p st, Enters s.graph v d key p st ∧ s.cached d key = none ∧ q ∈ base.unpublished ∧
      (p.scope ≠ .default → s.graph.requestScopeEnabled d = true) ∧ r = ⟨d, key, p, .pending⟩ := by
  have hset : ∀ {q' r'} {m : PromiseId → Option (Construction τ)}, s.promise q' = some r' →
      m = Function.update s.promise q' (m q') → m q ≠ some r := by
    intro q' r' m hr' hm hq
    have hne : q ≠ q' := by rintro rfl; rw [hn] at hr'; cases hr'
    rw [hm, Function.update_of_ne hne, hn] at hq
    cases hq
  have hcomplete : ∀ {promise : Option PromiseId} {x : Value}, (s.complete promise x).promise q ≠ some r := by
    intro promise x
    cases promise with
    | none => simp [State.complete, hn]
    | some q' =>
      simp only [State.complete, State.fulfil]
      cases hr' : s.promise q' with
      | none => simp [hn]
      | some r' => exact hset hr' (by simp [State.setPromise])
  cases ht with
  | wait => rw [ensureTracked_eq, hn] at hr; cases hr
  | @build d key p st st' ctl sync he hfree hen =>
    by_cases hq : q = s.promises
    · subst hq
      simp only [State.allocate, Function.update_self, Option.some.injEq] at hr
      exact ⟨d, key, p, st, he, hfree, List.mem_cons_self, hen, hr.symm⟩
    · rw [State.allocate] at hr
      simp only [Function.update_of_ne hq, hn] at hr
      cases hr
  | value => exact absurd hr hcomplete
  | created => exact absurd hr hcomplete
  | returned => exact absurd hr hcomplete
  | @fail e c p rest deps promise st =>
    cases promise with
    | none => rw [State.fail, hn] at hr; cases hr
    | some q' =>
      simp only [State.fail, State.reject] at hr
      cases hr' : s.promise q' with
      | none => simp [hr', hn] at hr
      | some r' =>
        rw [hr'] at hr
        exact absurd hr (hset hr' (by simp [State.setPromise, State.modifyCache, State.setContainer]))
  | _ => rw [hn] at hr; cases hr

end Fluo.Di
