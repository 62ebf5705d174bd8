import Fluo.Lib.Runs
import Fluo.Di.Stacks
/-!
# The invariant of every run

`WF` ties the three places in which a construction appears: the stack of the
call that runs it, its promise, and the cache that holds or will hold the
promise. A pending promise has exactly one owner, whose stack holds its
`build` frame; a cached promise stands under its own key and has not been
rejected; an unpublished promise belongs to the running call and its key is
free in the cache.
-/

namespace Fluo.Di

variable {τ : Type} [DecidableEq τ] {s s' base : State τ} {g : Graph τ} {k : CallId} {v w : Call τ} {sync : Bool}

/-! ## Caches -/

/-- Where a promise is cached. -/
def State.keyOf (s : State τ) (q : PromiseId) : Option (ContainerId × CacheKey τ) :=
  (s.promise q).map fun r => (r.container, r.key)

/-- What container `c` holds under `key`. -/
def State.cached (s : State τ) (c : ContainerId) (key : CacheKey τ) : Option PromiseId :=
  (s.container c).cache.lookup key

theorem cached_modifyCache (s : State τ) (c d : ContainerId) (f) (key : CacheKey τ) :
    (s.modifyCache c f).cached d key = if d = c then (f (s.container c).cache).lookup key else s.cached d key := by
  unfold State.cached State.modifyCache State.setContainer
  by_cases h : d = c
  · subst h; simp
  · simp [h]

theorem cached_publish (s : State τ) (q : PromiseId) (c : ContainerId) (key : CacheKey τ) :
    (s.publish q).cached c key = if s.keyOf q = some (c, key) then some q else s.cached c key := by
  unfold State.publish State.keyOf
  cases s.promise q with
  | none => simp
  | some r =>
    simp only [cached_modifyCache, Option.map_some, Option.some.injEq, Prod.mk.injEq]
    by_cases hc : c = r.container
    · subst hc
      by_cases hk : r.key = key
      · subst hk; simp
      · simp [hk, AList.lookup_insert_ne (Ne.symm hk), State.cached]
    · simp [hc, Ne.symm hc]

theorem cached_reject (s : State τ) (q : PromiseId) (e : DiError τ) (c : ContainerId) (key : CacheKey τ) :
    (s.reject q e).cached c key = if s.keyOf q = some (c, key) then none else s.cached c key := by
  unfold State.reject State.keyOf
  cases s.promise q with
  | none => simp
  | some r =>
    simp only [cached_modifyCache, Option.map_some, Option.some.injEq, Prod.mk.injEq]
    by_cases hc : c = r.container
    · subst hc
      by_cases hk : r.key = key
      · subst hk; simp [State.setPromise]
      · simp [hk, AList.lookup_erase_ne (Ne.symm hk), State.cached, State.setPromise]
    · simp [hc, Ne.symm hc, State.cached, State.setPromise]

theorem keyOf_publish (s : State τ) (q q' : PromiseId) : (s.publish q).keyOf q' = s.keyOf q' := by
  unfold State.publish State.keyOf
  cases s.promise q <;> rfl

theorem cached_publishAll (qs : List PromiseId) (c : ContainerId) (key : CacheKey τ) (q : PromiseId) :
    ∀ s : State τ, (qs.map s.keyOf).Nodup → ((qs.foldl State.publish s).cached c key = some q ↔
      (q ∈ qs ∧ s.keyOf q = some (c, key)) ∨ (some (c, key) ∉ qs.map s.keyOf ∧ s.cached c key = some q)) := by
  induction qs with
  | nil => simp
  | cons q' qs ih =>
    intro s hn
    simp only [List.map_cons, List.nodup_cons] at hn
    have hk : qs.map (s.publish q').keyOf = qs.map s.keyOf :=
      List.map_congr_left fun q _ => keyOf_publish s q' q
    rw [List.foldl_cons, ih (s.publish q') (by rw [hk]; exact hn.2), hk, keyOf_publish, cached_publish]
    simp only [List.map_cons, List.mem_cons, not_or]
    by_cases hq : s.keyOf q' = some (c, key)
    · rw [hq] at hn ⊢
      simp only [if_pos, hn.1, not_false_iff, true_and, not_true, false_and, or_false, Option.some.injEq]
      constructor
      · rintro (⟨hm, he⟩ | rfl)
        · exact ⟨.inr hm, he⟩
        · exact ⟨.inl rfl, hq⟩
      · rintro ⟨rfl | hm, he⟩
        · exact .inr rfl
        · exact .inl ⟨hm, he⟩
    · simp only [if_neg hq, Ne.symm hq, not_false_iff, true_and]
      constructor
      · rintro (⟨hm, he⟩ | h)
        · exact .inl ⟨.inr hm, he⟩
        · exact .inr h
      · rintro (⟨rfl | hm, he⟩ | h)
        · exact absurd he hq
        · exact .inl ⟨hm, he⟩
        · exact .inr h

/-! ## The invariant -/

/-- The constructions that call `k` runs. -/
def State.buildsOf (s : State τ) (k : CallId) : List (Build τ) := ((s.call k).map fun v => builds v.stack).getD []

omit [DecidableEq τ] in
theorem buildsOf_eq (h : s.call k = some v) : s.buildsOf k = builds v.stack := by simp [State.buildsOf, h]

omit [DecidableEq τ] in
theorem buildsOf_proceed (s : State τ) (k : CallId) (w : Call τ) :
    (s.proceed k w).buildsOf = Function.update s.buildsOf k (builds w.stack) := by
  funext j
  by_cases h : j = k
  · subst h; simp [State.buildsOf, State.proceed, State.setCall]
  · simp [State.buildsOf, State.proceed, State.setCall, h]

structure WF (s : State τ) : Prop where
  keyed : s.graph.Keyed
  callBound : ∀ k v, s.call k = some v → k < s.calls
  promiseBound : ∀ q r, s.promise q = some r → q < s.promises
  shape : ∀ k v, s.call k = some v → Shape v.stack ∧ MultiControl v
  /-- A construction that runs is pending and recorded as what it is. -/
  building : ∀ k, ∀ b ∈ s.buildsOf k, ∃ key, s.promise b.2.2 = some ⟨b.1, key, b.2.1, .pending⟩ ∧ key.tok = b.2.1.provide
  owner : ∀ j k, ∀ b ∈ s.buildsOf j, ∀ b' ∈ s.buildsOf k, b.2.2 = b'.2.2 → j = k
  pending : ∀ q r, s.promise q = some r → r.status = .pending → ∃ k, ∃ b ∈ s.buildsOf k, b.2.2 = q
  unpublished : s.unpublished = [] ∨ ∃ k, s.running = some k ∧ s.unpublished <+: (s.buildsOf k).map (·.2.2)
  free : ∀ q ∈ s.unpublished, ∀ c key, s.keyOf q = some (c, key) → s.cached c key = none
  cached : ∀ c key q, s.cached c key = some q →
    ∃ r, s.promise q = some r ∧ r.container = c ∧ r.key = key ∧ ∀ e, r.status ≠ .rejected e

namespace WF

theorem shapeOf (h : WF s) (k : CallId) : ((s.buildsOf k).map (·.2.1.provide)).Nodup := by
  unfold State.buildsOf
  cases hv : s.call k with
  | none => exact List.nodup_nil
  | some v => exact (h.shape k v hv).1.nodup

variable {b : Build τ}

theorem build_unique (h : WF s) {b' : Build τ} (hb : b ∈ s.buildsOf k) (hb' : b' ∈ s.buildsOf k)
    (he : b.2.2 = b'.2.2) : b = b' := by
  obtain ⟨key, hp, _⟩ := h.building k b hb
  obtain ⟨key', hp', _⟩ := h.building k b' hb'
  rw [he, hp'] at hp
  simp only [Option.some.injEq, Construction.mk.injEq] at hp
  exact Prod.ext hp.1.symm (Prod.ext hp.2.2.1.symm he)

theorem head_fresh (h : WF s) {bs : List (Build τ)} (hk : s.buildsOf k = b :: bs) :
    ∀ b' ∈ bs, b'.2.2 ≠ b.2.2 := by
  intro b' hb' he
  have hn := h.shapeOf k
  rw [hk, List.map_cons, List.nodup_cons] at hn
  have : b' = b := h.build_unique (k := k) (by rw [hk]; exact List.mem_cons_of_mem _ hb') (by rw [hk]; exact List.mem_cons_self) he
  exact hn.1 (List.mem_map.2 ⟨b', hb', by rw [this]⟩)

omit [DecidableEq τ] in
theorem mem_update {bs : List (Build τ)} {j : CallId} (hb : b ∈ Function.update s.buildsOf k bs j) :
    j = k ∧ b ∈ bs ∨ j ≠ k ∧ b ∈ s.buildsOf j := by
  by_cases hj : j = k
  · subst hj; exact .inl ⟨rfl, by simpa using hb⟩
  · exact .inr ⟨hj, by simpa [hj] using hb⟩

theorem unpublished_prefix (h : WF s) (hrun : s.running = none ∨ s.running = some k) :
    s.unpublished <+: (s.buildsOf k).map (·.2.2) := by
  rcases h.unpublished with hu | ⟨j, hj, hp⟩
  · rw [hu]; exact List.nil_prefix
  · rcases hrun with hr | hr <;> rw [hr] at hj <;> cases hj
    exact hp

theorem calls_update (h : WF s) (hv : s.call k = some v) (hw : Shape w.stack ∧ MultiControl w) {j : CallId}
    {u : Call τ} (hu : Function.update s.call k (some w) j = some u) : j < s.calls ∧ Shape u.stack ∧ MultiControl u := by
  by_cases hj : j = k
  · subst hj
    obtain rfl : w = u := by simpa using hu
    exact ⟨h.callBound _ _ hv, hw⟩
  · rw [Function.update_of_ne hj] at hu
    exact ⟨h.callBound j u hu, h.shape j u hu⟩

/-! A turn is first seen as one after which the call still runs. -/

section Turn
variable (h : WF s) (hv : s.call k = some v) (hrun : s.running = none ∨ s.running = some k)
  (hw : Shape w.stack ∧ MultiControl w)
include h hv hrun hw

theorem quiet_turn {m log n} (hm : ∀ d, (m d).cache = (s.container d).cache) (hb : builds w.stack = builds v.stack) :
    WF (State.proceed { s with container := m, log := log, nextObject := n } k w) := by
  have hB : (State.proceed { s with container := m, log := log, nextObject := n } k w).buildsOf = s.buildsOf := by
    rw [buildsOf_proceed, hb, ← buildsOf_eq hv]
    exact Function.update_eq_self k s.buildsOf
  refine { h with
    callBound := fun j u hu => (h.calls_update hv hw hu).1
    shape := fun j u hu => (h.calls_update hv hw hu).2
    building := by rw [hB]; exact h.building
    owner := by rw [hB]; exact h.owner
    pending := by rw [hB]; exact h.pending
    unpublished := .inr ⟨k, rfl, by rw [hB]; exact h.unpublished_prefix hrun⟩
    free := fun q hq c key hc => ?_
    cached := fun c key q hc => h.cached c key q ?_ }
  · exact (congrArg (AList.lookup key) (hm c)).trans (h.free q hq c key hc)
  · exact (congrArg (AList.lookup key) (hm c)).symm.trans hc

theorem allocate_turn {d key p} (hc : s.cached d key = none) (htok : key.tok = p.provide)
    (hb : builds w.stack = (d, p, s.promises) :: builds v.stack) : WF ((s.allocate d key p).proceed k w) := by
  have hk := buildsOf_eq hv
  have hB : ((s.allocate d key p).proceed k w).buildsOf = Function.update s.buildsOf k ((d, p, s.promises) :: builds v.stack) := by
    rw [buildsOf_proceed, hb]; rfl
  have hne : ∀ q r, s.promise q = some r → q ≠ s.promises := fun q r hr => Nat.ne_of_lt (h.promiseBound q r hr)
  have hold : ∀ q r, s.promise q = some r → (s.allocate d key p).promise q = some r := fun q r hr =>
    (Function.update_of_ne (hne q r hr) _ _).trans hr
  have hcache : ∀ c key', ((s.allocate d key p).proceed k w).cached c key' = s.cached c key' := fun c key' => by
    show ((s.ensureTracked d).container c).cache.lookup key' = _
    rw [ensureTracked_container]; rfl
  have hbne : ∀ j, ∀ b ∈ s.buildsOf j, b.2.2 ≠ s.promises := fun j b hb => by
    obtain ⟨key, hr, _⟩ := h.building j b hb
    exact hne _ _ hr
  have hnew : ∀ j b, b ∈ Function.update s.buildsOf k ((d, p, s.promises) :: builds v.stack) j →
      b ∈ s.buildsOf j ∨ j = k ∧ b = (d, p, s.promises) := by
    intro j b hb
    rcases mem_update hb with ⟨rfl, hm⟩ | ⟨_, hm⟩
    · rcases List.mem_cons.1 hm with rfl | hm
      · exact .inr ⟨rfl, rfl⟩
      · exact .inl (hk ▸ hm)
    · exact .inl hm
  refine { h with
    callBound := fun j u hu => (h.calls_update hv hw hu).1
    shape := fun j u hu => (h.calls_update hv hw hu).2
    promiseBound := fun q r hr => ?_, building := ?_, owner := ?_, pending := ?_
    unpublished := .inr ⟨k, rfl, by
      rw [hB, Function.update_self, ← hk]; exact (List.prefix_cons_inj _).2 (h.unpublished_prefix hrun)⟩
    free := fun q hq c key' hq' => ?_, cached := fun c key' q hq => ?_ }
  · by_cases hq : q = s.promises
    · subst hq; exact Nat.lt_succ_self _
    · exact Nat.lt_succ_of_lt (h.promiseBound q r ((Function.update_of_ne hq _ _).symm.trans hr))
  · rw [hB]
    intro j b hb
    rcases hnew j b hb with hb | ⟨rfl, rfl⟩
    · obtain ⟨key', hr, ht⟩ := h.building j b hb
      exact ⟨key', hold _ _ hr, ht⟩
    · exact ⟨key, Function.update_self _ _ _, htok⟩
  · rw [hB]
    intro i j b hb b' hb' heq
    rcases hnew i b hb with ho | ⟨rfl, rfl⟩ <;> rcases hnew j b' hb' with ho' | ⟨rfl, rfl⟩
    · exact h.owner i j b ho b' ho' heq
    · exact absurd heq (hbne i b ho)
    · exact absurd heq.symm (hbne j b' ho')
    · rfl
  · rw [hB]
    intro q r hr hp
    by_cases hq : q = s.promises
    · exact ⟨k, (d, p, s.promises), by simp, hq.symm⟩
    · obtain ⟨j, b, hb, hbq⟩ := h.pending q r ((Function.update_of_ne hq _ _).symm.trans hr) hp
      refine ⟨j, b, ?_, hbq⟩
      by_cases hj : j = k
      · subst hj; rw [Function.update_self]; exact List.mem_cons_of_mem _ (hk ▸ hb)
      · rwa [Function.update_of_ne hj]
  · rw [hcache]
    rcases List.mem_cons.1 hq with rfl | hq
    · simp only [State.keyOf, State.proceed, State.setCall, State.allocate, Function.update_self, Option.map_some,
        Option.some.injEq, Prod.mk.injEq] at hq'
      obtain ⟨rfl, rfl⟩ := hq'
      exact hc
    · refine h.free q hq c key' ?_
      obtain ⟨b, hb, rfl⟩ := List.mem_map.1 ((h.unpublished_prefix hrun).subset hq)
      obtain ⟨key'', hr, _⟩ := h.building k b hb
      simpa only [State.keyOf, State.proceed, State.setCall, hold _ _ hr, hr] using hq'
  · rw [hcache] at hq
    obtain ⟨r, hr, hrest⟩ := h.cached c key' q hq
    exact ⟨r, hold q r hr, hrest⟩

theorem settle_turn {b : Build τ} {r : Construction τ} {σ : Status τ} {m l n} (hu : s.unpublished = [])
    (hb : builds v.stack = b :: builds w.stack) (hr : s.promise b.2.2 = some r) (hσ : σ ≠ .pending)
    (hm : ∀ c key q, (m c).cache.lookup key = some q → s.cached c key = some q ∧ (q = b.2.2 → ∀ e, σ ≠ .rejected e)) :
    WF (State.proceed { s with
      promise := Function.update s.promise b.2.2 (some { r with status := σ })
      container := m, log := l, nextObject := n } k w) := by
  have hk := buildsOf_eq hv
  rw [hb] at hk
  generalize hs' : State.proceed { s with
      promise := Function.update s.promise b.2.2 (some { r with status := σ })
      container := m, log := l, nextObject := n } k w = s'
  have hB : s'.buildsOf = Function.update s.buildsOf k (builds w.stack) := by
    rw [← hs', buildsOf_proceed]; rfl
  have hp : s'.promise = Function.update s.promise b.2.2 (some { r with status := σ }) := by rw [← hs']; rfl
  have hmem : ∀ j b', b' ∈ Function.update s.buildsOf k (builds w.stack) j → b' ∈ s.buildsOf j ∧ b'.2.2 ≠ b.2.2 := by
    intro j b' hb'
    rcases mem_update hb' with ⟨rfl, ho⟩ | ⟨hj, ho⟩
    · exact ⟨hk ▸ List.mem_cons_of_mem _ ho, h.head_fresh hk b' ho⟩
    · exact ⟨ho, fun he => hj (h.owner j k b' ho b (hk ▸ List.mem_cons_self) he)⟩
  refine {
    keyed := by rw [← hs']; exact h.keyed
    callBound := fun j u hu => by subst hs'; exact (h.calls_update hv hw hu).1
    shape := fun j u hu => by subst hs'; exact (h.calls_update hv hw hu).2
    promiseBound := fun q r' hr' => ?_, building := ?_, owner := ?_, pending := ?_
    unpublished := .inl (by rw [← hs']; exact hu)
    free := fun q hq => by rw [← hs'] at hq; change q ∈ s.unpublished at hq; rw [hu] at hq; cases hq
    cached := fun c key q hq => ?_ }
  · have hps : s'.promises = s.promises := by rw [← hs']; rfl
    rw [hps]
    by_cases hq : q = b.2.2
    · subst hq; exact h.promiseBound _ _ hr
    · rw [hp, Function.update_of_ne hq] at hr'
      exact h.promiseBound q r' hr'
  · rw [hB, hp]
    intro j b' hb'
    obtain ⟨hb', hne⟩ := hmem j b' hb'
    rw [Function.update_of_ne hne]
    exact h.building j b' hb'
  · rw [hB]
    intro i j b₁ hb₁ b₂ hb₂ heq
    exact h.owner i j b₁ (hmem i b₁ hb₁).1 b₂ (hmem j b₂ hb₂).1 heq
  · rw [hB, hp]
    intro q r' hr' hpend
    by_cases hq : q = b.2.2
    · subst hq
      rw [Function.update_self] at hr'
      cases hr'
      exact absurd hpend hσ
    · rw [Function.update_of_ne hq] at hr'
      obtain ⟨j, b', hb', rfl⟩ := h.pending q r' hr' hpend
      refine ⟨j, b', ?_, rfl⟩
      by_cases hj : j = k
      · subst hj
        rw [hk] at hb'
        rcases List.mem_cons.1 hb' with rfl | hb'
        · exact absurd rfl hq
        · rwa [Function.update_self]
      · rwa [Function.update_of_ne hj]
  · obtain ⟨hc, hne⟩ := hm c key q (by rw [← hs'] at hq; exact hq)
    obtain ⟨r', hr', hcont, hkey, hst⟩ := h.cached c key q hc
    rw [hp]
    by_cases hq : q = b.2.2
    · subst hq
      rw [hr] at hr'
      cases hr'
      exact ⟨_, Function.update_self _ _ _, hcont, hkey, hne rfl⟩
    · exact ⟨r', by rwa [Function.update_of_ne hq], hcont, hkey, hst⟩

end Turn

theorem effect_turn (h : WF s) (hv : s.call k = some v) (hrun : s.running = none ∨ s.running = some k)
    (hidle : v.control.isSync = false → s.unpublished = []) (hw : Shape w.stack ∧ MultiControl w)
    (he : Effect s v.control (builds v.stack) (builds w.stack) base) : WF (base.proceed k w) := by
  have hk := buildsOf_eq hv
  generalize hbv : builds v.stack = bv at he
  generalize hbw : builds w.stack = bw at he
  cases he with
  | quiet hm => exact h.quiet_turn hv hrun hw hm (hbw.trans hbv.symm)
  | allocate hc htok => exact h.allocate_turn hv hrun hw hc htok (by rw [hbw, hbv])
  | @fulfil b _ x log n hs =>
    obtain ⟨key, hr, _⟩ := h.building k b (by rw [hk, hbv]; exact List.mem_cons_self)
    have hf : s.fulfil b.2.2 x = s.setPromise b.2.2 ⟨b.1, key, b.2.1, .fulfilled x⟩ := by
      simp only [State.fulfil, hr]
    rw [hf]
    exact h.settle_turn (m := s.container) hv hrun hw (hidle hs) (by rw [hbv, hbw]) hr (by simp)
      fun c key q hq => ⟨hq, by simp⟩
  | @reject b _ e hs =>
    obtain ⟨key, hr, _⟩ := h.building k b (by rw [hk, hbv]; exact List.mem_cons_self)
    have hf : s.reject b.2.2 e = { s with
        promise := Function.update s.promise b.2.2 (some ⟨b.1, key, b.2.1, .rejected e⟩)
        container := (s.reject b.2.2 e).container } := by
      simp only [State.reject, hr]; rfl
    rw [hf]
    refine h.settle_turn (l := s.log) (n := s.nextObject) hv hrun hw (hidle hs) (by rw [hbv, hbw]) hr (by simp)
      fun c key' q hq => ?_
    rw [show ((s.reject b.2.2 e).container c).cache.lookup key' = _ from cached_reject s b.2.2 e c key'] at hq
    split at hq
    · cases hq
    · rename_i hne
      refine ⟨hq, ?_⟩
      rintro rfl
      obtain ⟨r, hr', hc, hk', _⟩ := h.cached c key' _ hq
      exact absurd (by simp [State.keyOf, hr', hc, hk']) hne

theorem keyOf_unpublished (h : WF s) (hrun : s.running = some k) : (s.unpublished.map s.keyOf).Nodup := by
  have hpre := h.unpublished_prefix (.inr hrun)
  have hn : ((s.buildsOf k).map (s.keyOf ·.2.2)).Nodup := by
    refine List.Nodup.of_map (fun o : Option (ContainerId × CacheKey τ) => o.map (·.2.tok)) ?_
    have : ((s.buildsOf k).map (s.keyOf ·.2.2)).map (·.map (·.2.tok)) = ((s.buildsOf k).map (·.2.1.provide)).map some := by
      rw [List.map_map, List.map_map]
      refine List.map_congr_left fun b hb => ?_
      obtain ⟨key, hr, ht⟩ := h.building k b hb
      simp [State.keyOf, hr, ht]
    rw [this]
    exact (h.shapeOf k).map fun _ _ he => Option.some.inj he
  have := hpre.map s.keyOf
  rw [List.map_map] at this
  exact hn.sublist this.sublist

theorem yield (h : WF s) (hrun : s.running = some k) : WF s.yield := by
  have hc : ∀ c key q, s.yield.cached c key = some q ↔ _ := fun c key q =>
    cached_publishAll s.unpublished c key q s (h.keyOf_unpublished hrun)
  have he := yield_eq s
  refine {
    keyed := by rw [he]; exact h.keyed
    callBound := by rw [he]; exact h.callBound
    promiseBound := by rw [he]; exact h.promiseBound
    shape := by rw [he]; exact h.shape
    building := by rw [he]; exact h.building
    owner := by rw [he]; exact h.owner
    pending := by rw [he]; exact h.pending
    unpublished := .inl rfl
    free := fun q hq => by cases hq
    cached := fun c key q hq => ?_ }
  have hp : s.yield.promise = s.promise := by rw [he]
  rw [hp]
  rcases (hc c key q).1 hq with ⟨hm, hk⟩ | ⟨_, hq⟩
  · obtain ⟨b, hb, rfl⟩ := List.mem_map.1 ((h.unpublished_prefix (.inr hrun)).subset hm)
    obtain ⟨key', hr, _⟩ := h.building k b hb
    simp only [State.keyOf, hr, Option.map_some, Option.some.injEq, Prod.mk.injEq] at hk
    exact ⟨_, hr, hk.1, hk.2, by simp⟩
  · exact h.cached c key q hq

theorem goOn (h : WF (base.proceed k w)) : WF (base.goOn sync k w) := by
  cases sync with
  | true => exact h
  | false => exact h.yield rfl

end WF

/-! ## The tree of containers -/

/-- Every container but the root has an older one as its parent. -/
structure Graph.Tree (g : Graph τ) (n : Nat) : Prop where
  pos : 0 < n
  root : (g root).ancestors = []
  scope : ∀ c < n, c ≠ Di.root → ∃ parent < c, (g c).ancestors = g.lineage parent

section Tree
omit [DecidableEq τ]
variable {g' : Graph τ} {n : Nat}

namespace Graph.Tree

theorem congr (h : g.Tree n) (hg : ∀ c < n, (g' c).ancestors = (g c).ancestors) : g'.Tree n := by
  refine ⟨h.pos, (hg Di.root h.pos).trans h.root, fun c hc hne => ?_⟩
  obtain ⟨parent, hp, ha⟩ := h.scope c hc hne
  refine ⟨parent, hp, (hg c hc).trans (ha.trans ?_)⟩
  simp only [Graph.lineage, hg parent (hp.trans hc)]

theorem requestScopeEnabled (h : g.Tree n) {c : ContainerId} (hc : c < n) :
    g.requestScopeEnabled c = true ↔ c ≠ Di.root := by
  constructor
  · rintro he rfl
    simp [Graph.requestScopeEnabled, h.root] at he
  · intro hne
    obtain ⟨parent, _, ha⟩ := h.scope c hc hne
    simp [Graph.requestScopeEnabled, ha, Graph.lineage]

theorem root_mem (h : g.Tree n) : ∀ c < n, Di.root ∈ g.lineage c := by
  intro c
  induction c using Nat.strong_induction_on with
  | _ c ih =>
    intro hc
    by_cases hne : c = Di.root
    · subst hne; exact List.mem_cons_self
    · obtain ⟨parent, hp, ha⟩ := h.scope c hc hne
      rw [Graph.lineage, ha]
      exact List.mem_cons_of_mem _ (ih parent hp (hp.trans hc))

end Graph.Tree
end Tree

/-! ## Disposed containers -/

section Evolves
omit [DecidableEq τ]

def Container.Flagged (u : Container τ) : Prop := u.disposal ≠ .idle → u.disposed = true

structure Container.Evolves (u u' : Container τ) : Prop where
  disposed : u.disposed = true → u'.disposed = true
  flagged : u.Flagged → u'.Flagged

namespace Container.Evolves

theorem of_eq {u u' : Container τ} (hd : u'.disposed = u.disposed) (hp : u'.disposal = u.disposal) : u.Evolves u' :=
  ⟨fun h => hd.trans h, fun h hn => hd.trans (h (hp ▸ hn))⟩

theorem refl (u : Container τ) : u.Evolves u := of_eq rfl rfl

theorem trans {u₁ u₂ u₃ : Container τ} (h : u₁.Evolves u₂) (h' : u₂.Evolves u₃) : u₁.Evolves u₃ :=
  ⟨fun hd => h'.disposed (h.disposed hd), fun hf => h'.flagged (h.flagged hf)⟩

theorem update {c : ContainerId} {u : Container τ} (h : (s.container c).Evolves u) (d : ContainerId) :
    (s.container d).Evolves (Function.update s.container c u d) := by
  by_cases hd : d = c
  · subst hd; simpa using h
  · simpa [hd] using refl _

end Container.Evolves

theorem cache_update {c : ContainerId} {u : Container τ} (hu : u.cache = (s.container c).cache) (d : ContainerId) :
    (Function.update s.container c u d).cache = (s.container d).cache := by
  by_cases hd : d = c
  · subst hd; simpa using hu
  · simp [hd]

end Evolves

/-! ## Steps outside the calls -/

structure Outside (s s' : State τ) : Prop where
  classes : s'.classes = s.classes
  call : s'.call = s.call
  calls : s'.calls = s.calls
  promise : s'.promise = s.promise
  promises : s'.promises = s.promises
  running : s'.running = s.running
  unpublished : s'.unpublished = s.unpublished
  log : s'.log = s.log
  nextObject : s'.nextObject = s.nextObject
  containers : s.containers ≤ s'.containers
  ancestors : ∀ c < s.containers, (s'.graph c).ancestors = (s.graph c).ancestors
  tree : s.graph.Tree s.containers → s'.graph.Tree s'.containers
  evolves : ∀ d, (s.container d).Evolves (s'.container d)
  cached : ∀ c key q, s'.cached c key = some q → s.cached c key = some q

namespace Outside

theorem refl (s : State τ) : Outside s s :=
  ⟨rfl, rfl, rfl, rfl, rfl, rfl, rfl, rfl, rfl, le_rfl, fun _ _ => rfl, id, fun _ => .refl _,
    fun _ _ _ h => h⟩

theorem trans {s₁ s₂ s₃ : State τ} (h : Outside s₁ s₂) (h' : Outside s₂ s₃) : Outside s₁ s₃ :=
  ⟨h'.classes.trans h.classes, h'.call.trans h.call, h'.calls.trans h.calls, h'.promise.trans h.promise,
    h'.promises.trans h.promises, h'.running.trans h.running, h'.unpublished.trans h.unpublished,
    h'.log.trans h.log, h'.nextObject.trans h.nextObject, Nat.le_trans h.containers h'.containers,
    fun c hc => (h'.ancestors c (Nat.lt_of_lt_of_le hc h.containers)).trans (h.ancestors c hc),
    fun ht => h'.tree (h.tree ht), fun d => (h.evolves d).trans (h'.evolves d),
    fun c key q hq => h.cached c key q (h'.cached c key q hq)⟩

theorem of_container {m st d} (he : ∀ c, (s.container c).Evolves (m c))
    (hm : ∀ c key q, (m c).cache.lookup key = some q → s.cached c key = some q) :
    Outside s { s with container := m, staleTasks := st, destroyed := d } :=
  ⟨rfl, rfl, rfl, rfl, rfl, rfl, rfl, rfl, rfl, le_rfl, fun _ _ => rfl, id, he, hm⟩

theorem of_update {c : ContainerId} {u : Container τ} {st d} (he : (s.container c).Evolves u)
    (hu : ∀ key q, u.cache.lookup key = some q → s.cached c key = some q) :
    Outside s { s with container := Function.update s.container c u, staleTasks := st, destroyed := d } := by
  refine .of_container (Container.Evolves.update he) fun d key q hq => ?_
  by_cases hd : d = c
  · subst hd; exact hu key q (by simpa using hq)
  · simpa [hd, State.cached] using hq

theorem of_graph {g n} (hg : ∀ c, (g c).ancestors = (s.graph c).ancestors) :
    Outside s { s with graph := g, nextProvider := n } :=
  ⟨rfl, rfl, rfl, rfl, rfl, rfl, rfl, rfl, rfl, le_rfl, fun c _ => hg c, fun ht => ht.congr fun c _ => hg c,
    fun _ => .refl _, fun _ _ _ h => h⟩

theorem wf (h : Outside s s') (hg : s'.graph.Keyed) (hs : WF s) : WF s' := by
  have hB : s'.buildsOf = s.buildsOf := by funext j; simp only [State.buildsOf, h.call]
  have hK : s'.keyOf = s.keyOf := by funext q; simp only [State.keyOf, h.promise]
  refine {
    keyed := hg
    callBound := by rw [h.call, h.calls]; exact hs.callBound
    promiseBound := by rw [h.promise, h.promises]; exact hs.promiseBound
    shape := by rw [h.call]; exact hs.shape
    building := by rw [hB, h.promise]; exact hs.building
    owner := by rw [hB]; exact hs.owner
    pending := by rw [hB, h.promise]; exact hs.pending
    unpublished := by rw [hB, h.unpublished, h.running]; exact hs.unpublished
    free := fun q hq c key hk => ?_
    cached := fun c key q hq => by rw [h.promise]; exact hs.cached c key q (h.cached c key q hq) }
  rw [h.unpublished] at hq
  rw [hK] at hk
  cases hc : s'.cached c key with
  | none => rfl
  | some q' => exact absurd (h.cached c key q' hc) (by rw [hs.free q hq c key hk]; simp)

end Outside

/-! ## Registration -/

theorem Graph.Keyed.update (h : g.Keyed) {v : Registry τ} (hv : v.Keyed) (c : ContainerId) :
    Graph.Keyed (Function.update g c v) := by
  intro d
  by_cases hd : d = c
  · subst hd; simpa using hv
  · simpa [hd] using h d

theorem Registry.Keyed.insert {v : Registry τ} (h : v.Keyed) (p : NormalizedProvider τ) :
    Registry.Keyed { v with registrations := v.registrations.insert p.provide p } := by
  refine ⟨fun t p' hp => ?_, h.multi⟩
  by_cases ht : t = p.provide
  · subst ht
    rw [AList.lookup_insert] at hp
    cases hp
    rfl
  · rw [AList.lookup_insert_ne ht] at hp
    exact h.single t p' hp

variable {ps : List (NormalizedProvider τ)} {c : ContainerId}

theorem Registry.Keyed.insertMulti {v : Registry τ} (h : v.Keyed) {t : τ}
    (hps : ∀ p ∈ ps, p.provide = t) :
    Registry.Keyed { v with multiRegistrations := v.multiRegistrations.insert t ps } := by
  refine ⟨h.single, fun t' p' hp => ?_⟩
  by_cases ht : t' = t
  · subst ht
    simp only [AList.lookup_insert, Option.getD_some] at hp
    exact hps p' hp
  · simp only [AList.lookup_insert_ne ht] at hp
    exact h.multi t' p' hp

theorem Registry.Keyed.erase {v : Registry τ} (h : v.Keyed) (t : τ) :
    Registry.Keyed { v with registrations := v.registrations.erase t } := by
  refine ⟨fun t' p hp => ?_, h.multi⟩
  by_cases ht : t' = t
  · subst ht; simp at hp
  · rw [AList.lookup_erase_ne ht] at hp
    exact h.single t' p hp

theorem Registry.Keyed.eraseMulti {v : Registry τ} (h : v.Keyed) (t : τ) :
    Registry.Keyed { v with multiRegistrations := v.multiRegistrations.erase t } := by
  refine ⟨h.single, fun t' p hp => ?_⟩
  by_cases ht : t' = t
  · subst ht; simp at hp
  · simp only [AList.lookup_erase_ne ht] at hp
    exact h.multi t' p hp

theorem Registry.Keyed.override {v : Registry τ} (h : v.Keyed) {t : τ} {p : NormalizedProvider τ}
    {rest : List (NormalizedProvider τ)} (hp : ∀ p' ∈ p :: rest, p'.provide = t) : (v.override t p rest).Keyed := by
  unfold Registry.override
  split
  · have hk := (h.erase t).insertMulti hp
    exact ⟨hk.single, hk.multi⟩
  · obtain rfl := hp p List.mem_cons_self
    have hk := (h.insert p).eraseMulti p.provide
    exact ⟨hk.single, hk.multi⟩

omit [DecidableEq τ] in
theorem ancestors_update {v : Registry τ} (hv : v.ancestors = (g c).ancestors) (d : ContainerId) :
    (Function.update g c v d).ancestors = (g d).ancestors := by
  by_cases hd : d = c
  · subst hd; simpa using hv
  · simp [hd]

theorem Registry.override_ancestors (v : Registry τ) (t : τ) (p : NormalizedProvider τ) (rest) :
    (v.override t p rest).ancestors = v.ancestors := by
  unfold Registry.override
  split <;> rfl

theorem registerOne_outside (hg : s.graph.Keyed) {provider : Provider τ}
    (h : s.registerOne c provider = .ok s') : Outside s s' ∧ s'.graph.Keyed := by
  unfold State.registerOne at h
  cases hn : normalizeProvider s.classes s.nextProvider provider with
  | error e => rw [hn] at h; cases h
  | ok p =>
    rw [hn] at h
    simp only [bind, Except.bind, pure, Except.pure] at h
    split at h
    · cases h
    split at h
    · cases h
    cases h
    refine ⟨.of_graph fun d => ancestors_update (by split <;> rfl) d, hg.update ?_ c⟩
    split
    · refine (hg c).insertMulti fun p' hp' => ?_
      rcases List.mem_append.1 hp' with hp' | hp'
      · exact (hg c).multi _ p' hp'
      · rw [List.mem_singleton.1 hp']
    · exact (hg c).insert p

theorem register_outside (hg : s.graph.Keyed) (c : ContainerId) (providers : List (Provider τ)) :
    Outside s (s.register c providers).1 ∧ (s.register c providers).1.graph.Keyed := by
  unfold State.register
  split
  · exact ⟨.refl s, hg⟩
  rename_i hd
  clear hd
  induction providers generalizing s with
  | nil => exact ⟨.refl s, hg⟩
  | cons p ps ih =>
    simp only [State.registerAll]
    split
    · exact ⟨.refl s, hg⟩
    · rename_i s₁ h₁
      obtain ⟨ho, hk⟩ := registerOne_outside hg h₁
      exact ⟨ho.trans (ih hk).1, (ih hk).2⟩

/-! ## Overrides -/

theorem lookup_eraseAll {κ ν : Type} [DecidableEq κ] (es : List (κ × PromiseId)) (key : κ) (m : JsMap κ ν) :
    (es.foldl (fun cache e => cache.erase e.1) m).lookup key = if key ∈ es.map (·.1) then none else m.lookup key := by
  induction es generalizing m with
  | nil => simp
  | cons e es ih =>
    rw [List.foldl_cons, ih, List.map_cons]
    by_cases hm : key ∈ es.map (·.1)
    · rw [if_pos hm, if_pos (List.mem_cons_of_mem _ hm)]
    rw [if_neg hm]
    by_cases he : key = e.1
    · subst he
      rw [AList.lookup_erase, if_pos List.mem_cons_self]
    · rw [AList.lookup_erase_ne he, if_neg fun h => (List.mem_cons.1 h).elim he hm]

theorem cached_invalidate (s : State τ) (c d : ContainerId) (t : τ) (key : CacheKey τ) :
    (s.invalidateAffectedCachedEntries c t).cached d key =
      if d = c ∧ key ∈ (s.affectedEntries c t).map (·.1) then none else s.cached d key := by
  unfold State.invalidateAffectedCachedEntries State.cached State.setContainer
  by_cases hd : d = c
  · subst hd
    simp only [Function.update_self, lookup_eraseAll, true_and]
  · simp [hd]

theorem invalidate_outside (s : State τ) (c : ContainerId) (t : τ) :
    Outside s (s.invalidateAffectedCachedEntries c t) := by
  refine .of_update (.of_eq rfl rfl) fun key q hq => ?_
  rw [lookup_eraseAll] at hq
  split at hq
  · cases hq
  · exact hq

theorem invalidateAll_outside (cs : List ContainerId) (t : τ) : ∀ s : State τ,
    Outside s (cs.foldl (fun s d => s.invalidateAffectedCachedEntries d t) s) ∧
    (cs.foldl (fun s d => s.invalidateAffectedCachedEntries d t) s).graph = s.graph := by
  induction cs with
  | nil => exact fun s => ⟨.refl s, rfl⟩
  | cons c cs ih => exact fun s => ⟨(invalidate_outside s c t).trans (ih _).1, (ih _).2⟩

theorem overrideToken_outside (hg : s.graph.Keyed) {t : τ}
    (hp : ∀ p ∈ ps, p.provide = t) (h : s.overrideToken c t ps = .ok s') : Outside s s' ∧ s'.graph.Keyed := by
  unfold State.overrideToken at h
  split at h
  · cases h; exact ⟨.refl s, hg⟩
  split at h <;> cases h
  obtain ⟨ho, hgr⟩ := invalidateAll_outside (s.invalidationScope c) t s
  refine ⟨ho.trans (.of_graph fun d => ancestors_update (Registry.override_ancestors _ _ _ _) d), ?_⟩
  simp only [State.setRegistry, State.invalidateInHierarchy, hgr]
  exact hg.update ((hg c).override hp) c

theorem mem_normalizedByToken {e : τ × List (NormalizedProvider τ)}
    (he : e ∈ normalizedByToken ps) : ∀ p ∈ e.2, p.provide = e.1 := by
  obtain ⟨t, _, rfl⟩ := List.mem_map.1 he
  exact fun p hp => of_decide_eq_true (List.mem_filter.1 hp).2

theorem overrideAll_outside (groups : List (τ × List (NormalizedProvider τ)))
    (hp : ∀ e ∈ groups, ∀ p ∈ e.2, p.provide = e.1) : ∀ {s : State τ}, s.graph.Keyed →
    Outside s (s.overrideAll c groups).1 ∧ (s.overrideAll c groups).1.graph.Keyed := by
  induction groups with
  | nil => exact fun {s} hg => ⟨.refl s, hg⟩
  | cons e groups ih =>
    intro s hg
    simp only [State.overrideAll]
    split
    · exact ⟨.refl s, hg⟩
    · rename_i s₁ h₁
      obtain ⟨ho, hk⟩ := overrideToken_outside hg (hp e List.mem_cons_self) h₁
      have := ih (fun e' he' => hp e' (List.mem_cons_of_mem _ he')) hk
      exact ⟨ho.trans this.1, this.2⟩

theorem override_outside (hg : s.graph.Keyed) (c : ContainerId) (providers : List (Provider τ)) :
    Outside s (s.override c providers).1 ∧ (s.override c providers).1.graph.Keyed := by
  unfold State.override
  split
  · exact ⟨.refl s, hg⟩
  split
  · exact ⟨.refl s, hg⟩
  · rename_i ps _
    have := overrideAll_outside (c := c) (normalizedByToken ps) (fun _ => mem_normalizedByToken)
      (s := { s with nextProvider := s.nextProvider + ps.length }) hg
    exact ⟨.trans (.of_graph fun _ => rfl) this.1, this.2⟩

theorem createRequestScope_outside (hg : s.graph.Keyed) (hc : s.isContainer c) :
    Outside s (s.createRequestScope c) ∧ (s.createRequestScope c).graph.Keyed := by
  have hold : ∀ d < s.containers, (s.createRequestScope c).graph d = s.graph d := fun d hd =>
    Function.update_of_ne (Nat.ne_of_lt hd) _ _
  refine ⟨⟨rfl, rfl, rfl, rfl, rfl, rfl, rfl, rfl, rfl, Nat.le_succ _, fun d hd => by rw [hold d hd], fun ht => ?_,
    fun _ => .refl _, fun _ _ _ h => h⟩, hg.update ⟨fun t p hp => by simp at hp, fun t p hp => by simp at hp⟩ _⟩
  refine ⟨Nat.succ_pos _, by rw [hold _ ht.pos]; exact ht.root, fun d hd hne => ?_⟩
  rcases Nat.lt_succ_iff_lt_or_eq.1 hd with hd | rfl
  · obtain ⟨parent, hp, ha⟩ := ht.scope d hd hne
    refine ⟨parent, hp, ?_⟩
    rw [hold d hd, ha, Graph.lineage, Graph.lineage, hold parent (hp.trans hd)]
  · refine ⟨c, hc, ?_⟩
    rw [Graph.lineage, hold c hc]
    exact congrArg Registry.ancestors (Function.update_self s.containers _ s.graph)

/-! ## Disposal -/

theorem startDisposal_outside (s : State τ) (c : ContainerId) :
    Outside s (s.startDisposal c) ∧ (s.startDisposal c).graph = s.graph := by
  unfold State.startDisposal
  dsimp only
  split
  · exact ⟨.refl s, rfl⟩
  · exact ⟨.of_update ⟨fun _ => rfl, fun _ _ => rfl⟩ fun _ _ h => h, rfl⟩

theorem dispose_outside (s : State τ) (c : ContainerId) :
    Outside s (s.dispose c) ∧ (s.dispose c).graph = s.graph := by
  have hfold : ∀ (cs : List ContainerId) (s : State τ),
      Outside s (cs.foldl State.startDisposal s) ∧ (cs.foldl State.startDisposal s).graph = s.graph := by
    intro cs
    induction cs with
    | nil => exact fun s => ⟨.refl s, rfl⟩
    | cons d cs ih =>
      intro s
      obtain ⟨ho, hg⟩ := startDisposal_outside s d
      exact ⟨ho.trans (ih _).1, (ih _).2.trans hg⟩
  unfold State.dispose
  dsimp only
  split
  · exact ⟨.refl s, rfl⟩
  split
  · exact startDisposal_outside s c
  · generalize hu : ({ s.container c with disposed := true, disposal := .children (s.container c).childScopes } : Container τ) = u
    obtain ⟨ho, hg⟩ := hfold (s.container c).childScopes (s.setContainer c u)
    have h₁ : Outside s (s.setContainer c u) :=
      .of_update ⟨fun _ => by rw [← hu], fun _ _ => by rw [← hu]⟩ fun key q hq => by rw [← hu] at hq; exact hq
    exact ⟨h₁.trans ho, hg⟩

theorem runStale_outside {i : Nat} {error : Option Nat} (h : s.runStale i error = some s') :
    Outside s s' ∧ s'.graph = s.graph := by
  unfold State.runStale at h
  obtain ⟨⟨c, q⟩, _, h⟩ := Option.bind_eq_some_iff.1 h
  obtain ⟨σ, _, h⟩ := Option.bind_eq_some_iff.1 h
  dsimp only at h
  have hskip : Outside s { s with staleTasks := s.staleTasks.eraseIdx i } :=
    .of_container (fun _ => .refl _) fun _ _ _ h => h
  split at h
  · cases h
  · cases h; exact ⟨.of_update (.of_eq rfl rfl) fun _ _ h => h, rfl⟩
  · split at h <;> cases h
    · exact ⟨.of_update (.of_eq rfl rfl) fun _ _ h => h, rfl⟩
    · exact ⟨hskip, rfl⟩
  · cases h; exact ⟨hskip, rfl⟩

theorem continueDisposal_outside {error : Option Nat} (h : s.continueDisposal c error = some s') :
    Outside s s' ∧ s'.graph = s.graph := by
  have hgo : ∀ u : Container τ, (s.container c).disposal ≠ .idle → u.disposed = (s.container c).disposed →
      (s.container c).Evolves u := fun u hn hd => ⟨fun h => hd.trans h, fun hf _ => hd.trans (hf hn)⟩
  unfold State.continueDisposal at h
  dsimp only at h
  split at h
  · rename_i hd
    obtain ⟨errors, _, h⟩ := Option.bind_eq_some_iff.1 h
    cases h
    exact ⟨.of_update (hgo _ (by simp [hd]) rfl) fun _ _ h => h, rfl⟩
  · rename_i hd
    split at h <;> cases h
    exact ⟨.of_update (hgo _ (by simp [hd]) rfl) fun _ _ h => h, rfl⟩
  · rename_i hd
    obtain ⟨⟨values, reasons⟩, _, h⟩ := Option.bind_eq_some_iff.1 h
    cases h
    exact ⟨.of_update (hgo _ (by simp [hd]) rfl) fun _ _ h => h, rfl⟩
  · rename_i hd
    cases h
    exact ⟨.of_update (hgo _ (by simp [hd]) rfl) fun _ _ h => h, rfl⟩
  · rename_i errors hd
    cases h
    have h₁ : Outside s (s.setContainer c { s.container c with
        cache := ∅, disposal := .settled errors, trackedByRoot := false }) :=
      .of_update (hgo _ (by simp [hd]) rfl) fun key q hq => by simp at hq
    split
    · exact ⟨h₁.trans (.of_update (.of_eq rfl rfl) fun _ _ h => h), rfl⟩
    · exact ⟨h₁, rfl⟩
  · cases h

/-! ## Reachable states -/

def Scheduled (s : State τ) : Prop := ∀ k v, s.call k = some v → (v.control.isSync = true ↔ s.running = some k)

structure Inv (s : State τ) : Prop extends WF s where
  scheduled : Scheduled s
  live : ∀ k, s.running = some k → (s.call k).isSome
  tree : s.graph.Tree s.containers
  flagged : ∀ c, (s.container c).Flagged

namespace Inv

theorem idle (h : Inv s) (hr : s.running = none) : s.unpublished = [] := by
  rcases h.unpublished with hu | ⟨k, hk, _⟩
  · exact hu
  · rw [hr] at hk; cases hk

theorem outside (h : Inv s) (ho : Outside s s') (hg : s'.graph.Keyed) : Inv s' where
  toWF := ho.wf hg h.toWF
  scheduled := by unfold Scheduled; rw [ho.call, ho.running]; exact h.scheduled
  live := by rw [ho.call, ho.running]; exact h.live
  tree := ho.tree h.tree
  flagged := fun c => (ho.evolves c).flagged (h.flagged c)

theorem startResolve (h : Inv s) (hr : s.running = none) (c : ContainerId) (t : τ) : Inv (s.startResolve c t) := by
  have hnone : s.call s.calls = none := by
    cases hv : s.call s.calls with
    | none => rfl
    | some v => exact absurd (h.callBound _ v hv) (Nat.lt_irrefl _)
  have key : ∀ (ctl : Control τ) (run : Option CallId),
      (ctl.isSync = true ∧ run = some s.calls ∨ ctl.isSync = false ∧ run = none) → (∀ d p, ctl ≠ .multi d p) →
      Inv { s.setCall s.calls ⟨c, t, [], ctl⟩ with calls := s.calls + 1, running := run } := by
    intro ctl run hrun hctl
    have hcall : ∀ j u, Function.update s.call s.calls (some ⟨c, t, [], ctl⟩) j = some u →
        (j = s.calls ∧ u = ⟨c, t, [], ctl⟩) ∨ (j < s.calls ∧ s.call j = some u) := by
      intro j u hu
      by_cases hj : j = s.calls
      · subst hj; exact .inl ⟨rfl, by simpa using hu.symm⟩
      · rw [Function.update_of_ne hj] at hu
        exact .inr ⟨h.callBound j u hu, hu⟩
    have hB : State.buildsOf { s.setCall s.calls ⟨c, t, [], ctl⟩ with calls := s.calls + 1, running := run } =
        s.buildsOf := by
      funext j
      by_cases hj : j = s.calls
      · subst hj; simp [State.buildsOf, State.setCall, hnone]
      · simp [State.buildsOf, State.setCall, hj]
    refine {
      keyed := h.keyed, promiseBound := h.promiseBound, cached := h.cached, tree := h.tree, flagged := h.flagged
      callBound := fun j u hu => ?_, shape := fun j u hu => ?_
      building := by rw [hB]; exact h.building
      owner := by rw [hB]; exact h.owner
      pending := by rw [hB]; exact h.pending
      unpublished := .inl (h.idle hr)
      free := h.free
      scheduled := fun j u hu => ?_, live := fun j hj => ?_ }
    · rcases hcall j u hu with ⟨rfl, _⟩ | ⟨hj, _⟩
      · exact Nat.lt_succ_self _
      · exact Nat.lt_succ_of_lt hj
    · rcases hcall j u hu with ⟨_, rfl⟩ | ⟨_, hu⟩
      · exact ⟨.nil, fun d p hp => absurd hp (hctl d p)⟩
      · exact h.shape j u hu
    · rcases hcall j u hu with ⟨rfl, rfl⟩ | ⟨hj, hu⟩
      · rcases hrun with ⟨hs, hr'⟩ | ⟨hs, hr'⟩ <;> simp [hs, hr']
      · have hold := h.scheduled j u hu
        rw [hr] at hold
        have hne : run ≠ some j := by
          rcases hrun with ⟨_, rfl⟩ | ⟨_, rfl⟩
          · simp [Nat.ne_of_gt hj]
          · simp
        simpa [hne] using hold
    · rcases hrun with ⟨_, rfl⟩ | ⟨_, rfl⟩ <;> cases hj
      simp [State.setCall]
  unfold State.startResolve
  dsimp only
  split
  · have := key (.rejected (.containerResolution (some t))) none (.inr ⟨rfl, rfl⟩) (by simp)
    rwa [← hr] at this
  · exact key (.resolve c t false) (some s.calls) (.inl ⟨rfl, rfl⟩) (by simp)

theorem turn (h : Inv s) (hv : s.call k = some v) (hrun : s.running = none ∨ s.running = some k)
    (ht : Turn s v base sync w) : Inv (base.goOn sync k w) := by
  have hidle : v.control.isSync = false → s.unpublished = [] := by
    intro hs
    rcases hrun with hr | hr
    · exact h.idle hr
    · rw [(h.scheduled k v hv).2 hr] at hs; cases hs
  obtain ⟨hsh, hm⟩ := h.shape k v hv
  have he := ht.effect h.keyed hsh hm
  have hcall : base.call = s.call := he.call
  obtain ⟨hgraph, _, hconts⟩ := he.graph
  refine ⟨(h.toWF.effect_turn hv hrun hidle (ht.shape h.keyed hsh hm) he).goOn, fun j u hu => ?_, fun j hj => ?_,
    by rw [goOn_graph, goOn_containers, hgraph, hconts]; exact h.tree, fun c => ?_⟩
  · rw [goOn_call, hcall] at hu
    rw [goOn_running]
    by_cases hj : j = k
    · subst hj
      obtain rfl : w = u := by simpa using hu
      rw [ht.isSync]
      cases sync <;> simp
    · rw [Function.update_of_ne hj] at hu
      have hns : u.control.isSync = false := by
        cases hs : u.control.isSync with
        | false => rfl
        | true =>
          have := (h.scheduled j u hu).1 hs
          rcases hrun with hr | hr <;> rw [hr] at this <;> cases this
          exact absurd rfl hj
      rw [hns]
      cases sync <;> simp [Ne.symm hj]
  · rw [goOn_running] at hj
    rw [goOn_call]
    cases sync <;> cases hj
    simp
  · obtain ⟨hd, hp⟩ := ht.disposal c
    rw [goOn_container]
    exact (Container.Evolves.of_eq hd hp).flagged (h.flagged c)

theorem step (h : Inv s) {l : Label τ} (hs : step s l = some s') : Inv s' := by
  cases step_cases hs with
  | register => exact h.outside (register_outside h.keyed _ _).1 (register_outside h.keyed _ _).2
  | override => exact h.outside (override_outside h.keyed _ _).1 (override_outside h.keyed _ _).2
  | createRequestScope _ hc =>
    exact h.outside (createRequestScope_outside h.keyed hc).1 (createRequestScope_outside h.keyed hc).2
  | resolve hr => exact h.startResolve hr _ _
  | dispose => exact h.outside (dispose_outside s _).1 ((dispose_outside s _).2 ▸ h.keyed)
  | advance hr hv ht => obtain ⟨ht⟩ := ht; exact h.turn hv (.inr hr) ht
  | resume hr hv ht => obtain ⟨ht⟩ := ht; exact h.turn hv (.inl hr) ht
  | settle hr hv _ ht => obtain ⟨ht⟩ := ht; exact h.turn hv (.inl hr) ht
  | stale _ ht => exact h.outside (runStale_outside ht).1 ((runStale_outside ht).2 ▸ h.keyed)
  | disposal _ ht => exact h.outside (continueDisposal_outside ht).1 ((continueDisposal_outside ht).2 ▸ h.keyed)

theorem init (classes : JsMap τ (ClassMetadata τ)) : Inv (State.init classes) where
  keyed := fun c => ⟨fun t p hp => by simp [State.init] at hp, fun t p hp => by simp [State.init] at hp⟩
  callBound := by simp [State.init]
  promiseBound := by simp [State.init]
  shape := by simp [State.init]
  building := by simp [State.init, State.buildsOf]
  owner := by simp [State.init, State.buildsOf]
  pending := by simp [State.init]
  unpublished := .inl rfl
  free := by simp [State.init]
  cached := by simp [State.init, State.cached]
  scheduled := by simp [State.init, Scheduled]
  live := by simp [State.init]
  tree := ⟨Nat.one_pos, rfl, fun c hc hne => absurd (Nat.lt_one_iff.1 hc) hne⟩
  flagged := fun c h => absurd rfl h

theorem run (h : Inv s) {ok : State τ → Label τ → Prop} {ls : List (Label τ)} (hs : Lib.Run Di.step ok s ls s') : Inv s' :=
  hs.keeps Inv (fun _ _ _ _ hi h => hi.step h) h

end Inv

end Fluo.Di
