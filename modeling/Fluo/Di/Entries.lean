import Fluo.Lib.Places
import Fluo.Di.Keeps
/-!
# Where the entries of the caches stand

The promises of a run in the order in which they are put in their caches; those that are still to be put there
come last, the innermost first. A cache is a part of this order, and what disposal takes from it are its
token-keyed entries and then its provider-keyed ones, each in this order.
-/

namespace Fluo.Di

open Lib (Ahead)

variable {τ : Type} [DecidableEq τ] {s s' base : State τ} {k : CallId} {v w : Call τ} {sync : Bool}

/-! ## The entries of one cache -/

section Definitions
variable (s : State τ)

/-- The promises of container `c`, in the order they were put in its cache. -/
def State.cachedIn (c : ContainerId) : List PromiseId := (s.container c).cache.entries.reverse.map (·.2)

/-- The same in the order in which disposal takes them. -/
def State.entryPromises (c : ContainerId) : List PromiseId := (s.container c).cacheEntries.map (·.2)

def State.Cached (q : PromiseId) : Prop := ∃ c key, s.cached c key = some q

/-- The promise is in the cache of its container, or will be once the methods that run return. -/
def State.Live (q : PromiseId) : Prop := q ∈ s.unpublished ∨ s.Cached q

end Definitions

def Container.entriesOf (u : Container τ) (token : Bool) : List PromiseId :=
  (u.cache.entries.reverse.filter fun e => e.1.isToken = token).map (·.2)

omit [DecidableEq τ] in
theorem entryPromises_eq (s : State τ) (c : ContainerId) :
    s.entryPromises c = (s.container c).entriesOf true ++ (s.container c).entriesOf false := by
  simp [State.entryPromises, Container.cacheEntries, Container.entriesOf, List.filter_map, Function.comp_def]

omit [DecidableEq τ] in
theorem entriesOf_sublist (s : State τ) (c : ContainerId) (token : Bool) :
    List.Sublist ((s.container c).entriesOf token) (s.cachedIn c) := List.filter_sublist.map _

variable {c : ContainerId} {q : PromiseId}

theorem mem_entriesOf {token : Bool} :
    q ∈ (s.container c).entriesOf token ↔ ∃ key : CacheKey τ, key.isToken = token ∧ s.cached c key = some q := by
  simp only [Container.entriesOf, List.mem_map, List.mem_filter, List.mem_reverse, decide_eq_true_eq]
  constructor
  · rintro ⟨⟨key, q⟩, ⟨he, hk⟩, rfl⟩
    exact ⟨key, hk, AList.mem_lookup_iff.2 he⟩
  · rintro ⟨key, hk, hq⟩
    exact ⟨⟨key, q⟩, ⟨AList.mem_lookup_iff.1 hq, hk⟩, rfl⟩

theorem mem_entryPromises : q ∈ s.entryPromises c ↔ ∃ key, s.cached c key = some q := by
  rw [entryPromises_eq, List.mem_append, mem_entriesOf, mem_entriesOf]
  constructor
  · rintro (⟨key, -, hq⟩ | ⟨key, -, hq⟩) <;> exact ⟨key, hq⟩
  · rintro ⟨key, hq⟩
    cases hk : key.isToken
    · exact .inr ⟨key, hk, hq⟩
    · exact .inl ⟨key, hk, hq⟩

theorem mem_cachedIn : q ∈ s.cachedIn c ↔ ∃ key, s.cached c key = some q := by
  simp only [State.cachedIn, List.mem_map, List.mem_reverse]
  constructor
  · rintro ⟨⟨key, q⟩, he, rfl⟩
    exact ⟨key, AList.mem_lookup_iff.2 he⟩
  · rintro ⟨key, hq⟩
    exact ⟨⟨key, q⟩, AList.mem_lookup_iff.1 hq, rfl⟩

/-! ## Who is disposed after whom -/

section Relations
variable (s : State τ) (order : List PromiseId) (p q : PromiseId)

/-- In the order of the run, `p` is disposed after `q`: it is at the root and `q` is not, or it has the place
in front of `q` in the entries of their container. -/
def State.Outlives : Prop := ∃ c key c' key', s.keyOf p = some (c, key) ∧ s.keyOf q = some (c', key') ∧
  (c = root ∧ c' ≠ root ∨
    c = c' ∧ (key.isToken = true ∧ key'.isToken = false ∨ key.isToken = key'.isToken ∧ Ahead order p q))

/-- `p` is cached in the container of `q` and earlier, and has the place in front of `q` there. -/
def State.Leads : Prop := ∃ c key key', s.keyOf p = some (c, key) ∧ s.keyOf q = some (c, key') ∧
  (key'.isToken = true → key.isToken = true) ∧ Ahead order p q

end Relations

section Relations
variable {order : List PromiseId} {p q r : PromiseId}

omit [DecidableEq τ] in
theorem State.Leads.trans (hn : order.Nodup) (h : s.Leads order p q) (h' : s.Leads order q r) : s.Leads order p r := by
  obtain ⟨c, key, key', hp, hq, hk, ha⟩ := h
  obtain ⟨c', key'', key₃, hq', hr, hk', ha'⟩ := h'
  rw [hq] at hq'
  cases hq'
  exact ⟨c, key, key₃, hp, hr, fun ht => hk (hk' ht), ha.trans hn ha'⟩

omit [DecidableEq τ] in
theorem State.Leads.outlives (h : s.Leads order p q) : s.Outlives order p q := by
  obtain ⟨c, key, key', hp, hq, hk, ha⟩ := h
  refine ⟨c, key, c, key', hp, hq, .inr ⟨rfl, ?_⟩⟩
  cases ht : key.isToken <;> cases ht' : key'.isToken
  · exact .inr ⟨rfl, ha⟩
  · rw [hk ht'] at ht; cases ht
  · exact .inl ⟨rfl, rfl⟩
  · exact .inr ⟨rfl, ha⟩

omit [DecidableEq τ] in
theorem State.Leads.outlives_of (hn : order.Nodup) (h : s.Leads order p q) (h' : s.Outlives order q r) : s.Outlives order p r := by
  obtain ⟨c, key, key', hp, hq, hk, ha⟩ := h
  obtain ⟨c', key'', d, key₃, hq', hr, h'⟩ := h'
  rw [hq] at hq'
  cases hq'
  refine ⟨c, key, d, key₃, hp, hr, h'.imp_right fun ⟨hcd, h'⟩ => ⟨hcd, ?_⟩⟩
  cases ht : key.isToken <;> cases ht' : key₃.isToken
  · rcases h' with ⟨hk', -⟩ | ⟨-, ha'⟩
    · rw [hk hk'] at ht; cases ht
    · exact .inr ⟨rfl, ha.trans hn ha'⟩
  · rcases h' with ⟨hk', -⟩ | ⟨hk', -⟩
    · rw [hk hk'] at ht; cases ht
    · rw [hk (hk'.trans ht')] at ht; cases ht
  · exact .inl ⟨rfl, rfl⟩
  · rcases h' with ⟨-, hk'⟩ | ⟨-, ha'⟩
    · rw [hk'] at ht'; cases ht'
    · exact .inr ⟨rfl, ha.trans hn ha'⟩

end Relations

/-! ## The order of a run -/

/-- `placed` are the promises that have been put in a cache, in that order. -/
structure State.Placing (s : State τ) (placed : List PromiseId) : Prop where
  nodup : (placed ++ s.unpublished).Nodup
  bound : ∀ q ∈ placed ++ s.unpublished, q < s.promises
  cached : ∀ c, List.Sublist (s.cachedIn c) placed

/-- What a step makes of the order: it only grows, and what is put in a cache comes last. -/
structure State.Extends (s : State τ) (placed : List PromiseId) (s' : State τ) (placed' : List PromiseId) : Prop where
  grows : placed <+: placed'
  order : List.Sublist (placed ++ s.unpublished) (placed' ++ s'.unpublished)
  promises : s.promises ≤ s'.promises
  live : ∀ q, s'.Live q → s.Live q ∨ s.promises ≤ q
  fresh : ∀ q, s'.Cached q → s.Cached q ∨ q ∉ placed

section Placing
variable {s₁ s₂ s₃ : State τ} {placed placed₁ placed₂ placed₃ : List PromiseId}

theorem State.Extends.trans (h : s₁.Extends placed₁ s₂ placed₂) (h' : s₂.Extends placed₂ s₃ placed₃) :
    s₁.Extends placed₁ s₃ placed₃ where
  grows := h.grows.trans h'.grows
  order := h.order.trans h'.order
  promises := h.promises.trans h'.promises
  live := fun q hq => (h'.live q hq).elim (h.live q) fun hle => .inr (h.promises.trans hle)
  fresh := fun q hq => (h'.fresh q hq).elim (h.fresh q) fun hn => .inr fun hm => hn (h.grows.subset hm)

theorem State.Extends.of_cached (hu : s'.unpublished = s.unpublished) (hp : s'.promises = s.promises)
    (hc : ∀ c key q, s'.cached c key = some q → s.cached c key = some q) : s.Extends placed s' placed where
  grows := List.prefix_refl _
  order := by rw [hu]
  promises := hp.ge
  live := fun q hq => .inl (hq.imp (fun hq => hu ▸ hq) fun ⟨c, key, hq⟩ => ⟨c, key, hc c key q hq⟩)
  fresh := fun q ⟨c, key, hq⟩ => .inl ⟨c, key, hc c key q hq⟩

omit [DecidableEq τ] in
theorem State.Placing.of_cached (h : s.Placing placed) (hu : s'.unpublished = s.unpublished) (hp : s'.promises = s.promises)
    (hc : ∀ c, List.Sublist (s'.container c).cache.entries (s.container c).cache.entries) : s'.Placing placed where
  nodup := hu ▸ h.nodup
  bound := by rw [hu, hp]; exact h.bound
  cached := fun c => ((hc c).reverse.map _).trans (h.cached c)

theorem cachedIn_publish (s : State τ) (q : PromiseId) (c : ContainerId) :
    List.Sublist ((s.publish q).cachedIn c) (s.cachedIn c ++ [q]) := by
  unfold State.publish
  cases hr : s.promise q with
  | none => exact List.sublist_append_left _ _
  | some r =>
    by_cases hc : c = r.container
    · subst hc
      have := List.Sublist.map (fun e : (_ : CacheKey τ) × PromiseId => e.2)
        (List.Sublist.append_right (List.kerase_sublist r.key (s.container r.container).cache.entries).reverse [⟨r.key, q⟩])
      simpa [State.cachedIn, State.modifyCache, State.setContainer, AList.entries_insert, List.kinsert_def] using this
    · simp [State.cachedIn, State.modifyCache, State.setContainer, hc]

theorem cachedIn_publishAll (qs : List PromiseId) (c : ContainerId) : ∀ s : State τ,
    List.Sublist ((qs.foldl State.publish s).cachedIn c) (s.cachedIn c ++ qs) := by
  induction qs with
  | nil => intro s; simp
  | cons q qs ih =>
    intro s
    refine (ih (s.publish q)).trans ?_
    rw [← List.singleton_append, ← List.append_assoc]
    exact (cachedIn_publish s q c).append_right qs

theorem State.Placing.goOn (hw : WF (base.proceed k w)) (h : base.Placing placed) : ∃ placed',
    (base.goOn sync k w).Placing placed' ∧ base.Extends placed (base.goOn sync k w) placed' := by
  cases sync with
  | true => exact ⟨placed, ⟨h.nodup, h.bound, h.cached⟩, .of_cached rfl rfl fun _ _ _ hq => hq⟩
  | false =>
    have hcached {q} (hq : (base.goOn false k w).Cached q) : q ∈ base.unpublished ∨ base.Cached q := by
      obtain ⟨c, key, hq⟩ := hq
      rcases (cached_publishAll base.unpublished c key q (base.proceed k w) (hw.keyOf_unpublished rfl)).1 hq with
        ⟨hq, -⟩ | ⟨-, hq⟩
      · exact .inl hq
      · exact .inr ⟨c, key, hq⟩
    have hu : (base.goOn false k w).unpublished = [] := rfl
    refine ⟨placed ++ base.unpublished, ⟨by rw [hu, List.append_nil]; exact h.nodup, fun q hq => ?_, fun c => ?_⟩,
      List.prefix_append _ _, by rw [hu, List.append_nil], by rw [goOn_promises], fun q hq => ?_, fun q hq => ?_⟩
    · rw [hu, List.append_nil] at hq
      rw [goOn_promises]
      exact h.bound q hq
    · exact (cachedIn_publishAll base.unpublished c (base.proceed k w)).trans ((h.cached c).append_right _)
    · rcases hq with hq | hq
      · cases hq
      · exact .inl (hcached hq)
    · rcases hcached hq with hq | hq
      · exact .inr fun hm => List.disjoint_of_nodup_append h.nodup hm hq
      · exact .inl hq

theorem Effect.placing {ctl : Control τ} {bs bs' : List (Build τ)} (h : s.Placing placed) (he : Effect s ctl bs bs' base) :
    base.Placing placed ∧ s.Extends placed base placed := by
  cases he with
  | quiet hm =>
    refine ⟨h.of_cached rfl rfl fun c => ?_, .of_cached rfl rfl fun c key q hq => ?_⟩
    · exact (congrArg AList.entries (hm c)).symm ▸ List.Sublist.refl _
    · exact (congrArg (AList.lookup key) (hm c)).symm.trans hq
  | @allocate d key p _ hc htok =>
    have hcache : ∀ c, ((s.allocate d key p).container c).cache = (s.container c).cache := fun c => by
      show ((s.ensureTracked d).container c).cache = _
      rw [ensureTracked_container]
    have hnew : s.promises ∉ placed ++ s.unpublished := fun hm => Nat.lt_irrefl _ (h.bound _ hm)
    have hsub : List.Sublist (placed ++ s.unpublished) (placed ++ s.promises :: s.unpublished) :=
      (List.sublist_cons_self _ _).append_left placed
    refine ⟨⟨?_, fun q hq => ?_, fun c => ?_⟩, List.prefix_refl _, hsub, Nat.le_succ _, fun q hq => ?_, fun q hq => ?_⟩
    · exact List.nodup_middle.2 (List.nodup_cons.2 ⟨hnew, h.nodup⟩)
    · rcases List.mem_cons.1 (List.perm_middle.subset hq) with rfl | hq
      · exact Nat.lt_succ_self _
      · exact Nat.lt_succ_of_lt (h.bound q hq)
    · unfold State.cachedIn
      rw [hcache c]
      exact h.cached c
    · rcases hq with hq | ⟨c, key', hq⟩
      · exact (List.mem_cons.1 hq).elim (fun he => .inr he.ge) fun hq => .inl (.inl hq)
      · exact .inl (.inr ⟨c, key', by unfold State.cached at hq; rwa [hcache c] at hq⟩)
    · obtain ⟨c, key', hq⟩ := hq
      exact .inl ⟨c, key', by unfold State.cached at hq; rwa [hcache c] at hq⟩
  | fulfil => exact ⟨⟨h.nodup, h.bound, h.cached⟩, .of_cached rfl rfl fun _ _ _ hq => hq⟩
  | @reject b _ e =>
    have hu : (s.reject b.2.2 e).unpublished = s.unpublished := by unfold State.reject; split <;> rfl
    have hp : (s.reject b.2.2 e).promises = s.promises := by unfold State.reject; split <;> rfl
    refine ⟨h.of_cached hu hp fun c => ?_, .of_cached hu hp fun c key q hq => ?_⟩
    · unfold State.reject
      cases s.promise b.2.2 with
      | none => exact List.Sublist.refl _
      | some r =>
        by_cases hc : c = r.container
        · subst hc
          simpa [State.modifyCache, State.setContainer, State.setPromise] using
            show (AList.erase r.key (s.container r.container).cache).entries.Sublist _ from List.kerase_sublist _ _
        · simp [State.modifyCache, State.setContainer, State.setPromise, hc]
    · rw [cached_reject] at hq
      split at hq
      · cases hq
      · exact hq

omit [DecidableEq τ] in
theorem continueDisposal_cache_eq {c : ContainerId} {error : Option Nat} (h : s.continueDisposal c error = some s') (d : ContainerId) :
    (s'.container d).cache = (s.container d).cache ∨
      d = c ∧ (s'.container d).cache = ∅ ∧ ∃ errors, (s.container c).disposal = .destroying [] errors := by
  unfold State.continueDisposal at h
  dsimp only at h
  split at h
  · obtain ⟨errors, -, h⟩ := Option.bind_eq_some_iff.1 h
    cases h
    exact .inl (cache_update (by rfl) d)
  · split at h <;> cases h
    exact .inl (cache_update (by rfl) d)
  · obtain ⟨⟨values, reasons⟩, -, h⟩ := Option.bind_eq_some_iff.1 h
    cases h
    exact .inl (cache_update (by rfl) d)
  · cases h
    exact .inl (cache_update (by rfl) d)
  · rename_i errors hd
    cases h
    by_cases hdc : d = c
    · subst hdc
      refine .inr ⟨rfl, ?_, errors, hd⟩
      split
      · exact (cache_update (by rfl) d).trans (by simp [State.setContainer])
      · simp [State.setContainer]
    · left
      split
      · exact (cache_update (by rfl) d).trans (by simp [State.setContainer, hdc])
      · simp [State.setContainer, hdc]
  · cases h

theorem State.Placing.step (hi : Inv s) (h : s.Placing placed) {l : Label τ} (hl : ∀ c ps, l ≠ .override c ps) (hs : step s l = some s') :
    ∃ placed', s'.Placing placed' ∧ s.Extends placed s' placed' := by
  have hturn {k : CallId} {v : Call τ} (hv : s.call k = some v) (hrun : s.running = none ∨ s.running = some k) (ht : CallStep s k v s') :
      ∃ placed', s'.Placing placed' ∧ s.Extends placed s' placed' := by
    obtain ⟨ht⟩ := ht
    obtain ⟨hb, he⟩ := (hi.turn_effect hv ht).placing h
    obtain ⟨placed', hp, he'⟩ := hb.goOn (hi.turn_wf hv hrun ht)
    exact ⟨placed', hp, he.trans he'⟩
  have hquiet (hu : s'.unpublished = s.unpublished) (hp : s'.promises = s.promises)
      (hc : ∀ c, (s'.container c).cache = (s.container c).cache ∨ (s'.container c).cache = ∅) :
      ∃ placed', s'.Placing placed' ∧ s.Extends placed s' placed' := by
    refine ⟨placed, h.of_cached hu hp fun c => ?_, .of_cached hu hp fun c key q hq => ?_⟩
    · rcases hc c with hc | hc <;> rw [hc]
      exact List.nil_sublist _
    · unfold State.cached at hq
      rcases hc c with hc | hc <;> rw [hc] at hq
      · exact hq
      · simp at hq
  cases step_cases hs with
  | @register c ps =>
    have ho := (register_outside hi.keyed c ps).1
    exact hquiet ho.unpublished ho.promises fun c => .inl (by rw [register_container])
  | override => exact absurd rfl (hl _ _)
  | createRequestScope => exact hquiet rfl rfl fun c => .inl rfl
  | @resolve c t =>
    have ho := startResolve_eq s c t
    exact hquiet (by rw [ho]) (by rw [ho]) fun d => .inl (by rw [ho])
  | @dispose c =>
    have ho := (dispose_outside s c).1
    exact hquiet ho.unpublished ho.promises fun d => .inl (dispose_cache s c d)
  | advance hr hv ht => exact hturn hv (.inr hr) ht
  | resume hr hv ht => exact hturn hv (.inl hr) ht
  | settle hr hv _ ht => exact hturn hv (.inl hr) ht
  | stale _ ht =>
    have ho := (runStale_outside ht).1
    exact hquiet ho.unpublished ho.promises fun c => .inl (runStale_cache ht c)
  | disposal _ ht =>
    have ho := (continueDisposal_outside ht).1
    exact hquiet ho.unpublished ho.promises fun c => (continueDisposal_cache_eq ht c).imp_right (·.2.1)

end Placing

/-! ## What a disposal takes -/

structure State.Snapshot (s : State τ) (placed : List PromiseId) (c : ContainerId) (tokens providers : List PromiseId) : Prop where
  ofTokens : List.Sublist tokens placed
  ofProviders : List.Sublist providers placed
  token : ∀ q ∈ tokens, ∃ key, s.keyOf q = some (c, key) ∧ key.isToken = true
  provider : ∀ q ∈ providers, ∃ key, s.keyOf q = some (c, key) ∧ key.isToken = false

section Snapshot
variable {placed : List PromiseId} {c d : ContainerId} {tokens providers : List PromiseId} {p q : PromiseId} {key : CacheKey τ}

theorem State.Placing.snapshot (hw : WF s) (h : s.Placing placed) (c : ContainerId) :
    s.Snapshot placed c ((s.container c).entriesOf true) ((s.container c).entriesOf false) where
  ofTokens := (entriesOf_sublist s c true).trans (h.cached c)
  ofProviders := (entriesOf_sublist s c false).trans (h.cached c)
  token := fun q hq => by
    obtain ⟨key, hk, hq⟩ := mem_entriesOf.1 hq
    exact ⟨key, hw.cached_keyOf hq, hk⟩
  provider := fun q hq => by
    obtain ⟨key, hk, hq⟩ := mem_entriesOf.1 hq
    exact ⟨key, hw.cached_keyOf hq, hk⟩

namespace State.Snapshot

omit [DecidableEq τ] in
theorem keyOf (h : s.Snapshot placed c tokens providers) (hq : q ∈ tokens ++ providers) : ∃ key, s.keyOf q = some (c, key) := by
  rcases List.mem_append.1 hq with hq | hq
  · obtain ⟨key, hk, -⟩ := h.token q hq
    exact ⟨key, hk⟩
  · obtain ⟨key, hk, -⟩ := h.provider q hq
    exact ⟨key, hk⟩

omit [DecidableEq τ] in
theorem isToken (h : s.Snapshot placed c tokens providers) (hq : q ∈ tokens) (hk : s.keyOf q = some (d, key)) :
    c = d ∧ key.isToken = true := by
  obtain ⟨key', hk', ht⟩ := h.token q hq
  rw [hk] at hk'
  cases hk'
  exact ⟨rfl, ht⟩

omit [DecidableEq τ] in
theorem isProvider (h : s.Snapshot placed c tokens providers) (hq : q ∈ providers) (hk : s.keyOf q = some (d, key)) :
    c = d ∧ key.isToken = false := by
  obtain ⟨key', hk', ht⟩ := h.provider q hq
  rw [hk] at hk'
  cases hk'
  exact ⟨rfl, ht⟩

omit [DecidableEq τ] in
theorem mem_placed (h : s.Snapshot placed c tokens providers) (hq : q ∈ tokens ++ providers) : q ∈ placed :=
  (List.mem_append.1 hq).elim (fun hq => h.ofTokens.subset hq) fun hq => h.ofProviders.subset hq

omit [DecidableEq τ] in
theorem nodup (h : s.Snapshot placed c tokens providers) (hn : placed.Nodup) : (tokens ++ providers).Nodup := by
  refine (hn.sublist h.ofTokens).append (hn.sublist h.ofProviders) fun q hq hq' => ?_
  obtain ⟨key, hk, ht⟩ := h.token q hq
  rw [(h.isProvider hq' hk).2] at ht
  cases ht

omit [DecidableEq τ] in
theorem mono {placed' : List PromiseId} (h : s.Snapshot placed c tokens providers) (hp : placed <+: placed')
    (hk : ∀ q at', s.keyOf q = some at' → s'.keyOf q = some at') : s'.Snapshot placed' c tokens providers where
  ofTokens := h.ofTokens.trans hp.sublist
  ofProviders := h.ofProviders.trans hp.sublist
  token := fun q hq => (h.token q hq).imp fun _ hkey => ⟨hk q _ hkey.1, hkey.2⟩
  provider := fun q hq => (h.provider q hq).imp fun _ hkey => ⟨hk q _ hkey.1, hkey.2⟩

variable {later : List PromiseId} (h : s.Snapshot placed c tokens providers) (hn : (placed ++ later).Nodup)
include h hn

omit [DecidableEq τ] in
theorem ahead (hp : p ∈ tokens ++ providers) (hq : q ∈ tokens ++ providers) (ho : s.Outlives (placed ++ later) p q) :
    Ahead (tokens ++ providers) p q := by
  have hpart {part : List PromiseId} (hpart : List.Sublist part placed) (hp : p ∈ part) (hq : q ∈ part)
      (ha : Ahead (placed ++ later) p q) : Ahead part p q :=
    .of_sublist hn (hpart.trans (List.sublist_append_left placed later)) hp hq ha
  obtain ⟨d, key, d', key', hkp, hkq, ho⟩ := ho
  rcases List.mem_append.1 hp with hp | hp <;> rcases List.mem_append.1 hq with hq | hq
  · obtain ⟨rfl, htp⟩ := h.isToken hp hkp
    obtain ⟨rfl, htq⟩ := h.isToken hq hkq
    rcases ho with ⟨hroot, hne⟩ | ⟨-, ⟨-, hf⟩ | ⟨-, ha⟩⟩
    · exact absurd hroot hne
    · rw [htq] at hf; cases hf
    · exact (hpart h.ofTokens hp hq ha).mono (List.sublist_append_left _ _)
  · exact .of_mem hp hq
  · obtain ⟨rfl, htp⟩ := h.isProvider hp hkp
    obtain ⟨rfl, htq⟩ := h.isToken hq hkq
    rcases ho with ⟨hroot, hne⟩ | ⟨-, ⟨ht, -⟩ | ⟨heq, -⟩⟩
    · exact absurd hroot hne
    · rw [htp] at ht; cases ht
    · rw [htp, htq] at heq; cases heq
  · obtain ⟨rfl, htp⟩ := h.isProvider hp hkp
    obtain ⟨rfl, -⟩ := h.isProvider hq hkq
    rcases ho with ⟨hroot, hne⟩ | ⟨-, ⟨ht, -⟩ | ⟨-, ha⟩⟩
    · exact absurd hroot hne
    · rw [htp] at ht; cases ht
    · exact (hpart h.ofProviders hp hq ha).mono (List.sublist_append_right _ _)

omit [DecidableEq τ] in
theorem outlives (ha : Ahead (tokens ++ providers) p q) : s.Outlives (placed ++ later) p q := by
  have hnodup : (tokens ++ providers).Nodup := h.nodup (List.nodup_append.1 hn).1
  have horder {part : List PromiseId} (hpart : List.Sublist part placed) (ha : Ahead part p q) : Ahead (placed ++ later) p q :=
    ha.mono (hpart.trans (List.sublist_append_left placed later))
  rcases List.mem_append.1 ha.left with hp | hp <;> rcases List.mem_append.1 ha.right with hq | hq
  · obtain ⟨key, hkp, htp⟩ := h.token p hp
    obtain ⟨key', hkq, htq⟩ := h.token q hq
    exact ⟨c, key, c, key', hkp, hkq, .inr ⟨rfl, .inr ⟨htp.trans htq.symm, horder h.ofTokens
      (.of_sublist hnodup (List.sublist_append_left _ _) hp hq ha)⟩⟩⟩
  · obtain ⟨key, hkp, htp⟩ := h.token p hp
    obtain ⟨key', hkq, htq⟩ := h.provider q hq
    exact ⟨c, key, c, key', hkp, hkq, .inr ⟨rfl, .inl ⟨htp, htq⟩⟩⟩
  · exact absurd ha (Ahead.asymm hnodup (.of_mem hq hp))
  · obtain ⟨key, hkp, htp⟩ := h.provider p hp
    obtain ⟨key', hkq, htq⟩ := h.provider q hq
    exact ⟨c, key, c, key', hkp, hkq, .inr ⟨rfl, .inr ⟨htp.trans htq.symm, horder h.ofProviders
      (.of_sublist hnodup (List.sublist_append_right _ _) hp hq ha)⟩⟩⟩

end State.Snapshot
end Snapshot
end Fluo.Di
