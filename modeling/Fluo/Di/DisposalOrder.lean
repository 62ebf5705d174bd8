import Fluo.Di.Carried
import Fluo.Di.Disposals
/-!
# The order of a disposal

What a disposal destroys is a snapshot of the caches, read backwards. In a run whose steps are in order, an instance that was
handed to a construction is behind what came of that construction there, and so it is destroyed later.
-/

namespace Fluo.Di

open Lib (Ahead after passes)

variable {τ : Type}

/-! ## What a run is watched for -/

/-- The container tree, with what has been handed to each construction and what each disposal is for. -/
structure Watched (τ : Type) where
  state : State τ
  /-- The arguments of the constructor or the factory that gave a promise its value. -/
  passed : List (PromiseId × List Value) := []
  /-- What a container took from its caches when it was disposed last. -/
  entries : ContainerId → List PromiseId := fun _ => []
  /-- What that call of `dispose` is for: at the root, also what the live request scopes took. -/
  covers : ContainerId → List PromiseId := fun _ => []

/-- The arguments of the constructor or the factory that returns in a step. -/
def passedBy (s : State τ) : Label τ → List (PromiseId × List Value)
  | .settle k outcome => match s.call k, outcome.value? s.nextObject with
    | some v, some _ => match v.stack with
      | .build _ _ _ deps (some q) :: _ => [(q, deps)]
      | _ => []
    | _, _ => []
  | _ => []

/-- The snapshot of its caches, if a step makes the container take it. -/
def newEntries (u u' : Container τ) : Option (List PromiseId) :=
  match u.disposal, u'.disposal with
  | .stale _ _, _ => none
  | _, .stale entries _ => some entries
  | _, _ => none

def Watched.init (classes : JsMap τ (ClassMetadata τ)) : Watched τ := { state := .init classes }

/-- The records after a step to `s'`. -/
def Watched.next (w : Watched τ) (l : Label τ) (s' : State τ) : Watched τ where
  state := s'
  passed := w.passed ++ passedBy w.state l
  entries := fun c => (newEntries (w.state.container c) (s'.container c)).getD (w.entries c)
  covers := fun c => match newEntries (w.state.container c) (s'.container c) with
    | none => w.covers c
    | some entries => entries ++ match (w.state.container c).disposal with
      | .children scopes => scopes.flatMap w.covers
      | _ => []

def Watched.step [DecidableEq τ] (w : Watched τ) (l : Label τ) : Option (Watched τ) := (Di.step w.state l).map (w.next l)

/-- Of two instances that one `dispose` is for, the one that the other was constructed from is destroyed later. -/
def Watched.Ordered (w : Watched τ) : Prop :=
  ∀ c, ∀ q ∈ w.covers c, ∀ q' ∈ w.covers c, ∀ o o', w.state.instanceOf q = some o → w.state.instanceOf q' = some o' →
    ∀ deps, (q, deps) ∈ w.passed → o' ∈ disposablesOf deps → o' ≠ o → ∀ pre post, w.state.destroyed = pre ++ o' :: post → o ∈ pre

variable [DecidableEq τ] {s s' : State τ} {placed placed' order entries : List PromiseId} {c d : ContainerId} {p q : PromiseId} {o o' : Obj}

/-! ## Snapshots -/

section Snapshots
variable (s : State τ) (placed order : List PromiseId) (c : ContainerId) (entries : List PromiseId)

def State.Taken : Prop := ∃ tokens providers, entries = tokens ++ providers ∧ s.Snapshot placed c tokens providers

structure State.Open : Prop where
  cached : ∀ q ∈ entries, (∀ e, s.status q ≠ some (.rejected e)) → ∃ key, s.cached c key = some q
  first : ∀ key q, s.cached c key = some q → q ∈ entries ∨ ∀ p ∈ entries, Ahead order p q

/-- All entries are settled, and they are the first ones for their objects. -/
structure State.Closed : Prop where
  settled : ∀ q ∈ entries, s.status q ≠ some .pending
  founder : ∀ q ∈ entries, ∀ o p, s.instanceOf q = some o → s.Founder order o p → p ∈ entries

def State.Gone : Prop := ∀ q ∈ entries, ∀ o, s.instanceOf q = some o → o ∈ s.destroyed

/-- The instances of the entries, in the order in which they are destroyed. -/
def State.destroyList : List Obj := (entries.filterMap s.instanceOf).reverse.dedup

/-- How the disposal of a container stands with the entries it has taken. -/
def State.Stage : Disposal τ → Prop
  | .stale taken _ | .entries taken _ => taken = entries ∧ s.Open order c entries
  | .destroying rest _ => s.Closed order entries ∧ ∃ done, s.destroyList entries = done ++ rest ∧ ∀ o ∈ done, o ∈ s.destroyed
  | .children _ => c = root ∧ s.Closed order entries ∧ s.Gone entries
  | _ => s.Closed order entries ∧ s.Gone entries

/-- A promise that a disposal of `c` is for: one of its own entries, or one of a request scope that has been disposed. -/
def State.Over (q : PromiseId) : Prop := q ∈ entries ∨
  c = root ∧ ∃ d key, d ≠ root ∧ s.keyOf q = some (d, key) ∧ s.status q ≠ some .pending ∧ ∀ o, s.instanceOf q = some o → o ∈ s.destroyed

end Snapshots

omit [DecidableEq τ] in
theorem State.Taken.keyOf (h : s.Taken placed c entries) (hq : q ∈ entries) : ∃ key, s.keyOf q = some (c, key) := by
  obtain ⟨tokens, providers, rfl, hs⟩ := h
  exact hs.keyOf hq

omit [DecidableEq τ] in
theorem State.Taken.mem_placed (h : s.Taken placed c entries) (hq : q ∈ entries) : q ∈ placed := by
  obtain ⟨tokens, providers, rfl, hs⟩ := h
  exact hs.mem_placed hq

omit [DecidableEq τ] in
theorem State.Founder.keyOf (h : s.Founder order o p) (hq : s.instanceOf q = some o) {key : CacheKey τ} (hk : s.keyOf q = some (c, key)) :
    ∃ key', s.keyOf p = some (c, key') := by
  rcases h.2 q hq with rfl | ⟨d, key₁, key₂, hp, hq', -⟩
  · exact ⟨key, hk⟩
  · rw [hk] at hq'
    cases hq'
    exact ⟨key₁, hp⟩

section Destroy
variable (hb : Books s placed) (ht : s.Taken placed c entries) (hc : s.Closed (placed ++ s.unpublished) entries)
include hb ht hc

theorem State.Closed.ahead (hq : q ∈ entries) (ho : s.instanceOf q = some o) (hp : p ∈ entries) (ho' : s.instanceOf p = some o')
    (hout : ∀ p p', s.Founder (placed ++ s.unpublished) o p → s.Founder (placed ++ s.unpublished) o' p' →
      s.Outlives (placed ++ s.unpublished) p' p) : Ahead (s.destroyList entries) o o' := by
  obtain ⟨p₁, hf₁⟩ := hb.founder q o ho
  obtain ⟨p₂, hf₂⟩ := hb.founder p o' ho'
  have hm₁ := hc.founder q hq o p₁ ho hf₁
  have hm₂ := hc.founder p hp o' p₂ ho' hf₂
  obtain ⟨tokens, providers, rfl, hs⟩ := ht
  have hnodup := hb.placing.nodup
  have hne := hs.nodup (List.nodup_append.1 hnodup).1
  have ha := hs.ahead hnodup hm₂ hm₁ (hout _ _ hf₁ hf₂)
  refine Ahead.dedup_reverse (List.mem_filterMap.2 ⟨q, hq, ho⟩) fun l₁ l₂ hl => ?_
  obtain ⟨e₁, e₂, he, rfl, he₂⟩ := List.filterMap_eq_append_iff.1 hl
  obtain ⟨skipped, q', e₃, rfl, hskipped, hq', -⟩ := List.filterMap_eq_cons_iff.1 he₂
  -- every promise with `o` has the first one with `o'` in front of it
  have hfront : Ahead (tokens ++ providers) p₂ q' := by
    rcases hf₁.2 q' hq' with rfl | hl'
    · exact ha
    · exact ha.trans hne (hs.ahead hnodup hm₁ (by rw [he]; simp) hl'.outlives)
  rw [he, ← List.append_assoc] at hne hfront
  rcases List.mem_append.1 (hfront.mem_of_append hne) with hm | hm
  · exact List.mem_filterMap.2 ⟨p₂, hm, hf₂.1⟩
  · have := hskipped p₂ hm
    rw [hf₂.1] at this
    cases this

end Destroy

/-! ## Snapshots through a step -/

section Step
variable (hi : Inv s) {l : Label τ} (hs : Di.step s l = some s')
include hi hs

theorem Inv.step_instance {key : CacheKey τ} (hk : s.keyOf q = some (c, key)) (hq : s.status q ≠ some .pending) :
    s'.instanceOf q = s.instanceOf q := by
  obtain ⟨r, hr, -⟩ := Option.map_eq_some_iff.1 hk
  have hst : s.status q = some r.status := by simp [State.status, hr]
  have hne : r.status ≠ .pending := fun h => hq (by rw [hst, h])
  simp only [State.instanceOf, State.valueOf, hst, hi.step_status hs hst hne]

theorem Inv.step_settled {key : CacheKey τ} (hk : s.keyOf q = some (c, key)) (hq : s.status q ≠ some .pending) :
    s'.status q ≠ some .pending := by
  obtain ⟨r, hr, -⟩ := Option.map_eq_some_iff.1 hk
  have hst : s.status q = some r.status := by simp [State.status, hr]
  have hne : r.status ≠ .pending := fun h => hq (by rw [hst, h])
  rw [hi.step_status hs hst hne]
  exact fun h => hne (Option.some.inj h)

variable (hadv : Advances s placed s' placed')
include hadv

omit hi hs in
theorem State.Taken.step (h : s.Taken placed c entries) : s'.Taken placed' c entries := by
  obtain ⟨tokens, providers, rfl, hsnap⟩ := h
  exact ⟨tokens, providers, rfl, hsnap.mono hadv.grows hadv.keyOf⟩

theorem State.Closed.step (ht : s.Taken placed c entries) (h : s.Closed (placed ++ s.unpublished) entries) :
    s'.Closed (placed' ++ s'.unpublished) entries := by
  refine ⟨fun q hq => ?_, fun q hq o p ho hf => ?_⟩
  · obtain ⟨key, hk⟩ := ht.keyOf hq
    exact hi.step_settled hs hk (h.settled q hq)
  · obtain ⟨key, hk⟩ := ht.keyOf hq
    rw [hi.step_instance hs hk (h.settled q hq)] at ho
    exact h.founder q hq o p ho (hadv.founder o (hi.toWF.mem_objects_of_instance ho) p hf)

omit hadv in
theorem State.Closed.destroyList_step (ht : s.Taken placed c entries) (h : s.Closed order entries) :
    s'.destroyList entries = s.destroyList entries := by
  unfold State.destroyList
  congr 2
  refine List.filterMap_congr fun q hq => ?_
  obtain ⟨key, hk⟩ := ht.keyOf hq
  exact hi.step_instance hs hk (h.settled q hq)

omit hadv in
theorem State.Gone.step (ht : s.Taken placed c entries) (h : s.Closed order entries) (hg : s.Gone entries)
    (hd : ∀ o ∈ s.destroyed, o ∈ s'.destroyed) : s'.Gone entries := by
  intro q hq o ho
  obtain ⟨key, hk⟩ := ht.keyOf hq
  rw [hi.step_instance hs hk (h.settled q hq)] at ho
  exact hd o (hg q hq o ho)

theorem State.Over.step (h : s.Over c entries q) (hd : ∀ o ∈ s.destroyed, o ∈ s'.destroyed) : s'.Over c entries q := by
  refine h.imp_right fun ⟨hc, d, key, hne, hk, hst, hg⟩ => ⟨hc, d, key, hne, hadv.keyOf q _ hk, hi.step_settled hs hk hst, fun o ho => ?_⟩
  rw [hi.step_instance hs hk hst] at ho
  exact hd o (hg o ho)

theorem State.Open.step (hl : s.InOrder l) (hp' : s'.Placing placed') (ht : s.Taken placed c entries)
    (hd : ∀ errors, (s.container c).disposal ≠ .destroying [] errors) (h : s.Open (placed ++ s.unpublished) c entries) :
    s'.Open (placed' ++ s'.unpublished) c entries := by
  refine ⟨fun q hq hst => ?_, fun key q hq => ?_⟩
  · have hst' : ∀ e, s.status q ≠ some (.rejected e) := fun e he => hst e (hi.step_status hs he nofun)
    obtain ⟨key, hc⟩ := h.cached q hq hst'
    rcases hi.step_stays hl hs hc with hc' | ⟨e, he⟩ | ⟨-, errors, hdis⟩
    · exact ⟨key, hc'⟩
    · exact absurd he (hst e)
    · exact absurd hdis (hd errors)
  · have hlater (hq' : q ∉ placed) : ∀ p ∈ entries, Ahead (placed' ++ s'.unpublished) p q := by
      intro p hp
      obtain ⟨new, rfl⟩ := hadv.grows
      have hmem : q ∈ placed ++ new := (hp'.cached c).subset (mem_cachedIn.2 ⟨key, hq⟩)
      have hnew : q ∈ new := (List.mem_append.1 hmem).resolve_left hq'
      exact (Ahead.of_mem (ht.mem_placed hp) hnew).mono (List.sublist_append_left _ _)
    rcases hadv.fresh q ⟨c, key, hq⟩ with ⟨d, key', hq₀⟩ | hq'
    · have hk := hadv.keyOf q _ (hi.cached_keyOf hq₀)
      rw [(hi.step hs).cached_keyOf hq] at hk
      cases hk
      exact (h.first key q hq₀).imp_right fun ha p hp => (ha p hp).mono hadv.order
    · exact .inr (hlater hq')

end Step

theorem State.Open.closed (hi : Inv s) (hb : Books s placed) (h : s.Open (placed ++ s.unpublished) c entries)
    (hsettled : ∀ q ∈ entries, s.status q ≠ some .pending) : s.Closed (placed ++ s.unpublished) entries := by
  refine ⟨hsettled, fun q hq o p ho hf => ?_⟩
  have hfulfilled := status_of_valueOf (valueOf_of_instance ho).1
  obtain ⟨key, hc⟩ := h.cached q hq (by rw [hfulfilled]; nofun)
  obtain ⟨d, key', hp⟩ := hb.kept q o p ho ⟨c, key, hc⟩ hf
  obtain ⟨key'', hk⟩ := hf.keyOf ho (hi.cached_keyOf hc)
  rw [hi.cached_keyOf hp] at hk
  cases hk
  rcases h.first key' p hp with hm | hall
  · exact hm
  rcases hf.2 q ho with rfl | ⟨_, _, _, -, -, -, ha⟩
  · exact hq
  · exact absurd ha (Ahead.asymm hb.placing.nodup (hall q hq))

omit [DecidableEq τ] in
theorem mem_destroyList : o ∈ s.destroyList entries ↔ ∃ q ∈ entries, s.instanceOf q = some o := by
  simp [State.destroyList]

theorem State.Open.of_caches (s : State τ) (order : List PromiseId) (c : ContainerId) : s.Open order c (s.entryPromises c) :=
  ⟨fun _ hq _ => mem_entryPromises.1 hq, fun key _ hq => .inl (mem_entryPromises.2 ⟨key, hq⟩)⟩

section NewEntries
omit [DecidableEq τ]
variable {u u' : Container τ}

theorem newEntries_of_eq (h : u'.disposal = u.disposal) : newEntries u u' = none := by
  simp only [newEntries, h]
  cases u.disposal <;> rfl

theorem newEntries_of_started {errors : List (DiError τ)} (h : u.disposal.started = false) (hd : u'.disposal = .stale entries errors) :
    newEntries u u' = some entries := by
  simp only [newEntries, hd]
  cases hdis : u.disposal with
  | stale => rw [hdis] at h; cases h
  | _ => rfl

theorem newEntries_of_children {scopes : List ContainerId} (h : u'.disposal = .children scopes) : newEntries u u' = none := by
  simp only [newEntries, h]
  cases u.disposal <;> rfl

end NewEntries

omit [DecidableEq τ] in
theorem Moves.newEntries (h : Moves s s' c) : newEntries (s.container c) (s'.container c) = none ∨
    newEntries (s.container c) (s'.container c) = some (s.entryPromises c) ∧
      ((s.container c).disposal.started = false ∨
        ∃ scopes, (s.container c).disposal = .children scopes ∧ ∀ d ∈ scopes, ∃ es, (s.container d).disposal = .settled es) := by
  cases h with
  | stays h => exact .inl (newEntries_of_eq h)
  | starts hstarted hd => exact .inr ⟨newEntries_of_started hstarted hd, .inl hstarted⟩
  | awaits _ _ hd => exact .inl (newEntries_of_children hd)
  | gathers hd hsettled hd' => exact .inr ⟨by simp [Di.newEntries, hd, hd'], .inr ⟨_, hd, hsettled⟩⟩
  | goesOn hd hd' | lists hd _ hd' | destroys hd hd' | ends hd hd' => exact .inl (by simp [Di.newEntries, hd, hd'])

section Stage
variable (hi : Inv s) {l : Label τ} (hl : s.InOrder l) (hs : Di.step s l = some s') (ho : Orderly s placed) (hp' : s'.Placing placed')
  (hadv : Advances s placed s' placed') (hd : ∀ o ∈ s.destroyed, o ∈ s'.destroyed)
include hi hl hs ho hp' hadv hd

theorem Moves.stage (hm : Moves s s' c) (ht : s.Taken placed c entries)
    (hst : s.Stage (placed ++ s.unpublished) c entries (s.container c).disposal) :
    s'.Taken placed' c ((Di.newEntries (s.container c) (s'.container c)).getD entries) ∧
      s'.Stage (placed' ++ s'.unpublished) c ((Di.newEntries (s.container c) (s'.container c)).getD entries) (s'.container c).disposal := by
  have hclosed (h : s.Closed (placed ++ s.unpublished) entries) : s'.Closed (placed' ++ s'.unpublished) entries := h.step hi hs hadv ht
  have hgone (h : s.Closed (placed ++ s.unpublished) entries) (hg : s.Gone entries) : s'.Gone entries := hg.step hi hs ht h hd
  have hopen (h : s.Open (placed ++ s.unpublished) c entries) (hne : ∀ errors, (s.container c).disposal ≠ .destroying [] errors) :
      s'.Open (placed' ++ s'.unpublished) c entries := h.step hi hs hadv hl hp' ht hne
  have htake (hne : ∀ errors, (s.container c).disposal ≠ .destroying [] errors)
      (hnew : Di.newEntries (s.container c) (s'.container c) = some (s.entryPromises c))
      {errors : List (DiError τ)} (hd' : (s'.container c).disposal = .stale (s.entryPromises c) errors) :
      s'.Taken placed' c ((Di.newEntries (s.container c) (s'.container c)).getD entries) ∧
        s'.Stage (placed' ++ s'.unpublished) c ((Di.newEntries (s.container c) (s'.container c)).getD entries) (s'.container c).disposal := by
    have ht₀ : s.Taken placed c (s.entryPromises c) := ⟨_, _, entryPromises_eq s c, ho.books.placing.snapshot hi.toWF c⟩
    rw [hnew, hd']
    exact ⟨ht₀.step hadv, rfl, (State.Open.of_caches s _ c).step hi hs hadv hl hp' ht₀ hne⟩
  have hsame (hnone : Di.newEntries (s.container c) (s'.container c) = none)
      (h : s'.Stage (placed' ++ s'.unpublished) c entries (s'.container c).disposal) :
      s'.Taken placed' c ((Di.newEntries (s.container c) (s'.container c)).getD entries) ∧
        s'.Stage (placed' ++ s'.unpublished) c ((Di.newEntries (s.container c) (s'.container c)).getD entries) (s'.container c).disposal := by
    rw [hnone]
    exact ⟨ht.step hadv, h⟩
  cases hm with
  | stays h =>
    refine hsame (newEntries_of_eq h) ?_
    rw [h]
    cases hdis : (s.container c).disposal with
    | stale | entries =>
      rw [hdis] at hst
      exact ⟨hst.1, hopen hst.2 (by rw [hdis]; nofun)⟩
    | destroying rest =>
      rw [hdis] at hst
      obtain ⟨hclosed₀, done, hlist, hdone⟩ := hst
      exact ⟨hclosed hclosed₀, done, (hclosed₀.destroyList_step hi hs ht).trans hlist, fun o ho => hd o (hdone o ho)⟩
    | children =>
      rw [hdis] at hst
      exact ⟨hst.1, hclosed hst.2.1, hgone hst.2.1 hst.2.2⟩
    | idle | settled =>
      rw [hdis] at hst
      exact ⟨hclosed hst.1, hgone hst.1 hst.2⟩
  | starts hstarted hd' =>
    refine htake (fun errors hdis => ?_) (newEntries_of_started hstarted hd') hd'
    rw [hdis] at hstarted
    cases hstarted
  | awaits hc hstarted hd' =>
    refine hsame (newEntries_of_children hd') ?_
    rw [hd']
    refine ⟨hc, ?_⟩
    cases hdis : (s.container c).disposal with
    | idle | settled =>
      rw [hdis] at hst
      exact ⟨hclosed hst.1, hgone hst.1 hst.2⟩
    | _ => rw [hdis] at hstarted; cases hstarted
  | gathers hdis _ hd' => exact htake (by rw [hdis]; nofun) (by simp [Di.newEntries, hdis, hd']) hd'
  | goesOn hdis hd' =>
    rw [hdis] at hst
    refine hsame (by simp [Di.newEntries, hdis]) ?_
    rw [hd']
    exact ⟨hst.1, hopen hst.2 (by rw [hdis]; nofun)⟩
  | lists hdis hall hd' =>
    rw [hdis] at hst
    obtain ⟨rfl, hopen₀⟩ := hst
    refine hsame (by simp [Di.newEntries, hdis, hd']) ?_
    obtain ⟨rfl, hsettled⟩ := allSettled_values hall
    have hclosed₀ := hopen₀.closed hi ho.books hsettled
    rw [hd']
    refine ⟨hclosed hclosed₀, [], ?_, nofun⟩
    rw [hclosed₀.destroyList_step hi hs ht, disposables_values]
    rfl
  | @destroys o rest _ _ hdis hd' hdestroyed =>
    rw [hdis] at hst
    obtain ⟨hclosed₀, done, hlist, hdone⟩ := hst
    refine hsame (by simp [Di.newEntries, hdis, hd']) ?_
    rw [hd']
    refine ⟨hclosed hclosed₀, done ++ [o], ?_, fun o' ho' => ?_⟩
    · rw [hclosed₀.destroyList_step hi hs ht, hlist, List.append_assoc]
      rfl
    · rw [hdestroyed]
      rcases List.mem_append.1 ho' with ho' | ho'
      · exact List.mem_append_left _ (hdone o' ho')
      · exact List.mem_append_right _ ho'
  | ends hdis hd' =>
    rw [hdis] at hst
    obtain ⟨hclosed₀, done, hlist, hdone⟩ := hst
    refine hsame (by simp [Di.newEntries, hdis, hd']) ?_
    rw [hd']
    refine ⟨hclosed hclosed₀, hgone hclosed₀ fun q hq o ho => hdone o ?_⟩
    rw [List.append_nil] at hlist
    rw [← hlist]
    exact mem_destroyList.2 ⟨q, hq, ho⟩

end Stage

/-! ## What was handed over -/

def State.Behind (s : State τ) (order : List PromiseId) (o : Obj) (deps : List Value) : Prop :=
  ∀ o' ∈ disposablesOf deps, o' ≠ o → o' ∈ s.objects ∧ ∀ p p', s.Founder order o p → s.Founder order o' p' → s.Outlives order p' p

theorem State.Behind.step {deps : List Value} (hadv : Advances s placed s' placed') (ho : o ∈ s.objects)
    (h : s.Behind (placed ++ s.unpublished) o deps) : s'.Behind (placed' ++ s'.unpublished) o deps := by
  intro o' ho' hne
  obtain ⟨hmem, hout⟩ := h o' ho' hne
  exact ⟨hadv.objects o' hmem, fun p p' hf hf' =>
    Advances.outlives hadv.keyOf hadv.order (hout p p' (hadv.founder o ho p hf) (hadv.founder o' hmem p' hf'))⟩

section Passed
variable (hi : Inv s) {l : Label τ} (hs : Di.step s l = some s')
include hi hs

theorem passedBy_cases {deps : List Value} (hm : (q, deps) ∈ passedBy s l) : ∃ k v c p rest st x, s.running = none ∧ s.call k = some v ∧
    v.stack = .build c p rest deps (some q) :: st ∧ (s.InOrder l → s.MayGive (some q) deps st x) ∧ s.status q = some .pending ∧
    s'.valueOf q = some x := by
  cases l with
  | settle k outcome =>
    simp only [passedBy] at hm
    split at hm
    · rename_i v x hv hx
      split at hm
      · rename_i c p rest deps' q' st hst
        cases List.mem_singleton.1 hm
        obtain ⟨key, hr, -⟩ := hi.building k (c, p, q) (by rw [buildsOf_eq hv, hst]; exact List.mem_cons_self)
        have hrun : s.running = none := by
          cases step_cases hs with
          | settle hr => exact hr
        refine ⟨k, v, c, p, rest, st, x, hrun, hv, hst, fun hl => ?_, by simp [State.status, hr], ?_⟩
        · have := hl v hv x hx
          simpa only [State.MayReturn, hst] using this
        obtain ⟨v', hv', hset⟩ := step_settle hs
        rw [hv] at hv'
        cases hv'
        unfold State.settle at hset
        split at hset
        · rename_i hst'
          rw [hst] at hst'
          cases hst'
          cases outcome with
          | created | returned =>
            cases hx
            cases hset
            exact (valueOf_congr (goOn_promise _ false k _) q).trans (by
              simp [State.built, State.complete, State.fulfil, hr, State.valueOf, State.status, State.setPromise, Status.value?])
          | threw => cases hx
        · cases hset
      · cases hm
    · cases hm
  | _ => cases hm

theorem Orderly.passes (ho : Orderly s placed) (hl : s.InOrder l) (hadv : Advances s placed s' placed')
    (ho' : Orderly s' placed') {deps : List Value} (hm : (q, deps) ∈ passedBy s l) (hinst : s'.instanceOf q = some o) (hq : s.Cached q) :
    s'.Behind (placed' ++ s'.unpublished) o deps := by
  obtain ⟨k, v, c, p, rest, st, x, -, hv, hst, hmay, hpending, hx⟩ := passedBy_cases hi hs hm
  have hfed := (ho.fed k v hv).stack
  rw [hst] at hfed
  have hnone : s.instanceOf q = none := by simp [State.instanceOf, State.valueOf, hpending, Status.value?]
  have hxo : x.instance? = some o := by rwa [instanceOf_eq hx] at hinst
  intro o' hmem hne
  obtain ⟨y, hy, hyo⟩ := mem_disposablesOf.1 hmem
  obtain ⟨hobj, hsuits⟩ := hfed.1 y hy o' hyo
  refine ⟨hadv.objects o' hobj, fun p p' hf hf' => Advances.outlives hadv.keyOf hadv.order ?_⟩
  have hf' := hadv.founder o' hobj p' hf'
  rcases hadv.gains q o hinst with hq' | ⟨-, hfirst⟩ | ⟨p₀, hp₀, -⟩
  · rw [hnone] at hq'
    cases hq'
  · rw [hf.unique ho'.books.placing.nodup hfirst]
    exact hsuits p' hf' c q rfl (.inr hq)
  · -- the containers had `o`, and all that hold it are disposed before what was handed over
    have hmemo := hi.toWF.mem_objects_of_instance hp₀
    have hf := hadv.founder o hmemo p hf
    have hdisp := (x.mem_disposables_of_instance hxo).2
    have hbound {p : PromiseId} {o : Obj} (h : s.instanceOf p = some o) : p < s.promises :=
      hi.toWF.bound_of_valueOf (valueOf_of_instance h).1
    obtain ⟨p₁, -, hp₁, hout⟩ := (hmay hl o hdisp hmemo).2 hxo o' hmem hne ⟨p', hbound hf'.1, hf'.1⟩
    have hout := ho.books.placing.outlives hi.toWF (hout p (hbound hf.1) hf.1)
    rcases hf'.2 p₁ hp₁ with rfl | hl'
    · exact hout
    · exact hl'.outlives_of ho.books.placing.nodup hout

end Passed

/-! ## Watched runs -/

section Kept
variable (w : Watched τ) (placed : List PromiseId)

def Watched.Counts (q : PromiseId) : Prop := w.state.Cached q ∨ ∃ c, q ∈ w.entries c

structure Watched.Kept : Prop where
  orderly : Orderly w.state placed
  tasks : w.state.staleTasks = []
  taken : ∀ c, w.state.Taken placed c (w.entries c)
  stage : ∀ c, w.state.Stage (placed ++ w.state.unpublished) c (w.entries c) (w.state.container c).disposal
  destroyed : ∀ o ∈ w.state.destroyed, o ∈ w.state.objects
  /-- What is still cached is not destroyed before its container comes to that. -/
  spared : ∀ c key q o, w.state.cached c key = some q → w.state.instanceOf q = some o → o ∈ w.state.destroyed →
    ∃ rest errors, (w.state.container c).disposal = .destroying rest errors
  covers : ∀ c, ∀ q ∈ w.covers c, w.state.Over c (w.entries c) q
  passed : ∀ q deps, (q, deps) ∈ w.passed → (w.state.valueOf q).isSome ∧
    ∀ o, w.state.instanceOf q = some o → w.Counts q → w.state.Behind (placed ++ w.state.unpublished) o deps
  ordered : w.Ordered

end Kept

omit [DecidableEq τ] in
theorem State.Outlives.container (h : s.Outlives order p q) {key key' : CacheKey τ} (hp : s.keyOf p = some (c, key))
    (hq : s.keyOf q = some (d, key')) : c = root ∧ d ≠ root ∨ c = d := by
  obtain ⟨c', _, d', _, hp', hq', ho⟩ := h
  rw [hp] at hp'
  rw [hq] at hq'
  cases hp'
  cases hq'
  exact ho.imp_right (·.1)

section Now
variable {w : Watched τ} (h : w.Kept placed)
include h

theorem Watched.Kept.same_container (hp : w.state.instanceOf p = some o) {key : CacheKey τ} (hk : w.state.keyOf p = some (c, key))
    (hq : w.state.instanceOf q = some o) {key' : CacheKey τ} (hk' : w.state.keyOf q = some (d, key')) : c = d := by
  obtain ⟨f, hf⟩ := h.orderly.books.founder p o hp
  obtain ⟨_, hfp⟩ := hf.keyOf hp hk
  obtain ⟨_, hfq⟩ := hf.keyOf hq hk'
  rw [hfp] at hfq
  cases hfq
  rfl

theorem Watched.Kept.pending (hq : q ∈ w.entries c) (hp : w.state.status q = some .pending) :
    w.state.Open (placed ++ w.state.unpublished) c (w.entries c) ∧ ∀ rest errors, (w.state.container c).disposal ≠ .destroying rest errors := by
  have hst := h.stage c
  cases hdis : (w.state.container c).disposal with
  | stale | entries =>
    rw [hdis] at hst
    exact ⟨hst.2, nofun⟩
  | children =>
    rw [hdis] at hst
    exact absurd hp (hst.2.1.settled q hq)
  | idle | settled | destroying =>
    rw [hdis] at hst
    exact absurd hp (hst.1.settled q hq)

theorem Watched.Kept.mem_covers {l : Label τ} (hm : Moves w.state s' c) (hq : q ∈ (w.next l s').covers c) :
    newEntries (w.state.container c) (s'.container c) = none ∧ q ∈ w.covers c ∨
    newEntries (w.state.container c) (s'.container c) = some (w.state.entryPromises c) ∧
      (∀ rest errors, (w.state.container c).disposal ≠ .destroying rest errors) ∧
      (q ∈ w.state.entryPromises c ∨ c = root ∧ ∃ d, d ≠ root ∧ q ∈ w.covers d ∧ q ∈ w.entries d ∧ ∃ es, (w.state.container d).disposal = .settled es) := by
  rcases hm.newEntries with hnone | ⟨hnew, hwhy⟩
  · simp only [Watched.next, hnone] at hq
    exact .inl ⟨hnone, hq⟩
  simp only [Watched.next, hnew] at hq
  refine .inr ⟨hnew, fun rest errors hdis => ?_, ?_⟩
  · rcases hwhy with hstarted | ⟨_, hdis', -⟩
    · rw [hdis] at hstarted
      cases hstarted
    · rw [hdis] at hdis'
      cases hdis'
  rcases List.mem_append.1 hq with hq | hscopes
  · exact .inl hq
  rcases hwhy with hstarted | ⟨scopes, hdis, hsettled⟩
  · split at hscopes
    · rename_i hdis
      rw [hdis] at hstarted
      cases hstarted
    · cases hscopes
  rw [hdis] at hscopes
  obtain ⟨d, hd, hqd⟩ := List.mem_flatMap.1 hscopes
  have hst := h.stage c
  rw [hdis] at hst
  obtain ⟨rfl, -⟩ := hst
  obtain ⟨es, hes⟩ := hsettled d hd
  have hne : d ≠ root := by
    rintro rfl
    rw [hdis] at hes
    cases hes
  exact .inr ⟨rfl, d, hne, hqd, (h.covers d q hqd).resolve_right fun hroot => hne hroot.1, es, hes⟩

end Now

section Step
variable {w : Watched τ} (hi : Inv w.state) (h : w.Kept placed) {l : Label τ} (hl : w.state.InOrder l) (hs : Di.step w.state l = some s')
  (ho' : Orderly s' placed') (hadv : Advances w.state placed s' placed') (hh : Handles w.state s')
include hi h hs hadv

theorem Watched.Kept.spared_before {key : CacheKey τ} (hc : s'.cached c key = some q) (hq : s'.instanceOf q = some o)
    (hd : o ∈ w.state.destroyed) : ∃ rest errors, (w.state.container c).disposal = .destroying rest errors := by
  have hk' := (hi.step hs).cached_keyOf hc
  rcases hadv.gains q o hq with hq' | ⟨hno, -⟩ | ⟨p, hp, ⟨d, key₁, hcp⟩, ⟨e, key₂, key₃, hkp, hkq, -⟩⟩
  · obtain ⟨d, key', hc'⟩ := hadv.cached hi.toWF (by rw [(valueOf_of_instance hq').1]; rfl) ⟨c, key, hc⟩
    rw [hadv.keyOf q _ (hi.cached_keyOf hc')] at hk'
    cases hk'
    exact h.spared c key q o hc' hq' hd
  · exact absurd (h.destroyed o hd) hno
  · rw [hi.cached_keyOf hcp] at hkp
    cases hkp
    rw [hadv.keyOf q _ hkq] at hk'
    cases hk'
    exact h.spared c key₁ p o hcp hp hd

include hh

theorem Watched.Kept.spared_step {key : CacheKey τ} (hc : s'.cached c key = some q) (hq : s'.instanceOf q = some o)
    (hd : o ∈ s'.destroyed) : ∃ rest errors, (s'.container c).disposal = .destroying rest errors := by
  have hold (hd : o ∈ w.state.destroyed) : ∃ rest errors, (s'.container c).disposal = .destroying rest errors := by
    obtain ⟨rest, errors, hdis⟩ := h.spared_before hi hs hadv hc hq hd
    cases hh.move c with
    | stays hsame => exact ⟨rest, errors, hsame.trans hdis⟩
    | starts hstarted | awaits _ hstarted => rw [hdis] at hstarted; cases hstarted
    | gathers hdis' | goesOn hdis' | lists hdis' => rw [hdis] at hdis'; cases hdis'
    | destroys _ hd' => exact ⟨_, _, hd'⟩
    | ends _ _ hempty => simp [State.cached, hempty] at hc
  cases hh with
  | call _ hsame | moves _ _ hsame =>
    rw [hsame] at hd
    exact hold hd
  | @destroys d o₁ rest errors errors' hdis hdis' _ hpromise hdestroyed =>
    rw [hdestroyed] at hd
    rcases List.mem_append.1 hd with hd | hd
    · exact hold hd
    cases List.mem_singleton.1 hd
    have hstage := h.stage d
    rw [hdis] at hstage
    obtain ⟨-, done, hlist, -⟩ := hstage
    obtain ⟨q₀, hq₀, hqo⟩ := mem_destroyList.1 (show o ∈ w.state.destroyList (w.entries d) by rw [hlist]; simp)
    obtain ⟨key₀, hk₀⟩ := (h.taken d).keyOf hq₀
    have hk : w.state.keyOf q = some (c, key) := by
      have := (hi.step hs).cached_keyOf hc
      rwa [State.keyOf, hpromise] at this
    have hq' : w.state.instanceOf q = some o := by rwa [State.instanceOf, valueOf_congr hpromise] at hq
    obtain rfl := h.same_container hqo hk₀ hq' hk
    exact ⟨rest, errors', hdis'⟩

theorem Watched.Kept.covers_step (hq : q ∈ (w.next l s').covers c) : s'.Over c ((w.next l s').entries c) q := by
  rcases h.mem_covers (hh.move c) hq with ⟨hnone, hq⟩ | ⟨hnew, -, hq | ⟨rfl, d, hne, -, hq, es, hdis⟩⟩
  · have := (h.covers c q hq).step hi hs hadv hh.mono
    simpa only [Watched.next, hnone, Option.getD_none] using this
  · refine .inl ?_
    simpa only [Watched.next, hnew, Option.getD_some] using hq
  · obtain ⟨key, hk⟩ := (h.taken d).keyOf hq
    have hst := h.stage d
    rw [hdis] at hst
    exact State.Over.step hi hs hadv (.inr ⟨rfl, d, key, hne, hk, hst.1.settled q hq, hst.2 q hq⟩) hh.mono

omit h hs in
theorem Watched.counts_step (hv : (w.state.valueOf q).isSome) (hq : (w.next l s').Counts q) : w.Counts q := by
  rcases hq with hq | ⟨c, hq⟩
  · exact .inl (hadv.cached hi.toWF hv hq)
  rcases (hh.move c).newEntries with hnone | ⟨hnew, -⟩
  · simp only [Watched.next, hnone, Option.getD_none] at hq
    exact .inr ⟨c, hq⟩
  · simp only [Watched.next, hnew, Option.getD_some] at hq
    exact .inl ⟨c, mem_entryPromises.1 hq⟩

include hl ho' in
theorem Watched.Kept.passed_step {deps : List Value} (hm : (q, deps) ∈ (w.next l s').passed) : (s'.valueOf q).isSome ∧
    ∀ o, s'.instanceOf q = some o → (w.next l s').Counts q → s'.Behind (placed' ++ s'.unpublished) o deps := by
  rcases List.mem_append.1 hm with hm | hm
  · obtain ⟨hv, hbehind⟩ := h.passed q deps hm
    obtain ⟨x, hx⟩ := Option.isSome_iff_exists.1 hv
    have hx' := hadv.values q x hx
    refine ⟨by rw [hx']; rfl, fun o ho hcounts => ?_⟩
    have ho : w.state.instanceOf q = some o := by rw [instanceOf_eq hx]; rwa [instanceOf_eq hx'] at ho
    exact (hbehind o ho (Watched.counts_step hi hadv hh hv hcounts)).step hadv (hi.toWF.mem_objects_of_instance ho)
  · obtain ⟨k, v, c, p, rest, st, x, hrun, hv, hst, -, hpending, hx⟩ := passedBy_cases hi hs hm
    refine ⟨by rw [hx]; rfl, fun o ho hcounts => h.orderly.passes hi hs hl hadv ho' hm ho ?_⟩
    rcases hcounts with hq | ⟨c, hq⟩
    · rcases hadv.live q (.inr hq) with (hu | hc) | hle
      · rw [hi.idle hrun] at hu
        cases hu
      · exact hc
      · obtain ⟨r, hr, -⟩ := Option.map_eq_some_iff.1 hpending
        exact absurd (hi.promiseBound q r hr) (Nat.not_lt.2 hle)
    rcases (hh.move c).newEntries with hnone | ⟨hnew, -⟩
    · simp only [Watched.next, hnone, Option.getD_none] at hq
      exact ⟨c, (h.pending hq hpending).1.cached q hq (by rw [hpending]; nofun)⟩
    · simp only [Watched.next, hnew, Option.getD_some] at hq
      exact ⟨c, mem_entryPromises.1 hq⟩

include hl ho' in
theorem Watched.Kept.ordered_step : (w.next l s').Ordered := by
  intro c q hq q' hq' o o' hinst hinst' deps hm hmem hne pre post hsplit
  have hbehind (hcounts : (w.next l s').Counts q) : s'.Behind (placed' ++ s'.unpublished) o deps :=
    (h.passed_step hi hl hs ho' hadv hh hm).2 o hinst hcounts
  change s'.destroyed = pre ++ o' :: post at hsplit
  change s'.instanceOf q = some o at hinst
  change s'.instanceOf q' = some o' at hinst'
  -- the instances of a request scope are not what those of the root were constructed from
  have hscope {d : ContainerId} {key key' : CacheKey τ} (hcounts : (w.next l s').Counts q) (hk : s'.keyOf q = some (root, key))
      (hk' : s'.keyOf q' = some (d, key')) (hd : d ≠ root) : False := by
    obtain ⟨p, hf⟩ := ho'.books.founder q o hinst
    obtain ⟨p', hf'⟩ := ho'.books.founder q' o' hinst'
    obtain ⟨_, hp⟩ := hf.keyOf hinst hk
    obtain ⟨_, hp'⟩ := hf'.keyOf hinst' hk'
    rcases ((hbehind hcounts o' hmem hne).2 p p' hf hf').container hp' hp with ⟨hroot, -⟩ | hroot
    · exact hd hroot
    · exact hd hroot
  -- a promise has its instance from before the step, unless the step made it
  have hfirst {o : Obj} (hv : (w.state.valueOf q).isSome) (ho : s'.instanceOf q = some o) : w.state.instanceOf q = some o := by
    obtain ⟨x, hx⟩ := Option.isSome_iff_exists.1 hv
    rw [instanceOf_eq hx]
    rwa [instanceOf_eq (hadv.values q x hx)] at ho
  have hrecorded (hsame : s'.promise = w.state.promise) : (q, deps) ∈ w.passed := by
    refine (List.mem_append.1 hm).resolve_right fun hm => ?_
    obtain ⟨_, _, _, _, _, _, x, -, -, -, -, hpending, hx⟩ := passedBy_cases hi hs hm
    rw [valueOf_congr hsame, State.valueOf, hpending] at hx
    cases hx
  cases hh with
  | call hdis hdestroyed =>
    have hnone (c : ContainerId) : newEntries (w.state.container c) (s'.container c) = none := newEntries_of_eq (hdis c)
    simp only [Watched.next, hnone] at hq hq'
    rw [hdestroyed] at hsplit
    have hd' : o' ∈ w.state.destroyed := by rw [hsplit]; simp
    have hold' : w.state.instanceOf q' = some o' := by
      rcases hadv.gains q' o' hinst' with hold | ⟨hno, -⟩ | ⟨p, hp, ⟨d, key₁, hcp⟩, ⟨e, key₂, key₃, hkp, hkq, -⟩⟩
      · exact hold
      · exact absurd (h.destroyed o' hd') hno
      · rw [hi.cached_keyOf hcp] at hkp
        cases hkp
        by_cases hpending : w.state.status q' = some .pending
        · have hent := (h.covers c q' hq').resolve_right (by rintro ⟨_, _, _, _, _, hst, -⟩; exact hst hpending)
          obtain ⟨key, hk⟩ := (h.taken c).keyOf hent
          rw [hk] at hkq
          cases hkq
          obtain ⟨rest, errors, hdest⟩ := h.spared _ _ p o' hcp hp hd'
          exact absurd hdest ((h.pending hent hpending).2 rest errors)
        · rwa [hi.step_instance hs hkq hpending] at hinst'
    rcases List.mem_append.1 hm with hm | hm
    · exact h.ordered c q hq q' hq' o o' (hfirst (h.passed q deps hm).1 hinst) hold' deps hm hmem hne pre post hsplit
    -- the construction ends in this step, so the disposal still waits for it
    obtain ⟨_, _, _, _, _, _, _, -, -, -, -, hpending, -⟩ := passedBy_cases hi hs hm
    have hent := (h.covers c q hq).resolve_right (by rintro ⟨_, _, _, _, _, hst, -⟩; exact hst hpending)
    obtain ⟨hopen, hwaits⟩ := h.pending hent hpending
    rcases h.covers c q' hq' with hent' | ⟨rfl, d, key, hd, hk, -⟩
    · obtain ⟨key, hc⟩ := hopen.cached q' hent' (by rw [status_of_valueOf (valueOf_of_instance hold').1]; simp)
      obtain ⟨rest, errors, hdest⟩ := h.spared c key q' o' hc hold' hd'
      exact absurd hdest (hwaits rest errors)
    · obtain ⟨key', hk'⟩ := (h.taken root).keyOf hent
      have hcounts : (w.next l s').Counts q := .inr ⟨root, by simpa only [Watched.next, hnone, Option.getD_none] using hent⟩
      exact (hscope hcounts (hadv.keyOf q _ hk') (hadv.keyOf q' _ hk) hd).elim
  | moves hmoves hpromise hdestroyed =>
    have hm := hrecorded hpromise
    have hval (q : PromiseId) : s'.instanceOf q = w.state.instanceOf q := congrArg (·.bind Value.instance?) (valueOf_congr hpromise q)
    rw [hdestroyed] at hsplit
    rw [hval] at hinst hinst'
    have hd' : o' ∈ w.state.destroyed := by rw [hsplit]; simp
    have hbefore (hcounts : w.Counts q) {p p'} := ((h.passed q deps hm).2 o hinst hcounts o' hmem hne).2 p p'
    rcases h.mem_covers (hmoves c) hq with ⟨hnone, hqc⟩ | ⟨hnew, hwaits, hqc⟩ <;>
      rcases h.mem_covers (hmoves c) hq' with ⟨hnone', hqc'⟩ | ⟨hnew', -, hqc'⟩
    · exact h.ordered c q hqc q' hqc' o o' hinst hinst' deps hm hmem hne pre post hsplit
    · rw [hnone] at hnew'
      cases hnew'
    · rw [hnew] at hnone'
      cases hnone'
    rcases hqc' with hcached | ⟨rfl, d', hd'', hqd', hent', -⟩
    · -- what the container still has in its caches is not destroyed yet
      obtain ⟨key, hc⟩ := mem_entryPromises.1 hcached
      obtain ⟨rest, errors, hdest⟩ := h.spared c key q' o' hc hinst' hd'
      exact absurd hdest (hwaits rest errors)
    obtain ⟨key', hk'⟩ := (h.taken d').keyOf hent'
    rcases hqc with hcached | ⟨-, d, -, hqd, hent, -⟩
    · obtain ⟨key, hc⟩ := mem_entryPromises.1 hcached
      refine (hscope ?_ (hadv.keyOf q _ (hi.cached_keyOf hc)) (hadv.keyOf q' _ hk') hd'').elim
      exact .inr ⟨root, by simpa only [Watched.next, hnew, Option.getD_some] using hcached⟩
    · obtain ⟨key, hk⟩ := (h.taken d).keyOf hent
      obtain ⟨f, hf⟩ := h.orderly.books.founder q o hinst
      obtain ⟨f', hf'⟩ := h.orderly.books.founder q' o' hinst'
      obtain ⟨_, hkf⟩ := hf.keyOf hinst hk
      obtain ⟨_, hkf'⟩ := hf'.keyOf hinst' hk'
      rcases (hbefore (.inr ⟨d, hent⟩) hf hf').container hkf' hkf with ⟨hroot, -⟩ | rfl
      · exact absurd hroot hd''
      · exact h.ordered d' q hqd q' hqd' o o' hinst hinst' deps hm hmem hne pre post hsplit
  | @destroys c₁ o₁ rest errors errors' hdis hdis' hother hpromise hdestroyed =>
    have hm := hrecorded hpromise
    have hval (q : PromiseId) : s'.instanceOf q = w.state.instanceOf q := congrArg (·.bind Value.instance?) (valueOf_congr hpromise q)
    rw [hdestroyed] at hsplit
    rw [hval] at hinst hinst'
    have hnone (c : ContainerId) : newEntries (w.state.container c) (s'.container c) = none := by
      by_cases hc : c = c₁
      · subst hc
        simp [newEntries, hdis, hdis']
      · exact newEntries_of_eq (hother c hc)
    simp only [Watched.next, hnone] at hq hq'
    rcases List.eq_nil_or_concat post with rfl | ⟨post, b, rfl⟩
    swap
    · rw [List.concat_eq_append, ← List.cons_append, ← List.append_assoc] at hsplit
      exact h.ordered c q hq q' hq' o o' hinst hinst' deps hm hmem hne pre post (List.append_inj_left' hsplit rfl)
    obtain ⟨rfl, hlast⟩ := List.append_inj' hsplit rfl
    cases hlast
    rcases h.covers c q hq with hent | ⟨-, _, _, -, -, -, hgone⟩
    swap
    · exact hgone o hinst
    have hst := h.stage c₁
    rw [hdis] at hst
    obtain ⟨hclosed, done, hlist, hdone⟩ := hst
    obtain ⟨q₀, hq₀, hqo⟩ := mem_destroyList.1 (show o' ∈ w.state.destroyList (w.entries c₁) by rw [hlist]; simp)
    obtain ⟨key₀, hk₀⟩ := (h.taken c₁).keyOf hq₀
    obtain ⟨key, hk⟩ := (h.taken c).keyOf hent
    have hbefore {p p'} := ((h.passed q deps hm).2 o hinst (.inr ⟨c, hent⟩) o' hmem hne).2 p p'
    rcases h.covers c q' hq' with hent' | ⟨rfl, d, key', hd, hk', -⟩
    · obtain ⟨key', hk'⟩ := (h.taken c).keyOf hent'
      obtain rfl := h.same_container hqo hk₀ hinst' hk'
      have ha := hclosed.ahead h.orderly.books (h.taken c₁) hent hinst hent' hinst' fun p p' => hbefore
      rw [hlist] at ha
      refine hdone o (ha.mem_of_append ?_)
      rw [← hlist]
      exact List.nodup_dedup _
    · exact (hscope (.inr ⟨root, by simpa only [Watched.next, hnone, Option.getD_none] using hent⟩) (hadv.keyOf q _ hk) (hadv.keyOf q' _ hk') hd).elim

end Step

theorem Watched.Kept.step {w w' : Watched τ} (hi : Inv w.state) (h : w.Kept placed) {l : Label τ} (hl : w.state.InOrder l)
    (hs : w.step l = some w') : ∃ placed', w'.Kept placed' := by
  obtain ⟨s', hnext, rfl⟩ := Option.map_eq_some_iff.1 hs
  obtain ⟨placed', ho', hadv⟩ := h.orderly.step hi hl hnext
  obtain ⟨hh, htasks⟩ := hi.step_handles hl h.tasks hnext
  have hstage (c : ContainerId) := (hh.move c).stage hi hl hnext h.orderly ho'.books.placing hadv hh.mono (h.taken c) (h.stage c)
  refine ⟨placed', ho', htasks, fun c => (hstage c).1, fun c => (hstage c).2, fun o ho => ?_, fun c key q o hc hq hd => ?_,
    fun c q hq => h.covers_step hi hnext hadv hh hq, fun q deps hm => h.passed_step hi hl hnext ho' hadv hh hm,
    h.ordered_step hi hl hnext ho' hadv hh⟩
  · have hold (ho : o ∈ w.state.destroyed) : o ∈ s'.objects := hadv.objects o (h.destroyed o ho)
    cases hh with
    | call _ hsame | moves _ _ hsame =>
      refine hold ?_
      rwa [← hsame]
    | @destroys d o₁ rest _ _ hdis _ _ _ hdestroyed =>
      change o ∈ s'.destroyed at ho
      rw [hdestroyed] at ho
      rcases List.mem_append.1 ho with ho | ho
      · exact hold ho
      cases List.mem_singleton.1 ho
      have hst := h.stage d
      rw [hdis] at hst
      obtain ⟨-, done, hlist, -⟩ := hst
      obtain ⟨q, -, hq⟩ := mem_destroyList.1 (show o ∈ w.state.destroyList (w.entries d) by rw [hlist]; simp)
      exact hadv.objects o (hi.toWF.mem_objects_of_instance hq)
  · exact h.spared_step hi hnext hadv hh hc hq hd

theorem Watched.Kept.init (classes : JsMap τ (ClassMetadata τ)) : (Watched.init classes).Kept [] where
  orderly := {
    books := {
      placing := ⟨List.nodup_nil, nofun, fun _ => List.nil_sublist _⟩
      founder := nofun
      kept := nofun
      values := nofun }
    fed := nofun
    normalized := .empty classes }
  tasks := rfl
  taken := fun _ => ⟨[], [], rfl, List.nil_sublist _, List.nil_sublist _, nofun, nofun⟩
  stage := fun _ => ⟨⟨nofun, nofun⟩, nofun⟩
  destroyed := nofun
  spared := nofun
  covers := nofun
  passed := nofun
  ordered := nofun

theorem run_kept {classes : JsMap τ (ClassMetadata τ)} {ls : List (Label τ)} {w : Watched τ}
    (h : Lib.Run Watched.step (fun w l => w.state.InOrder l) (Watched.init classes) ls w) : Inv w.state ∧ ∃ placed, w.Kept placed := by
  refine h.keeps (fun w => Inv w.state ∧ ∃ placed, w.Kept placed) (fun w l w' hl ⟨hi, placed, hk⟩ hs => ⟨?_, hk.step hi hl hs⟩) ⟨Inv.init classes, [], .init classes⟩
  obtain ⟨s', hnext, rfl⟩ := Option.map_eq_some_iff.1 hs
  exact hi.step hnext

/-- In a run whose steps are in order, no disposal destroys an instance before one that was constructed from it. -/
theorem disposal_ordered {classes : JsMap τ (ClassMetadata τ)} {ls : List (Label τ)} {w : Watched τ}
    (h : Lib.Run Watched.step (fun w l => w.state.InOrder l) (Watched.init classes) ls w) : w.Ordered := by
  obtain ⟨-, placed, hk⟩ := run_kept h
  exact hk.ordered

/-! ## Two runs -/

/-- A factory with these dependencies. -/
private def factory (token : Nat) (dependencies : List Nat) : Provider Nat :=
  .object { provide := some token, useFactory := some true, inject := some (dependencies.map fun t => some (.token t)) }

private def disposes : List (Label Nat) := .dispose root :: List.replicate 5 (.disposal root none)

/-- Token 0 is made from token 1, and both are disposed. -/
private def passedOn : Watched Nat := after Watched.step (Watched.init ∅)
  ([.register root [factory 0 [1], factory 1 []], .resolve root 0, .advance, .advance, .settle 0 (.created true), .resume 0,
    .resume 0, .settle 0 (.created true), .resume 0] ++ disposes)

theorem disposal_ordered_pair : passedOn.Ordered ∧ passedOn.covers root = [1, 0] ∧ passedOn.state.destroyed = [.made 1 true, .made 0 true] := by
  refine ⟨disposal_ordered (Lib.Run.of_passes (p := fun w l => decide (w.state.InOrder l)) (fun _ _ h => of_decide_eq_true h) ?_), ?_, ?_⟩
  all_goals decide +kernel

/-- Token 0 is made from the tokens 1 and 2. The factory of the first is awaited before the second is asked for, so what
comes of the second is cached after what it is passed to, and destroyed before it. -/
private def triple : List (Label Nat) :=
  [.register root [factory 0 [1, 2], factory 1 [], factory 2 []], .resolve root 0, .advance, .advance, .settle 0 (.created true),
    .resume 0, .resume 0, .advance, .settle 0 (.created true), .resume 0, .resume 0, .settle 0 (.created true), .resume 0] ++
    disposes

theorem disposal_unordered : ∃ ls w, Lib.Run Watched.step (fun _ _ => True) (Watched.init (∅ : JsMap Nat (ClassMetadata Nat))) ls w ∧
    ¬ w.Ordered := by
  refine ⟨triple, _, Lib.Run.of_passes (p := fun _ _ => true) (fun _ _ _ => trivial) (by decide +kernel), fun h => ?_⟩
  have hmem : Obj.made 2 true ∈ [] := h root 0 (by decide +kernel) 2 (by decide +kernel) (.made 2 true) (.made 1 true)
    (by decide +kernel) (by decide +kernel) [.object (.made 0 true), .object (.made 1 true)] (List.mem_of_getElem? (i := 2) rfl)
    (by decide +kernel) (by decide +kernel) [] [.made 2 true, .made 0 true] (by decide +kernel)
  cases hmem

end Fluo.Di
