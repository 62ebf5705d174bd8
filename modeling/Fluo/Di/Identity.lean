import Fluo.Di.Keeps
/-!
# Singleton identity

Two calls that resolve the same default-scope provider at the root within one
override period return one instance. A call is first `Seeking` (it follows
aliases), then `Attached` to a promise: what the promise is settled with is
what the call returns. The promise `Stays` where a later call finds it until
it is rejected, the root is disposed, or an override affects it. The one thing
that breaks this is a late rejection: it removes the entry of a newer promise
under the same token.
-/

namespace Fluo.Di

open Lib (Run after passes step_after)

variable {τ : Type} [DecidableEq τ] {s s' base : State τ} {g : Graph τ} {k : CallId} {v w : Call τ} {sync : Bool}

/-! ## Dependencies -/

/-- A provider of `t` refers to `u`. -/
def Graph.Depends (g : Graph τ) (c : ContainerId) (t u : τ) : Prop := ∃ p ∈ g.providersOf c t, u ∈ p.dependencies

/-- `u` is `t` or a transitive dependency of it. -/
def Graph.Reaches (g : Graph τ) (c : ContainerId) (t u : τ) : Prop := Relation.ReflTransGen (g.Depends c) t u

variable {c : ContainerId} {u t : τ} {q : PromiseId} {l : Label τ}

theorem Graph.reaches_of_references (fuel : Nat) : ∀ (visited : List τ) (t : τ),
    g.dependencyTokenReferencesToken c u fuel visited t = true → g.Reaches c t u := by
  induction fuel with
  | zero => intro _ _ h; simp [Graph.dependencyTokenReferencesToken] at h
  | succ fuel ih =>
    intro visited t h
    simp only [Graph.dependencyTokenReferencesToken, Bool.or_eq_true, decide_eq_true_eq, Bool.and_eq_true,
      List.any_eq_true] at h
    rcases h with rfl | ⟨_, p, hp, d, hd, h⟩
    · exact .refl
    · exact .head ⟨p, hp, hd⟩ (ih _ _ h)

theorem Graph.reaches_of_invalidate (h : g.shouldInvalidate c u (.token t) = true) :
    g.Reaches c t u := by
  simp only [Graph.shouldInvalidate, Bool.or_eq_true, decide_eq_true_eq, List.any_eq_true] at h
  rcases h with rfl | ⟨p, hp, h⟩
  · exact .refl
  · obtain ⟨d, hd, h⟩ := List.any_eq_true.1 h
    exact .head ⟨p, hp, hd⟩ (g.reaches_of_references _ _ _ h)

/-- On `c`, token `t` leads through aliases to the default-scope provider of
`u`, which `c` has not registered itself. -/
inductive Graph.Shared (g : Graph τ) (c : ContainerId) (u : τ) : τ → Prop
  | provider {p} : g.Single c u p → (∀ t, p.type ≠ .existing t) → p.scope = .default →
      (c = root ∨ g.registration c u = none) → Graph.Shared g c u u
  | existing {t target p} : g.Single c t p → p.type = .existing target → Graph.Shared g c u target → Graph.Shared g c u t

/-! ## Periods -/

/-- A round of an override on `c` replaces `t` or a dependency of it. -/
def State.RoundsAffect (c : ContainerId) (t : τ) : State τ → List (τ × List (NormalizedProvider τ)) → Prop
  | _, [] => False
  | s, (u, ps) :: rest => ∃ s', s.overrideToken c u ps = .ok s' ∧ (s.graph.Reaches c t u ∨ State.RoundsAffect c t s' rest)

/-- The step is an override on the root that affects `t`. -/
def OverrideAffects (t : τ) (s : State τ) : Label τ → Prop
  | .override c providers => c = root ∧ ∃ ps, normalizeAll s.classes s.nextProvider providers = .ok ps ∧
      State.RoundsAffect root t { s with nextProvider := s.nextProvider + ps.length } (normalizedByToken ps)
  | _ => False

/-- The step is the rejection of a construction of `t`, and the cache of the
root already holds a newer one. -/
def EvictsNewer (t : τ) (s : State τ) : Label τ → Prop
  | .resume k => ∃ v e c p rest deps q st q', s.call k = some v ∧ v.control = .rejected e ∧
      v.stack = .build c p rest deps (some q) :: st ∧ s.keyOf q = some (root, .token t) ∧
      s.cached root (.token t) = some q' ∧ q' ≠ q
  | _ => False

/-- A step within one period of `t`. -/
def SamePeriod (t : τ) (s : State τ) (l : Label τ) : Prop := ¬ OverrideAffects t s l ∧ ¬ EvictsNewer t s l

/-! ## What a call is attached to -/

def OnlyChains (st : List (Frame τ)) : Prop := ∀ f ∈ st, ∃ c t, f = .chain c t

inductive Attached (s : State τ) (q : PromiseId) (v : Call τ) : Prop
  | waits : v.control = .cached q → OnlyChains v.stack → Attached s q v
  | runs (upper) {c p rest deps st} : v.stack = upper ++ .build c p rest deps (some q) :: st → OnlyChains st → Attached s q v
  | returns {x} : v.control = .fulfilled x → OnlyChains v.stack → s.status q = some (.fulfilled x) → Attached s q v

def Failing (v : Call τ) : Prop := ∃ e, v.control = .rejected e ∧ OnlyChains v.stack

def Seeks (s : State τ) (u : τ) (v : Call τ) : Prop :=
  ∃ c t a, v.control = .resolve c t a ∧ OnlyChains v.stack ∧ s.graph.Shared c u t ∧ s.isContainer c

omit [DecidableEq τ] in
theorem OnlyChains.cons {st : List (Frame τ)} (h : OnlyChains st) : OnlyChains (.chain c t :: st) :=
  List.forall_mem_cons.2 ⟨⟨c, t, rfl⟩, h⟩

theorem Turn.suffix (h : Turn s v base sync w) {f : Frame τ} {st : List (Frame τ)} (hst : v.stack = f :: st) :
    st <:+ w.stack := by
  have h₀ : st <:+ v.stack := ⟨[f], hst.symm⟩
  have h₁ : ∀ f', st <:+ f' :: v.stack := fun f' => h₀.trans (List.suffix_cons f' _)
  have h₂ : ∀ f' f'', st <:+ f'' :: f' :: v.stack := fun f' f'' => (h₁ f').trans (List.suffix_cons f'' _)
  cases h with
  | circular | missing | awaited | awaitedError | threw | hit | existingMulti => exact h₀
  | enterMulti => exact h₂ _ _
  | existing => exact h₁ _
  | transient he hi =>
    obtain ⟨⟨rest, deps, rfl⟩, _⟩ := hi.stack
    cases he with
    | single => exact h₂ _ _
    | multi => exact h₁ _
  | outside he | wait he =>
    cases he with
    | single => exact h₁ _
    | multi => exact h₀
  | build he _ _ hi =>
    obtain ⟨⟨rest, deps, rfl⟩, _⟩ := hi.stack
    cases he with
    | single => exact h₂ _ _
    | multi => exact h₁ _
  | value _ hst' | leaveChain _ hst' | multiDone _ hst' | fail _ hst' | unwind _ hst' | created _ hst'
  | returned _ hst' =>
    rw [hst] at hst'
    cases hst'
    exact List.suffix_refl _
  | multiNext _ hst' =>
    rw [hst] at hst'
    cases hst'
    exact List.suffix_cons _ _
  | nextDep _ hst' hn =>
    rw [hst] at hst'
    cases hst'
    obtain ⟨⟨rest, deps, rfl⟩, _⟩ := hn.stack
    exact List.suffix_cons _ _

omit [DecidableEq τ] in
theorem status_complete {r : Construction τ} (hr : s.promise q = some r) (x : Value) :
    (s.complete (some q) x).status q = some (.fulfilled x) := by
  simp [State.complete, State.fulfil, hr, State.status, State.setPromise]

theorem status_reject {r : Construction τ} (hr : s.promise q = some r) (e : DiError τ) :
    (s.reject q e).status q = some (.rejected e) := by
  simp [State.reject, hr, State.status, State.setPromise, State.modifyCache, State.setContainer]

theorem Failing.turn (h : Failing v) (ht : Turn s v base sync w) : Failing w := by
  obtain ⟨e, hctl, hst⟩ := h
  have htail : ∀ {f st}, v.stack = f :: st → OnlyChains st := fun hs f' hf => hst f' (hs ▸ List.mem_cons_of_mem _ hf)
  cases ht with
  | fail h hs =>
    obtain ⟨c, t, hf⟩ := hst _ (hs ▸ List.mem_cons_self)
    cases hf
  | unwind h hs => exact ⟨e, hctl, htail hs⟩
  | transient he | outside he | wait he | build he => cases he <;> simp_all
  | _ => simp_all

/-- The turns of a call that has frames above the construction it waits for,
or is that construction, end in what the promise is settled with. -/
theorem Attached.turn (h : Inv s) (hv : s.call k = some v) (ha : Attached s q v)
    (ht : Turn s v base sync w) : Attached (base.goOn sync k w) q w ∨ Failing w := by
  have hstatus : ∀ {w'}, base.status q = some (.fulfilled w') → (base.goOn sync k w).status q = some (.fulfilled w') := by
    intro w' hw; rw [goOn_status]; exact hw
  cases ha with
  | waits hctl hst =>
    cases ht with
    | awaited hq hx =>
      rw [hctl] at hq
      cases hq
      exact .inl (.returns rfl hst (hstatus hx))
    | awaitedError => exact .inr ⟨_, rfl, hst⟩
    | transient he | outside he | wait he | build he => cases he <;> simp_all
    | _ => simp_all
  | returns hctl hst hx =>
    have htop : ∀ {f st}, v.stack = f :: st → ∃ c t, f = .chain c t := fun hs => hst _ (hs ▸ List.mem_cons_self)
    cases ht with
    | leaveChain _ hs =>
      exact .inl (.returns hctl (fun f hf => hst f (hs ▸ List.mem_cons_of_mem _ hf)) (hstatus hx))
    | multiDone _ hs | multiNext _ hs | nextDep _ hs => obtain ⟨c, t, hf⟩ := htop hs; cases hf
    | transient he | outside he | wait he | build he => cases he <;> simp_all
    | _ => simp_all
  | @runs upper c p rest deps st hstack hst =>
    cases upper with
    | cons f upper =>
      obtain ⟨pre, hw⟩ := ht.suffix hstack
      exact .inl (.runs (pre ++ upper) (hw.symm.trans (List.append_assoc pre upper _).symm) hst)
    | nil =>
      obtain ⟨key, hr, _⟩ := h.building k (c, p, q) (by rw [buildsOf_eq hv, hstack]; exact List.mem_cons_self)
      have hmore : ∀ pre, w.stack = pre ++ v.stack → Attached (base.goOn sync k w) q w := fun pre hw =>
        .runs pre (hw.trans (by rw [hstack]; rfl)) hst
      cases ht with
      | circular | missing | awaited | awaitedError | threw | hit | existingMulti => exact .inl (hmore [] rfl)
      | enterMulti => exact .inl (hmore [_, _] rfl)
      | existing => exact .inl (hmore [_] rfl)
      | transient he hi =>
        obtain ⟨⟨rest, deps, rfl⟩, _⟩ := hi.stack
        cases he with
        | single => exact .inl (hmore [_, _] rfl)
        | multi => exact .inl (hmore [_] rfl)
      | outside he | wait he =>
        cases he with
        | single => exact .inl (hmore [_] rfl)
        | multi => exact .inl (hmore [] rfl)
      | build he _ _ hi =>
        obtain ⟨⟨rest, deps, rfl⟩, _⟩ := hi.stack
        cases he with
        | single => exact .inl (hmore [_, _] rfl)
        | multi => exact .inl (hmore [_] rfl)
      | value _ hs | created _ hs | returned _ hs =>
        rw [hstack] at hs
        cases hs
        exact .inl (.returns rfl hst (hstatus (status_complete hr _)))
      | fail hctl hs =>
        rw [hstack] at hs
        cases hs
        exact .inr ⟨_, hctl, hst⟩
      | nextDep _ hs hn =>
        rw [hstack] at hs
        cases hs
        obtain ⟨⟨rest, deps, rfl⟩, _⟩ := hn.stack
        exact .inl (.runs [] rfl hst)
      | leaveChain _ hs | multiDone _ hs | multiNext _ hs => rw [hstack] at hs; cases hs
      | unwind _ hs hf =>
        rw [hstack] at hs
        cases hs
        exact absurd rfl (hf _ _ _ _ _)

/-! ## Seeking -/

theorem Graph.Shared.single {p : NormalizedProvider τ} (hs : g.Shared c u t)
    (hp : g.Single c t p) : (∃ target, p.type = .existing target ∧ g.Shared c u target) ∨
      t = u ∧ (∀ t', p.type ≠ .existing t') ∧ p.scope = .default ∧ (c = root ∨ g.registration c u = none) := by
  cases hs with
  | provider hp' hne hscope hreg =>
    obtain rfl := Option.some.inj (hp.lookup.symm.trans hp'.lookup)
    exact .inr ⟨rfl, hne, hscope, hreg⟩
  | existing hp' htype hs =>
    obtain rfl := Option.some.inj (hp.lookup.symm.trans hp'.lookup)
    exact .inl ⟨_, htype, hs⟩

theorem Graph.Shared.exists_single (hs : g.Shared c u t) : ∃ p, g.Single c t p := by
  cases hs with
  | provider hp => exact ⟨_, hp⟩
  | existing hp => exact ⟨_, hp⟩

inductive Sought (s : State τ) (u : τ) : State τ → Bool → Call τ → Prop
  | fails {base : State τ} {sync : Bool} {w : Call τ} : Failing w → Sought s u base sync w
  | seeks {w : Call τ} : Seeks s u w → Sought s u s true w
  | hits {base : State τ} {w : Call τ} {q : PromiseId} : s.cached root (.token u) = some q → w.control = .cached q →
      OnlyChains w.stack → Sought s u base false w
  | builds {sync : Bool} {w : Call τ} {p rest deps st} : s.cached root (.token u) = none →
      w.stack = .build root p rest deps (some s.promises) :: st → OnlyChains st →
      Sought s u (s.allocate root (.token u) p) sync w

theorem Seeks.turn (h : Inv s) (hv : Seeks s u v) (ht : Turn s v base sync w) : Sought s u base sync w := by
  obtain ⟨c, t, a, hctl, hst, hs, hc⟩ := hv
  -- a provider that is cached or constructed now is the one of `u`, at the root
  have hsite : ∀ {p}, s.graph.Single c t p → (∀ t', p.type ≠ .existing t') →
      p.scope = .default ∧ p.provide = u ∧ s.graph.singleSite c p = root := by
    intro p hp hne
    rcases hs.single hp with ⟨target, htype, _⟩ | ⟨rfl, _, hscope, hreg⟩
    · exact absurd htype (hne target)
    have hpu := h.keyed.lookup hp.lookup
    refine ⟨hscope, hpu, ?_⟩
    unfold Graph.singleSite
    split
    · rfl
    · rename_i hne
      rcases hreg with rfl | hreg
      · rfl
      · by_contra hcr
        exact hne ⟨hscope, (h.tree.requestScopeEnabled hc).2 hcr, hpu ▸ hreg⟩
  have hmulti : ∀ {c p}, v.control ≠ .multi c p := by intro c p; rw [hctl]; simp
  have hres : ∀ {c' t' a'}, v.control = .resolve c' t' a' → c' = c ∧ t' = t := by
    intro c' t' a' h'
    rw [hctl] at h'
    cases h'
    exact ⟨rfl, rfl⟩
  cases ht with
  | circular => exact .fails ⟨_, rfl, hst⟩
  | enterMulti hctl' _ hr hm =>
    obtain ⟨rfl, rfl⟩ := hres hctl'
    obtain ⟨p, hp⟩ := hs.exists_single
    rw [hp.notMulti hr] at hm
    cases hm
  | missing hctl' _ hl =>
    obtain ⟨rfl, rfl⟩ := hres hctl'
    obtain ⟨p, hp⟩ := hs.exists_single
    rw [hp.lookup] at hl
    cases hl
  | existing hctl' _ hp htype =>
    obtain ⟨rfl, rfl⟩ := hres hctl'
    rcases hs.single hp with ⟨target, htype', hs'⟩ | ⟨_, hne, _⟩
    · rw [htype] at htype'
      cases htype'
      exact .seeks ⟨_, _, _, rfl, hst.cons, hs', hc⟩
    · exact absurd htype (hne _)
  | hit hctl' _ hp hne _ hq =>
    obtain ⟨rfl, rfl⟩ := hres hctl'
    obtain ⟨_, hpu, hroot⟩ := hsite hp hne
    rw [hroot, hpu] at hq
    exact .hits hq rfl hst
  | transient he =>
    cases he with
    | single hctl' _ hp hne htr =>
      obtain ⟨rfl, rfl⟩ := hres hctl'
      rw [(hsite hp hne).1] at htr
      cases htr
    | multi hctl' => exact absurd hctl' hmulti
  | outside he hscope =>
    cases he with
    | single hctl' _ hp hne =>
      obtain ⟨rfl, rfl⟩ := hres hctl'
      exact absurd (hsite hp hne).1 hscope
    | multi hctl' => exact absurd hctl' hmulti
  | wait he hq =>
    cases he with
    | single hctl' _ hp hne =>
      obtain ⟨rfl, rfl⟩ := hres hctl'
      obtain ⟨_, hpu, hroot⟩ := hsite hp hne
      rw [hroot, hpu] at hq
      exact .hits hq rfl hst.cons
    | multi hctl' => exact absurd hctl' hmulti
  | build he hq _ hi =>
    obtain ⟨⟨rest, deps, rfl⟩, _⟩ := hi.stack
    cases he with
    | single hctl' _ hp hne =>
      obtain ⟨rfl, rfl⟩ := hres hctl'
      obtain ⟨_, hpu, hroot⟩ := hsite hp hne
      rw [hroot, hpu] at hq ⊢
      exact .builds hq rfl hst.cons
    | multi hctl' => exact absurd hctl' hmulti
  | _ => simp_all

/-! ## Where the promise stays -/

/-- A call that resolves `u` at the root finds promise `q`, unless `q` is
rejected or the root is disposed. -/
structure Stays (s : State τ) (u : τ) (q : PromiseId) : Prop where
  key : s.keyOf q = some (root, .token u)
  held : q ∈ s.unpublished ∨ s.cached root (.token u) = some q ∨ (∃ e, s.status q = some (.rejected e)) ∨
    (s.container root).disposed = true

theorem step_reject (h : Inv s) {e : DiError τ} {c p rest deps q st} (hs : step s (.resume k) = some s')
    (hv : s.call k = some v) (hctl : v.control = .rejected e) (hst : v.stack = .build c p rest deps (some q) :: st) :
    s'.status q = some (.rejected e) := by
  obtain ⟨key, hr, _⟩ := h.building k (c, p, q) (by rw [buildsOf_eq hv, hst]; exact List.mem_cons_self)
  unfold step at hs
  split at hs
  · cases hs
  · simp only [hv, Option.bind_eq_bind, Option.bind_some, State.resume, hctl, hst, Option.some.injEq] at hs
    rw [← hs]
    show ((s.reject q e).goOn false k _).status q = _
    rw [goOn_status]
    exact status_reject hr e

theorem cached_invalidateAll (cs : List ContainerId) (t : τ) (d : ContainerId) (key : CacheKey τ) : ∀ s : State τ,
    (d ∈ cs → s.graph.shouldInvalidate d t key = false) →
    (cs.foldl (fun s d => s.invalidateAffectedCachedEntries d t) s).cached d key = s.cached d key := by
  induction cs with
  | nil => exact fun s _ => rfl
  | cons c cs ih =>
    intro s hd
    rw [List.foldl_cons, ih (s.invalidateAffectedCachedEntries c t) fun hm => hd (List.mem_cons_of_mem _ hm),
      cached_invalidate, if_neg]
    rintro ⟨rfl, hm⟩
    obtain ⟨e, he, rfl⟩ := List.mem_map.1 hm
    have := (List.mem_filter.1 he).2
    rw [hd List.mem_cons_self] at this
    cases this

theorem overrideToken_cached (ht : s.graph.Tree s.containers)
    {ps : List (NormalizedProvider τ)} (h : s.overrideToken c t ps = .ok s')
    (hu : c = root → ¬ s.graph.Reaches root u t) : s'.cached root (.token u) = s.cached root (.token u) := by
  unfold State.overrideToken at h
  split at h
  · cases h; rfl
  split at h <;> cases h
  refine cached_invalidateAll (s.invalidationScope c) t root (.token u) s fun hm => ?_
  have hc : c = root := by
    rcases List.mem_cons.1 hm with hm | hm
    · exact hm.symm
    · have := (List.mem_filter.1 hm).2
      simp [ht.root] at this
  refine Bool.eq_false_iff.2 fun hinv => hu hc (Graph.reaches_of_invalidate hinv)

theorem overrideAll_cached (groups : List (τ × List (NormalizedProvider τ))) :
    ∀ {s : State τ}, (∀ e ∈ groups, ∀ p ∈ e.2, p.provide = e.1) → s.graph.Keyed → s.graph.Tree s.containers →
    (c = root → ¬ State.RoundsAffect root u s groups) →
    (s.overrideAll c groups).1.cached root (.token u) = s.cached root (.token u) := by
  induction groups with
  | nil => exact fun _ _ _ _ => rfl
  | cons e groups ih =>
    intro s hp hg ht hu
    simp only [State.overrideAll]
    split
    · rfl
    · rename_i s₁ h₁
      obtain ⟨ho, hk⟩ := overrideToken_outside hg (hp e List.mem_cons_self) h₁
      have hr : c = root → ¬ s.graph.Reaches root u e.1 ∧ ¬ State.RoundsAffect root u s₁ groups := by
        rintro rfl
        have hn := hu rfl
        simp only [State.RoundsAffect, not_exists, not_and, not_or] at hn
        exact hn s₁ h₁
      rw [ih (fun e' he' => hp e' (List.mem_cons_of_mem _ he')) hk (ho.tree ht) fun hc => (hr hc).2]
      exact overrideToken_cached ht h₁ fun hc => (hr hc).1

theorem override_cached (h : Inv s) {providers : List (Provider τ)}
    (hu : ¬ OverrideAffects u s (.override c providers)) :
    (s.override c providers).1.cached root (.token u) = s.cached root (.token u) := by
  unfold State.override
  split
  · rfl
  split
  · rfl
  · rename_i ps hps
    refine overrideAll_cached (normalizedByToken ps) (fun _ => mem_normalizedByToken) h.keyed h.tree fun hc hr => hu ?_
    exact ⟨hc, ps, hps, hr⟩

theorem Stays.step (h : Inv s) (hq : Stays s u q) (hs : step s l = some s')
    (hl : SamePeriod u s l) : Stays s' u q := by
  refine ⟨h.step_keyOf hs hq.key, ?_⟩
  rcases hq.held with hu | hc | ⟨e, he⟩ | hd
  · exact (h.step_unpublished hs hu hq.key).imp_right .inl
  · by_cases hov : ∃ c ps, l = .override c ps
    · obtain ⟨c, ps, rfl⟩ := hov
      cases step_cases hs with
      | override => exact .inr (.inl ((override_cached h hl.1).trans hc))
    rcases h.step_cached hs hc with hc' | hloss
    · exact .inr (.inl hc')
    · cases hloss with
      | override => exact absurd ⟨_, _, rfl⟩ hov
      | @rejects k v e c p rest deps q' st hv hctl hst hk =>
        have hq' : q = q' := by
          by_contra hne
          exact hl.2 ⟨v, e, c, p, rest, deps, q', st, q, hv, hctl, hst, hk, hc, hne⟩
        subst hq'
        exact .inr (.inr (.inl ⟨e, step_reject h hs hv hctl hst⟩))
      | disposed hd => exact .inr (.inr (.inr ((h.step_evolves hs root).disposed hd)))
  · exact .inr (.inr (.inl ⟨e, h.step_status hs he (by simp)⟩))
  · exact .inr (.inr (.inr ((h.step_evolves hs root).disposed hd)))

/-! ## Runs -/

def State.AttachedTo (s : State τ) (k : CallId) (q : PromiseId) : Prop := ∃ v, s.call k = some v ∧ Attached s q v

def State.Fails (s : State τ) (k : CallId) : Prop := ∃ v, s.call k = some v ∧ Failing v

structure Seeking (s : State τ) (k : CallId) (u : τ) : Prop where
  record : ∃ v, s.call k = some v ∧ Seeks s u v
  running : s.running = some k
  unpublished : s.unpublished = []
  live : (s.container root).disposed = false

theorem fails_step (h : Inv s) (hk : s.Fails k) (hs : step s l = some s') : s'.Fails k := by
  obtain ⟨v, hv, hf⟩ := hk
  rcases h.step_call hs hv with hv' | ⟨base, sync, w, ht, rfl, _⟩
  · exact ⟨v, hv', hf⟩
  · exact ⟨w, by simp, hf.turn ht⟩

theorem attached_step (h : Inv s) (hk : s.AttachedTo k q) (hs : step s l = some s') :
    s'.AttachedTo k q ∨ s'.Fails k := by
  obtain ⟨v, hv, ha⟩ := hk
  rcases h.step_call hs hv with hv' | ⟨base, sync, w, ht, rfl, _⟩
  · refine .inl ⟨v, hv', ?_⟩
    cases ha with
    | waits hctl hst => exact .waits hctl hst
    | runs upper hst hc => exact .runs upper hst hc
    | returns hctl hst hx => exact .returns hctl hst (h.step_status hs hx (by simp))
  · exact (ha.turn h hv ht).imp (fun ha => ⟨w, by simp, ha⟩) fun hf => ⟨w, by simp, hf⟩

theorem Seeking.step (h : Inv s) (hk : Seeking s k u) (hs : step s l = some s') :
    SamePeriod u s l ∧ (Seeking s' k u ∨ s'.Fails k ∨ ∃ q, s'.AttachedTo k q ∧ Stays s' u q ∧
      ∀ q', s.cached root (.token u) = some q' → q = q') := by
  obtain ⟨v, hv, hseek⟩ := hk.record
  have hadv : ∃ base sync w, Turn s v base sync w ∧ s' = base.goOn sync k w ∧ l = .advance := by
    have hrun := hk.running
    cases step_cases hs with
    | advance hr hv' ht =>
      rw [hrun] at hr
      cases hr
      rw [hv] at hv'
      cases hv'
      obtain ⟨ht⟩ := ht
      exact ⟨_, _, _, ht, rfl, rfl⟩
    | register hr | override hr | createRequestScope hr | resolve hr | dispose hr | resume hr | settle hr | stale hr
    | disposal hr => rw [hrun] at hr; cases hr
  obtain ⟨base, sync, w, ht, rfl, rfl⟩ := hadv
  refine ⟨⟨id, id⟩, ?_⟩
  have hcall : (base.goOn sync k w).call k = some w := by simp
  cases hseek.turn h ht with
  | fails hf => exact .inr (.inl ⟨w, hcall, hf⟩)
  | seeks hw => exact .inl ⟨⟨w, hcall, hw⟩, rfl, hk.unpublished, hk.live⟩
  | @hits _ _ q hq hctl hst =>
    refine .inr (.inr ⟨q, ⟨w, hcall, .waits hctl hst⟩, ⟨h.step_keyOf hs (h.cached_keyOf hq), .inr (.inl ?_)⟩, ?_⟩)
    · rcases h.step_cached hs hq with hc | hl
      · exact hc
      · cases hl
    · intro q' hq'
      rw [hq] at hq'
      exact Option.some.inj hq'
  | @builds _ _ p rest deps st hnone hst hchains =>
    have hkey : (s.allocate root (.token u) p).keyOf s.promises = some (root, .token u) := by
      simp [State.keyOf, State.allocate]
    refine .inr (.inr ⟨s.promises, ⟨w, hcall, .runs [] hst hchains⟩, ⟨by rw [goOn_keyOf]; exact hkey, ?_⟩, ?_⟩)
    · exact ((h.turn_wf hv (.inr hk.running) ht).publish_goOn List.mem_cons_self hkey).imp_right .inl
    · intro q' hq'
      rw [hnone] at hq'
      cases hq'

def Engaged (s : State τ) (k : CallId) (u : τ) : Prop :=
  Seeking s k u ∨ s.Fails k ∨ ∃ q, s.AttachedTo k q ∧ Stays s u q

theorem Engaged.step (h : Inv s) (hk : Engaged s k u) (hl : SamePeriod u s l)
    (hs : step s l = some s') : Engaged s' k u := by
  rcases hk with hk | hk | ⟨q, hk, hq⟩
  · rcases (hk.step h hs).2 with hk | hk | ⟨q, hk, hq, _⟩
    · exact .inl hk
    · exact .inr (.inl hk)
    · exact .inr (.inr ⟨q, hk, hq⟩)
  · exact .inr (.inl (fails_step h hk hs))
  · rcases attached_step h hk hs with hk | hk
    · exact .inr (.inr ⟨q, hk, hq.step h hs hl⟩)
    · exact .inr (.inl hk)

def Agreeing (s : State τ) (j k : CallId) (u : τ) : Prop :=
  s.Fails j ∨ s.Fails k ∨ ∃ q, s.AttachedTo j q ∧
    ((Seeking s k u ∧ Stays s u q) ∨ ∃ q', s.AttachedTo k q' ∧ (q = q' ∨ ∃ e, s.status q = some (.rejected e)))

theorem Agreeing.step {j : CallId} (h : Inv s) (hjk : Agreeing s j k u) (hs : step s l = some s') :
    Agreeing s' j k u := by
  rcases hjk with hj | hk | ⟨q, hj, hk⟩
  · exact .inl (fails_step h hj hs)
  · exact .inr (.inl (fails_step h hk hs))
  rcases attached_step h hj hs with hj' | hj'
  swap
  · exact .inl hj'
  rcases hk with ⟨hk, hq⟩ | ⟨q', hk, hq⟩
  · obtain ⟨hl, hnext⟩ := hk.step h hs
    rcases hnext with hk' | hk' | ⟨q', hk', _, hq'⟩
    · exact .inr (.inr ⟨q, hj', .inl ⟨hk', hq.step h hs hl⟩⟩)
    · exact .inr (.inl hk')
    · refine .inr (.inr ⟨q, hj', .inr ⟨q', hk', ?_⟩⟩)
      rcases hq.held with hu | hc | ⟨e, he⟩ | hd
      · rw [hk.unpublished] at hu; cases hu
      · exact .inl (hq' q hc).symm
      · exact .inr ⟨e, h.step_status hs he (by simp)⟩
      · rw [hk.live] at hd; cases hd
  · rcases attached_step h hk hs with hk' | hk'
    · exact .inr (.inr ⟨q, hj', .inr ⟨q', hk', hq.imp_right fun ⟨e, he⟩ => ⟨e, h.step_status hs he (by simp)⟩⟩⟩)
    · exact .inr (.inl hk')

theorem seeking_of_resolve (h : Inv s) (hs : step s (.resolve c t) = some s')
    (hu : s.graph.Shared c u t) : Seeking s' s.calls u ∨ s'.Fails s.calls := by
  cases step_cases hs with
  | resolve hr hc =>
    unfold State.startResolve
    dsimp only
    split
    · exact .inr ⟨_, Function.update_self _ _ _, _, rfl, fun _ h => nomatch h⟩
    · rename_i hd
      refine .inl ⟨⟨_, Function.update_self _ _ _, c, t, false, rfl, fun _ h => (nomatch h), hu, hc⟩, rfl, h.idle hr, ?_⟩
      refine Bool.eq_false_iff.2 fun hroot => hd (List.any_eq_true.2 ⟨root, h.tree.root_mem c hc, hroot⟩)

omit [DecidableEq τ] in
theorem attached_result {x : Value} (hk : s.AttachedTo k q) (hx : s.result k = some (.ok x)) :
    s.status q = some (.fulfilled x) := by
  obtain ⟨v, hv, ha⟩ := hk
  unfold State.result at hx
  rw [hv] at hx
  cases ha with
  | waits hctl => split at hx <;> simp_all
  | runs _ hst => split at hx <;> simp_all
  | returns hctl _ hq => split at hx <;> simp_all

omit [DecidableEq τ] in
theorem fails_result {x : Value} (hk : s.Fails k) : s.result k ≠ some (.ok x) := by
  obtain ⟨v, hv, e, hctl, _⟩ := hk
  unfold State.result
  rw [hv]
  split <;> simp_all

/-- Singleton identity: two calls that resolve the same default-scope provider
at the root, both started within one period of it, return the same instance. -/
theorem singleton_identity {classes : JsMap τ (ClassMetadata τ)} {ls₀ ls₁ ls₂ : List (Label τ)}
    {s₀ s₁ s₂ s₃ s₄ : State τ} {c₁ c₂ : ContainerId} {t₁ t₂ u : τ} {x y : Value}
    (h₀ : Run step (fun _ _ => True) (State.init classes) ls₀ s₀)
    (h₁ : step s₀ (.resolve c₁ t₁) = some s₁) (hu₁ : s₀.graph.Shared c₁ u t₁)
    (h₂ : Run step (SamePeriod u) s₁ ls₁ s₂)
    (h₃ : step s₂ (.resolve c₂ t₂) = some s₃) (hu₂ : s₂.graph.Shared c₂ u t₂)
    (h₄ : Run step (fun _ _ => True) s₃ ls₂ s₄)
    (hx : s₄.result s₀.calls = some (.ok x)) (hy : s₄.result s₂.calls = some (.ok y)) : x = y := by
  have i₀ : Inv s₀ := (Inv.init classes).run h₀
  have i₁ : Inv s₁ := i₀.step h₁
  have e₁ : Engaged s₁ s₀.calls u := (seeking_of_resolve i₀ h₁ hu₁).imp_right .inl
  obtain ⟨i₂, e₂⟩ : Inv s₂ ∧ Engaged s₂ s₀.calls u :=
    h₂.keeps (fun s => Inv s ∧ Engaged s s₀.calls u) (fun _ _ _ hl hi hs => ⟨hi.1.step hs, hi.2.step hi.1 hl hs⟩) ⟨i₁, e₁⟩
  have i₃ : Inv s₃ := i₂.step h₃
  have hr₂ : s₂.running = none := by cases step_cases h₃; assumption
  have hl₃ : SamePeriod u s₂ (.resolve c₂ t₂) := ⟨id, id⟩
  have e₃ : Agreeing s₃ s₀.calls s₂.calls u := by
    rcases e₂ with hk | hk | ⟨q, hk, hq⟩
    · rw [hk.running] at hr₂; cases hr₂
    · exact .inl (fails_step i₂ hk h₃)
    rcases attached_step i₂ hk h₃ with hk' | hk'
    · rcases seeking_of_resolve i₂ h₃ hu₂ with hs | hf
      · exact .inr (.inr ⟨q, hk', .inl ⟨hs, hq.step i₂ h₃ hl₃⟩⟩)
      · exact .inr (.inl hf)
    · exact .inl hk'
  obtain ⟨_, e₄⟩ : Inv s₄ ∧ Agreeing s₄ s₀.calls s₂.calls u :=
    h₄.keeps (fun s => Inv s ∧ Agreeing s s₀.calls s₂.calls u)
      (fun _ _ _ _ hi hs => ⟨hi.1.step hs, hi.2.step hi.1 hs⟩) ⟨i₃, e₃⟩
  rcases e₄ with hj | hk | ⟨q, hj, ⟨hk, _⟩ | ⟨q', hk, hq⟩⟩
  · exact absurd hx (fails_result hj)
  · exact absurd hy (fails_result hk)
  · obtain ⟨v, hv, c, t, a, hctl, _⟩ := hk.record
    unfold State.result at hy
    rw [hv] at hy
    split at hy <;> simp_all
  · have hqx := attached_result hj hx
    have hqy := attached_result hk hy
    rcases hq with rfl | ⟨e, he⟩
    · rw [hqx] at hqy
      cases hqy
      rfl
    · rw [hqx] at he
      cases he

/-! ## Two runs -/

/-- `T` (token 0) is a factory that takes `D` (token 1), a factory too. -/
private def pair : List (Provider Nat) :=
  [.object { provide := some 0, useFactory := some true, inject := some [some (.token 1)] },
   .object { provide := some 1, useFactory := some true }]

private def noOverride : State Nat → Label Nat → Bool
  | _, .override _ _ => false
  | _, _ => true

private def noRejection (s : State Nat) : Label Nat → Bool
  | .override _ _ => false
  | .resume k => match s.call k with
    | some ⟨_, _, _, .rejected _⟩ => false
    | _ => true
  | _ => true

private theorem noOverride_ok (s : State Nat) (l : Label Nat) (h : noOverride s l = true) : ¬ OverrideAffects 0 s l := by
  cases l <;> simp_all [noOverride, OverrideAffects]

private theorem noRejection_ok (s : State Nat) (l : Label Nat) (h : noRejection s l = true) : SamePeriod 0 s l := by
  refine ⟨noOverride_ok s l (by cases l <;> simp_all [noRejection, noOverride]), fun he => ?_⟩
  cases l with
  | resume k =>
    obtain ⟨⟨c, t, stack, ctl⟩, e, d, p, rest, deps, q, st, q', hv, hctl, _⟩ := he
    dsimp only at hctl
    subst hctl
    simp [noRejection, hv] at h
  | _ => exact he

private theorem shared_pair {s : State Nat} (hm : s.graph.collectMultiProviders root 0 = [])
    (hl : s.graph.lookupProvider root 0 = some ⟨0, 0, [.token 1], .default, .factory, false⟩) :
    s.graph.Shared root 0 0 := .provider ⟨fun _ => hm, hl⟩ (by simp) rfl (.inl rfl)

private def isInstance (i : Nat) : Option (Except (DiError Nat) Value) → Bool
  | some (.ok (.object (.made j false))) => i = j
  | _ => false

private theorem eq_of_isInstance {i : Nat} {r : Option (Except (DiError Nat) Value)} (h : isInstance i r = true) :
    r = some (.ok (.object (.made i false))) := by
  unfold isInstance at h
  split at h
  · rw [of_decide_eq_true h]
  · cases h

private theorem run_any {s : State Nat} {ls : List (Label Nat)} (h : passes step (fun _ _ => true) s ls = true) :
    Run step (fun _ _ => True) s ls (after step s ls) := Run.of_passes (fun _ _ _ => trivial) h

/-- The second call starts while the first one's `D` is under construction. -/
private def shareStart : List (Label Nat) := [.register root pair]
private def shareMiddle : List (Label Nat) :=
  [.advance, .advance, .resolve root 0, .advance, .settle 0 (.created false), .resume 0, .resume 0,
   .settle 0 (.created false), .resume 0]
private def shareRest : List (Label Nat) := [.advance, .resume 2]
private def shareS₀ : State Nat := after step (State.init ∅) shareStart
private def shareS₁ : State Nat := after step shareS₀ [.resolve root 0]
private def shareS₂ : State Nat := after step shareS₁ shareMiddle
private def shareS₃ : State Nat := after step shareS₂ [.resolve root 0]
private def shareS₄ : State Nat := after step shareS₃ shareRest

theorem singleton_identity_shared :
    ∃ x, shareS₄.result shareS₀.calls = some (.ok x) ∧ shareS₄.result shareS₂.calls = some (.ok x) := by
  have h₀ : Run step (fun _ _ => True) (State.init ∅) shareStart shareS₀ := run_any (by decide)
  have h₁ : step shareS₀ (.resolve root 0) = some shareS₁ := step_after (by decide)
  have h₂ : Run step (SamePeriod 0) shareS₁ shareMiddle shareS₂ := Run.of_passes noRejection_ok (by decide)
  have h₃ : step shareS₂ (.resolve root 0) = some shareS₃ := step_after (by decide)
  have h₄ : Run step (fun _ _ => True) shareS₃ shareRest shareS₄ := run_any (by decide)
  have hx : shareS₄.result shareS₀.calls = _ := eq_of_isInstance (i := 1) (by decide)
  have hy : shareS₄.result shareS₂.calls = _ := eq_of_isInstance (i := 1) (by decide)
  have h := singleton_identity h₀ h₁ (shared_pair (by decide) (by decide)) h₂ h₃ (shared_pair (by decide) (by decide))
    h₄ hx hy
  exact ⟨_, hx, h ▸ hy⟩

/-- `D` is replaced by a value while its factory is pending for the first call. -/
private def lateStart : List (Label Nat) :=
  [.register root pair, .resolve root 0, .advance, .advance,
   .override root [.object { provide := some 1, useValue := some (.given 0 false) }]]
/-- The next call constructs `T` and returns it; then the factory of the old
`D` rejects, and the first call takes `T` from the cache. -/
private def lateMiddle : List (Label Nat) :=
  [.advance, .advance, .resume 1, .resume 1, .resume 1, .settle 1 (.created false), .resume 1,
   .settle 0 (.threw 7), .resume 0, .resume 0, .resume 0, .resume 0]
private def lateRest : List (Label Nat) :=
  [.advance, .advance, .resume 2, .resume 2, .resume 2, .settle 2 (.created false), .resume 2]
private def lateS₀ : State Nat := after step (State.init ∅) lateStart
private def lateS₁ : State Nat := after step lateS₀ [.resolve root 0]
private def lateS₂ : State Nat := after step lateS₁ lateMiddle
private def lateS₃ : State Nat := after step lateS₂ [.resolve root 0]
private def lateS₄ : State Nat := after step lateS₃ lateRest

/-- With a late rejection in the period, two calls return different instances. -/
theorem singleton_identity_late_rejection : ∃ ls₀ ls₁ ls₂ s₀ s₁ s₂ s₃ s₄,
    Run step (fun _ _ => True) (State.init (∅ : JsMap Nat (ClassMetadata Nat))) ls₀ s₀ ∧
    step s₀ (.resolve root 0) = some s₁ ∧ s₀.graph.Shared root 0 0 ∧
    Run step (fun s l => ¬ OverrideAffects 0 s l) s₁ ls₁ s₂ ∧
    step s₂ (.resolve root 0) = some s₃ ∧ s₂.graph.Shared root 0 0 ∧
    Run step (fun _ _ => True) s₃ ls₂ s₄ ∧
    s₄.result s₀.calls = some (.ok (.object (.made 0 false))) ∧
    s₄.result s₂.calls = some (.ok (.object (.made 1 false))) := by
  have h₀ : Run step (fun _ _ => True) (State.init ∅) lateStart lateS₀ := run_any (by decide)
  have h₁ : step lateS₀ (.resolve root 0) = some lateS₁ := step_after (by decide)
  have h₂ : Run step (fun s l => ¬ OverrideAffects 0 s l) lateS₁ lateMiddle lateS₂ := Run.of_passes noOverride_ok (by decide)
  have h₃ : step lateS₂ (.resolve root 0) = some lateS₃ := step_after (by decide)
  have h₄ : Run step (fun _ _ => True) lateS₃ lateRest lateS₄ := run_any (by decide +kernel)
  have hu₀ : lateS₀.graph.Shared root 0 0 := shared_pair (by decide) (by decide)
  have hu₂ : lateS₂.graph.Shared root 0 0 := shared_pair (by decide) (by decide)
  have hx : lateS₄.result lateS₀.calls = _ := eq_of_isInstance (i := 0) (by decide +kernel)
  have hy : lateS₄.result lateS₂.calls = _ := eq_of_isInstance (i := 1) (by decide +kernel)
  exact ⟨lateStart, lateMiddle, lateRest, lateS₀, lateS₁, lateS₂, lateS₃, lateS₄, h₀, h₁, hu₀, h₂, h₃, hu₂, h₄, hx, hy⟩

end Fluo.Di
