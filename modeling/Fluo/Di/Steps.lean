import Fluo.Di.Machine
/-!
# What a step can do

`Step` says once what each label does, and `CallStep` every way in which a
call goes on. The invariants are case analyses over these shapes, so none of
them unfolds the machine again.
-/

namespace Fluo.Di

variable {τ : Type} [DecidableEq τ] {s s' : State τ} {k : CallId} {v : Call τ}

/-! ## Fields of the updates -/

section Fields
variable (s : State τ)

theorem publishAll_eq (qs : List PromiseId) :
    qs.foldl State.publish s = { s with container := (qs.foldl State.publish s).container } := by
  induction qs generalizing s with
  | nil => rfl
  | cons q qs ih =>
    have h : s.publish q = { s with container := (s.publish q).container } := by
      unfold State.publish
      cases s.promise q <;> rfl
    rw [List.foldl_cons, ih, h]

theorem publishAll_container (qs : List PromiseId) (c : ContainerId) :
    (qs.foldl State.publish s).container c =
      { s.container c with cache := ((qs.foldl State.publish s).container c).cache } := by
  induction qs generalizing s with
  | nil => rfl
  | cons q qs ih =>
    rw [List.foldl_cons, ih]
    unfold State.publish
    cases s.promise q with
    | none => rfl
    | some r =>
      by_cases h : c = r.container
      · subst h; simp [State.modifyCache, State.setContainer]
      · simp [State.modifyCache, State.setContainer, h]

theorem yield_eq : s.yield = { s with
    container := (s.unpublished.foldl State.publish s).container, running := none, unpublished := [] } := by
  simp only [State.yield]; rw [publishAll_eq]

omit [DecidableEq τ] in
theorem ensureTracked_eq (c : ContainerId) :
    s.ensureTracked c = { s with container := (s.ensureTracked c).container } := by
  unfold State.ensureTracked; split <;> rfl

omit [DecidableEq τ] in
theorem ensureTracked_container (c d : ContainerId) : (s.ensureTracked c).container d =
    { s.container d with
      childScopes := ((s.ensureTracked c).container d).childScopes
      trackedByRoot := ((s.ensureTracked c).container d).trackedByRoot } := by
  unfold State.ensureTracked
  split
  · rfl
  · simp only [State.setContainer, Function.update_apply]
    split_ifs with hd hc hr
    · subst hd; rw [hc]
    · subst hd; rfl
    · rw [hr]
    · rfl

end Fields

/-! ## Call steps -/

/-- The state in which the construction of `p` under `key` on `c` has started:
its promise exists, and is not in the cache yet. -/
def State.allocate (s : State τ) (c : ContainerId) (key : CacheKey τ) (p : NormalizedProvider τ) : State τ :=
  { s with
    container := (s.ensureTracked c).container
    promise := Function.update s.promise s.promises (some ⟨c, key, p, .pending⟩)
    promises := s.promises + 1
    unpublished := s.promises :: s.unpublished }

def State.goOn (s : State τ) (sync : Bool) (k : CallId) (v : Call τ) : State τ :=
  if sync then s.proceed k v else s.suspend k v

inductive NextDep (g : Graph τ) (c : ContainerId) (p : NormalizedProvider τ) (promise : Option PromiseId)
    (st : List (Frame τ)) : List (InjectToken τ) → List Value → List (Frame τ) → Control τ → Bool → Prop
  | done {deps} : NextDep g c p promise st [] deps (.build c p [] deps promise :: st) .user false
  | absent {t rest deps} : g.has c t = false → NextDep g c p promise st (.optional t :: rest) deps
      (.build c p rest deps promise :: st) (.fulfilled .undefined) false
  | dep {e rest deps a} : (∀ t, e = .optional t → g.has c t) → NextDep g c p promise st (e :: rest) deps
      (.build c p rest deps promise :: st) (.resolve c e.target a) true

inductive Instantiate (g : Graph τ) (classes : JsMap τ (ClassMetadata τ)) (c : ContainerId)
    (p : NormalizedProvider τ) (promise : Option PromiseId) (st : List (Frame τ)) :
    List (Frame τ) → Control τ → Bool → Prop
  | scope {e} : g.scopeError classes c p = some e →
      Instantiate g classes c p promise st (.build c p [] [] promise :: st) (.rejected e) false
  | value {o} : p.type = .value o →
      Instantiate g classes c p promise st (.build c p [] [] promise :: st) (.value o) false
  | deps {st' ctl sync} : g.scopeError classes c p = none → (∀ o, p.type ≠ .value o) →
      NextDep g c p promise st p.inject [] st' ctl sync → Instantiate g classes c p promise st st' ctl sync

/-- Token `t` stands for the single provider `p` on `c`. -/
structure Graph.Single (g : Graph τ) (c : ContainerId) (t : τ) (p : NormalizedProvider τ) : Prop where
  notMulti : g.registration c t = none → g.collectMultiProviders c t = []
  lookup : g.lookupProvider c t = some p

/-- A provider is about to be taken from the cache of container `c`, or
constructed there, under `key`; the call's stack is then `st`. -/
inductive Enters (g : Graph τ) (v : Call τ) :
    ContainerId → CacheKey τ → NormalizedProvider τ → List (Frame τ) → Prop
  | single {c t a p} : v.control = .resolve c t a → t ∉ chainTokens v.stack → g.Single c t p →
      (∀ t', p.type ≠ .existing t') → p.scope ≠ .transient →
      Enters g v (g.singleSite c p) (.token p.provide) p (.chain c t :: v.stack)
  | multi {c p} : v.control = .multi c p → (∀ t', p.type ≠ .existing t') → p.scope ≠ .transient →
      Enters g v (g.multiSite c p) (.provider p) p v.stack

inductive EntersTransient (g : Graph τ) (v : Call τ) : ContainerId → NormalizedProvider τ → List (Frame τ) → Prop
  | single {c t a p} : v.control = .resolve c t a → t ∉ chainTokens v.stack → g.Single c t p →
      (∀ t', p.type ≠ .existing t') → p.scope = .transient → EntersTransient g v c p (.chain c t :: v.stack)
  | multi {c p} : v.control = .multi c p → (∀ t', p.type ≠ .existing t') → p.scope = .transient →
      EntersTransient g v c p v.stack

/-- Every way in which a call goes on from the record `v`: the state changes to
`base` and the record to `w`, and the call runs on (`sync`) or awaits. -/
inductive Turn (s : State τ) (v : Call τ) : State τ → Bool → Call τ → Prop
  | circular {c t a} : v.control = .resolve c t a → t ∈ chainTokens v.stack →
      Turn s v s false
        { v with control := .rejected (.circularDependency ((chainTokens v.stack).reverse ++ [t]) a) }
  | enterMulti {c t a p ps} : v.control = .resolve c t a → t ∉ chainTokens v.stack →
      s.graph.registration c t = none → s.graph.collectMultiProviders c t = p :: ps →
      Turn s v s true { v with stack := .multi c ps [] :: .chain c t :: v.stack, control := .multi c p }
  | missing {c t a} : v.control = .resolve c t a → t ∉ chainTokens v.stack → s.graph.lookupProvider c t = none →
      s.graph.collectMultiProviders c t = [] →
      Turn s v s false { v with control := .rejected (.containerResolution (some t)) }
  | existing {c t a p target} : v.control = .resolve c t a → t ∉ chainTokens v.stack → s.graph.Single c t p →
      p.type = .existing target →
      Turn s v s true { v with stack := .chain c t :: v.stack, control := .resolve c target false }
  | existingMulti {c p target} : v.control = .multi c p → p.type = .existing target →
      Turn s v s true { v with control := .resolve c target false }
  | transient {c p st st' ctl sync} : EntersTransient s.graph v c p st →
      Instantiate s.graph s.classes c p none st st' ctl sync →
      Turn s v s sync { v with stack := st', control := ctl }
  | hit {c t a p q} : v.control = .resolve c t a → t ∉ chainTokens v.stack → s.graph.Single c t p →
      (∀ t', p.type ≠ .existing t') → p.scope = .default →
      (s.container (s.graph.singleSite c p)).cache.lookup (.token p.provide) = some q →
      Turn s v s false { v with control := .cached q }
  | outside {d key p st} : Enters s.graph v d key p st → p.scope ≠ .default → s.graph.requestScopeEnabled d = false →
      Turn s v s false { v with stack := st, control := .rejected (.requestScopeResolution p.provide) }
  | wait {d key p st q} : Enters s.graph v d key p st → (s.container d).cache.lookup key = some q →
      Turn s v (s.ensureTracked d) false { v with stack := st, control := .cached q }
  | build {d key p st st' ctl sync} : Enters s.graph v d key p st → (s.container d).cache.lookup key = none →
      (p.scope ≠ .default → s.graph.requestScopeEnabled d) →
      Instantiate s.graph s.classes d p (some s.promises) st st' ctl sync →
      Turn s v (s.allocate d key p) sync { v with stack := st', control := ctl }
  | awaited {q x} : v.control = .cached q → s.status q = some (.fulfilled x) →
      Turn s v s false { v with control := .fulfilled x }
  | awaitedError {q e} : v.control = .cached q → s.status q = some (.rejected e) →
      Turn s v s false { v with control := .rejected e }
  | value {o c p rest deps promise st} : v.control = .value o → v.stack = .build c p rest deps promise :: st →
      Turn s v (s.complete promise (.object o)) false { v with stack := st, control := .fulfilled (.object o) }
  | leaveChain {x c t st} : v.control = .fulfilled x → v.stack = .chain c t :: st →
      Turn s v s false { v with stack := st }
  | multiDone {x c instances st} : v.control = .fulfilled x → v.stack = .multi c [] instances :: st →
      Turn s v s false { v with stack := st, control := .fulfilled (.array (instances ++ [x])) }
  | multiNext {x c p ps instances st} : v.control = .fulfilled x → v.stack = .multi c (p :: ps) instances :: st →
      Turn s v s true { v with stack := .multi c ps (instances ++ [x]) :: st, control := .multi c p }
  | nextDep {x c p rest deps promise st st' ctl sync} : v.control = .fulfilled x →
      v.stack = .build c p rest deps promise :: st → NextDep s.graph c p promise st rest (deps ++ [x]) st' ctl sync →
      Turn s v s sync { v with stack := st', control := ctl }
  | fail {e c p rest deps promise st} : v.control = .rejected e → v.stack = .build c p rest deps promise :: st →
      Turn s v (s.fail promise e) false { v with stack := st }
  | unwind {e f st} : v.control = .rejected e → v.stack = f :: st →
      (∀ c p rest deps promise, f ≠ .build c p rest deps promise) →
      Turn s v s false { v with stack := st }
  | created {disposable c p rest deps promise st} : v.control = .user → v.stack = .build c p rest deps promise :: st →
      Turn s v { s.built p promise (.object (.made s.nextObject disposable)) with nextObject := s.nextObject + 1 }
        false { v with stack := st, control := .fulfilled (.object (.made s.nextObject disposable)) }
  | returned {x c p rest deps promise st} : v.control = .user → v.stack = .build c p rest deps promise :: st →
      Turn s v (s.built p promise x) false { v with stack := st, control := .fulfilled x }
  | threw {e c p rest deps promise st} : v.control = .user → v.stack = .build c p rest deps promise :: st →
      Turn s v s false { v with control := .rejected (.user e) }

inductive CallStep (s : State τ) (k : CallId) (v : Call τ) : State τ → Prop
  | turn {base sync w} : Turn s v base sync w → CallStep s k v (base.goOn sync k w)

/-! ## Inversion -/

theorem nextDep_shape (s : State τ) (k : CallId) (v : Call τ) (c : ContainerId) (p : NormalizedProvider τ)
    (rest : List (InjectToken τ)) (deps : List Value) (promise : Option PromiseId) : ∃ st' ctl sync,
      NextDep s.graph c p promise v.stack rest deps st' ctl sync ∧
      s.nextDep k v c p rest deps promise = s.goOn sync k { v with stack := st', control := ctl } := by
  unfold State.nextDep
  cases rest with
  | nil => exact ⟨_, _, _, .done, rfl⟩
  | cons e rest =>
    cases e with
    | token t => exact ⟨_, _, true, .dep (by simp), rfl⟩
    | forwardRef t => exact ⟨_, _, true, .dep (by simp), rfl⟩
    | optional t =>
      cases h : s.graph.has c t with
      | false => exact ⟨_, _, _, .absent h, by simp [h, State.goOn]⟩
      | true => exact ⟨_, _, true, .dep (a := false) (by rintro _ ⟨⟩; exact h), by simp [h, State.goOn, InjectToken.target]⟩

theorem instantiate_shape (s : State τ) (k : CallId) (v : Call τ) (c : ContainerId) (p : NormalizedProvider τ)
    (promise : Option PromiseId) : ∃ st' ctl sync,
      Instantiate s.graph s.classes c p promise v.stack st' ctl sync ∧
      s.instantiate k v c p promise = s.goOn sync k { v with stack := st', control := ctl } := by
  unfold State.instantiate
  cases he : s.graph.scopeError s.classes c p with
  | some e => exact ⟨_, _, _, .scope he, rfl⟩
  | none =>
    obtain ⟨st', ctl, sync, hn, hs⟩ := nextDep_shape s k v c p p.inject [] promise
    cases hp : p.type with
    | value o => exact ⟨_, _, _, .value hp, rfl⟩
    | cls => exact ⟨_, _, _, .deps he (by simp [hp]) hn, hs⟩
    | factory => exact ⟨_, _, _, .deps he (by simp [hp]) hn, hs⟩
    | existing t => exact ⟨_, _, _, .deps he (by simp [hp]) hn, hs⟩

theorem obtain_eq (s : State τ) (k : CallId) (v : Call τ) (d : ContainerId) (key : CacheKey τ)
    (p : NormalizedProvider τ) : s.obtain k v d key p =
      if p.scope ≠ .default ∧ !s.graph.requestScopeEnabled d then
        s.suspend k { v with control := .rejected (.requestScopeResolution p.provide) }
      else match (s.container d).cache.lookup key with
        | some q => (s.ensureTracked d).suspend k { v with control := .cached q }
        | none => (s.allocate d key p).instantiate k v d p (some s.promises) := by
  have ht := ensureTracked_eq s d
  have hc : ((s.ensureTracked d).container d).cache = (s.container d).cache := by rw [ensureTracked_container]
  unfold State.obtain State.allocate
  rw [← hc]
  generalize s.ensureTracked d = s₁ at ht
  split
  · rfl
  · dsimp only
    cases hq : (s₁.container d).cache.lookup key with
    | some q => rfl
    | none =>
      conv_lhs => rw [ht]
      rfl

theorem callStep_obtain {d : ContainerId} {key : CacheKey τ} {p : NormalizedProvider τ} {st : List (Frame τ)}
    (he : Enters s.graph v d key p st) : CallStep s k v (s.obtain k { v with stack := st } d key p) := by
  rw [obtain_eq]
  split
  · rename_i h
    exact .turn (.outside he h.1 (by simpa using h.2))
  rename_i hscope
  split
  · exact .turn (.wait he ‹_›)
  · obtain ⟨st', ctl, sync, hi, hs⟩ :=
      instantiate_shape (s.allocate d key p) k { v with stack := st } d p (some s.promises)
    rw [hs]
    refine .turn (.build he ‹_› (fun h => ?_) hi)
    by_contra hne
    exact hscope ⟨h, by simpa using hne⟩

theorem callStep_advance (h : s.advance k v = some s') : CallStep s k v s' := by
  unfold State.advance at h
  split at h
  · rename_i c t a hctl
    cases h
    unfold State.resolveWithChain
    split
    · exact .turn (.circular hctl ‹_›)
    rename_i ht
    split
    · rename_i hr hm; exact .turn (.enterMulti hctl ht hr hm)
    rename_i hmulti
    have hnone : s.graph.registration c t = none → s.graph.collectMultiProviders c t = [] := by
      intro hr
      cases hm : s.graph.collectMultiProviders c t with
      | nil => rfl
      | cons p ps => exact (hmulti p ps hr hm).elim
    split
    · rename_i hl
      exact .turn (.missing hctl ht hl (hnone (List.findSome?_eq_none_iff.1 hl c List.mem_cons_self)))
    rename_i p hl
    have hsingle : s.graph.Single c t p := ⟨hnone, hl⟩
    unfold State.resolveProvider
    split
    · exact .turn (.existing hctl ht hsingle ‹_›)
    rename_i hne
    split
    · rename_i htr
      obtain ⟨st', ctl, sync, hi, hs⟩ := instantiate_shape s k { v with stack := .chain c t :: v.stack } c p none
      rw [hs]
      exact .turn (.transient (.single hctl ht hsingle hne htr) hi)
    rename_i htr
    cases hcached : s.getCached c p with
    | none => exact callStep_obtain (.single hctl ht hsingle hne htr)
    | some q =>
      unfold State.getCached at hcached
      split at hcached
      · cases hcached
      · exact .turn (.hit hctl ht hsingle hne (not_not.1 ‹_›) hcached)
  · rename_i c p hctl
    cases h
    unfold State.resolveMultiProviderInstance
    split
    · exact .turn (.existingMulti hctl ‹_›)
    rename_i hne
    split
    · rename_i htr
      obtain ⟨st', ctl, sync, hi, hs⟩ := instantiate_shape s k v c p none
      rw [hs]
      exact .turn (.transient (.multi hctl hne htr) hi)
    · rename_i htr
      have he : Enters s.graph v (s.graph.multiSite c p) (.provider p) p v.stack := .multi hctl hne htr
      exact callStep_obtain he
  · cases h

theorem callStep_resume (h : s.resume k v = some s') : CallStep s k v s' := by
  unfold State.resume at h
  split at h
  · rename_i q hctl
    split at h <;> cases h
    · exact .turn (.awaited hctl ‹_›)
    · exact .turn (.awaitedError hctl ‹_›)
  · rename_i hctl hst; cases h; exact .turn (.value hctl hst)
  · rename_i hctl hst; cases h; exact .turn (.leaveChain hctl hst)
  · rename_i hctl hst; cases h; exact .turn (.multiDone hctl hst)
  · rename_i hctl hst; cases h; exact .turn (.multiNext hctl hst)
  · rename_i x c p rest deps promise st hctl hst
    cases h
    obtain ⟨st', ctl, sync, hn, hs⟩ := nextDep_shape s k { v with stack := st } c p rest (deps ++ [x]) promise
    rw [hs]
    exact .turn (.nextDep hctl hst hn)
  · rename_i hctl hst; cases h; exact .turn (.fail hctl hst)
  · rename_i e f st hne hctl hst
    cases h
    exact .turn (.unwind hctl hst hne)
  · cases h

theorem callStep_settle {outcome : Outcome} (h : s.settle k v outcome = some s') :
    v.control = .user ∧ CallStep s k v s' := by
  unfold State.settle at h
  split at h
  · rename_i hctl hst
    cases outcome <;> cases h
    · exact ⟨hctl, .turn (.created hctl hst)⟩
    · exact ⟨hctl, .turn (.returned hctl hst)⟩
    · exact ⟨hctl, .turn (.threw hctl hst)⟩
  · cases h

inductive Step (s : State τ) : Label τ → State τ → Prop
  | register {c providers} : s.running = none → s.isContainer c →
      Step s (.register c providers) (s.register c providers).1
  | override {c providers} : s.running = none → s.isContainer c →
      Step s (.override c providers) (s.override c providers).1
  | createRequestScope {c} : s.running = none → s.isContainer c → s.isDisposedInHierarchy c = false →
      Step s (.createRequestScope c) (s.createRequestScope c)
  | resolve {c token} : s.running = none → s.isContainer c → Step s (.resolve c token) (s.startResolve c token)
  | dispose {c} : s.running = none → s.isContainer c → Step s (.dispose c) (s.dispose c)
  | advance {k : CallId} {v : Call τ} {s' : State τ} : s.running = some k → s.call k = some v → CallStep s k v s' →
      Step s .advance s'
  | resume {k : CallId} {v : Call τ} {s' : State τ} : s.running = none → s.call k = some v → CallStep s k v s' →
      Step s (.resume k) s'
  | settle {k : CallId} {v : Call τ} {outcome : Outcome} {s' : State τ} : s.running = none → s.call k = some v →
      v.control = .user → CallStep s k v s' → Step s (.settle k outcome) s'
  | stale {i error} {s' : State τ} : s.running = none → s.runStale i error = some s' → Step s (.stale i error) s'
  | disposal {c error} {s' : State τ} : s.running = none → s.continueDisposal c error = some s' → Step s (.disposal c error) s'

theorem step_cases {l : Label τ} (h : step s l = some s') : Step s l s' := by
  unfold step at h
  split at h
  · rename_i k hrun
    split at h
    · obtain ⟨v, hv, h⟩ := Option.bind_eq_some_iff.1 h
      exact .advance hrun hv (callStep_advance h)
    · cases h
  · rename_i hrun
    split at h
    · split at h <;> cases h
      exact .register hrun ‹_›
    · split at h <;> cases h
      exact .override hrun ‹_›
    · split at h <;> cases h
      rename_i hc
      exact .createRequestScope hrun hc.1 (by simpa using hc.2)
    · split at h <;> cases h
      exact .resolve hrun ‹_›
    · split at h <;> cases h
      exact .dispose hrun ‹_›
    · cases h
    · obtain ⟨v, hv, h⟩ := Option.bind_eq_some_iff.1 h
      exact .resume hrun hv (callStep_resume h)
    · obtain ⟨v, hv, h⟩ := Option.bind_eq_some_iff.1 h
      exact .settle hrun hv (callStep_settle h).1 (callStep_settle h).2
    · exact .stale hrun h
    · exact .disposal hrun h

end Fluo.Di
