import Fluo.Di.Container
/-!
# The container as a transition system

JavaScript runs one method at a time, up to its next `await`. A step is either
an operation of the program (`register`, `override`, `createRequestScope`,
`resolve`, `dispose`), a piece of the synchronous work of the call that runs
(`advance`), or, when no call runs, the continuation of something suspended: a
call whose awaited promise is settled (`resume`), a factory or a constructor
that returns or throws (`settle`), a stale disposal task, the disposal of a
container. Which continuation comes next is any choice of the scheduler.
-/

namespace Fluo.Di

/-- What `useFactory` or `new useClass` ends with. -/
inductive Outcome
  /-- A fresh object, with or without an `onDestroy` method. -/
  | created (disposable : Bool)
  /-- A value that existed before. -/
  | returned (value : Value)
  | threw (error : Nat)

inductive Label (τ : Type)
  | register (c : ContainerId) (providers : List (Provider τ))
  | override (c : ContainerId) (providers : List (Provider τ))
  | createRequestScope (c : ContainerId)
  | resolve (c : ContainerId) (token : τ)
  | dispose (c : ContainerId)
  | advance
  | resume (k : CallId)
  | settle (k : CallId) (outcome : Outcome)
  /-- The `i`th stale disposal task; `error` is what its `onDestroy` throws. -/
  | stale (i : Nat) (error : Option Nat)
  | disposal (c : ContainerId) (error : Option Nat)

variable {τ : Type} [DecidableEq τ] (s : State τ)

/-! ## Promises and caches -/

def State.status (q : PromiseId) : Option (Status τ) := (s.promise q).map (·.status)

/-- Change the cache of one container. -/
def State.modifyCache (c : ContainerId) (f : JsMap (CacheKey τ) PromiseId → JsMap (CacheKey τ) PromiseId) : State τ :=
  s.setContainer c { s.container c with cache := f (s.container c).cache }

/-- The `cache.set` of a construction. -/
def State.publish (q : PromiseId) : State τ :=
  match s.promise q with
  | none => s
  | some r => s.modifyCache r.container (·.insert r.key q)

def State.fulfil (q : PromiseId) (value : Value) : State τ :=
  match s.promise q with
  | none => s
  | some r => s.setPromise q { r with status := .fulfilled value }

/-- A construction rejects: its `catch` handler deletes the cache entry under
its key, whichever promise that entry holds. -/
def State.reject (q : PromiseId) (error : DiError τ) : State τ :=
  match s.promise q with
  | none => s
  | some r => (s.setPromise q { r with status := .rejected error }).modifyCache r.container (·.erase r.key)

/-- `ensureTrackedRequestScope`. -/
def State.ensureTracked (c : ContainerId) : State τ :=
  if !s.graph.requestScopeEnabled c || (s.container c).trackedByRoot then s
  else
    let s := s.setContainer root { s.container root with childScopes := (s.container root).childScopes ++ [c] }
    s.setContainer c { s.container c with trackedByRoot := true }

/-! ## The resolving call -/

/-- The tokens of `chain`, innermost first; `activeTokens` is their set. -/
def chainTokens : List (Frame τ) → List τ
  | [] => []
  | .chain _ t :: st => t :: chainTokens st
  | _ :: st => chainTokens st

/-- Call `k` goes on running. -/
def State.proceed (k : CallId) (v : Call τ) : State τ := { s.setCall k v with running := some k }

/-- The methods that the running call has entered since it was resumed return
their promises, the innermost first, and each construction among them is put
in its cache. -/
def State.yield : State τ := { s.unpublished.foldl State.publish s with running := none, unpublished := [] }

/-- Call `k` reaches an `await`. -/
def State.suspend (k : CallId) (v : Call τ) : State τ := (s.proceed k v).yield

/-- The loop of `resolveProviderDeps` with `rest` still to be resolved, and
then the call of the factory or the constructor. -/
def State.nextDep (k : CallId) (v : Call τ) (c : ContainerId) (p : NormalizedProvider τ)
    (rest : List (InjectToken τ)) (deps : List Value) (promise : Option PromiseId) : State τ :=
  match rest with
  | [] => s.suspend k { v with stack := .build c p [] deps promise :: v.stack, control := .user }
  | e :: rest =>
    let stack := .build c p rest deps promise :: v.stack
    match e with
    | .optional t =>
      if s.graph.has c t then s.proceed k { v with stack, control := .resolve c t false }
      else s.suspend k { v with stack, control := .fulfilled .undefined }
    | .forwardRef t => s.proceed k { v with stack, control := .resolve c t true }
    | .token t => s.proceed k { v with stack, control := .resolve c t false }

/-- `instantiate`. An alias never gets here: both callers follow it first. -/
def State.instantiate (k : CallId) (v : Call τ) (c : ContainerId) (p : NormalizedProvider τ)
    (promise : Option PromiseId) : State τ :=
  match s.graph.scopeError s.classes c p with
  | some e => s.suspend k { v with stack := .build c p [] [] promise :: v.stack, control := .rejected e }
  | none => match p.type with
    | .value o => s.suspend k { v with stack := .build c p [] [] promise :: v.stack, control := .value o }
    | _ => s.nextDep k v c p p.inject [] promise

/-- `cacheFor` and `multiCacheFor` with the rest of
`resolveScopedOrSingletonInstance` and `resolveMultiProviderInstance`: await
the cached promise, or start the construction. -/
def State.obtain (k : CallId) (v : Call τ) (c : ContainerId) (key : CacheKey τ) (p : NormalizedProvider τ) :
    State τ :=
  if p.scope ≠ .default ∧ !s.graph.requestScopeEnabled c then
    s.suspend k { v with control := .rejected (.requestScopeResolution p.provide) }
  else
    let s := s.ensureTracked c
    match (s.container c).cache.lookup key with
    | some q => s.suspend k { v with control := .cached q }
    | none =>
      let q := s.promises
      let s := { s.setPromise q ⟨c, key, p, .pending⟩ with promises := q + 1, unpublished := q :: s.unpublished }
      s.instantiate k v c p (some q)

/-- Where a single provider is constructed and cached: at the root when
`shouldResolveFromRoot` says so. -/
def Graph.singleSite (g : Graph τ) (c : ContainerId) (p : NormalizedProvider τ) : ContainerId :=
  if p.scope = .default ∧ g.requestScopeEnabled c ∧ g.registration c p.provide = none then root else c

/-- The same for an entry of a multi provider (`shouldResolveMultiProviderFromRoot`). -/
def Graph.multiSite (g : Graph τ) (c : ContainerId) (p : NormalizedProvider τ) : ContainerId :=
  if p.scope = .default ∧ g.requestScopeEnabled c ∧ p ∉ g.multiRegistration c p.provide then root else c

/-- `getCachedScopedOrSingletonInstance`. -/
def State.getCached (c : ContainerId) (p : NormalizedProvider τ) : Option PromiseId :=
  if p.scope ≠ .default then none else (s.container (s.graph.singleSite c p)).cache.lookup (.token p.provide)

/-- `resolveFromRegisteredProviders`, once a single provider is found. -/
def State.resolveProvider (k : CallId) (v : Call τ) (c : ContainerId) (t : τ) (p : NormalizedProvider τ) : State τ :=
  let v' := { v with stack := .chain c t :: v.stack }
  match p.type with
  | .existing target => s.proceed k { v' with control := .resolve c target false }
  | _ =>
    if p.scope = .transient then s.instantiate k v' c p none
    else match s.getCached c p with
      | some q => s.suspend k { v with control := .cached q }
      | none => s.obtain k v' (s.graph.singleSite c p) (.token p.provide) p

/-- `resolveWithChain`. -/
def State.resolveWithChain (k : CallId) (v : Call τ) (c : ContainerId) (t : τ) (allowForwardRef : Bool) : State τ :=
  if t ∈ chainTokens v.stack then
    s.suspend k { v with
      control := .rejected (.circularDependency ((chainTokens v.stack).reverse ++ [t]) allowForwardRef) }
  else match s.graph.registration c t, s.graph.collectMultiProviders c t with
    | none, p :: ps =>
      s.proceed k { v with stack := .multi c ps [] :: .chain c t :: v.stack, control := .multi c p }
    | _, _ => match s.graph.lookupProvider c t with
      | none => s.suspend k { v with control := .rejected (.containerResolution (some t)) }
      | some p => s.resolveProvider k v c t p

/-- `resolveMultiProviderInstance`. -/
def State.resolveMultiProviderInstance (k : CallId) (v : Call τ) (c : ContainerId) (p : NormalizedProvider τ) :
    State τ :=
  match p.type with
  | .existing target => s.proceed k { v with control := .resolve c target false }
  | _ =>
    if p.scope = .transient then s.instantiate k v c p none
    else s.obtain k v (s.graph.multiSite c p) (.provider p) p

def State.advance (k : CallId) (v : Call τ) : Option (State τ) :=
  match v.control with
  | .resolve c t allowForwardRef => some (s.resolveWithChain k v c t allowForwardRef)
  | .multi c p => some (s.resolveMultiProviderInstance k v c p)
  | _ => none

/-- `instantiate` returns `value`. -/
def State.complete (promise : Option PromiseId) (value : Value) : State τ :=
  match promise with
  | none => s
  | some q => s.fulfil q value

/-- The same, for a value that a constructor or a factory made. -/
def State.built (p : NormalizedProvider τ) (promise : Option PromiseId) (value : Value) : State τ :=
  { s.complete promise value with log := s.log ++ [⟨p, promise, value⟩] }

/-- `instantiate` throws. -/
def State.fail (promise : Option PromiseId) (error : DiError τ) : State τ :=
  match promise with
  | none => s
  | some q => s.reject q error

/-- The promise that call `k` awaits is settled and its innermost method goes
on. A settled call has an empty stack. -/
def State.resume (k : CallId) (v : Call τ) : Option (State τ) :=
  match v.control, v.stack with
  | .cached q, _ => match s.status q with
    | some (.fulfilled x) => some (s.suspend k { v with control := .fulfilled x })
    | some (.rejected e) => some (s.suspend k { v with control := .rejected e })
    | _ => none
  | .value o, .build _ _ _ _ promise :: st =>
    some ((s.complete promise (.object o)).suspend k { v with stack := st, control := .fulfilled (.object o) })
  | .fulfilled _, .chain _ _ :: st => some (s.suspend k { v with stack := st })
  | .fulfilled x, .multi _ [] instances :: st =>
    some (s.suspend k { v with stack := st, control := .fulfilled (.array (instances ++ [x])) })
  | .fulfilled x, .multi c (p :: ps) instances :: st =>
    some (s.proceed k { v with stack := .multi c ps (instances ++ [x]) :: st, control := .multi c p })
  | .fulfilled x, .build c p rest deps promise :: st =>
    some (s.nextDep k { v with stack := st } c p rest (deps ++ [x]) promise)
  | .rejected e, .build _ _ _ _ promise :: st => some ((s.fail promise e).suspend k { v with stack := st })
  | .rejected _, _ :: st => some (s.suspend k { v with stack := st })
  | _, _ => none

/-- The factory or the constructor that call `k` awaits returns or throws. -/
def State.settle (k : CallId) (v : Call τ) (outcome : Outcome) : Option (State τ) :=
  match v.control, v.stack with
  | .user, .build _ p _ _ promise :: st => match outcome with
    | .created disposable =>
      let x := .object (.made s.nextObject disposable)
      some (State.suspend { s.built p promise x with nextObject := s.nextObject + 1 } k
        { v with stack := st, control := .fulfilled x })
    | .returned x => some ((s.built p promise x).suspend k { v with stack := st, control := .fulfilled x })
    | .threw e => some (s.suspend k { v with control := .rejected (.user e) })
  | _, _ => none

/-! ## Disposal -/

/-- `dispose` has nothing left to start: it is under way or has succeeded. -/
def Disposal.started : Disposal τ → Bool
  | .idle | .settled (_ :: _) => false
  | _ => true

/-- The start of `dispose` on a container without live request scopes: the
snapshot of its cache. -/
def State.startDisposal (c : ContainerId) : State τ :=
  let v := s.container c
  if v.disposal.started then s
  else s.setContainer c { v with disposed := true, disposal := .stale (v.cacheEntries.map (·.2)) [] }

/-- `dispose`. -/
def State.dispose (c : ContainerId) : State τ :=
  let v := s.container c
  if v.disposal.started then s
  else if s.graph.requestScopeEnabled c || v.childScopes.isEmpty then s.startDisposal c
  else v.childScopes.foldl State.startDisposal
    (s.setContainer c { v with disposed := true, disposal := .children v.childScopes })

def Disposal.errors? : Disposal τ → Option (List (DiError τ))
  | .settled errors => some errors
  | _ => none

/-- The values of the settled snapshot, or the reasons they were rejected
with; `none` while some promise is pending. -/
def State.allSettled : List PromiseId → Option (List Value × List (DiError τ))
  | [] => some ([], [])
  | q :: qs => match s.status q, State.allSettled qs with
    | some (.fulfilled x), some (xs, es) => some (x :: xs, es)
    | some (.rejected e), some (xs, es) => some (xs, e :: es)
    | _, _ => none

/-- `disposables`, in reverse order. -/
def disposables (values : List Value) : List Obj :=
  ((values.filterMap fun
    | .object o => if o.isDisposable then some o else none
    | _ => none).reverse).dedup

def thrown (error : Option Nat) : List (DiError τ) := error.toList.map .user

/-- `disposeAll` of container `c` goes on. -/
def State.continueDisposal (c : ContainerId) (error : Option Nat) : Option (State τ) :=
  let v := s.container c
  match v.disposal with
  | .children scopes => do
    let errors ← scopes.mapM fun d => (s.container d).disposal.errors?
    return s.setContainer c { v with
      childScopes := [], disposal := .stale (v.cacheEntries.map (·.2)) errors.flatten }
  | .stale entries errors =>
    if s.staleTasks.any (·.1 = c) then none
    else some (s.setContainer c { v with disposal := .entries entries errors })
  | .entries entries errors => do
    let (values, reasons) ← s.allSettled entries
    return s.setContainer c { v with
      staleDisposalErrors := []
      disposal := .destroying (disposables values) (errors ++ reasons ++ v.staleDisposalErrors) }
  | .destroying (o :: rest) errors =>
    some { s.setContainer c { v with disposal := .destroying rest (errors ++ thrown error) } with
      destroyed := s.destroyed ++ [o] }
  | .destroying [] errors =>
    let s := s.setContainer c { v with cache := ∅, disposal := .settled errors, trackedByRoot := false }
    some (if v.trackedByRoot then s.setContainer root { s.container root with
        childScopes := (s.container root).childScopes.erase c } else s)
  | _ => none

/-- The `i`th stale disposal task finishes. -/
def State.runStale (i : Nat) (error : Option Nat) : Option (State τ) := do
  let (c, q) ← s.staleTasks[i]?
  let v := s.container c
  let s' := { s with staleTasks := s.staleTasks.eraseIdx i }
  match ← s.status q with
  | .pending => none
  | .rejected e => return s'.setContainer c { v with staleDisposalErrors := v.staleDisposalErrors ++ [e] }
  | .fulfilled (.object o) =>
    if o.isDisposable then
      return { s'.setContainer c { v with staleDisposalErrors := v.staleDisposalErrors ++ thrown error } with
        destroyed := s.destroyed ++ [o] }
    else return s'
  | .fulfilled _ => return s'

/-! ## Steps -/

/-- `resolve`: the call starts and runs at once. -/
def State.startResolve (c : ContainerId) (token : τ) : State τ :=
  let k := s.calls
  if s.isDisposedInHierarchy c then
    { s.setCall k ⟨c, token, [], .rejected (.containerResolution (some token))⟩ with calls := k + 1 }
  else { s.setCall k ⟨c, token, [], .resolve c token false⟩ with calls := k + 1, running := some k }

def State.isContainer (c : ContainerId) : Prop := c < s.containers

instance (c : ContainerId) : Decidable (s.isContainer c) := inferInstanceAs (Decidable (c < s.containers))

/-- One step of the container tree. While a call runs, only it goes on. -/
def step (s : State τ) (l : Label τ) : Option (State τ) :=
  match s.running with
  | some k => match l with
    | .advance => do s.advance k (← s.call k)
    | _ => none
  | none => match l with
    | .register c providers => if s.isContainer c then some (s.register c providers).1 else none
    | .override c providers => if s.isContainer c then some (s.override c providers).1 else none
    | .createRequestScope c =>
      if s.isContainer c ∧ !s.isDisposedInHierarchy c then some (s.createRequestScope c) else none
    | .resolve c token => if s.isContainer c then some (s.startResolve c token) else none
    | .dispose c => if s.isContainer c then some (s.dispose c) else none
    | .advance => none
    | .resume k => do s.resume k (← s.call k)
    | .settle k outcome => do s.settle k (← s.call k) outcome
    | .stale i error => s.runStale i error
    | .disposal c error => s.continueDisposal c error

/-- What call `k` is settled with. -/
def State.result (k : CallId) : Option (Except (DiError τ) Value) :=
  match s.call k with
  | some ⟨_, _, [], .fulfilled x⟩ => some (.ok x)
  | some ⟨_, _, [], .rejected e⟩ => some (.error e)
  | _ => none

end Fluo.Di
