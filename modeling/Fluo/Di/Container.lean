import Mathlib.Algebra.GroupWithZero.Nat
import Fluo.Di.Provider
/-!
# Containers

One tree of containers with everything its methods share: the registrations
(the provider graph), the instance caches, the promises the caches hold, and
the calls in progress. The root is container `0`, and a container knows its
parent chain. The plan caches of the source memoize the lookups below per
graph revision; a lookup here is always computed afresh.

Two caches of the source are one map here: the token-keyed and the
provider-keyed cache of a container (`singletonCache` and
`multiSingletonCache` at the root, `requestCache` and `multiRequestCache` at a
request scope) are `cache`, keyed by `CacheKey`.
-/

namespace Fluo.Di

abbrev ContainerId := Nat
abbrev PromiseId := Nat
abbrev CallId := Nat

/-- A key of an instance cache: the token of a single provider, or the record
of one entry of a multi provider. -/
inductive CacheKey (τ : Type)
  | token (token : τ)
  | provider (provider : NormalizedProvider τ)
  deriving DecidableEq

def CacheKey.tok {τ : Type} : CacheKey τ → τ
  | .token t => t
  | .provider p => p.provide

def CacheKey.isToken {τ : Type} : CacheKey τ → Bool
  | .token _ => true
  | .provider _ => false

inductive Status (τ : Type)
  | pending
  | fulfilled (value : Value)
  | rejected (error : DiError τ)

/-- A promise of `instantiate` that a cache holds or is about to hold: where
it is cached, and the provider it constructs. -/
structure Construction (τ : Type) where
  container : ContainerId
  key : CacheKey τ
  provider : NormalizedProvider τ
  status : Status τ

/-- One suspended async method of a `resolve` call. -/
inductive Frame (τ : Type)
  /-- `withTokenInChain(token)` on container `c`. -/
  | chain (c : ContainerId) (token : τ)
  /-- The loop of `resolveMultiProviderInstances`. -/
  | multi (c : ContainerId) (rest : List (NormalizedProvider τ)) (instances : List Value)
  /-- `instantiate(provider)` on container `c`, in the loop of
  `resolveProviderDeps`; `promise` is the cached promise it settles. -/
  | build (c : ContainerId) (provider : NormalizedProvider τ) (rest : List (InjectToken τ)) (deps : List Value)
      (promise : Option PromiseId)

/-- What the innermost method of a call does next. -/
inductive Control (τ : Type)
  /-- It enters `resolveWithChain(token)` on `c`. -/
  | resolve (c : ContainerId) (token : τ) (allowForwardRef : Bool)
  /-- It enters `resolveMultiProviderInstance(provider)` on `c`. -/
  | multi (c : ContainerId) (provider : NormalizedProvider τ)
  /-- It awaits a cached instance promise. -/
  | cached (promise : PromiseId)
  /-- It awaits the outcome of `useFactory` or of `new useClass`. -/
  | user
  /-- `instantiate` returned `useValue`. -/
  | value (obj : Obj)
  | fulfilled (value : Value)
  | rejected (error : DiError τ)

/-- A call of `container.resolve(token)`, innermost method first. -/
structure Call (τ : Type) where
  container : ContainerId
  token : τ
  stack : List (Frame τ)
  control : Control τ

/-- How far `disposeAll` of a container has come. `errors` are the errors
collected so far. -/
inductive Disposal (τ : Type)
  | idle
  /-- The root waits for the disposal of its live request scopes. -/
  | children (scopes : List ContainerId)
  /-- `waitForStaleDisposalTasks`, with the snapshot of the cache. -/
  | stale (entries : List PromiseId) (errors : List (DiError τ))
  /-- `Promise.allSettled(entries)`. -/
  | entries (entries : List PromiseId) (errors : List (DiError τ))
  /-- `disposeInstancesInReverseOrder`. -/
  | destroying (rest : List Obj) (errors : List (DiError τ))
  | settled (errors : List (DiError τ))

/-- What `register` and `override` write, and the parent chain: `parent`,
`parent.parent`, and so on up to the root. -/
structure Registry (τ : Type) where
  ancestors : List ContainerId := []
  registrations : JsMap τ (NormalizedProvider τ) := ∅
  multiRegistrations : JsMap τ (List (NormalizedProvider τ)) := ∅
  multiOverriddenTokens : List τ := []

/-- The provider graph: the registries of all containers. -/
abbrev Graph (τ : Type) := ContainerId → Registry τ

/-- The rest of a container. -/
structure Container (τ : Type) where
  cache : JsMap (CacheKey τ) PromiseId := ∅
  childScopes : List ContainerId := []
  trackedByRoot : Bool := false
  disposed : Bool := false
  disposal : Disposal τ := .idle
  staleDisposalErrors : List (DiError τ) := []

/-- An instance that a constructor or a factory returned. `promise` is `none`
for a transient one. -/
structure Built (τ : Type) where
  provider : NormalizedProvider τ
  promise : Option PromiseId
  value : Value

structure State (τ : Type) where
  classes : JsMap τ (ClassMetadata τ) := ∅
  graph : Graph τ := fun _ => {}
  container : ContainerId → Container τ := fun _ => {}
  containers : Nat := 1
  promise : PromiseId → Option (Construction τ) := fun _ => none
  promises : Nat := 0
  call : CallId → Option (Call τ) := fun _ => none
  calls : Nat := 0
  /-- The call that runs; every other one is suspended at an `await`. -/
  running : Option CallId := none
  /-- Constructions that the running call has started and whose promise is
  not in its cache yet: `cache.set` runs when `instantiate` returns. -/
  unpublished : List PromiseId := []
  staleTasks : List (ContainerId × PromiseId) := []
  /-- Everything constructed so far, and every `onDestroy` call so far. -/
  log : List (Built τ) := []
  destroyed : List Obj := []
  nextObject : Nat := 0
  nextProvider : Nat := 0

/-- `new Container()`, in a program whose classes carry the given metadata. -/
def State.init {τ : Type} (classes : JsMap τ (ClassMetadata τ)) : State τ := { classes }

abbrev root : ContainerId := 0

variable {τ : Type}

section Lookup
variable [DecidableEq τ] (g : Graph τ)

/-- `requestScopeEnabled`: a request scope is a container with a parent. -/
def Graph.requestScopeEnabled (c : ContainerId) : Bool := !(g c).ancestors.isEmpty

/-- The container and its parent chain. -/
def Graph.lineage (c : ContainerId) : List ContainerId := c :: (g c).ancestors

def Graph.registration (c : ContainerId) (token : τ) : Option (NormalizedProvider τ) :=
  (g c).registrations.lookup token

def Graph.multiRegistration (c : ContainerId) (token : τ) : List (NormalizedProvider τ) :=
  ((g c).multiRegistrations.lookup token).getD []

/-- `lookupProvider`. -/
def Graph.lookupProvider (c : ContainerId) (token : τ) : Option (NormalizedProvider τ) :=
  (g.lineage c).findSome? (g.registration · token)

/-- `collectMultiProviders`, along a parent chain. -/
def Graph.collectFrom (token : τ) : List ContainerId → List (NormalizedProvider τ)
  | [] => []
  | c :: parents =>
    if token ∈ (g c).multiOverriddenTokens then g.multiRegistration c token
    else Graph.collectFrom token parents ++ g.multiRegistration c token

def Graph.collectMultiProviders (c : ContainerId) (token : τ) : List (NormalizedProvider τ) :=
  g.collectFrom token (g.lineage c)

/-- `has`. -/
def Graph.has (c : ContainerId) (token : τ) : Bool :=
  (g.lookupProvider c token).isSome || (g.lineage c).any fun d => token ∈ (g d).multiRegistrations

/-- The providers a token stands for in the graph walks: the single one and
every multi one. -/
def Graph.providersOf (c : ContainerId) (token : τ) : List (NormalizedProvider τ) :=
  (g.lookupProvider c token).toList ++ g.collectMultiProviders c token

/-- A bound on the length of a path of distinct registered tokens, the fuel of
the graph walks. -/
def Graph.size (c : ContainerId) : Nat :=
  ((g.lineage c).map fun d => (g d).registrations.keys.length + (g d).multiRegistrations.keys.length).sum + 1

/-- `dependencyTokenReferencesToken`. -/
def Graph.dependencyTokenReferencesToken (c : ContainerId) (token : τ) : Nat → List τ → τ → Bool
  | 0, _, _ => false
  | fuel + 1, visited, dep =>
    dep = token || (!visited.contains dep && (g.providersOf c dep).any fun p =>
      p.dependencies.any (Graph.dependencyTokenReferencesToken c token fuel (dep :: visited)))

/-- `providerDependsOnToken`. -/
def Graph.providerDependsOnToken (c : ContainerId) (p : NormalizedProvider τ) (token : τ) : Bool :=
  p.dependencies.any (g.dependencyTokenReferencesToken c token (g.size c) [p.provide])

/-- `shouldInvalidateCachedToken` and `shouldInvalidateCachedProvider`. -/
def Graph.shouldInvalidate (c : ContainerId) (token : τ) : CacheKey τ → Bool
  | .token cachedToken =>
    cachedToken = token || (g.providersOf c cachedToken).any (g.providerDependsOnToken c · token)
  | .provider p => p.provide = token || g.providerDependsOnToken c p token

end Lookup

/-! ## The singleton scope check -/

section ScopeCheck
variable [DecidableEq τ] (g : Graph τ) (classes : JsMap τ (ClassMetadata τ))

/-- `resolveEffectiveProvider`: follow aliases to the provider they end at. -/
def Graph.resolveEffectiveProvider (c : ContainerId) :
    Nat → List τ → τ → Except (DiError τ) (Option (NormalizedProvider τ))
  | 0, _, _ => .ok none
  | fuel + 1, chain, token =>
    if token ∈ chain then .error (.circularDependency (chain ++ [token]) false)
    else match g.lookupProvider c token with
      | none => .ok none
      | some p => match p.type with
        | .existing target => Graph.resolveEffectiveProvider c fuel (chain ++ [token]) target
        | _ => .ok (some p)

/-- The first token a list of inject entries leads to, an absent optional one
skipped. -/
def Graph.firstDependency (c : ContainerId) (find : τ → Except (DiError τ) (Option τ)) :
    List (InjectToken τ) → Except (DiError τ) (Option τ)
  | [] => .ok none
  | e :: rest =>
    match e, g.has c e.target with
    | .optional _, false => Graph.firstDependency c find rest
    | _, _ => do
      match ← find e.target with
      | some t => return some t
      | none => Graph.firstDependency c find rest

/-- `findRequestScopedDependencyToken`. -/
def Graph.findRequestScopedDependencyToken (c : ContainerId) : Nat → List τ → τ → Except (DiError τ) (Option τ)
  | 0, _, _ => .ok none
  | fuel + 1, visited, token => do
    if token ∈ visited then return none
    let find := Graph.findRequestScopedDependencyToken c fuel (token :: visited)
    match ← g.resolveEffectiveProvider c (g.size c) [] token with
    | some p => if p.scope = .request then return some p.provide else g.firstDependency c find p.inject
    | none => match classes.lookup token with
      | none => return none
      | some metadata =>
        if metadata.scope = some .request then return some token
        else g.firstDependency c find (metadata.inject.filterMap id)

/-- `assertSingletonDependencyScopes`: the error it throws, if any. -/
def Graph.scopeError (c : ContainerId) (p : NormalizedProvider τ) : Option (DiError τ) :=
  if p.scope ≠ .default then none
  else
    let find := g.findRequestScopedDependencyToken classes c (g.size c + classes.keys.length) [p.provide]
    match g.firstDependency c find p.inject with
    | .error e => some e
    | .ok (some t) => some (.scopeMismatch p.provide (some t))
    | .ok none => none

end ScopeCheck

/-! ## Updates -/

section Update
variable [DecidableEq τ] (s : State τ)

def State.setRegistry (c : ContainerId) (v : Registry τ) : State τ :=
  { s with graph := Function.update s.graph c v }

def State.setContainer (c : ContainerId) (v : Container τ) : State τ :=
  { s with container := Function.update s.container c v }

def State.setCall (k : CallId) (v : Call τ) : State τ :=
  { s with call := Function.update s.call k (some v) }

def State.setPromise (q : PromiseId) (v : Construction τ) : State τ :=
  { s with promise := Function.update s.promise q (some v) }

def State.isDisposedInHierarchy (c : ContainerId) : Bool :=
  (s.graph.lineage c).any fun d => (s.container d).disposed

/-- The entries of the token-keyed cache and then of the provider-keyed one,
oldest first. -/
def Container.cacheEntries (c : Container τ) : List (CacheKey τ × PromiseId) :=
  let entries := c.cache.entries.reverse.map fun e => (e.1, e.2)
  entries.filter (·.1.isToken) ++ entries.filter (!·.1.isToken)

/-- The cache entries that an override of `token` affects. -/
def State.affectedEntries (c : ContainerId) (token : τ) : List (CacheKey τ × PromiseId) :=
  (s.container c).cacheEntries.filter (s.graph.shouldInvalidate c token ·.1)

/-- `invalidateAffectedCachedEntries`: each affected entry leaves the cache
and `scheduleStaleDisposal` takes its promise over. -/
def State.invalidateAffectedCachedEntries (c : ContainerId) (token : τ) : State τ :=
  { s.setContainer c { s.container c with
      cache := (s.affectedEntries c token).foldl (fun cache e => cache.erase e.1) (s.container c).cache } with
    staleTasks := s.staleTasks ++ (s.affectedEntries c token).map fun e => (c, e.2) }

/-- The containers whose caches an override on `c` looks at: `c` itself and the
tracked request scopes below it. -/
def State.invalidationScope (c : ContainerId) : List ContainerId :=
  c :: (s.container root).childScopes.filter fun d => c ∈ (s.graph d).ancestors

/-- `invalidateAffectedCachedEntriesInHierarchy`. -/
def State.invalidateInHierarchy (c : ContainerId) (token : τ) : State τ :=
  (s.invalidationScope c).foldl (fun s d => s.invalidateAffectedCachedEntries d token) s

/-- `assertNoRegistrationConflict`. -/
def State.hasRegistrationConflict (c : ContainerId) (token : τ) (multi : Bool) : Bool :=
  if multi then (s.graph.lineage c).any fun d => token ∈ (s.graph d).registrations
  else token ∈ (s.graph c).registrations || (s.graph.lineage c).any fun d => token ∈ (s.graph d).multiRegistrations

/-- One round of the loop of `register`. -/
def State.registerOne (c : ContainerId) (provider : Provider τ) : Except (DiError τ) (State τ) := do
  let p ← normalizeProvider s.classes s.nextProvider provider
  if s.graph.requestScopeEnabled c ∧ p.scope = .default then throw (.scopeMismatch p.provide none)
  if s.hasRegistrationConflict c p.provide p.multi then throw (.duplicateProvider p.provide)
  let v := s.graph c
  let v := if p.multi then { v with
      multiRegistrations := v.multiRegistrations.insert p.provide (s.graph.multiRegistration c p.provide ++ [p]) }
    else { v with registrations := v.registrations.insert p.provide p }
  return { s.setRegistry c v with nextProvider := s.nextProvider + 1 }

def State.registerAll (c : ContainerId) : State τ → List (Provider τ) → State τ × Option (DiError τ)
  | s, [] => (s, none)
  | s, p :: ps => match s.registerOne c p with
    | .error e => (s, some e)
    | .ok s' => State.registerAll c s' ps

/-- `register`: the providers before a failing one stay registered. -/
def State.register (c : ContainerId) (providers : List (Provider τ)) : State τ × Option (DiError τ) :=
  if s.isDisposedInHierarchy c then (s, some (.containerResolution none)) else State.registerAll c s providers

def normalizeAll (classes : JsMap τ (ClassMetadata τ)) :
    Nat → List (Provider τ) → Except (DiError τ) (List (NormalizedProvider τ))
  | _, [] => .ok []
  | id, p :: ps => do return (← normalizeProvider classes id p) :: (← normalizeAll classes (id + 1) ps)

/-- `normalizedByToken`, in order of first appearance. -/
def normalizedByToken (ps : List (NormalizedProvider τ)) : List (τ × List (NormalizedProvider τ)) :=
  (ps.map (·.provide)).eraseDups.map fun t => (t, ps.filter (·.provide = t))

/-- What an override of `token` leaves in the registry. -/
def Registry.override (v : Registry τ) (token : τ) (p : NormalizedProvider τ) (rest : List (NormalizedProvider τ)) :
    Registry τ :=
  if p.multi then { v with
    registrations := v.registrations.erase token
    multiRegistrations := v.multiRegistrations.insert token (p :: rest)
    multiOverriddenTokens := token :: v.multiOverriddenTokens }
  else { v with
    registrations := v.registrations.insert token p
    multiRegistrations := v.multiRegistrations.erase token
    multiOverriddenTokens := token :: v.multiOverriddenTokens }

/-- One round of the loop of `override`: the replacement is one single
provider or any number of multi providers. -/
def State.overrideToken (c : ContainerId) (token : τ) (providers : List (NormalizedProvider τ)) :
    Except (DiError τ) (State τ) :=
  match providers with
  | [] => .ok s
  | p :: rest =>
    if (p :: rest).all (·.multi) || (!p.multi && rest.isEmpty) then
      let s := s.invalidateInHierarchy c token
      .ok (s.setRegistry c ((s.graph c).override token p rest))
    else .error (.duplicateProvider token)

def State.overrideAll (c : ContainerId) :
    State τ → List (τ × List (NormalizedProvider τ)) → State τ × Option (DiError τ)
  | s, [] => (s, none)
  | s, (token, providers) :: rest => match s.overrideToken c token providers with
    | .error e => (s, some e)
    | .ok s' => State.overrideAll c s' rest

/-- `override`: every provider is normalized before any of them takes effect. -/
def State.override (c : ContainerId) (providers : List (Provider τ)) : State τ × Option (DiError τ) :=
  if s.isDisposedInHierarchy c then (s, some (.containerResolution none))
  else match normalizeAll s.classes s.nextProvider providers with
    | .error e => (s, some e)
    | .ok ps => State.overrideAll c { s with nextProvider := s.nextProvider + ps.length } (normalizedByToken ps)

/-- `createRequestScope`. -/
def State.createRequestScope (c : ContainerId) : State τ :=
  { s.setRegistry s.containers { ancestors := s.graph.lineage c } with containers := s.containers + 1 }

end Update

end Fluo.Di
