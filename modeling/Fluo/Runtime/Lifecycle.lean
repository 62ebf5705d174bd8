import Mathlib.Data.List.Dedup
import Fluo.Runtime.Application
import Fluo.Runtime.ContextCache
/-!
# Shutdown hooks

The instances whose hooks a bootstrapped application runs, and `close` as far as the hooks see it. A `close` that has failed can
be called again; one that is called during another shares its promise.
-/

namespace Fluo.Runtime.Lifecycle
open Fluo.Lib Fluo.Di Bootstrap ContextCache

inductive Hook
  | onModuleInit | onApplicationBootstrap | onModuleDestroy | onApplicationShutdown
deriving DecidableEq

variable {τ : Type}

/-! ## Instances -/

def useValueOf : Provider τ → Option Obj
  | .object provider => provider.useValue
  | _ => none

def isAlias : Provider τ → Bool
  | .object provider => provider.useExisting.isSome
  | _ => false

section Collect
variable [DecidableEq τ] (classes : JsMap τ (ClassMetadata τ)) (hasMethod : Obj → Hook → Bool)

def hasLifecycleHook (value : Obj) : Bool :=
  hasMethod value .onModuleInit || hasMethod value .onApplicationBootstrap || hasMethod value .onModuleDestroy ||
    hasMethod value .onApplicationShutdown

def isHookBearingValueProvider (provider : Provider τ) : Bool := (useValueOf provider).any (hasLifecycleHook hasMethod)

/-- A direct provider is the only one of its token, which is why the entry can hold it instead. -/
structure LifecycleEntry (τ : Type) where
  provider : Provider τ
  useValue : Option Obj := none

/-- The loop over the providers. -/
def lifecycleEntries (seen : List (Option τ)) : List (Provider τ) → List (LifecycleEntry τ)
  | [] => []
  | provider :: rest =>
    if providerToken provider ∈ seen then lifecycleEntries seen rest
    else if isHookBearingValueProvider hasMethod provider then
      { provider, useValue := useValueOf provider } :: lifecycleEntries (providerToken provider :: seen) rest
    else if isDirectSingletonContextProvider classes provider then { provider } :: lifecycleEntries (providerToken provider :: seen) rest
    else lifecycleEntries seen rest

variable (resolve : Provider τ → Except String Obj)

/-- `resolve` is what comes of a class or a factory when the container resolves it. -/
def LifecycleEntry.resolution (entry : LifecycleEntry τ) : Except String Obj :=
  match entry.useValue with
  | some value => .ok value
  | none => resolve entry.provider

/-- The first error is thrown, when all have settled. -/
def resolveLifecycleInstances (providers : List (Provider τ)) : Except String (List Obj) :=
  (lifecycleEntries classes hasMethod [] providers).mapM (·.resolution resolve)

/-- The instance that a provider adds to the application: none for an alias, and none that lasts for other scopes. -/
def instanceOf (provider : Provider τ) : Option Obj :=
  match useValueOf provider with
  | some value => some value
  | none => if isAlias provider || providerScope classes provider ≠ .singleton then none else (resolve provider).toOption

def hasShutdownHook (value : Obj) : Bool := hasMethod value .onModuleDestroy || hasMethod value .onApplicationShutdown

/-- The instances with shutdown hooks, in the order of bootstrap. -/
def effectiveInstances (providers : List (Provider τ)) : List Obj :=
  ((providers.filterMap (instanceOf classes resolve)).filter (hasShutdownHook hasMethod)).dedup

end Collect

/-! ## Closing -/

inductive LifecycleInstance
  | provided (value : Obj)
  /-- It stops the platform shell in `onModuleDestroy`. -/
  | platformShell

def LifecycleInstance.hasMethod (hasMethod : Obj → Hook → Bool) : LifecycleInstance → Hook → Bool
  | .provided value, hook => hasMethod value hook
  | .platformShell, hook => hook = .onModuleDestroy

/-- The calls of `runShutdownHooks`, in order. -/
def shutdownHooks {ι : Type} (hasMethod : ι → Hook → Bool) (instances : List ι) : List (ι × Hook) :=
  (instances.reverse.filter (hasMethod · .onModuleDestroy)).map (·, .onModuleDestroy) ++
    (instances.reverse.filter (hasMethod · .onApplicationShutdown)).map (·, .onApplicationShutdown)

inductive Stage
  | microservices
  | runtimeCleanup
  /-- The hooks that are left. -/
  | hooks (left : List (LifecycleInstance × Hook))
  | adapterClose
  | disposeContainer

structure Closing where
  stage : Stage := .microservices
  errors : List AppError := []
  /-- The errors of `closeRuntimeResources`. -/
  resourceErrors : List AppError := []

structure Invocation where
  hook : LifecycleInstance × Hook
  result : Result

structure Application where
  hasMethod : Obj → Hook → Bool
  lifecycleInstances : List LifecycleInstance
  closed : Bool := false
  closingPromise : Option Closing := none
  log : List Invocation := []
  /-- The invocations of the last `close`. -/
  attempt : List Invocation := []
  /-- How each `close` has settled. -/
  outcomes : List Result := []

inductive Label
  | close
  | microservices (errors : List AppError)
  | runtimeCleanup (errors : List AppError)
  | hook (result : Result)
  | adapterClose (errors : List AppError)
  | disposeContainer (errors : List AppError)

/-- What has been bootstrapped. -/
def Application.start (hasMethod : Obj → Hook → Bool) (instances : List Obj) : Application :=
  { hasMethod, lifecycleInstances := instances.map .provided ++ [.platformShell] }

def Application.scheduled (s : Application) : List (LifecycleInstance × Hook) :=
  shutdownHooks (LifecycleInstance.hasMethod s.hasMethod) s.lifecycleInstances

def Stage.ofHooks : List (LifecycleInstance × Hook) → Stage
  | [] => .adapterClose
  | left => .hooks left

/-- An application context has no microservices and no adapter: its labels for them have no errors. -/
def Application.step (s : Application) : Label → Option Application
  | .close => if s.closed || s.closingPromise.isSome then some s else some { s with closingPromise := some {}, attempt := [] }
  | .microservices errors => match s.closingPromise with
    | some { stage := .microservices, .. } => some { s with closingPromise := some { stage := .runtimeCleanup, errors := caught errors } }
    | _ => none
  | .runtimeCleanup errors => match s.closingPromise with
    | some { stage := .runtimeCleanup, errors := outer, .. } =>
      some { s with closingPromise := some { stage := .ofHooks s.scheduled, errors := outer, resourceErrors := errors } }
    | _ => none
  | .hook result => match s.closingPromise with
    | some { stage := .hooks (hook :: left), errors, resourceErrors } =>
      let invocation : Invocation := { hook, result }
      let next : Closing := match result with
        | .ok _ => { stage := .ofHooks left, errors, resourceErrors }
        | .error e => { stage := .adapterClose, errors, resourceErrors := resourceErrors ++ [e] }
      some { s with closingPromise := some next, log := s.log ++ [invocation], attempt := s.attempt ++ [invocation] }
    | _ => none
  | .adapterClose errors => match s.closingPromise with
    | some { stage := .adapterClose, errors := outer, resourceErrors } =>
      some { s with closingPromise := some { stage := .disposeContainer, errors := outer, resourceErrors := resourceErrors ++ caught errors } }
    | _ => none
  | .disposeContainer errors => match s.closingPromise with
    | some { stage := .disposeContainer, errors := outer, resourceErrors } => match outer ++ caught (resourceErrors ++ caught errors) with
      | [] => some { s with closed := true, closingPromise := none, outcomes := s.outcomes ++ [.ok ()] }
      | es => some { s with closingPromise := none, outcomes := s.outcomes ++ [.error (createLifecycleCloseError es)] }
    | _ => none

/-! ## Completeness -/

/-- A hook of an instance that a provider has added. -/
def owner : LifecycleInstance × Hook → Option (Obj × Hook)
  | (.provided value, hook) => some (value, hook)
  | (.platformShell, _) => none

def calledHooks (log : List Invocation) : List (Obj × Hook) := log.filterMap fun invocation => owner invocation.hook

/-- Each `close` that has settled has called the hooks of the instances once each, in reverse; and none is called again that has
succeeded. -/
structure Application.Complete (owed : List Obj) (s : Application) : Prop where
  called : s.closingPromise = none → s.outcomes ≠ [] → calledHooks s.attempt = shutdownHooks s.hasMethod owed
  once : s.log.Pairwise fun earlier later => (owner later.hook).isSome = true → earlier.hook = later.hook → earlier.result.isOk = false

/-- A hook throws only when no other is left, and a `close` that has called a hook with success is not called again when it fails. -/
def Application.Calm (s : Application) : Label → Prop
  | .close => s.closed = false → s.closingPromise = none → ∀ invocation ∈ s.log, (owner invocation.hook).isSome = true → invocation.result.isOk = false
  | .hook (.error _) => ∀ hook left errors resourceErrors, s.closingPromise = some { stage := .hooks (hook :: left), errors, resourceErrors } →
      left.filterMap owner = []
  | _ => True

variable [DecidableEq τ]

/-- What the providers add to the application is found by token and kind: no class or factory of a multi provider has shutdown
hooks, no two values of one token have hooks, and no two providers add one instance. -/
structure Collectable (classes : JsMap τ (ClassMetadata τ)) (hasMethod : Obj → Hook → Bool) (resolve : Provider τ → Except String Obj)
    (providers : List (Provider τ)) : Prop where
  multi : ∀ p ∈ providers, isMultiProvider p = true → useValueOf p = none → ∀ value, instanceOf classes resolve p = some value →
    hasShutdownHook hasMethod value = false
  values : providers.Pairwise fun p q => isHookBearingValueProvider hasMethod p = true → isHookBearingValueProvider hasMethod q = true →
    providerToken p ≠ providerToken q
  apart : ((providers.filterMap (instanceOf classes resolve)).filter (hasShutdownHook hasMethod)).Nodup

/-! ## Collected instances -/

section Collected
variable {classes : JsMap τ (ClassMetadata τ)} {hasMethod : Obj → Hook → Bool} {resolve : Provider τ → Except String Obj}

theorem pairwise_of_registerAll {s s' : State τ} {done providers : List (Provider τ)} (h : Registered classes s done) (hdone : done.Pairwise Agree)
    (hs : s.registerAll root providers = (s', none)) : (done ++ providers).Pairwise Agree := by
  induction providers generalizing s done with
  | nil => rwa [List.append_nil]
  | cons p rest ih =>
    rw [State.registerAll] at hs
    rcases h.registerOne p with ⟨e, _, hp⟩ | ⟨n, _, ⟨_, hp⟩ | ⟨hagree, s₁, hp, h₁⟩⟩ <;> rw [hp] at hs
    · cases hs
    · cases hs
    · have hsnoc : (done ++ [p]).Pairwise Agree :=
        List.pairwise_append.2 ⟨hdone, List.pairwise_singleton _ _, fun q hq r hr => List.mem_singleton.1 hr ▸ hagree q hq⟩
      have hrest := ih h₁ hsnoc hs
      rwa [List.append_assoc] at hrest

theorem pairwise_of_registerBootstrap {e : BootstrapEffectiveProviders τ} {modules : List (CompiledModule τ)} {s : State τ}
    (h : registerBootstrap classes e modules = (s, none)) : (e.runtimeProviders ++ e.moduleProviders).Pairwise Agree := by
  rw [registerBootstrap_eq] at h
  have hall := pairwise_of_registerAll (Registered.init classes) .nil h
  rw [List.nil_append] at hall
  exact (List.pairwise_append.1 hall).1

omit [DecidableEq τ] in
theorem hasLifecycleHook_of_hasShutdownHook {value : Obj} (h : hasShutdownHook hasMethod value = true) : hasLifecycleHook hasMethod value = true := by
  simp only [hasShutdownHook, hasLifecycleHook, Bool.or_eq_true] at h ⊢
  tauto

omit [DecidableEq τ] in
theorem isMultiProvider_of_contributes {p : Provider τ} (h : contributes p = true) : isMultiProvider p = true := by
  cases p <;> simp_all [contributes, isMultiProvider]

variable (resolve) in
theorem instanceOf_of_direct {p : Provider τ} (h : isDirectSingletonContextProvider classes p = true) :
    isMultiProvider p = false ∧ useValueOf p = none ∧ instanceOf classes resolve p = (resolve p).toOption := by
  unfold isDirectSingletonContextProvider at h
  split at h
  · cases h
  · rename_i hmulti
    refine ⟨Bool.eq_false_iff.2 hmulti, ?_⟩
    cases p with
    | classConstructor cls =>
      have hscope : providerScope classes (.classConstructor cls) = .singleton := by simpa using h
      simp [useValueOf, instanceOf, isAlias, hscope]
    | unsupported => simp [useValueOf, instanceOf, isAlias, providerScope]
    | object p =>
      dsimp only at h
      split at h
      · cases h
      · rename_i hkind
        have hscope : providerScope classes (.object p) = .singleton := by simpa using h
        simp only [Bool.or_eq_true, not_or, Bool.not_eq_true, Option.isSome_eq_false_iff, Option.isNone_iff_eq_none] at hkind
        simp [useValueOf, instanceOf, isAlias, hscope, hkind.1, hkind.2]

theorem instanceOf_of_not_entry {p : Provider τ} (hvalue : isHookBearingValueProvider hasMethod p = false)
    (hdirect : isDirectSingletonContextProvider classes p = false)
    (hmulti : isMultiProvider p = true → useValueOf p = none → ∀ value, instanceOf classes resolve p = some value → hasShutdownHook hasMethod value = false)
    {value : Obj} (h : instanceOf classes resolve p = some value) : hasShutdownHook hasMethod value = false := by
  cases huse : useValueOf p with
  | some used =>
    have heq : used = value := by simpa [instanceOf, huse] using h
    subst heq
    have hnone : hasLifecycleHook hasMethod used = false := by simpa [isHookBearingValueProvider, huse] using hvalue
    exact Bool.eq_false_iff.2 fun hhook => by simp [hasLifecycleHook_of_hasShutdownHook hhook] at hnone
  | none =>
    cases hm : isMultiProvider p with
    | true => exact hmulti hm huse value h
    | false =>
      obtain ⟨⟨halias, hscope⟩, -⟩ : (isAlias p = false ∧ providerScope classes p = .singleton) ∧ (resolve p).toOption = some value := by
        simpa [instanceOf, huse] using h
      exfalso
      cases p <;> simp_all [isDirectSingletonContextProvider, useValueOf, isAlias]

theorem filter_instances {providers : List (Provider τ)} {seen : List (Option τ)} {instances : List Obj}
    (hagree : providers.Pairwise Agree)
    (hvalues : providers.Pairwise fun p q => isHookBearingValueProvider hasMethod p = true → isHookBearingValueProvider hasMethod q = true →
      providerToken p ≠ providerToken q)
    (hmulti : ∀ p ∈ providers, isMultiProvider p = true → useValueOf p = none → ∀ value, instanceOf classes resolve p = some value →
      hasShutdownHook hasMethod value = false)
    (hseen : ∀ p ∈ providers, providerToken p ∈ seen → ∀ value, instanceOf classes resolve p = some value → hasShutdownHook hasMethod value = false)
    (h : (lifecycleEntries classes hasMethod seen providers).mapM (·.resolution resolve) = .ok instances) :
    instances.filter (hasShutdownHook hasMethod) = (providers.filterMap (instanceOf classes resolve)).filter (hasShutdownHook hasMethod) := by
  induction providers generalizing seen instances with
  | nil =>
    cases h
    rfl
  | cons p rest ih =>
    obtain ⟨hp, hagree⟩ := List.pairwise_cons.1 hagree
    obtain ⟨hpvalues, hvalues⟩ := List.pairwise_cons.1 hvalues
    have hrest := fun q hq => hmulti q (List.mem_cons_of_mem _ hq)
    have hrestSeen := fun q hq => hseen q (List.mem_cons_of_mem _ hq)
    -- a provider without shutdown hooks adds nothing
    have hskip (hnone : ∀ value, instanceOf classes resolve p = some value → hasShutdownHook hasMethod value = false) :
        ((p :: rest).filterMap (instanceOf classes resolve)).filter (hasShutdownHook hasMethod) =
          (rest.filterMap (instanceOf classes resolve)).filter (hasShutdownHook hasMethod) := by
      cases hvalue : instanceOf classes resolve p with
      | none => rw [List.filterMap_cons_none hvalue]
      | some value => rw [List.filterMap_cons_some hvalue, List.filter_cons_of_neg (by simp [hnone value hvalue])]
    -- an entry puts its token among those seen: other providers of the token are multi ones, and their values have no hooks
    have hnext (hentry : isHookBearingValueProvider hasMethod p = true ∨ isMultiProvider p = false) :
        ∀ q ∈ rest, providerToken q ∈ providerToken p :: seen → ∀ value, instanceOf classes resolve q = some value →
          hasShutdownHook hasMethod value = false := by
      intro q hq hmem value hvalue
      rcases List.mem_cons.1 hmem with htoken | hmem
      · obtain ⟨hpc, hqc⟩ := hp q hq htoken.symm
        have hqvalue : isHookBearingValueProvider hasMethod q = false := by
          rcases hentry with hbearing | hsingle
          · exact Bool.eq_false_iff.2 fun hqbearing => hpvalues q hq hbearing hqbearing htoken.symm
          · simp [isMultiProvider_of_contributes hpc] at hsingle
        refine instanceOf_of_not_entry hqvalue ?_ (hrest q hq) hvalue
        simp [isDirectSingletonContextProvider, isMultiProvider_of_contributes hqc]
      · exact hrestSeen q hq hmem value hvalue
    rw [lifecycleEntries] at h
    split at h
    · next hmem => rw [hskip (hseen p List.mem_cons_self hmem), ih hagree hvalues hrest hrestSeen h]
    · split at h
      · next hbearing =>
        obtain ⟨used, huse⟩ : ∃ used, useValueOf p = some used := Option.isSome_iff_exists.1 (by
          cases huse : useValueOf p <;> simp_all [isHookBearingValueProvider])
        rw [List.mapM_cons, LifecycleEntry.resolution, huse] at h
        obtain ⟨_, hfirst, h⟩ := bind_eq_ok.1 h
        cases hfirst
        obtain ⟨others, hothers, h⟩ := bind_eq_ok.1 h
        cases h
        have hvalue : instanceOf classes resolve p = some used := by simp [instanceOf, huse]
        rw [List.filterMap_cons_some hvalue, List.filter_cons, List.filter_cons, ih hagree hvalues hrest (hnext (.inl hbearing)) hothers]
      · split at h
        · next hbearing hdirect =>
          obtain ⟨hsingle, huse, hinstance⟩ := instanceOf_of_direct resolve hdirect
          rw [List.mapM_cons] at h
          obtain ⟨value, hfirst, h⟩ := bind_eq_ok.1 h
          obtain ⟨others, hothers, h⟩ := bind_eq_ok.1 h
          cases h
          have hvalue : instanceOf classes resolve p = some value := by
            rw [hinstance, show resolve p = .ok value from hfirst]
            rfl
          rw [List.filterMap_cons_some hvalue, List.filter_cons, List.filter_cons, ih hagree hvalues hrest (hnext (.inr hsingle)) hothers]
        · next hbearing hdirect =>
          have hnone : ∀ value, instanceOf classes resolve p = some value → hasShutdownHook hasMethod value = false := fun value hvalue =>
            instanceOf_of_not_entry (Bool.eq_false_iff.2 hbearing) (Bool.eq_false_iff.2 hdirect) (hmulti p List.mem_cons_self) hvalue
          rw [hskip hnone, ih hagree hvalues hrest hrestSeen h]

end Collected

/-! ## Hooks -/

section Hooks
variable {hasMethod : Obj → Hook → Bool}

theorem filter_hook {instances owed : List Obj} (h : instances.filter (hasShutdownHook hasMethod) = owed) (hook : Hook)
    (himp : ∀ value, hasMethod value hook = true → hasShutdownHook hasMethod value = true) :
    owed.reverse.filter (hasMethod · hook) = instances.reverse.filter (hasMethod · hook) := by
  rw [← h, ← List.filter_reverse, List.filter_filter]
  refine List.filter_congr fun value _ => ?_
  cases hv : hasMethod value hook with
  | false => rfl
  | true => simp [himp value hv]

theorem filterMap_owner (instances : List Obj) (hook : Hook) :
    (((instances.map LifecycleInstance.provided).filter (LifecycleInstance.hasMethod hasMethod · hook)).map (·, hook)).filterMap owner =
      (instances.filter (hasMethod · hook)).map (·, hook) := by
  simp [List.filter_map, Function.comp_def, LifecycleInstance.hasMethod, List.filterMap_map, owner]

theorem scheduled_owner {instances owed : List Obj} (h : instances.filter (hasShutdownHook hasMethod) = owed) :
    (Application.start hasMethod instances).scheduled.filterMap owner = shutdownHooks hasMethod owed := by
  have hdestroy := filter_hook h .onModuleDestroy fun value hv => by simp [hasShutdownHook, hv]
  have hshutdown := filter_hook h .onApplicationShutdown fun value hv => by simp [hasShutdownHook, hv]
  have hreverse : (instances.map LifecycleInstance.provided ++ [LifecycleInstance.platformShell]).reverse =
      .platformShell :: instances.reverse.map .provided := by simp
  rw [shutdownHooks, hdestroy, hshutdown, ← filterMap_owner, ← filterMap_owner, Application.scheduled, Application.start, shutdownHooks,
    List.filterMap_append, hreverse, List.filter_cons_of_pos rfl, List.filter_cons_of_neg (by simp [LifecycleInstance.hasMethod]),
    List.map_cons, List.filterMap_cons_none rfl]

theorem nodup_shutdownHooks {owed : List Obj} (h : owed.Nodup) : (shutdownHooks hasMethod owed).Nodup := by
  have hside (hook : Hook) : ((owed.reverse.filter (hasMethod · hook)).map (·, hook)).Nodup :=
    ((List.nodup_reverse.2 h).filter _).map fun a b hab => congrArg Prod.fst hab
  refine List.nodup_append.2 ⟨hside _, hside _, ?_⟩
  intro a ha b hb hab
  obtain ⟨value, -, rfl⟩ := List.mem_map.1 ha
  obtain ⟨value', -, rfl⟩ := List.mem_map.1 hb
  cases congrArg Prod.snd hab

end Hooks

/-! ## Invariant -/

@[simp] theorem calledHooks_append (log log' : List Invocation) : calledHooks (log ++ log') = calledHooks log ++ calledHooks log' :=
  List.filterMap_append

def Progress (due : List (Obj × Hook)) (s : Application) : Option Closing → Prop
  | none => s.attempt = [] ∨ calledHooks s.attempt = due
  | some { stage := .microservices, .. } | some { stage := .runtimeCleanup, .. } => s.attempt = []
  | some { stage := .hooks left, .. } => calledHooks s.attempt ++ left.filterMap owner = due
  | some { stage := .adapterClose, .. } | some { stage := .disposeContainer, .. } => calledHooks s.attempt = due

structure Application.Inv (owed : List Obj) (s : Application) : Prop where
  scheduled : s.scheduled.filterMap owner = shutdownHooks s.hasMethod owed
  progress : Progress (shutdownHooks s.hasMethod owed) s s.closingPromise
  settled : s.closingPromise = none → s.outcomes ≠ [] → calledHooks s.attempt = shutdownHooks s.hasMethod owed
  /-- What has been called before the last `close` has failed. -/
  before : ∃ old, s.log = old ++ s.attempt ∧ ∀ invocation ∈ old, (owner invocation.hook).isSome = true → invocation.result.isOk = false

section Steps
variable {owed : List Obj} {s s' : Application}

theorem progress_ofHooks {due : List (Obj × Hook)} {left : List (LifecycleInstance × Hook)} {errors resourceErrors : List AppError}
    (h : calledHooks s.attempt ++ left.filterMap owner = due) :
    Progress due s (some { stage := .ofHooks left, errors, resourceErrors }) := by
  cases left with
  | nil => simpa [Progress, Stage.ofHooks] using h
  | cons hook left => exact h

theorem inv_start {hasMethod : Obj → Hook → Bool} {instances : List Obj} (h : instances.filter (hasShutdownHook hasMethod) = owed) :
    (Application.start hasMethod instances).Inv owed :=
  ⟨scheduled_owner h, .inl rfl, fun _ hsettled => absurd rfl hsettled, [], rfl, fun _ hmem => by cases hmem⟩

theorem Application.Inv.move (h : s.Inv owed) {closingPromise : Option Closing} {closed : Bool} {outcomes : List Result}
    (hp : Progress (shutdownHooks s.hasMethod owed) s closingPromise)
    (hsettled : closingPromise = none → outcomes ≠ [] → calledHooks s.attempt = shutdownHooks s.hasMethod owed) :
    ({ s with closingPromise, closed, outcomes } : Application).Inv owed := by
  refine ⟨h.scheduled, ?_, hsettled, h.before⟩
  cases closingPromise with
  | none => exact hp
  | some c =>
    obtain ⟨stage, errors, resourceErrors⟩ := c
    cases stage <;> exact hp

theorem step_inv {l : Label} (hok : s.Calm l) (h : s.Inv owed) (hs : s.step l = some s') : s'.Inv owed := by
  have hprogress := h.progress
  have hunsettled {closing : Closing} {P : Prop} (hnone : some closing = none) : P := absurd hnone (Option.some_ne_none closing)
  cases l with
  | close =>
    simp only [Application.step] at hs
    split at hs
    · cases hs
      exact h
    · next hopen =>
      cases hs
      simp only [Bool.or_eq_true, not_or, Bool.not_eq_true, Option.isSome_eq_false_iff, Option.isNone_iff_eq_none] at hopen
      obtain ⟨old, hlog, hold⟩ := h.before
      exact ⟨h.scheduled, rfl, hunsettled, s.log, (List.append_nil _).symm, hok hopen.1 hopen.2⟩
  | microservices errors =>
    simp only [Application.step] at hs
    split at hs
    · next resourceErrors hstage =>
      cases hs
      rw [hstage] at hprogress
      exact h.move hprogress hunsettled
    · cases hs
  | runtimeCleanup errors =>
    simp only [Application.step] at hs
    split at hs
    · next outer resourceErrors hstage =>
      cases hs
      rw [hstage] at hprogress
      refine h.move (progress_ofHooks ?_) hunsettled
      rw [show s.attempt = [] from hprogress, h.scheduled]
      rfl
    · cases hs
  | hook result =>
    simp only [Application.step] at hs
    split at hs
    · next hook left errors resourceErrors hstage =>
      cases hs
      rw [hstage] at hprogress
      have hdue : calledHooks s.attempt ++ (hook :: left).filterMap owner = shutdownHooks s.hasMethod owed := hprogress
      have hcalled : calledHooks (s.attempt ++ [⟨hook, result⟩]) ++ left.filterMap owner = shutdownHooks s.hasMethod owed := by
        rw [← hdue, calledHooks_append, List.append_assoc, ← List.singleton_append (x := hook), List.filterMap_append]
        rfl
      obtain ⟨old, hlog, hold⟩ := h.before
      refine ⟨h.scheduled, ?_, hunsettled, old, by simp [hlog], hold⟩
      cases result with
      | ok u => exact progress_ofHooks hcalled
      | error e =>
        -- the hooks that are left are not called: none of them is owed
        have hnone := hok hook left errors resourceErrors hstage
        rw [hnone, List.append_nil] at hcalled
        exact hcalled
    · cases hs
  | adapterClose errors =>
    simp only [Application.step] at hs
    split at hs
    · next outer resourceErrors hstage =>
      cases hs
      rw [hstage] at hprogress
      exact h.move hprogress hunsettled
    · cases hs
  | disposeContainer errors =>
    simp only [Application.step] at hs
    split at hs
    · next outer resourceErrors hstage =>
      rw [hstage] at hprogress
      split at hs <;> cases hs <;> exact h.move (.inr hprogress) fun _ _ => hprogress
    · cases hs

theorem Application.Inv.complete (h : s.Inv owed) (hnodup : owed.Nodup) : s.Complete owed := by
  refine ⟨h.settled, ?_⟩
  obtain ⟨old, hlog, hold⟩ := h.before
  have hprefix : calledHooks s.attempt <+: shutdownHooks s.hasMethod owed := by
    have hprogress := h.progress
    unfold Progress at hprogress
    split at hprogress
    · rcases hprogress with hnil | heq
      · rw [hnil]
        exact List.nil_prefix
      · exact heq ▸ List.prefix_rfl
    · rw [hprogress]
      exact List.nil_prefix
    · rw [hprogress]
      exact List.nil_prefix
    · exact ⟨_, hprogress⟩
    · exact hprogress ▸ List.prefix_rfl
    · exact hprogress ▸ List.prefix_rfl
  have hattempt : (calledHooks s.attempt).Nodup := (nodup_shutdownHooks hnodup).sublist hprefix.sublist
  rw [hlog, List.pairwise_append]
  refine ⟨?_, ?_, ?_⟩
  · refine List.pairwise_of_forall_mem_list fun earlier hmem later _ howner heq => ?_
    exact hold earlier hmem (heq ▸ howner)
  · rw [List.Nodup, calledHooks, List.pairwise_filterMap] at hattempt
    refine hattempt.imp fun {earlier later} hne howner heq => ?_
    obtain ⟨key, hkey⟩ := Option.isSome_iff_exists.1 howner
    exact absurd rfl (hne key (heq ▸ hkey) key hkey)
  · intro earlier hmem later _ howner heq
    exact hold earlier hmem (heq ▸ howner)

end Steps

/-! ## Runs -/

/-- Every hook is called, once and in reverse, by each `close` that settles, and none again that has succeeded, where the instances
can be collected, only the last hook throws, and no `close` is called again that has called one. -/
theorem close_completes (classes : JsMap τ (ClassMetadata τ)) (hasMethod : Obj → Hook → Bool) (resolve : Provider τ → Except String Obj)
    (modules : List (CompiledModule τ)) (e : BootstrapEffectiveProviders τ) {container : State τ} {instances : List Obj}
    (hregister : registerBootstrap classes e modules = (container, none))
    (hresolve : resolveLifecycleInstances classes hasMethod resolve (e.runtimeProviders ++ e.moduleProviders) = .ok instances)
    (hcollect : Collectable classes hasMethod resolve (e.runtimeProviders ++ e.moduleProviders)) (ls : List Label) (s : Application)
    (run : Run Application.step Application.Calm (.start hasMethod instances) ls s) :
    s.Complete (effectiveInstances classes hasMethod resolve (e.runtimeProviders ++ e.moduleProviders)) := by
  have hfilter := filter_instances (pairwise_of_registerBootstrap hregister) hcollect.values hcollect.multi
    (fun p _ hmem => by cases hmem) hresolve
  have hinv : s.Inv (effectiveInstances classes hasMethod resolve (e.runtimeProviders ++ e.moduleProviders)) := by
    refine run.keeps (Application.Inv _) (fun _ _ _ hok h hs => step_inv hok h hs) (inv_start ?_)
    rw [hfilter, effectiveInstances, hcollect.apart.dedup]
  exact hinv.complete (List.nodup_dedup _)

/-- Everything has a hook that is called when its module is destroyed. -/
private def destroys (_ : Obj) (hook : Hook) : Bool := hook = .onModuleDestroy

private def resolveClass : Provider Nat → Except String Obj
  | .classConstructor cls => .ok (.made cls false)
  | _ => .error "no class"

private def plugin (id : Nat) : Provider Nat := .object { provide := some 7, useValue := some (.given id false), multi := true }

private def effective (moduleProviders : List (Provider Nat)) : BootstrapEffectiveProviders Nat where
  moduleProviders := moduleProviders
  rootModuleProviders := moduleProviders
  runtimeProviders := []

private def bootstrapped (moduleProviders : List (Provider Nat)) : Application :=
  .start destroys ((resolveLifecycleInstances ∅ destroys resolveClass moduleProviders).toOption.getD [])

private def isCalm (s : Application) : Label → Bool
  | .close => s.closed || s.closingPromise.isSome || s.log.all fun invocation => (owner invocation.hook).isNone || !invocation.result.isOk
  | .hook (.error _) => match s.closingPromise with
    | some { stage := .hooks (_ :: left), .. } => (left.filterMap owner).isEmpty
    | _ => true
  | _ => true

private theorem calm_of (s : Application) (l : Label) (h : isCalm s l = true) : s.Calm l := by
  cases l with
  | close =>
    intro hopen hnone invocation hmem howner
    simp only [isCalm, hopen, hnone, Option.isSome_none, Bool.false_or, List.all_eq_true] at h
    simpa [Option.isNone_eq_false_iff.2 howner] using h invocation hmem
  | hook result =>
    cases result with
    | ok u => trivial
    | error e =>
      intro hook left errors resourceErrors hstage
      simpa [isCalm, hstage] using h
  | microservices | runtimeCleanup | adapterClose | disposeContainer => trivial

private theorem collectable : Collectable ∅ destroys resolveClass [.classConstructor 0, plugin 0] := by
  refine ⟨fun p hp hmulti huse => ?_, by decide, by decide⟩
  rcases List.mem_cons.1 hp with rfl | hp
  · cases hmulti
  · cases List.mem_singleton.1 hp
    cases huse

/-- The hook of the class is the last, and throws. -/
theorem close_completes_plugin : ∃ s : Application, s.Complete (effectiveInstances ∅ destroys resolveClass [.classConstructor 0, plugin 0]) ∧
    s.outcomes.length = 1 :=
  ⟨after Application.step (bootstrapped [.classConstructor 0, plugin 0])
      [.close, .microservices [], .runtimeCleanup [], .hook (.ok ()), .hook (.ok ()), .hook (.error (.thrown "busy")), .adapterClose [],
        .disposeContainer []],
    close_completes ∅ destroys resolveClass [] (effective [.classConstructor 0, plugin 0]) (Prod.ext rfl (by decide)) rfl collectable _ _
      (Run.of_passes (p := isCalm) calm_of (by decide)), rfl⟩

private def throws : List Label :=
  [.close, .microservices [], .runtimeCleanup [], .hook (.ok ()), .hook (.error (.thrown "busy")), .adapterClose [], .disposeContainer []]

private def again : List Label :=
  [.close, .microservices [], .runtimeCleanup [], .hook (.ok ()), .hook (.ok ()), .adapterClose [.thrown "busy"], .disposeContainer [],
    .close, .microservices [], .runtimeCleanup [], .hook (.ok ()), .hook (.ok ())]

private def once : List Label :=
  [.close, .microservices [], .runtimeCleanup [], .hook (.ok ()), .hook (.ok ()), .adapterClose [], .disposeContainer []]

private theorem run_any (s : Application) (ls : List Label) (h : passes Application.step (fun _ _ => true) s ls = true) :
    Run Application.step (fun _ _ => True) s ls (after Application.step s ls) :=
  Run.of_passes (p := fun _ _ => true) (fun _ _ _ => trivial) h

/-- A hook that throws keeps another from being called; a hook is called again; and a second plugin of a token is not called at all. -/
theorem close_completes_counterexample :
    (∃ s, Run Application.step (fun _ _ => True) (bootstrapped [.classConstructor 0, .classConstructor 1]) throws s ∧
      ¬s.Complete (effectiveInstances ∅ destroys resolveClass [.classConstructor 0, .classConstructor 1])) ∧
    (∃ s, Run Application.step (fun _ _ => True) (bootstrapped [.classConstructor 0]) again s ∧
      ¬s.Complete (effectiveInstances ∅ destroys resolveClass [.classConstructor 0])) ∧
    ∃ s, Run Application.step (fun _ _ => True) (bootstrapped [plugin 0, plugin 1]) once s ∧
      ¬s.Complete (effectiveInstances ∅ destroys resolveClass [plugin 0, plugin 1]) := by
  refine ⟨⟨_, run_any _ throws (by decide), fun h => ?_⟩, ⟨_, run_any _ again (by decide), fun h => ?_⟩,
    _, run_any _ once (by decide), fun h => ?_⟩
  · exact absurd (h.called rfl nofun) (by decide)
  · have honce := List.pairwise_iff_getElem.1 h.once 1 3 (by decide) (by decide) (by decide) rfl rfl
    cases honce
  · exact absurd (h.called rfl nofun) (by decide)

end Fluo.Runtime.Lifecycle
