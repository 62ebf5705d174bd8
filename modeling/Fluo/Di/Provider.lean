import Mathlib.Data.List.AList
/-!
# Provider definitions

What `container.register(...)` accepts and the records `normalizeProvider`
turns it into. A token is any value compared by identity, so it is a type
`τ` with decidable equality. A normalized record is an object of its own:
its `id` is its identity, which the multi-provider caches are keyed by.
-/

namespace Fluo.Di

/-- A JavaScript `Map`. The newest entry stands first, so the iteration order
of the source is the reverse of `entries`. -/
abbrev JsMap (κ ν : Type) := AList (fun _ : κ => ν)

inductive Scope
  | singleton
  | request
  | transient
  deriving DecidableEq

/-- `Scope.DEFAULT`. -/
abbrev Scope.default : Scope := .singleton

/-- An entry of an inject list: a token, `forwardRef(() => token)` with the
token its callback returns, or `optional(token)`. -/
inductive InjectToken (τ : Type)
  | token (token : τ)
  | forwardRef (token : τ)
  | optional (token : τ)
  deriving DecidableEq

variable {τ : Type}

/-- `resolveProviderDependencyToken`. -/
def InjectToken.target : InjectToken τ → τ
  | .token t | .forwardRef t | .optional t => t

/-- A value by identity: one the program gave to `useValue` or already had,
or an object that a constructor or factory made. `disposable` says whether it
has an `onDestroy` method. -/
inductive Obj
  | given (id : Nat) (disposable : Bool)
  | made (id : Nat) (disposable : Bool)
  deriving DecidableEq

/-- `isDisposable`. -/
def Obj.isDisposable : Obj → Bool
  | .given _ d | .made _ d => d

/-- What a promise of the container is fulfilled with: `undefined` for an
absent optional dependency, an object, or the array of a multi provider. -/
inductive Value
  | undefined
  | object (obj : Obj)
  | array (values : List Value)

/-- The errors of the container, each with the tokens its context names.
`user` is whatever user code throws. -/
inductive DiError (τ : Type)
  | invalidProvider (token : Option τ)
  | duplicateProvider (token : τ)
  | containerResolution (token : Option τ)
  | requestScopeResolution (token : τ)
  | scopeMismatch (token : τ) (dependency : Option τ)
  | circularDependency (chain : List τ) (forwardRef : Bool)
  | user (error : Nat)
  deriving DecidableEq

inductive ProviderType (τ : Type)
  | cls
  | factory
  | value (useValue : Obj)
  | existing (useExisting : τ)
  deriving DecidableEq

/-- `NormalizedProvider`. -/
structure NormalizedProvider (τ : Type) where
  id : Nat
  provide : τ
  inject : List (InjectToken τ)
  scope : Scope
  type : ProviderType τ
  multi : Bool
  deriving DecidableEq

/-- The tokens a provider refers to: its alias target, or its inject list. -/
def NormalizedProvider.dependencies (p : NormalizedProvider τ) : List τ :=
  match p.type with
  | .existing t => [t]
  | _ => p.inject.map InjectToken.target

/-! ## Normalization -/

/-- `getClassDiMetadata`: what the decorators recorded on a class. An entry
`none` of the inject list is `null` or `undefined`. -/
structure ClassMetadata (τ : Type) where
  inject : List (Option (InjectToken τ)) := []
  scope : Option Scope := none

/-- A provider object. An outer `none` is an absent key; `useFactory` and
`useClass` say whether the key holds a function, `useExisting := some none`
is an alias to `null`. -/
structure ObjectProvider (τ : Type) where
  provide : Option τ
  useValue : Option Obj := none
  useFactory : Option Bool := none
  useClass : Option (Option τ) := none
  useExisting : Option (Option τ) := none
  inject : Option (List (Option (InjectToken τ))) := none
  scope : Option Scope := none
  resolverClass : Option τ := none
  multi : Bool := false

inductive Provider (τ : Type)
  | classConstructor (cls : τ)
  | object (provider : ObjectProvider τ)
  | unsupported

section Normalize
variable [DecidableEq τ]

/-- `inject.map(normalizeInjectToken)`. -/
def normalizeInject (inject : List (Option (InjectToken τ))) : Except (DiError τ) (List (InjectToken τ)) :=
  inject.mapM fun
    | some e => .ok e
    | none => .error (.invalidProvider none)

/-- `assertObjectProvider`: a token, and exactly one strategy. -/
def assertObjectProvider (p : ObjectProvider τ) : Except (DiError τ) τ :=
  match p.provide with
  | none => .error (.invalidProvider none)
  | some t =>
    if p.useValue.isSome.toNat + p.useFactory.isSome.toNat + p.useClass.isSome.toNat + p.useExisting.isSome.toNat = 1
    then .ok t else .error (.invalidProvider none)

/-- `normalizeProvider`, for a record that becomes object `id`. -/
def normalizeProvider (classes : JsMap τ (ClassMetadata τ)) (id : Nat) :
    Provider τ → Except (DiError τ) (NormalizedProvider τ)
  | .classConstructor cls => do
    let metadata := classes.lookup cls
    let inject ← normalizeInject ((metadata.map (·.inject)).getD [])
    return ⟨id, cls, inject, (metadata.bind (·.scope)).getD .default, .cls, false⟩
  | .unsupported => .error (.invalidProvider none)
  | .object p =>
    match p.useValue, p.useFactory, p.useClass, p.useExisting with
    | some v, _, _, _ => do
      let provide ← assertObjectProvider p
      return ⟨id, provide, [], .default, .value v, p.multi⟩
    | _, some isFunction, _, _ => do
      let provide ← assertObjectProvider p
      if !isFunction then throw (.invalidProvider (some provide))
      let metadata := p.resolverClass.bind classes.lookup
      let inject ← normalizeInject (p.inject.getD [])
      return ⟨id, provide, inject, (p.scope <|> metadata.bind (·.scope)).getD .default, .factory, p.multi⟩
    | _, _, some cls, _ => do
      let provide ← assertObjectProvider p
      let some cls := cls | throw (.invalidProvider (some provide))
      let metadata := classes.lookup cls
      let inject ← normalizeInject ((p.inject <|> metadata.map (·.inject)).getD [])
      return ⟨id, provide, inject, (p.scope <|> metadata.bind (·.scope)).getD .default, .cls, p.multi⟩
    | _, _, _, some target => do
      let provide ← assertObjectProvider p
      let some target := target | throw (.invalidProvider (some provide))
      -- an alias drops `multi`, `scope` and `inject`
      return ⟨id, provide, [], .default, .existing target, false⟩
    | none, none, none, none => .error (.invalidProvider none)

end Normalize

end Fluo.Di
