import Fluo.Lib.Dfs
import Fluo.Lib.Fallible
import Fluo.Di.Provider
/-!
# Module graph compilation

`compileModuleGraph` without the cache: the modules that the root imports are
put in an order, imports first, and then checked one after the other.
-/

namespace Fluo.Runtime

open Di (InjectToken Scope)
open Relation (ReflTransGen TransGen)
open Lib (bind_eq_ok seq_eq_ok forM_eq_ok mapM_eq_ok check_eq_ok)

/-- A function object: a class, a module class or a factory. -/
abbrev FunctionId := Nat

abbrev ModuleType := FunctionId

inductive Token
  | fn (f : FunctionId)
  | symbol (id : Nat)
  | string (s : String)
  deriving DecidableEq

/-- A value given to `useValue` or to `middleware`, by identity. -/
inductive JsValue
  | primitive (text : String)
  | fn (f : FunctionId)
  | object (ref : Nat)

inductive Provider
  | cls (c : FunctionId)
  | useClass (provide : Token) (useClass : FunctionId) (inject : Option (List (InjectToken Token))) (scope : Option Scope) (multi : Bool)
  | useFactory (provide : Token) (useFactory : FunctionId) (inject : Option (List (InjectToken Token)))
      (resolverClass : Option FunctionId) (scope : Option Scope) (multi : Bool)
  | useExisting (provide useExisting : Token)
  | useValue (provide : Token) (useValue : JsValue) (multi : Bool)

/-! ## Metadata -/

/-- `ModuleMetadata`, and the `ModuleDefinition` made from it -/
structure ModuleMetadata where
  global : Option Bool := none
  imports : Option (List ModuleType) := none
  providers : Option (List Provider) := none
  controllers : Option (List FunctionId) := none
  exports : Option (List Token) := none
  middleware : Option (List JsValue) := none

structure ModuleDefinition where
  global : Bool := false
  imports : List ModuleType := []
  providers : List Provider := []
  controllers : List FunctionId := []
  exports : List Token := []
  middleware : List JsValue := []

structure ClassDiMetadata where
  inject : Option (List (InjectToken Token)) := none
  scope : Option Scope := none

/-- What the functions of a program are, apart from metadata. `lineage` goes
from the base class to the class itself. -/
structure Program where
  name : FunctionId → String
  length : FunctionId → Nat
  lineage : FunctionId → List FunctionId
  /-- `String(token)` -/
  display : Token → String

/-- The metadata stores; the newest entry of a function counts. -/
structure Metadata where
  modules : List (FunctionId × ModuleMetadata) := []
  classes : List (FunctionId × ClassDiMetadata) := []

def Metadata.getModuleMetadata (md : Metadata) (m : ModuleType) : Option ModuleMetadata :=
  (md.modules.find? fun e => e.1 = m).map Prod.snd

def Metadata.getOwnClassDiMetadata (md : Metadata) (c : FunctionId) : Option ClassDiMetadata :=
  (md.classes.find? fun e => e.1 = c).map Prod.snd

variable (p : Program) (md : Metadata)

/-- `getInheritedClassDiMetadata` -/
def getClassDiMetadata (c : FunctionId) : Option ClassDiMetadata :=
  (p.lineage c).foldl (fun effective constructor => match md.getOwnClassDiMetadata constructor with
    | none => effective
    | some metadata => some {
        inject := metadata.inject <|> effective.bind (·.inject)
        scope := metadata.scope <|> effective.bind (·.scope) }) none

/-- `normalizeModuleDefinition(getRuntimeModuleMetadata(m))` -/
def definitionOf (m : ModuleType) : ModuleDefinition :=
  match md.getModuleMetadata m with
  | none => {}
  | some raw => {
      global := raw.global.getD false
      imports := raw.imports.getD []
      providers := raw.providers.getD []
      controllers := raw.controllers.getD []
      exports := raw.exports.getD []
      middleware := raw.middleware.getD [] }

/-! ## Providers -/

def providerToken : Provider → Token
  | .cls c => .fn c
  | .useClass provide .. | .useFactory provide .. | .useExisting provide _ | .useValue provide .. => provide

/-- `getEffectiveClassDiMetadata(target)?.inject ?? []` -/
def effectiveInject (c : FunctionId) : List (InjectToken Token) :=
  ((getClassDiMetadata p md c).bind (·.inject)).getD []

def providerDependencies : Provider → List (InjectToken Token)
  | .cls c => effectiveInject p md c
  | .useFactory _ _ inject _ _ _ => inject.getD []
  | .useClass _ c inject _ _ => inject.getD (effectiveInject p md c)
  | _ => []

def controllerDependencies (controller : FunctionId) : List (InjectToken Token) := effectiveInject p md controller

/-! ## Errors -/

inductive ErrorClass
  | ModuleGraphError
  | ModuleInjectionMetadataError
  | ModuleVisibilityError

structure GraphError where
  cls : ErrorClass
  message : String
  module : String
  phase : String
  hint : String
  token : Option Token := none

def circularImport (name : String) : GraphError where
  cls := .ModuleGraphError
  message := s!"Circular module import detected for {name}."
  module := name
  phase := "module graph compilation"
  hint := "Break the import cycle by extracting shared providers into a separate module that both sides can import independently."

def notCompiled (name : String) : GraphError where
  cls := .ModuleGraphError
  message := s!"Imported module {name} was not compiled."
  module := name
  phase := "module graph validation"
  hint := s!"Ensure {name} is decorated with @Module() and included in the imports array of a compiled module."

def missingInjection (subject scope remedy : String) (required configured : Nat) : GraphError :=
  let parameterWord := if required = 1 then "parameter" else "parameters"
  let tokenWord := if configured = 1 then "token is" else "tokens are"
  { cls := .ModuleInjectionMetadataError
    message := s!"{subject} in {scope} declares {required} constructor {parameterWord} but only {configured} injection {tokenWord} configured. Add {remedy} for constructor parameter #{configured}."
    module := scope
    phase := "injection metadata validation"
    hint := s!"Ensure {subject} has a matching @Inject(...) decorator or provider.inject array that covers all {required} constructor parameters. Use @Inject() for an explicit empty override." }

def providerCannotAccess (provider moduleName token : String) (t : Token) : GraphError where
  cls := .ModuleVisibilityError
  message := s!"Provider {provider} in module {moduleName} cannot access token {token} because it is not local, not exported by an imported module, and not visible through a global module."
  module := moduleName
  phase := "provider visibility validation"
  hint := s!"Add {token} to the exports array of the module that owns it, then import that module into {moduleName}. Alternatively, mark the owning module with @Global() to make its exports universally visible."
  token := some t

def controllerCannotAccess (controller moduleName token : String) (t : Token) : GraphError where
  cls := .ModuleVisibilityError
  message := s!"Controller {controller} in module {moduleName} cannot access token {token} because it is not local, not exported by an imported module, and not visible through a global module."
  module := moduleName
  phase := "controller visibility validation"
  hint := s!"Add {token} to the exports array of the module that owns it, then import that module into {moduleName}. Alternatively, mark the owning module with @Global()."
  token := some t

def cannotExport (moduleName token : String) (t : Token) : GraphError where
  cls := .ModuleVisibilityError
  message := s!"Module {moduleName} cannot export token {token} because it is neither local nor re-exported from an imported module."
  module := moduleName
  phase := "export validation"
  hint := s!"Either add a provider for {token} to {moduleName}'s providers array, or import a module that exports {token} so it can be re-exported."
  token := some t

/-! ## Injection metadata -/

def requiredConstructorParameters (c : FunctionId) : Nat :=
  if ((md.getOwnClassDiMetadata c).bind (·.inject)).isSome then 0 else p.length c

def validateClassInjectionMetadata (subject : String) (implementation : FunctionId) (inject : List (InjectToken Token))
    (scope remedy : String) : Except GraphError Unit :=
  let required := requiredConstructorParameters p md implementation
  if required = 0 ∨ inject.length ≥ required then .ok ()
  else .error (missingInjection subject scope remedy required inject.length)

def nameOrAnonymous (c : FunctionId) : String := if p.name c = "" then "<anonymous>" else p.name c

def validateProviderInjectionMetadata (scope : String) : Provider → Except GraphError Unit
  | .cls c => validateClassInjectionMetadata p md s!"Provider {nameOrAnonymous p c}" c (effectiveInject p md c) scope
      "@Inject(...) metadata"
  | .useClass provide c inject _ _ =>
    let subject := if provide = .fn c then s!"Provider {nameOrAnonymous p c}"
      else s!"Provider {p.display provide} ({nameOrAnonymous p c})"
    validateClassInjectionMetadata p md subject c (inject.getD (effectiveInject p md c)) scope
      (if inject.isSome then "provider.inject entries" else "@Inject(...) metadata or provider.inject entries")
  | _ => .ok ()

def validateControllerInjectionMetadata (controller : FunctionId) (scope : String) : Except GraphError Unit :=
  validateClassInjectionMetadata p md s!"Controller {nameOrAnonymous p controller}" controller (effectiveInject p md controller) scope
    "@Inject(...) metadata"

/-! ## Compilation -/

structure CompiledModule where
  type : ModuleType
  definition : ModuleDefinition
  accessibleTokens : Finset Token := ∅
  exportedTokens : Finset Token := ∅
  importedExportedTokens : Finset Token := ∅
  providerTokens : Finset Token

/-- The options of `compileModuleGraph` -/
structure BootstrapModuleOptions where
  providers : List Provider := []
  validationTokens : List Token := []

/-- The record that `compileModule` makes of a module -/
def compiledModule (m : ModuleType) : CompiledModule where
  type := m
  definition := definitionOf md m
  providerTokens := ((definitionOf md m).providers.map providerToken).toFinset

/-- The imports of a module, for the search -/
def importsOf (m : ModuleType) : Except Empty (List ModuleType) := .ok (definitionOf md m).imports

/-- Every module that the metadata mentions, and the root -/
def mentioned (root : ModuleType) : List ModuleType := root :: md.modules.flatMap fun e => (definitionOf md e.1).imports

/-- `compileModule`, called for the root -/
def compileModule (root : ModuleType) : Except GraphError (List CompiledModule) :=
  match Lib.Dfs.order (importsOf md) ((mentioned md root).length + 1) [root] with
  | .ok ordered => .ok (ordered.map (compiledModule md))
  | .error (.cycle m) => .error (circularImport (p.name m))
  | .error .fuel => .error (circularImport "")

def resolveImportedModules (compiledByType : List CompiledModule) (m : CompiledModule) : Except GraphError (List CompiledModule) :=
  m.definition.imports.mapM fun imported => match compiledByType.find? (·.type = imported) with
    | none => .error (notCompiled (p.name imported))
    | some importedModule => .ok importedModule

def createImportedExportedTokenSet (importedModules : List CompiledModule) : Finset Token :=
  importedModules.foldl (fun tokens importedModule => tokens ∪ importedModule.exportedTokens) ∅

def memoizeAccessibleTokenSet (m : CompiledModule) (importedModules : List CompiledModule)
    (runtimeProviderTokens globalExportedTokens : Finset Token) : CompiledModule :=
  let importedExportedTokens := createImportedExportedTokenSet importedModules
  { m with
    importedExportedTokens
    accessibleTokens := runtimeProviderTokens ∪ m.providerTokens ∪ importedExportedTokens ∪ globalExportedTokens }

def validateProviderVisibility (m : CompiledModule) (scope : String) : Except GraphError Unit :=
  m.definition.providers.forM fun provider => do
    validateProviderInjectionMetadata p md scope provider
    (providerDependencies p md provider).forM fun rawToken =>
      if rawToken.target ∈ m.accessibleTokens then .ok ()
      else .error (providerCannotAccess (p.display (providerToken provider)) (p.name m.type) (p.display rawToken.target) rawToken.target)

def validateControllerVisibility (m : CompiledModule) (scope : String) : Except GraphError Unit :=
  m.definition.controllers.forM fun controller => do
    validateControllerInjectionMetadata p md controller scope
    (controllerDependencies p md controller).forM fun rawToken =>
      if rawToken.target ∈ m.accessibleTokens then .ok ()
      else .error (controllerCannotAccess (p.name controller) (p.name m.type) (p.display rawToken.target) rawToken.target)

def createExportedTokenSet (m : CompiledModule) : Except GraphError (Finset Token) := do
  m.definition.exports.forM fun token =>
    if token ∈ m.providerTokens ∨ token ∈ m.importedExportedTokens then .ok ()
    else .error (cannotExport (p.name m.type) (p.display token) token)
  return m.definition.exports.toFinset

/-- One round of the loop of `validateCompiledModules` -/
def validateCompiledModule (runtimeProviderTokens globalExportedTokens : Finset Token) (compiledByType : List CompiledModule)
    (m : CompiledModule) : Except GraphError CompiledModule := do
  let scope := s!"module {p.name m.type}"
  let importedModules ← resolveImportedModules p compiledByType m
  let m := memoizeAccessibleTokenSet m importedModules runtimeProviderTokens globalExportedTokens
  validateProviderVisibility p md m scope
  validateControllerVisibility p md m scope
  let exportedTokens ← createExportedTokenSet p m
  return { m with exportedTokens }

/-- The loop: the modules of `done` are checked, those of `left` are not yet. -/
def validateLoop (runtimeProviderTokens globalExportedTokens : Finset Token) (done : List CompiledModule) :
    List CompiledModule → Except GraphError (List CompiledModule)
  | [] => .ok done
  | m :: left => do
    let m' ← validateCompiledModule p md runtimeProviderTokens globalExportedTokens (done ++ m :: left) m
    validateLoop runtimeProviderTokens globalExportedTokens (done ++ [m']) left

def globalExports (modules : List CompiledModule) : Finset Token :=
  (modules.flatMap fun m => if m.definition.global then m.definition.exports else []).toFinset

def validateCompiledModules (modules : List CompiledModule) (runtimeProviders : List Provider) (runtimeProviderTokens : Finset Token) :
    Except GraphError (List CompiledModule) := do
  runtimeProviders.forM (validateProviderInjectionMetadata p md "bootstrap runtime")
  validateLoop p md runtimeProviderTokens (globalExports modules) [] modules

def mergeRuntimeTokenSets (options : BootstrapModuleOptions) : Finset Token :=
  (options.providers.map providerToken ++ options.validationTokens).toFinset

/-- `compileModuleGraph` with `moduleGraphCache` off -/
def compileModuleGraph (root : ModuleType) (options : BootstrapModuleOptions) : Except GraphError (List CompiledModule) := do
  let ordered ← compileModule p md root
  validateCompiledModules p md ordered options.providers (mergeRuntimeTokenSets options)

/-! ## What a legal graph is -/

/-- `m` imports `i`. -/
def Imports (m i : ModuleType) : Prop := i ∈ (definitionOf md m).imports

/-- A module of the application with the given root. -/
def Reachable (root m : ModuleType) : Prop := ReflTransGen (Imports md) root m

/-- The module declares a provider of the token. -/
def Declares (m : ModuleType) (t : Token) : Prop := t ∈ (definitionOf md m).providers.map providerToken

/-- A module exports what it lists, if it declares it or has it from a module
that it imports. -/
inductive Exported : ModuleType → Token → Prop
  | declared {m t} : t ∈ (definitionOf md m).exports → Declares md m t → Exported m t
  | reexported {m i t} : t ∈ (definitionOf md m).exports → Imports md m i → Exported i t → Exported m t

def RuntimeToken (options : BootstrapModuleOptions) (t : Token) : Prop :=
  t ∈ options.providers.map providerToken ∨ t ∈ options.validationTokens

/-- A provider or controller of the module may inject the token. -/
def Accessible (root : ModuleType) (options : BootstrapModuleOptions) (m : ModuleType) (t : Token) : Prop :=
  RuntimeToken options t ∨ Declares md m t ∨ (∃ i, Imports md m i ∧ Exported md i t) ∨
    ∃ g, Reachable md root g ∧ (definitionOf md g).global = true ∧ Exported md g t

structure Legal (root : ModuleType) (options : BootstrapModuleOptions) : Prop where
  acyclic : ∀ m, Reachable md root m → ¬ TransGen (Imports md) m m
  providers : ∀ m, Reachable md root m → ∀ provider ∈ (definitionOf md m).providers, ∀ d ∈ providerDependencies p md provider,
    Accessible md root options m d.target
  controllers : ∀ m, Reachable md root m → ∀ controller ∈ (definitionOf md m).controllers,
    ∀ d ∈ controllerDependencies p md controller, Accessible md root options m d.target
  exports : ∀ m, Reachable md root m → ∀ t ∈ (definitionOf md m).exports, Exported md m t

/-- The inject list is as long as the constructor needs. -/
def Covered (c : FunctionId) (inject : List (InjectToken Token)) : Prop :=
  requiredConstructorParameters p md c = 0 ∨ inject.length ≥ requiredConstructorParameters p md c

def ProviderCovered : Provider → Prop
  | .cls c => Covered p md c (effectiveInject p md c)
  | .useClass _ c inject _ _ => Covered p md c (inject.getD (effectiveInject p md c))
  | _ => True

/-- Every class that is constructed has injection metadata for its parameters. -/
structure Annotated (root : ModuleType) (options : BootstrapModuleOptions) : Prop where
  runtime : ∀ provider ∈ options.providers, ProviderCovered p md provider
  providers : ∀ m, Reachable md root m → ∀ provider ∈ (definitionOf md m).providers, ProviderCovered p md provider
  controllers : ∀ m, Reachable md root m → ∀ controller ∈ (definitionOf md m).controllers,
    Covered p md controller (effectiveInject p md controller)

/-! ## One module -/

def importedExports (m : ModuleType) : Finset Token :=
  ((definitionOf md m).imports.flatMap fun i => (definitionOf md i).exports).toFinset

def accessible (runtimeTokens globalTokens : Finset Token) (m : ModuleType) : Finset Token :=
  runtimeTokens ∪ (compiledModule md m).providerTokens ∪ importedExports md m ∪ globalTokens

def checkedModule (runtimeTokens globalTokens : Finset Token) (m : ModuleType) : CompiledModule :=
  { compiledModule md m with
    importedExportedTokens := importedExports md m
    accessibleTokens := accessible md runtimeTokens globalTokens m
    exportedTokens := (definitionOf md m).exports.toFinset }

structure Valid (runtimeTokens globalTokens : Finset Token) (m : ModuleType) : Prop where
  providers : ∀ provider ∈ (definitionOf md m).providers, ProviderCovered p md provider ∧
    ∀ d ∈ providerDependencies p md provider, d.target ∈ accessible md runtimeTokens globalTokens m
  controllers : ∀ controller ∈ (definitionOf md m).controllers, Covered p md controller (effectiveInject p md controller) ∧
    ∀ d ∈ controllerDependencies p md controller, d.target ∈ accessible md runtimeTokens globalTokens m
  exports : ∀ t ∈ (definitionOf md m).exports, t ∈ (compiledModule md m).providerTokens ∨ t ∈ importedExports md m

section
variable {p : Program} {md : Metadata} {runtimeTokens globalTokens : Finset Token} {m : ModuleType}

theorem validateClass_ok {subject scope remedy : String} {c : FunctionId} {inject : List (InjectToken Token)} :
    validateClassInjectionMetadata p md subject c inject scope remedy = .ok () ↔ Covered p md c inject := by
  unfold validateClassInjectionMetadata Covered
  dsimp only
  split <;> simp_all

theorem validateProvider_ok {scope : String} {provider : Provider} :
    validateProviderInjectionMetadata p md scope provider = .ok () ↔ ProviderCovered p md provider := by
  cases provider <;> simp [validateProviderInjectionMetadata, ProviderCovered, validateClass_ok]

theorem createImported_eq (l : List ModuleType) (rec : ModuleType → CompiledModule)
    (hrec : ∀ i ∈ l, (rec i).exportedTokens = (definitionOf md i).exports.toFinset) :
    createImportedExportedTokenSet (l.map rec) = (l.flatMap fun i => (definitionOf md i).exports).toFinset := by
  have hfold : ∀ (acc : Finset Token), (l.map rec).foldl (fun tokens m => tokens ∪ m.exportedTokens) acc =
      acc ∪ (l.flatMap fun i => (definitionOf md i).exports).toFinset := by
    induction l with
    | nil => simp
    | cons i rest ih =>
      intro acc
      rw [List.map_cons, List.foldl_cons, ih (fun j hj => hrec j (List.mem_cons_of_mem _ hj)), hrec i List.mem_cons_self,
        List.flatMap_cons, List.toFinset_append, Finset.union_assoc]
  rw [createImportedExportedTokenSet, hfold, Finset.empty_union]

theorem validateProviderVisibility_ok {r : CompiledModule} {scope : String} : validateProviderVisibility p md r scope = .ok () ↔
    ∀ provider ∈ r.definition.providers, ProviderCovered p md provider ∧
      ∀ d ∈ providerDependencies p md provider, d.target ∈ r.accessibleTokens := by
  unfold validateProviderVisibility
  rw [forM_eq_ok]
  refine forall₂_congr fun provider _ => ?_
  rw [seq_eq_ok, validateProvider_ok, forM_eq_ok]
  simp only [check_eq_ok]

theorem validateControllerVisibility_ok {r : CompiledModule} {scope : String} : validateControllerVisibility p md r scope = .ok () ↔
    ∀ controller ∈ r.definition.controllers, Covered p md controller (effectiveInject p md controller) ∧
      ∀ d ∈ controllerDependencies p md controller, d.target ∈ r.accessibleTokens := by
  unfold validateControllerVisibility
  rw [forM_eq_ok]
  refine forall₂_congr fun controller _ => ?_
  rw [seq_eq_ok, validateControllerInjectionMetadata, validateClass_ok, forM_eq_ok]
  simp only [check_eq_ok]

theorem createExportedTokenSet_ok {r : CompiledModule} {e : Finset Token} : createExportedTokenSet p r = .ok e ↔
    (∀ t ∈ r.definition.exports, t ∈ r.providerTokens ∨ t ∈ r.importedExportedTokens) ∧ e = r.definition.exports.toFinset := by
  unfold createExportedTokenSet
  rw [seq_eq_ok, forM_eq_ok]
  simp only [check_eq_ok]
  refine and_congr_right fun _ => ⟨fun he => ?_, fun he => ?_⟩
  · cases he; rfl
  · rw [he]; rfl

theorem validateCompiledModule_ok {compiledByType : List CompiledModule} {m' : CompiledModule}
    (himports : ∀ i ∈ (definitionOf md m).imports, compiledByType.find? (·.type = i) = some (checkedModule md runtimeTokens globalTokens i)) :
    validateCompiledModule p md runtimeTokens globalTokens compiledByType (compiledModule md m) = .ok m' ↔
      Valid p md runtimeTokens globalTokens m ∧ m' = checkedModule md runtimeTokens globalTokens m := by
  have hresolve : resolveImportedModules p compiledByType (compiledModule md m) =
      .ok ((definitionOf md m).imports.map (checkedModule md runtimeTokens globalTokens)) :=
    mapM_eq_ok fun i hi => by rw [himports i hi]
  have hmemo : memoizeAccessibleTokenSet (compiledModule md m)
      ((definitionOf md m).imports.map (checkedModule md runtimeTokens globalTokens)) runtimeTokens globalTokens =
      { compiledModule md m with
        importedExportedTokens := importedExports md m
        accessibleTokens := accessible md runtimeTokens globalTokens m } := by
    simp only [memoizeAccessibleTokenSet, @createImported_eq md _ (checkedModule md runtimeTokens globalTokens) fun _ _ => rfl]
    rfl
  unfold validateCompiledModule
  dsimp only
  rw [bind_eq_ok]
  constructor
  · rintro ⟨imported, him, h⟩
    rw [hresolve] at him
    cases him
    rw [hmemo] at h
    obtain ⟨hproviders, h⟩ := seq_eq_ok.1 h
    obtain ⟨hcontrollers, h⟩ := seq_eq_ok.1 h
    obtain ⟨e, he, h⟩ := bind_eq_ok.1 h
    obtain ⟨hexports, rfl⟩ := createExportedTokenSet_ok.1 he
    cases h
    exact ⟨⟨validateProviderVisibility_ok.1 hproviders, validateControllerVisibility_ok.1 hcontrollers, hexports⟩, rfl⟩
  · rintro ⟨hv, rfl⟩
    refine ⟨_, hresolve, ?_⟩
    rw [hmemo]
    refine seq_eq_ok.2 ⟨validateProviderVisibility_ok.2 hv.providers, ?_⟩
    refine seq_eq_ok.2 ⟨validateControllerVisibility_ok.2 hv.controllers, ?_⟩
    exact bind_eq_ok.2 ⟨_, createExportedTokenSet_ok.2 ⟨hv.exports, rfl⟩, rfl⟩

/-! ## The loop -/

theorem validateLoop_ok {before left : List ModuleType} (hs : Lib.Dfs.Sorted (importsOf md) (before ++ left)) {result : List CompiledModule} :
    validateLoop p md runtimeTokens globalTokens (before.map (checkedModule md runtimeTokens globalTokens))
        (left.map (compiledModule md)) = .ok result ↔
      (∀ m ∈ left, Valid p md runtimeTokens globalTokens m) ∧
        result = (before ++ left).map (checkedModule md runtimeTokens globalTokens) := by
  induction left generalizing before with
  | nil =>
    simp only [List.map_nil, validateLoop, List.append_nil]
    exact ⟨fun h => ⟨by simp, by cases h; rfl⟩, fun h => by rw [h.2]⟩
  | cons m left ih =>
    have himports : ∀ i ∈ (definitionOf md m).imports, ((before.map (checkedModule md runtimeTokens globalTokens) ++
        compiledModule md m :: left.map (compiledModule md)).find? (·.type = i)) = some (checkedModule md runtimeTokens globalTokens i) := by
      intro i hi
      obtain ⟨cs, hcs, hbefore⟩ := hs.ordered before m left rfl
      cases hcs
      have hmem := hbefore i hi
      rw [List.find?_append, List.find?_map]
      have hfind : before.find? ((fun r : CompiledModule => decide (r.type = i)) ∘ checkedModule md runtimeTokens globalTokens) = some i := by
        generalize hq : (fun r : CompiledModule => decide (r.type = i)) ∘ checkedModule md runtimeTokens globalTokens = q
        have hq' : ∀ j, q j = true ↔ j = i := fun j => by rw [← hq]; exact decide_eq_true_iff
        obtain ⟨j, hj⟩ := Option.isSome_iff_exists.1 (List.find?_isSome.2 ⟨i, hmem, (hq' i).2 rfl⟩)
        rw [hj, (hq' j).1 (List.find?_some hj)]
      rw [hfind]
      rfl
    have hs' : Lib.Dfs.Sorted (importsOf md) ((before ++ [m]) ++ left) := by simpa using hs
    have ih := ih hs'
    simp only [List.map_append, List.map_cons, List.map_nil, List.append_assoc, List.cons_append, List.nil_append] at ih
    simp only [List.map_cons, validateLoop, bind_eq_ok, validateCompiledModule_ok himports]
    constructor
    · rintro ⟨m', ⟨hv, rfl⟩, h⟩
      obtain ⟨hleft, rfl⟩ := ih.1 h
      exact ⟨List.forall_mem_cons.2 ⟨hv, hleft⟩, by simp⟩
    · rintro ⟨hv, rfl⟩
      rw [List.forall_mem_cons] at hv
      exact ⟨_, ⟨hv.1, rfl⟩, ih.2 ⟨hv.2, by simp⟩⟩

/-! ## The graph -/

theorem edge_iff {i : ModuleType} : Lib.Dfs.Edge (importsOf md) m i ↔ Imports md m i := by
  constructor
  · rintro ⟨cs, hcs, hi⟩
    cases hcs
    exact hi
  · exact fun hi => ⟨_, rfl, hi⟩

theorem edge_eq : Lib.Dfs.Edge (importsOf md) = Imports md := by
  funext m i
  exact propext edge_iff

theorem compileModule_ok {root : ModuleType} {modules : List CompiledModule} (h : compileModule p md root = .ok modules) :
    ∃ ordered, modules = ordered.map (compiledModule md) ∧ Lib.Dfs.Sorted (importsOf md) ordered ∧
      ∀ m, m ∈ ordered ↔ Reachable md root m := by
  unfold compileModule at h
  split at h
  · rename_i ordered hordered
    cases h
    obtain ⟨hs, hmem⟩ := Lib.Dfs.order_ok hordered
    refine ⟨ordered, rfl, hs, fun m => (hmem m).trans ?_⟩
    rw [edge_eq]
    simp [Reachable]
  · cases h
  · cases h

theorem mem_mentioned {root i : ModuleType} (h : Imports md m i) : i ∈ mentioned md root := by
  refine List.mem_cons_of_mem _ (List.mem_flatMap.2 ?_)
  -- a module that imports something has metadata
  cases hm : md.modules.find? (fun e => e.1 = m) with
  | none => simp [Imports, definitionOf, Metadata.getModuleMetadata, hm] at h
  | some e =>
    have hem : e.1 = m := by simpa using List.find?_some hm
    exact ⟨e, List.mem_of_find?_eq_some hm, hem ▸ h⟩

theorem compileModule_isOk {root : ModuleType} :
    (∃ modules, compileModule p md root = .ok modules) ↔ ∀ m, Reachable md root m → ¬ TransGen (Imports md) m m := by
  have hclosed : ∀ x ∈ (mentioned md root).toFinset, ∀ y, Lib.Dfs.Edge (importsOf md) x y → y ∈ (mentioned md root).toFinset :=
    fun x _ y hy => List.mem_toFinset.2 (mem_mentioned (edge_iff.1 hy))
  have hiff : (∃ ordered, Lib.Dfs.order (importsOf md) ((mentioned md root).length + 1) [root] = .ok ordered) ↔ _ :=
    Lib.Dfs.order_ok_iff (mentioned md root).toFinset (by simp [mentioned]) hclosed (Nat.lt_succ_of_le (List.toFinset_card_le _))
  rw [edge_eq] at hiff
  have hok : (∃ modules, compileModule p md root = .ok modules) ↔
      ∃ ordered, Lib.Dfs.order (importsOf md) ((mentioned md root).length + 1) [root] = .ok ordered := by
    unfold compileModule
    constructor
    · rintro ⟨modules, h⟩
      split at h
      · exact ⟨_, ‹_›⟩
      · cases h
      · cases h
    · rintro ⟨ordered, h⟩
      rw [h]
      exact ⟨_, rfl⟩
  rw [hok, hiff]
  constructor
  · exact fun h m hm => (h root List.mem_cons_self m hm).1
  · intro h a ha m hm
    rw [List.mem_singleton.1 ha] at hm
    exact ⟨h m hm, _, rfl⟩

theorem compileModule_congr {md' : Metadata} {root : ModuleType} (h : ∀ m, Reachable md root m → definitionOf md m = definitionOf md' m)
    (hmentioned : (mentioned md root).length = (mentioned md' root).length) : compileModule p md root = compileModule p md' root := by
  have horder : Lib.Dfs.order (importsOf md) ((mentioned md root).length + 1) [root] =
      Lib.Dfs.order (importsOf md') ((mentioned md' root).length + 1) [root] := by
    rw [← hmentioned]
    refine Lib.Dfs.order_congr fun a ha x hx => ?_
    rw [edge_eq, List.mem_singleton.1 ha] at hx
    rw [importsOf, importsOf, h x hx]
  have hmodule : ∀ m, Reachable md root m → compiledModule md m = compiledModule md' m := by
    intro m hm
    rw [compiledModule, compiledModule, h m hm]
  unfold compileModule
  rw [← horder]
  cases hordered : Lib.Dfs.order (importsOf md) ((mentioned md root).length + 1) [root] with
  | error halt =>
    cases halt with
    | cycle m => rfl
    | failed e => nomatch e
    | fuel => rfl
  | ok ordered =>
    refine congrArg _ (List.map_congr_left fun m hm => hmodule m ?_)
    obtain ⟨a, ha, hx⟩ := ((Lib.Dfs.order_ok hordered).2 m).1 hm
    rwa [edge_eq, List.mem_singleton.1 ha] at hx

theorem mem_providerTokens {t : Token} : t ∈ (compiledModule md m).providerTokens ↔ Declares md m t := by
  simp [compiledModule, Declares]

theorem mem_importedExports {t : Token} : t ∈ importedExports md m ↔ ∃ i, Imports md m i ∧ t ∈ (definitionOf md i).exports := by
  simp [importedExports, Imports]

theorem Exported.listed {t : Token} (h : Exported md m t) : t ∈ (definitionOf md m).exports := by
  cases h <;> assumption

theorem exported_of_listed {ordered : List ModuleType} (hs : Lib.Dfs.Sorted (importsOf md) ordered)
    (hexports : ∀ m ∈ ordered, ∀ t ∈ (definitionOf md m).exports, Declares md m t ∨ ∃ i, Imports md m i ∧ t ∈ (definitionOf md i).exports) :
    ∀ m ∈ ordered, ∀ t ∈ (definitionOf md m).exports, Exported md m t := by
  -- by induction on what comes before the module
  have hbefore : ∀ (n : Nat) (before after : List ModuleType) (m : ModuleType), before.length = n → ordered = before ++ m :: after →
      ∀ t ∈ (definitionOf md m).exports, Exported md m t := by
    intro n
    induction n using Nat.strong_induction_on with
    | _ n ih =>
      intro before after m hn he t ht
      rcases hexports m (he ▸ List.mem_append_right _ List.mem_cons_self) t ht with hd | ⟨i, hi, hti⟩
      · exact .declared ht hd
      · obtain ⟨cs, hcs, hmem⟩ := hs.ordered before m after he
        cases hcs
        obtain ⟨q, r, rfl⟩ := List.append_of_mem (hmem i hi)
        exact .reexported ht hi (ih q.length (by simp at hn; omega) q (r ++ m :: after) i rfl (by simpa using he) t hti)
  intro m hm
  obtain ⟨before, after, he⟩ := List.append_of_mem hm
  exact hbefore _ before after m rfl he

theorem mem_globalExports {ordered : List ModuleType} {t : Token} : t ∈ globalExports (ordered.map (compiledModule md)) ↔
    ∃ g ∈ ordered, (definitionOf md g).global = true ∧ t ∈ (definitionOf md g).exports := by
  simp only [globalExports, List.mem_toFinset, List.mem_flatMap, List.mem_map, exists_exists_and_eq_and, compiledModule]
  refine exists_congr fun g => and_congr_right fun _ => ?_
  split <;> simp_all

structure Ordered (md : Metadata) (root : ModuleType) (ordered : List ModuleType) : Prop where
  sorted : Lib.Dfs.Sorted (importsOf md) ordered
  reachable : ∀ m, m ∈ ordered ↔ Reachable md root m

variable {root : ModuleType} {options : BootstrapModuleOptions} {ordered : List ModuleType}

theorem compileModuleGraph_congr {md' : Metadata} (h : ∀ m, Reachable md root m → definitionOf md m = definitionOf md' m)
    (hmentioned : (mentioned md root).length = (mentioned md' root).length) (hclasses : md.classes = md'.classes) :
    compileModuleGraph p md root options = compileModuleGraph p md' root options := by
  obtain ⟨mods, classes⟩ := md
  obtain ⟨mods', classes'⟩ := md'
  cases hclasses
  have hmodule : validateCompiledModule p ⟨mods, classes⟩ = validateCompiledModule p ⟨mods', classes⟩ := rfl
  have hloop runtimeTokens globalTokens left done :
      validateLoop p ⟨mods, classes⟩ runtimeTokens globalTokens done left = validateLoop p ⟨mods', classes⟩ runtimeTokens globalTokens done left := by
    induction left generalizing done with
    | nil => rfl
    | cons m left ih =>
      rw [validateLoop, validateLoop, hmodule]
      exact congrArg _ (funext fun m' => ih (done ++ [m']))
  rw [compileModuleGraph, compileModuleGraph, compileModule_congr h hmentioned]
  refine congrArg _ (funext fun ordered => ?_)
  rw [validateCompiledModules, validateCompiledModules]
  simp only [hloop]
  rfl

theorem compileModuleGraph_ok {modules : List CompiledModule} : compileModuleGraph p md root options = .ok modules ↔
    ∃ ordered, compileModule p md root = .ok (ordered.map (compiledModule md)) ∧ Ordered md root ordered ∧
      (∀ provider ∈ options.providers, ProviderCovered p md provider) ∧
      (∀ m ∈ ordered, Valid p md (mergeRuntimeTokenSets options) (globalExports (ordered.map (compiledModule md))) m) ∧
      modules = ordered.map (checkedModule md (mergeRuntimeTokenSets options) (globalExports (ordered.map (compiledModule md)))) := by
  have hvalidate : ∀ {ordered : List ModuleType}, Ordered md root ordered →
      (validateCompiledModules p md (ordered.map (compiledModule md)) options.providers (mergeRuntimeTokenSets options) = .ok modules ↔
        (∀ provider ∈ options.providers, ProviderCovered p md provider) ∧
        (∀ m ∈ ordered, Valid p md (mergeRuntimeTokenSets options) (globalExports (ordered.map (compiledModule md))) m) ∧
        modules = ordered.map (checkedModule md (mergeRuntimeTokenSets options) (globalExports (ordered.map (compiledModule md))))) := by
    intro ordered ho
    unfold validateCompiledModules
    rw [seq_eq_ok, forM_eq_ok]
    refine and_congr ?_ ?_
    · simp only [validateProvider_ok]
    · exact validateLoop_ok (show Lib.Dfs.Sorted (importsOf md) ([] ++ ordered) from ho.sorted)
  unfold compileModuleGraph
  rw [bind_eq_ok]
  constructor
  · rintro ⟨records, hrec, h⟩
    obtain ⟨ordered, rfl, hs, hmem⟩ := compileModule_ok hrec
    exact ⟨ordered, hrec, ⟨hs, hmem⟩, (hvalidate ⟨hs, hmem⟩).1 h⟩
  · rintro ⟨ordered, hrec, ho, h⟩
    exact ⟨_, hrec, (hvalidate ho).2 h⟩

theorem mem_accessible (ho : Ordered md root ordered) (hlisted : ∀ m ∈ ordered, ∀ t ∈ (definitionOf md m).exports, Exported md m t)
    (hm : m ∈ ordered) {t : Token} :
    t ∈ accessible md (mergeRuntimeTokenSets options) (globalExports (ordered.map (compiledModule md))) m ↔
      Accessible md root options m t := by
  have hruntime : t ∈ mergeRuntimeTokenSets options ↔ RuntimeToken options t := by
    simp only [mergeRuntimeTokenSets, List.mem_toFinset, List.mem_append, RuntimeToken]
  have himported : t ∈ importedExports md m ↔ ∃ i, Imports md m i ∧ Exported md i t := by
    rw [mem_importedExports]
    refine exists_congr fun i => and_congr_right fun hi => ⟨hlisted i ?_ t, Exported.listed⟩
    exact (ho.reachable i).2 (((ho.reachable m).1 hm).tail hi)
  have hglobal : t ∈ globalExports (ordered.map (compiledModule md)) ↔
      ∃ g, Reachable md root g ∧ (definitionOf md g).global = true ∧ Exported md g t := by
    rw [mem_globalExports]
    simp only [ho.reachable]
    exact exists_congr fun g => and_congr_right fun hg => and_congr_right fun _ =>
      ⟨hlisted g ((ho.reachable g).2 hg) t, Exported.listed⟩
  simp only [accessible, Finset.mem_union, hruntime, mem_providerTokens, himported, hglobal, Accessible, or_assoc]

theorem listed_of_valid (ho : Ordered md root ordered) (hv : ∀ m ∈ ordered, Valid p md runtimeTokens globalTokens m) :
    ∀ m ∈ ordered, ∀ t ∈ (definitionOf md m).exports, Exported md m t :=
  exported_of_listed ho.sorted fun m hm t ht => by
    have := (hv m hm).exports t ht
    rwa [mem_providerTokens, mem_importedExports] at this

theorem valid_iff (ho : Ordered md root ordered) :
    (∀ m ∈ ordered, Valid p md (mergeRuntimeTokenSets options) (globalExports (ordered.map (compiledModule md))) m) ∧
      (∀ provider ∈ options.providers, ProviderCovered p md provider) ↔
    Legal p md root options ∧ Annotated p md root options := by
  constructor
  · rintro ⟨hv, hruntime⟩
    have hlisted := listed_of_valid ho hv
    have hmem : ∀ {m}, Reachable md root m → m ∈ ordered := fun hm => (ho.reachable _).2 hm
    refine ⟨⟨fun m hm => ?_, fun m hm c hc d hd => ?_, fun m hm c hc d hd => ?_, fun m hm => hlisted m (hmem hm)⟩,
      ⟨hruntime, fun m hm c hc => ((hv m (hmem hm)).providers c hc).1, fun m hm c hc => ((hv m (hmem hm)).controllers c hc).1⟩⟩
    · rw [← edge_eq]
      exact ho.sorted.acyclic (hmem hm)
    · exact (mem_accessible ho hlisted (hmem hm)).1 (((hv m (hmem hm)).providers c hc).2 d hd)
    · exact (mem_accessible ho hlisted (hmem hm)).1 (((hv m (hmem hm)).controllers c hc).2 d hd)
  · rintro ⟨hl, ha⟩
    have hreach : ∀ {m}, m ∈ ordered → Reachable md root m := fun hm => (ho.reachable _).1 hm
    have hlisted : ∀ m ∈ ordered, ∀ t ∈ (definitionOf md m).exports, Exported md m t := fun m hm => hl.exports m (hreach hm)
    refine ⟨fun m hm => ⟨fun c hc => ⟨ha.providers m (hreach hm) c hc, fun d hd => ?_⟩,
      fun c hc => ⟨ha.controllers m (hreach hm) c hc, fun d hd => ?_⟩, fun t ht => ?_⟩, ha.runtime⟩
    · exact (mem_accessible ho hlisted hm).2 (hl.providers m (hreach hm) c hc d hd)
    · exact (mem_accessible ho hlisted hm).2 (hl.controllers m (hreach hm) c hc d hd)
    · rw [mem_providerTokens, mem_importedExports]
      cases hlisted m hm t ht with
      | declared _ hd => exact .inl hd
      | reexported _ hi he => exact .inr ⟨_, hi, he.listed⟩

end

/-! ## Acceptance -/

/-- `compileModuleGraph` returns on the legal graphs whose classes have
injection metadata, and on no other. It returns the modules of the root, each
once and after its imports, with their declarative token sets. -/
theorem compileModuleGraph_accepts (p : Program) (md : Metadata) (root : ModuleType) (options : BootstrapModuleOptions) :
    ((∃ modules, compileModuleGraph p md root options = .ok modules) ↔ Legal p md root options ∧ Annotated p md root options) ∧
    ∀ modules, compileModuleGraph p md root options = .ok modules →
      (modules.map (·.type)).Nodup ∧ (∀ m, m ∈ modules.map (·.type) ↔ Reachable md root m) ∧
      (∀ before c after, modules = before ++ c :: after → ∀ i, Imports md c.type i → i ∈ before.map (·.type)) ∧
      ∀ c ∈ modules, c.definition = definitionOf md c.type ∧ (∀ t, t ∈ c.providerTokens ↔ Declares md c.type t) ∧
        (∀ t, t ∈ c.exportedTokens ↔ Exported md c.type t) ∧
        (∀ t, t ∈ c.importedExportedTokens ↔ ∃ i, Imports md c.type i ∧ Exported md i t) ∧
        ∀ t, t ∈ c.accessibleTokens ↔ Accessible md root options c.type t := by
  constructor
  · constructor
    · rintro ⟨modules, h⟩
      obtain ⟨ordered, _, ho, hruntime, hv, _⟩ := compileModuleGraph_ok.1 h
      exact (valid_iff ho).1 ⟨hv, hruntime⟩
    · rintro ⟨hl, ha⟩
      obtain ⟨records, hrec⟩ := compileModule_isOk (p := p).2 hl.acyclic
      obtain ⟨ordered, rfl, hs, hmem⟩ := compileModule_ok hrec
      have hv := (valid_iff ⟨hs, hmem⟩).2 ⟨hl, ha⟩
      exact ⟨_, compileModuleGraph_ok.2 ⟨ordered, hrec, ⟨hs, hmem⟩, hv.2, hv.1, rfl⟩⟩
  · intro modules h
    obtain ⟨ordered, _, ho, _, hv, rfl⟩ := compileModuleGraph_ok.1 h
    have hlisted := listed_of_valid ho hv
    have htypes : ∀ l : List ModuleType, (l.map (checkedModule md (mergeRuntimeTokenSets options)
        (globalExports (ordered.map (compiledModule md))))).map (·.type) = l := by
      intro l
      simp [Function.comp_def, checkedModule, compiledModule]
    refine ⟨by rw [htypes]; exact ho.sorted.nodup, by rw [htypes]; exact ho.reachable, fun before c after he i hi => ?_, fun c hc => ?_⟩
    · have hordered : ordered = before.map (·.type) ++ c.type :: after.map (·.type) := by
        rw [← htypes ordered, he, List.map_append, List.map_cons]
      obtain ⟨cs, hcs, hbefore⟩ := ho.sorted.ordered _ _ _ hordered
      cases hcs
      exact hbefore i hi
    · obtain ⟨m, hm, rfl⟩ := List.mem_map.1 hc
      refine ⟨rfl, fun t => mem_providerTokens, fun t => ?_, fun t => ?_, fun t => mem_accessible ho hlisted hm⟩
      · exact List.mem_toFinset.trans ⟨hlisted m hm t, Exported.listed⟩
      · refine mem_importedExports.trans (exists_congr fun i => and_congr_right fun hi => ⟨hlisted i ?_ t, Exported.listed⟩)
        exact (ho.reachable i).2 (((ho.reachable m).1 hm).tail hi)

private def namedProgram : Program where
  name c := if c = 0 then "App" else "Other"
  length c := c
  lineage c := [c]
  display _ := ""

/-- The root imports `1`, which hands on what `2` exports. -/
private def reexporting : Metadata where
  modules := [(0, { imports := some [1], controllers := some [3] }), (1, { imports := some [2], exports := some [.string "x"] }),
    (2, { providers := some [.useExisting (.string "x") (.string "y")], exports := some [.string "x"] })]
  classes := [(3, { inject := some [.token (.string "x")] })]

theorem compileModuleGraph_accepts_reexport : ∃ modules, compileModuleGraph namedProgram reexporting 0 {} = .ok modules ∧
    ∀ c ∈ modules, ∀ t, t ∈ c.accessibleTokens ↔ Accessible reexporting 0 {} c.type t := by
  have hok : (compileModuleGraph namedProgram reexporting 0 {}).toOption.isSome = true := by decide
  cases h : compileModuleGraph namedProgram reexporting 0 {} with
  | error e => rw [h] at hok; cases hok
  | ok modules =>
    have hsets := ((compileModuleGraph_accepts namedProgram reexporting 0 {}).2 modules h).2.2.2
    exact ⟨modules, rfl, fun c hc => (hsets c hc).2.2.2.2⟩

private def oneController : Metadata := { modules := [(0, { controllers := some [1] })] }

/-- A controller with a constructor parameter and no metadata: the graph has no
token that could be out of reach. -/
theorem compileModuleGraph_missing_injection : ¬ ∀ (p : Program) (md : Metadata) (root : ModuleType) (options : BootstrapModuleOptions),
    (∃ modules, compileModuleGraph p md root options = .ok modules) ↔ Legal p md root options := by
  intro h
  have hreach : ∀ m, Reachable oneController 0 m → m = 0 := by
    intro m hm
    rcases ReflTransGen.cases_head hm with rfl | ⟨i, hi, _⟩
    · rfl
    · cases hi
  have himports : ∀ i, ¬ Imports oneController 0 i := fun i hi => by cases hi
  have hlegal : Legal namedProgram oneController 0 {} := by
    refine ⟨fun m hm => ?_, fun m hm c hc => ?_, fun m hm c hc d hd => ?_, fun m hm t ht => ?_⟩ <;> cases hreach m hm
    · intro hc
      obtain ⟨i, hi, _⟩ := TransGen.head'_iff.1 hc
      exact himports i hi
    · cases hc
    · rw [List.mem_singleton.1 hc] at hd
      cases hd
    · cases ht
  obtain ⟨modules, hok⟩ := (h namedProgram oneController 0 {}).2 hlegal
  obtain ⟨ordered, _, ho, _, hv, _⟩ := compileModuleGraph_ok.1 hok
  have hcovered := ((hv 0 ((ho.reachable 0).2 .refl)).controllers 1 List.mem_cons_self).1
  unfold Covered at hcovered
  revert hcovered
  decide

end Fluo.Runtime