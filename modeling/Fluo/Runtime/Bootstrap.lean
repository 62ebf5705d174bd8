import Fluo.Di.Container
import Fluo.Lib.Fallible
import Fluo.Lib.Latest
/-!
# Effective providers

`bootstrapModule` after the module graph is compiled: which of the providers that
the modules and the runtime options declare are registered, and their registration
on a fresh container, followed by the controllers of the modules.
-/

namespace Fluo.Runtime.Bootstrap
open Fluo.Lib Fluo.Di

variable {τ : Type}

/-- The part of a compiled module that is registered. -/
structure CompiledModule (τ : Type) where
  type : Nat
  name : String
  providers : List (Provider τ)
  controllers : List τ

inductive DuplicateProviderPolicy
  | throw | warn | ignore
deriving DecidableEq

structure DuplicateProviderError (τ : Type) where
  message : String
  module : String
  token : Option τ
  phase : String
  hint : String

structure BootstrapEffectiveProviders (τ : Type) where
  moduleProviders : List (Provider τ)
  rootModuleProviders : List (Provider τ)
  runtimeProviders : List (Provider τ)

/-! ## Selection -/

/-- `undefined` for what has no token. -/
def providerToken : Provider τ → Option τ
  | .classConstructor cls => some cls
  | .object provider => provider.provide
  | .unsupported => none

def isMultiProvider : Provider τ → Bool
  | .object provider => provider.multi
  | _ => false

/-- An entry with its module, none for a runtime provider. -/
structure SelectedProviderEntry (τ : Type) where
  moduleName : String
  moduleType : Option Nat
  provider : Provider τ

def SelectedProviderEntry.token (entry : SelectedProviderEntry τ) : Option τ := providerToken entry.provider

def SelectedProviderEntry.multi (entry : SelectedProviderEntry τ) : Bool := isMultiProvider entry.provider

section Code
variable (tokenLabel : Option τ → String)

def createDuplicateProviderMessage (token : Option τ) (moduleName existingModuleName : String) : String :=
  "Duplicate provider token \"" ++ tokenLabel token ++ "\" registered in module \"" ++ moduleName ++
    "\". Previously registered in module \"" ++ existingModuleName ++ "\"."

def createDuplicateRuntimeProviderMessage (token : Option τ) : String :=
  "Duplicate runtime provider token \"" ++ tokenLabel token ++ "\" registered."

def duplicateProviderError (entry existing : SelectedProviderEntry τ) : DuplicateProviderError τ where
  message := createDuplicateProviderMessage tokenLabel entry.token entry.moduleName existing.moduleName
  module := entry.moduleName
  token := entry.token
  phase := "provider registration"
  hint := "Remove the duplicate registration from one of the modules, use container.override() for intentional replacements, " ++
    "or set duplicateProviderPolicy to 'warn' or 'ignore'."

def duplicateRuntimeProviderError (entry _existing : SelectedProviderEntry τ) : DuplicateProviderError τ where
  message := createDuplicateRuntimeProviderMessage tokenLabel entry.token
  module := "<runtime>"
  token := entry.token
  phase := "provider registration"
  hint := "Remove the duplicate runtime provider registration, use container.override() after bootstrap for intentional " ++
    "replacements, or set duplicateProviderPolicy to 'warn' or 'ignore'."

end Code

section Selection
variable [DecidableEq τ]

/-- The loop over the entries of one source: the entries so far, the index of the
last single one of each token, and the warnings logged. -/
structure Selection (τ : Type) where
  entries : List (SelectedProviderEntry τ) := []
  indexes : OrderedMap (Option τ) Nat := []
  warnings : List String := []

/-- `handleDuplicateProvider` and `handleDuplicateRuntimeProvider`. -/
def handleDuplicate (policy : DuplicateProviderPolicy) (error : DuplicateProviderError τ) (selection : Selection τ) :
    Except (DuplicateProviderError τ) (Selection τ) :=
  match policy with
  | .throw => .error error
  | .warn => .ok { selection with warnings := selection.warnings ++ [error.message] }
  | .ignore => .ok selection

def Selection.push (selection : Selection τ) (entry : SelectedProviderEntry τ) : Selection τ :=
  { selection with
    entries := selection.entries ++ [entry]
    indexes := if entry.multi then selection.indexes else selection.indexes.set entry.token selection.entries.length }

def selectEntry (policy : DuplicateProviderPolicy) (duplicate : SelectedProviderEntry τ → SelectedProviderEntry τ → DuplicateProviderError τ)
    (selection : Selection τ) (entry : SelectedProviderEntry τ) : Except (DuplicateProviderError τ) (Selection τ) :=
  match (selection.indexes.get entry.token).bind (selection.entries[·]?) with
  | some existing =>
    if entry.multi then .ok (selection.push entry)
    else (handleDuplicate policy (duplicate entry existing) selection).map (·.push entry)
  | none => .ok (selection.push entry)

/-- The entries that are multi or the last single one of their token. -/
def Selection.selected (selection : Selection τ) : List (SelectedProviderEntry τ) :=
  (selection.entries.zipIdx.filter fun e => e.1.multi || decide (e.2 ∈ selection.indexes.map Prod.snd)).map Prod.fst

def runtimeEntries (runtimeProviders : List (Provider τ)) : List (SelectedProviderEntry τ) :=
  runtimeProviders.map fun provider => ⟨"<runtime>", none, provider⟩

def moduleEntries (modules : List (CompiledModule τ)) : List (SelectedProviderEntry τ) :=
  modules.flatMap fun m => m.providers.map fun provider => ⟨m.name, some m.type, provider⟩

/-- A runtime provider of the token takes the place of a module's: a single one of
every one, a multi one of every single one. -/
def replacedByRuntime (runtimeProviders : List (Provider τ)) (provider : Provider τ) : Bool :=
  runtimeProviders.any (fun r => !isMultiProvider r && decide (providerToken r = providerToken provider)) ||
    (runtimeProviders.any (fun r => isMultiProvider r && decide (providerToken r = providerToken provider)) && !isMultiProvider provider)

def selectEffectiveBootstrapProviders (tokenLabel : Option τ → String) (modules : List (CompiledModule τ))
    (runtimeProviders : List (Provider τ)) (rootModule : Nat) (policy : DuplicateProviderPolicy) :
    Except (DuplicateProviderError τ) (BootstrapEffectiveProviders τ × List String) := do
  let runtime ← (runtimeEntries runtimeProviders).foldlM (selectEntry policy (duplicateRuntimeProviderError tokenLabel)) {}
  let module ← (moduleEntries modules).foldlM (selectEntry policy (duplicateProviderError tokenLabel)) { warnings := runtime.warnings }
  let moduleProviders := module.selected.filter fun entry => !replacedByRuntime runtimeProviders entry.provider
  return ({
    moduleProviders := moduleProviders.map (·.provider)
    rootModuleProviders := (moduleProviders.filter fun entry => entry.moduleType = some rootModule).map (·.provider)
    runtimeProviders := runtime.selected.map (·.provider) }, module.warnings)

/-! ## Registration -/

/-- One `register` after another, until one throws. -/
def registerEach (s : State τ) : List (List (Provider τ)) → State τ × Option (DiError τ)
  | [] => (s, none)
  | providers :: rest =>
    match s.register root providers with
    | (s, none) => registerEach s rest
    | failed => failed

def registerControllers (modules : List (CompiledModule τ)) : List (List (Provider τ)) :=
  modules.flatMap fun m => m.controllers.map fun controller => [.classConstructor controller]

/-- What `bootstrapModule` registers on the new container. -/
def registerBootstrap (classes : JsMap τ (ClassMetadata τ)) (effectiveProviders : BootstrapEffectiveProviders τ)
    (modules : List (CompiledModule τ)) : State τ × Option (DiError τ) :=
  registerEach (.init classes) (effectiveProviders.runtimeProviders :: effectiveProviders.moduleProviders :: registerControllers modules)

/-! ## What is selected -/

variable {policy : DuplicateProviderPolicy} {classes : JsMap τ (ClassMetadata τ)} {n : NormalizedProvider τ} {e : DiError τ}
    {done providers : List (Provider τ)} {s : State τ}

theorem selectEntry_ok (hpolicy : policy ≠ .throw)
    (duplicate : SelectedProviderEntry τ → SelectedProviderEntry τ → DuplicateProviderError τ) (selection : Selection τ)
    (entry : SelectedProviderEntry τ) :
    ∃ warnings, selectEntry policy duplicate selection entry = .ok { selection.push entry with warnings } := by
  unfold selectEntry
  split
  · split
    · exact ⟨_, rfl⟩
    · cases policy with
      | throw => exact absurd rfl hpolicy
      | warn => exact ⟨_, rfl⟩
      | ignore => exact ⟨_, rfl⟩
  · exact ⟨_, rfl⟩

theorem foldlM_selectEntry (hpolicy : policy ≠ .throw)
    (duplicate : SelectedProviderEntry τ → SelectedProviderEntry τ → DuplicateProviderError τ) (entries : List (SelectedProviderEntry τ))
    {selection : Selection τ}
    (h : @Indexed _ _ _ SelectedProviderEntry.token SelectedProviderEntry.multi selection.indexes selection.entries) :
    ∃ result, entries.foldlM (selectEntry policy duplicate) selection = .ok result ∧ result.entries = selection.entries ++ entries ∧
      @Indexed _ _ _ SelectedProviderEntry.token SelectedProviderEntry.multi result.indexes result.entries := by
  induction entries generalizing selection with
  | nil => exact ⟨selection, rfl, (List.append_nil _).symm, h⟩
  | cons entry rest ih =>
    obtain ⟨warnings, hentry⟩ := selectEntry_ok hpolicy duplicate selection entry
    have hnext : @Indexed _ _ _ SelectedProviderEntry.token SelectedProviderEntry.multi (selection.push entry).indexes
        (selection.push entry).entries := h.concat entry
    obtain ⟨result, hresult, hentries, hindexed⟩ := @ih { selection.push entry with warnings } hnext
    refine ⟨result, ?_, ?_, hindexed⟩
    · rw [List.foldlM_cons, hentry]
      exact hresult
    · simp [hentries, Selection.push]

theorem selected_eq (hpolicy : policy ≠ .throw)
    (duplicate : SelectedProviderEntry τ → SelectedProviderEntry τ → DuplicateProviderError τ) (entries : List (SelectedProviderEntry τ))
    (warnings : List String) :
    ∃ result, entries.foldlM (selectEntry policy duplicate) { warnings } = .ok result ∧
      result.selected = latest SelectedProviderEntry.token SelectedProviderEntry.multi entries := by
  have hstart : @Indexed _ _ _ SelectedProviderEntry.token SelectedProviderEntry.multi ({ warnings } : Selection τ).indexes [] := .nil
  obtain ⟨result, hresult, hentries, hindexed⟩ := foldlM_selectEntry hpolicy duplicate entries hstart
  refine ⟨result, hresult, ?_⟩
  rw [Selection.selected, select_eq_latest hindexed, hentries, List.nil_append]

def singles (token : Option τ) (providers : List (Provider τ)) : List (Provider τ) :=
  providers.filter fun p => !isMultiProvider p && decide (providerToken p = token)

def multis (token : Option τ) (providers : List (Provider τ)) : List (Provider τ) :=
  providers.filter fun p => isMultiProvider p && decide (providerToken p = token)

/-- The selected providers, in the order of declaration: of the runtime, every
multi one and the last single one of each token; of the modules likewise, but for
the tokens that the runtime provides. -/
structure Selects (runtimeProviders moduleProviders : List (Provider τ)) (e : BootstrapEffectiveProviders τ) : Prop where
  runtimeOrder : e.runtimeProviders.Sublist runtimeProviders
  moduleOrder : e.moduleProviders.Sublist moduleProviders
  runtimeMulti token : multis token e.runtimeProviders = multis token runtimeProviders
  runtimeSingle token : singles token e.runtimeProviders = (singles token runtimeProviders).getLast?.toList
  moduleMulti token : multis token e.moduleProviders =
    if (singles token runtimeProviders).isEmpty then multis token moduleProviders else []
  moduleSingle token : singles token e.moduleProviders =
    if (singles token runtimeProviders).isEmpty && (multis token runtimeProviders).isEmpty
    then (singles token moduleProviders).getLast?.toList else []

def moduleProviders (modules : List (CompiledModule τ)) : List (Provider τ) := modules.flatMap (·.providers)

omit [DecidableEq τ] in
theorem moduleEntries_provider (modules : List (CompiledModule τ)) : (moduleEntries modules).map (·.provider) = moduleProviders modules := by
  simp [moduleEntries, moduleProviders, List.map_flatMap, Function.comp_def]

theorem replacedByRuntime_eq (runtimeProviders : List (Provider τ)) (p : Provider τ) : replacedByRuntime runtimeProviders p =
    (!(singles (providerToken p) runtimeProviders).isEmpty || (!(multis (providerToken p) runtimeProviders).isEmpty && !isMultiProvider p)) := by
  have hany (P : Provider τ → Bool) : runtimeProviders.any P = !(runtimeProviders.filter P).isEmpty := by
    induction runtimeProviders with
    | nil => rfl
    | cons r rest ih => cases hr : P r <;> simp [hr, ih]
  rw [replacedByRuntime, singles, multis, ← hany, ← hany]

omit [DecidableEq τ] in
theorem filter_filter_const {P Q : Provider τ → Bool} {b : Bool} (providers : List (Provider τ)) (h : ∀ p, P p → Q p = b) :
    (providers.filter Q).filter P = if b then providers.filter P else [] := by
  rw [List.filter_filter]
  cases b with
  | true =>
    refine List.filter_congr fun p _ => ?_
    cases hp : P p <;> simp [h p, hp]
  | false =>
    rw [if_neg (by simp), List.filter_eq_nil_iff]
    intro p _
    cases hp : P p <;> simp [h p, hp]

theorem selects (tokenLabel : Option τ → String) (modules : List (CompiledModule τ)) (runtimeProviders : List (Provider τ)) (rootModule : Nat)
    (hpolicy : policy ≠ .throw) :
    ∃ e warnings, selectEffectiveBootstrapProviders tokenLabel modules runtimeProviders rootModule policy = .ok (e, warnings) ∧
      Selects runtimeProviders (moduleProviders modules) e := by
  obtain ⟨rt, hruntime, hrs⟩ := selected_eq hpolicy (duplicateRuntimeProviderError tokenLabel) (runtimeEntries runtimeProviders) []
  obtain ⟨md, hmodule, hms⟩ := selected_eq hpolicy (duplicateProviderError tokenLabel) (moduleEntries modules) rt.warnings
  have hlatest (entries : List (SelectedProviderEntry τ)) : (latest SelectedProviderEntry.token SelectedProviderEntry.multi entries).map (·.provider) =
      latest providerToken isMultiProvider (entries.map (·.provider)) := (latest_map _ entries).symm
  have hr : rt.selected.map (·.provider) = latest providerToken isMultiProvider runtimeProviders := by
    rw [hrs, hlatest]
    simp [runtimeEntries, Function.comp_def]
  have hm : (md.selected.filter fun entry => !replacedByRuntime runtimeProviders entry.provider).map (·.provider) =
      (latest providerToken isMultiProvider (moduleProviders modules)).filter fun p => !replacedByRuntime runtimeProviders p := by
    rw [← moduleEntries_provider, ← hlatest, hms, List.filter_map]
    rfl
  refine ⟨_, md.warnings, by simp only [selectEffectiveBootstrapProviders, hruntime, hmodule, bind, Except.bind, pure, Except.pure]; rfl, ?_⟩
  constructor
  case runtimeOrder => exact hr ▸ latest_sublist _
  case moduleOrder => exact hm ▸ List.filter_sublist.trans (latest_sublist _)
  case runtimeMulti => exact fun token => hr ▸ filter_latest_keep token _
  case runtimeSingle => exact fun token => hr ▸ filter_latest_others token _
  case moduleMulti =>
    intro token
    dsimp only
    rw [hm, multis, filter_filter_const _ (b := (singles token runtimeProviders).isEmpty) fun p hp => ?_, filter_latest_keep]
    · rfl
    · obtain ⟨hmulti, rfl⟩ : isMultiProvider p = true ∧ providerToken p = token := by simpa using hp
      simp [replacedByRuntime_eq, hmulti]
  case moduleSingle =>
    intro token
    dsimp only
    rw [hm, singles, filter_filter_const _ (b := (singles token runtimeProviders).isEmpty && (multis token runtimeProviders).isEmpty)
      fun p hp => ?_, filter_latest_others]
    · rfl
    · obtain ⟨hsingle, rfl⟩ : isMultiProvider p = false ∧ providerToken p = token := by simpa using hp
      simp [replacedByRuntime_eq, hsingle]

/-! ## What the container accepts -/

/-- The container takes the provider as one of several of its token: an alias never is. -/
def contributes : Provider τ → Bool
  | .object provider => provider.multi && provider.useExisting.isNone
  | _ => false

omit [DecidableEq τ] in
theorem assertObjectProvider_ok {p : ObjectProvider τ} {token : τ} (h : assertObjectProvider p = .ok token) :
    p.provide = some token ∧
      p.useValue.isSome.toNat + p.useFactory.isSome.toNat + p.useClass.isSome.toNat + p.useExisting.isSome.toNat = 1 := by
  unfold assertObjectProvider at h
  split at h
  · cases h
  next t ht =>
    split at h
    · cases h; exact ⟨ht, ‹_›⟩
    · cases h

theorem normalizeProvider_ok {id : Nat} {provider : Provider τ}
    (h : normalizeProvider classes id provider = .ok n) : providerToken provider = some n.provide ∧ n.multi = contributes provider := by
  unfold normalizeProvider at h
  split at h
  · obtain ⟨inject, _, h⟩ := bind_eq_ok.1 h
    cases h
    exact ⟨rfl, rfl⟩
  · cases h
  next p =>
    have hcontributes (hnone : p.useExisting = none) : p.multi = contributes (.object p) := by simp [contributes, hnone]
    split at h
    next v hv =>
      obtain ⟨provide, hp, h⟩ := bind_eq_ok.1 h
      obtain ⟨ht, hone⟩ := assertObjectProvider_ok hp
      cases h
      exact ⟨ht, hcontributes (by cases he : p.useExisting <;> simp_all)⟩
    next isFunction hf _ =>
      obtain ⟨provide, hp, h⟩ := bind_eq_ok.1 h
      obtain ⟨ht, hone⟩ := assertObjectProvider_ok hp
      cases isFunction with
      | false => cases h
      | true =>
        obtain ⟨inject, _, h⟩ := bind_eq_ok.1 h
        cases h
        exact ⟨ht, hcontributes (by cases he : p.useExisting <;> simp_all)⟩
    next cls hc _ _ =>
      obtain ⟨provide, hp, h⟩ := bind_eq_ok.1 h
      obtain ⟨ht, hone⟩ := assertObjectProvider_ok hp
      cases cls with
      | none => cases h
      | some cls =>
        obtain ⟨inject, _, h⟩ := bind_eq_ok.1 h
        cases h
        exact ⟨ht, hcontributes (by cases he : p.useExisting <;> simp_all)⟩
    next target he _ _ _ =>
      obtain ⟨provide, hp, h⟩ := bind_eq_ok.1 h
      obtain ⟨ht, _⟩ := assertObjectProvider_ok hp
      cases target with
      | none => cases h
      | some target =>
        cases h
        exact ⟨ht, by simp [contributes, he]⟩
    · cases h

/-! Normalization fails with `InvalidProviderError` alone. -/

omit [DecidableEq τ] in
theorem normalizeInject_error {inject : List (Option (InjectToken τ))} (h : normalizeInject inject = .error e) :
    e = .invalidProvider none := by
  rw [normalizeInject] at h
  induction inject with
  | nil => cases h
  | cons entry rest ih =>
    rw [List.mapM_cons] at h
    rcases bind_eq_error.1 h with h | ⟨_, _, h⟩
    · cases entry <;> cases h
      rfl
    · rcases bind_eq_error.1 h with h | ⟨_, _, h⟩
      · exact ih h
      · cases h

omit [DecidableEq τ] in
theorem assertObjectProvider_error {p : ObjectProvider τ} (h : assertObjectProvider p = .error e) : e = .invalidProvider none := by
  unfold assertObjectProvider at h
  split at h
  · cases h; rfl
  · split at h <;> cases h
    rfl

theorem normalizeProvider_error {id : Nat} {provider : Provider τ}
    (h : normalizeProvider classes id provider = .error e) : ∃ t, e = .invalidProvider t := by
  have hinject {inject : List (Option (InjectToken τ))} {f : List (InjectToken τ) → NormalizedProvider τ}
      (h : (do let inject ← normalizeInject inject; return f inject) = Except.error e) : ∃ t, e = .invalidProvider t := by
    rcases bind_eq_error.1 h with h | ⟨_, _, h⟩
    · exact ⟨none, normalizeInject_error h⟩
    · cases h
  unfold normalizeProvider at h
  split at h
  · exact hinject h
  · cases h; exact ⟨none, rfl⟩
  next p =>
    have hassert {f : τ → Except (DiError τ) (NormalizedProvider τ)} (h : (assertObjectProvider p >>= f) = .error e)
        (hf : ∀ t, f t = .error e → ∃ t, e = .invalidProvider t) : ∃ t, e = .invalidProvider t := by
      rcases bind_eq_error.1 h with h | ⟨t, _, h⟩
      · exact ⟨none, assertObjectProvider_error h⟩
      · exact hf t h
    split at h
    · exact hassert h fun t h => by cases h
    next isFunction _ _ =>
      refine hassert h fun t h => ?_
      cases isFunction with
      | false => cases h; exact ⟨_, rfl⟩
      | true => exact hinject h
    next cls _ _ _ =>
      refine hassert h fun t h => ?_
      cases cls with
      | none => cases h; exact ⟨_, rfl⟩
      | some cls => exact hinject h
    next target _ _ _ _ =>
      refine hassert h fun t h => ?_
      cases target with
      | none => cases h; exact ⟨_, rfl⟩
      | some target => cases h
    · cases h; exact ⟨none, rfl⟩

/-- The providers of a list that may not stand before and after one another. -/
def Agree (p q : Provider τ) : Prop := providerToken p = providerToken q → contributes p ∧ contributes q

/-- What the registry of the root container holds of the providers registered on it. -/
structure Registered (classes : JsMap τ (ClassMetadata τ)) (s : State τ) (done : List (Provider τ)) : Prop where
  classes : s.classes = classes
  disposed : (s.container root).disposed = false
  ancestors : (s.graph root).ancestors = []
  single t : t ∈ (s.graph root).registrations ↔ ∃ p ∈ done, providerToken p = some t ∧ contributes p = false
  multi t : t ∈ (s.graph root).multiRegistrations ↔ ∃ p ∈ done, providerToken p = some t ∧ contributes p = true

omit [DecidableEq τ] in
theorem Registered.init (classes : JsMap τ (ClassMetadata τ)) : Registered classes (.init classes) [] :=
  ⟨rfl, rfl, rfl, fun t => by simp [State.init], fun t => by simp [State.init]⟩

theorem Registered.conflict (h : Registered classes s done)
    {p : Provider τ} (htoken : providerToken p = some n.provide) (hmulti : n.multi = contributes p) :
    s.hasRegistrationConflict root n.provide n.multi = true ↔ ∃ q ∈ done, ¬Agree q p := by
  have hlineage : s.graph.lineage root = [root] := by rw [Graph.lineage, h.ancestors]
  have hagree (q) : ¬Agree q p ↔ providerToken q = some n.provide ∧ (contributes q = false ∨ contributes p = false) := by
    rw [Agree, htoken]
    cases contributes q <;> cases contributes p <;> simp
  simp only [State.hasRegistrationConflict, hlineage, List.any_cons, List.any_nil, Bool.or_false, hagree, hmulti]
  cases hp : contributes p with
  | true => simp [h.single]
  | false =>
    simp only [if_false, Bool.or_eq_true, decide_eq_true_eq, h.single, h.multi, Bool.false_eq_true]
    constructor
    · rintro (⟨q, hq, ht, _⟩ | ⟨q, hq, ht, _⟩) <;> exact ⟨q, hq, ht, .inr trivial⟩
    · rintro ⟨q, hq, ht, _⟩
      cases hc : contributes q with
      | false => exact .inl ⟨q, hq, ht, hc⟩
      | true => exact .inr ⟨q, hq, ht, hc⟩

theorem Registered.add (h : Registered classes s done)
    {p : Provider τ} (htoken : providerToken p = some n.provide) (hmulti : n.multi = contributes p)
    {v : Registry τ}
    (hv : v = if n.multi then { s.graph root with
        multiRegistrations := (s.graph root).multiRegistrations.insert n.provide (s.graph.multiRegistration root n.provide ++ [n]) }
      else { s.graph root with registrations := (s.graph root).registrations.insert n.provide n }) :
    Registered classes { s.setRegistry root v with nextProvider := s.nextProvider + 1 } (done ++ [p]) := by
  have hroot : (s.setRegistry root v).graph root = v := by simp [State.setRegistry]
  refine ⟨h.classes, h.disposed, ?_, fun t => ?_, fun t => ?_⟩
  · show ((s.setRegistry root v).graph root).ancestors = []
    rw [hroot, hv]
    split <;> exact h.ancestors
  · show t ∈ ((s.setRegistry root v).graph root).registrations ↔ _
    rw [hroot, hv, hmulti]
    cases hp : contributes p with
    | true => simp [h.single, or_and_right, exists_or, hp]
    | false =>
      simp only [Bool.false_eq_true, if_false, AList.mem_insert, h.single, List.mem_append, List.mem_singleton, or_and_right, exists_or,
        exists_eq_left, htoken, hp, Option.some.injEq, and_true]
      exact (or_congr_left eq_comm).trans or_comm
  · show t ∈ ((s.setRegistry root v).graph root).multiRegistrations ↔ _
    rw [hroot, hv, hmulti]
    cases hp : contributes p with
    | true =>
      simp only [if_true, AList.mem_insert, h.multi, List.mem_append, List.mem_singleton, or_and_right, exists_or,
        exists_eq_left, htoken, hp, Option.some.injEq, and_true]
      exact (or_congr_left eq_comm).trans or_comm
    | false => simp [h.multi, or_and_right, exists_or, hp]

theorem Registered.registerOne (h : Registered classes s done)
    (p : Provider τ) :
    (∃ e, normalizeProvider classes s.nextProvider p = .error e ∧ s.registerOne root p = .error e) ∨
    (∃ n, normalizeProvider classes s.nextProvider p = .ok n ∧
      ((∃ q ∈ done, ¬Agree q p) ∧ s.registerOne root p = .error (.duplicateProvider n.provide) ∨
        (∀ q ∈ done, Agree q p) ∧ ∃ s', s.registerOne root p = .ok s' ∧ Registered classes s' (done ++ [p]))) := by
  have hscope : s.graph.requestScopeEnabled root = false := by simp [Graph.requestScopeEnabled, h.ancestors]
  cases hn : normalizeProvider classes s.nextProvider p with
  | error e =>
    refine .inl ⟨e, rfl, ?_⟩
    rw [State.registerOne, h.classes, hn]
    rfl
  | ok n =>
    obtain ⟨htoken, hmulti⟩ := normalizeProvider_ok hn
    refine .inr ⟨n, rfl, ?_⟩
    by_cases hconflict : s.hasRegistrationConflict root n.provide n.multi = true
    · refine .inl ⟨(h.conflict htoken hmulti).1 hconflict, ?_⟩
      simp [State.registerOne, h.classes, hn, hscope, hconflict, bind, Except.bind]
      rfl
    · have hagree : ∀ q ∈ done, Agree q p := by
        intro q hq
        by_contra hnot
        exact hconflict ((h.conflict htoken hmulti).2 ⟨q, hq, hnot⟩)
      refine .inr ⟨hagree, _, ?_, h.add htoken hmulti rfl⟩
      simp [State.registerOne, h.classes, hn, hscope, hconflict, bind, Except.bind, pure, Except.pure]

theorem Registered.registerAll {s' : State τ} (h : Registered classes s done)
    (hs : s.registerAll root providers = (s', none)) : Registered classes s' (done ++ providers) := by
  induction providers generalizing s done with
  | nil =>
    cases hs
    rwa [List.append_nil]
  | cons p rest ih =>
    rw [State.registerAll] at hs
    rcases h.registerOne p with ⟨e, _, hp⟩ | ⟨n, _, ⟨_, hp⟩ | ⟨_, s₁, hp, h₁⟩⟩ <;> rw [hp] at hs
    · cases hs
    · cases hs
    · have hrest := ih h₁ hs
      rwa [List.append_assoc] at hrest

theorem registerAll_append (s : State τ) (providers rest : List (Provider τ)) : s.registerAll root (providers ++ rest) =
    match s.registerAll root providers with
    | (s, none) => s.registerAll root rest
    | failed => failed := by
  induction providers generalizing s with
  | nil => rfl
  | cons p providers ih =>
    rw [List.cons_append, State.registerAll, State.registerAll]
    cases s.registerOne root p with
    | error e => rfl
    | ok s' => exact ih s'

theorem Registered.registerEach (h : Registered classes s done)
    (lists : List (List (Provider τ))) : registerEach s lists = s.registerAll root lists.flatten := by
  induction lists generalizing s done with
  | nil => rfl
  | cons providers rest ih =>
    have hdisposed : s.isDisposedInHierarchy root = false := by simp [State.isDisposedInHierarchy, Graph.lineage, h.ancestors, h.disposed]
    rw [Bootstrap.registerEach, List.flatten_cons, registerAll_append, State.register, hdisposed, if_neg (by simp)]
    rcases hr : s.registerAll root providers with ⟨s', _ | e⟩
    · exact ih (h.registerAll hr)
    · rfl

theorem Registered.registerAll_of_pairwise
    (h : Registered classes s done) (providers : List (Provider τ)) (hagree : (done ++ providers).Pairwise Agree) (t : τ) :
    (s.registerAll root providers).2 ≠ some (.duplicateProvider t) := by
  induction providers generalizing s done with
  | nil => simp [State.registerAll]
  | cons p rest ih =>
    rw [State.registerAll]
    rcases h.registerOne p with ⟨e, he, hp⟩ | ⟨n, _, ⟨⟨q, hq, hnot⟩, _⟩ | ⟨_, s₁, hp, h₁⟩⟩
    · obtain ⟨t', rfl⟩ := normalizeProvider_error he
      rw [hp]
      simp
    · exact absurd ((List.pairwise_append.1 hagree).2.2 q hq p List.mem_cons_self) hnot
    · rw [hp]
      exact ih h₁ (by rwa [List.append_assoc])

theorem Registered.registerAll_of_not_pairwise
    (h : Registered classes s done)
    (hvalid : ∀ p ∈ providers, ∀ id, ∃ n, normalizeProvider classes id p = .ok n) (hdone : done.Pairwise Agree)
    (hnot : ¬(done ++ providers).Pairwise Agree) : ∃ t, (s.registerAll root providers).2 = some (.duplicateProvider t) := by
  induction providers generalizing s done with
  | nil => exact absurd (by rwa [List.append_nil]) hnot
  | cons p rest ih =>
    rw [State.registerAll]
    rcases h.registerOne p with ⟨e, he, _⟩ | ⟨n, _, ⟨_, hp⟩ | ⟨hagree, s₁, hp, h₁⟩⟩
    · obtain ⟨n, hn⟩ := hvalid p List.mem_cons_self s.nextProvider
      cases he.symm.trans hn
    · exact ⟨n.provide, by rw [hp]⟩
    · rw [hp]
      refine ih h₁ (fun q hq => hvalid q (List.mem_cons_of_mem _ hq)) ?_ (by rwa [List.append_assoc])
      exact List.pairwise_append.2 ⟨hdone, List.pairwise_singleton _ _, fun q hq r hr => List.mem_singleton.1 hr ▸ hagree q hq⟩

/-! ## Effective providers -/

/-- What one token may be registered with: one provider, or several that all contribute. -/
def Compatible (providers : List (Provider τ)) : Prop := providers.length ≤ 1 ∨ ∀ p ∈ providers, contributes p = true

omit [DecidableEq τ] in
theorem compatible_of_pairwise {t : Option τ} (htoken : ∀ p ∈ providers, providerToken p = t)
    (h : providers.Pairwise Agree) : Compatible providers := by
  cases providers with
  | nil => exact .inl (Nat.zero_le _)
  | cons p rest =>
    cases rest with
    | nil => exact .inl (Nat.le_refl _)
    | cons q rest =>
      obtain ⟨hp, _⟩ := List.pairwise_cons.1 h
      have hcontributes (r) (hr : r ∈ q :: rest) : contributes p = true ∧ contributes r = true :=
        hp r hr ((htoken p List.mem_cons_self).trans (htoken r (List.mem_cons_of_mem _ hr)).symm)
      refine .inr (List.forall_mem_cons.2 ⟨(hcontributes q List.mem_cons_self).1, fun r hr => (hcontributes r hr).2⟩)

theorem pairwise_iff :
    providers.Pairwise Agree ↔ ∀ t, Compatible (providers.filter fun p => providerToken p = t) := by
  constructor
  · intro h t
    exact compatible_of_pairwise (t := t) (fun p hp => by simpa using (List.mem_filter.1 hp).2) (h.filter _)
  · intro h
    induction providers with
    | nil => exact .nil
    | cons p rest ih =>
      refine List.pairwise_cons.2 ⟨fun q hq htoken => ?_, ih fun t => ?_⟩
      · have hq' : q ∈ rest.filter fun r => providerToken r = providerToken p := List.mem_filter.2 ⟨hq, by simp [htoken]⟩
        have hcons : (p :: rest).filter (fun r => providerToken r = providerToken p) = p :: rest.filter fun r => providerToken r = providerToken p :=
          List.filter_cons_of_pos (by simp)
        have hc := h (providerToken p)
        rw [hcons] at hc
        rcases hc with hlength | hall
        · have hpos := List.length_pos_of_mem hq'
          simp only [List.length_cons] at hlength
          omega
        · exact ⟨hall p List.mem_cons_self, hall q (List.mem_cons_of_mem _ hq')⟩
      · have hsub : (rest.filter fun r => decide (providerToken r = t)).Sublist ((p :: rest).filter fun r => decide (providerToken r = t)) :=
          (List.sublist_cons_self p rest).filter _
        exact (h t).imp (fun hl => Nat.le_trans hsub.length_le hl) fun hall q hq => hall q (hsub.subset hq)

def controllersOf (modules : List (CompiledModule τ)) : List (Provider τ) := modules.flatMap fun m => m.controllers.map .classConstructor

/-- What is registered of one token: the runtime providers that are selected, the
module providers that are, and the controllers. -/
def offered (runtimeProviders : List (Provider τ)) (modules : List (CompiledModule τ)) (t : Option τ) : List (Provider τ) :=
  multis t runtimeProviders ++ (singles t runtimeProviders).getLast?.toList ++
    ((if (singles t runtimeProviders).isEmpty then multis t (moduleProviders modules) else []) ++
      if (singles t runtimeProviders).isEmpty && (multis t runtimeProviders).isEmpty
      then (singles t (moduleProviders modules)).getLast?.toList else []) ++
    (controllersOf modules).filter fun p => providerToken p = t

theorem filter_token_perm (t : Option τ) (providers : List (Provider τ)) :
    (providers.filter fun p => providerToken p = t).Perm (multis t providers ++ singles t providers) := by
  have h := List.filter_append_perm isMultiProvider (providers.filter fun p => providerToken p = t)
  rw [List.filter_filter, List.filter_filter] at h
  exact h.symm

omit [DecidableEq τ] in
theorem Compatible.perm {providers' : List (Provider τ)} (h : providers.Perm providers') : Compatible providers ↔ Compatible providers' := by
  rw [Compatible, Compatible, h.length_eq]
  exact or_congr_right ⟨fun hall p hp => hall p (h.mem_iff.2 hp), fun hall p hp => hall p (h.mem_iff.1 hp)⟩

theorem Selects.offered_perm {runtimeProviders : List (Provider τ)} {modules : List (CompiledModule τ)} {e : BootstrapEffectiveProviders τ}
    (h : Selects runtimeProviders (moduleProviders modules) e) (t : Option τ) :
    ((e.runtimeProviders ++ e.moduleProviders ++ controllersOf modules).filter fun p => providerToken p = t).Perm
      (offered runtimeProviders modules t) := by
  have hruntime := filter_token_perm t e.runtimeProviders
  have hmodule := filter_token_perm t e.moduleProviders
  rw [h.runtimeMulti, h.runtimeSingle] at hruntime
  rw [h.moduleMulti, h.moduleSingle] at hmodule
  rw [List.filter_append, List.filter_append, offered]
  exact (hruntime.append hmodule).append (.refl _)

theorem registerBootstrap_eq (classes : JsMap τ (ClassMetadata τ)) (e : BootstrapEffectiveProviders τ) (modules : List (CompiledModule τ)) :
    registerBootstrap classes e modules =
      (State.init classes).registerAll root (e.runtimeProviders ++ e.moduleProviders ++ controllersOf modules) := by
  rw [registerBootstrap, (Registered.init classes).registerEach]
  congr 1
  simp [registerControllers, controllersOf, List.flatten_eq_flatMap, List.flatMap_assoc, List.map_eq_flatMap]

end Selection

/-- A value provider of a token. -/
private def valueProvider (token : Nat) (multi : Bool) : Provider Nat :=
  .object { provide := some token, useValue := some (.given 0 false), multi }

private def usersModule : CompiledModule Nat := ⟨0, "UsersModule", [valueProvider 7 false], [3]⟩
private def auditModule : CompiledModule Nat := ⟨1, "AuditModule", [valueProvider 7 false, valueProvider 8 true], [4]⟩

private def pluginsModule : CompiledModule Nat := ⟨2, "PluginsModule", [valueProvider 7 true], []⟩

end Fluo.Runtime.Bootstrap
