import Mathlib.Data.List.Sort
import Fluo.I18n.Loaders
/-!
# Message catalogs

How a catalog is read in, which keys the type generator makes of it, and how
`I18nService.translate` looks a key up. The names in an object are its own ones; a key
`__proto__` is none of them, but replaces the prototype of the object it is assigned in.
-/

namespace Fluo.I18n
open Fluo.Lib
open Fluo.Http.Mapping (trim)

/-- A value read from outside: a string, a plain object, or anything else. -/
inductive Value
  | str (text : Utf16)
  | obj (fields : List (Utf16 × Value))
  | other

/-- A message, or a frozen object of them. `proto` is there when its prototype has been replaced. -/
inductive MessageTree
  | message (text : Utf16)
  | tree (proto : Option MessageTree) (entries : List (Utf16 × MessageTree))

/-- What reading a catalog throws: an error of its own, or that of an assignment to a name that is inherited and cannot be written. -/
inductive CatalogError
  | i18n (error : I18nError)
  | typeError

def invalidCatalog (path : Utf16) (text : String) : CatalogError := .i18n ⟨path ++ units text, .invalidCatalog⟩

/-! ## Snapshots -/

def protoName : Utf16 := units "__proto__"

def dot : UInt16 := '.'.toNat.toUInt16

/-- `name in tree` -/
def MessageTree.has : MessageTree → Utf16 → Bool
  | .message _, _ => false
  | .tree none entries, name => (OrderedMap.get entries name).isSome
  | .tree (some proto) entries, name => (OrderedMap.get entries name).isSome || proto.has name

/-- An object under construction: its prototype, if replaced, and its entries. -/
abbrev Snapshot := Option MessageTree × OrderedMap Utf16 MessageTree

/-- `snapshot[key] = value` -/
def assign (snapshot : Snapshot) (key : Utf16) (value : MessageTree) : Except CatalogError Snapshot :=
  if key = protoName then
    match value with
    | .message _ => .ok snapshot
    | .tree proto entries => .ok (some (.tree proto entries), snapshot.2)
  else if snapshot.1.any (·.has key) then .error .typeError
  else .ok (snapshot.1, snapshot.2.set key value)

mutual
def snapshotMessageTree (path : Utf16) : Value → Except CatalogError MessageTree
  | .obj fields => do
    let (proto, entries) ← snapshotEntries path fields (none, [])
    return .tree proto entries
  | .str _ => .error (invalidCatalog path " must be a plain object message tree.")
  | .other => .error (invalidCatalog path " must be a plain object message tree.")
def snapshotEntry (path : Utf16) : Value → Except CatalogError MessageTree
  | .str text => .ok (.message text)
  | .obj fields => do
    let (proto, entries) ← snapshotEntries path fields (none, [])
    return .tree proto entries
  | .other => .error (invalidCatalog path " must be a string or nested message tree.")
def snapshotEntries (path : Utf16) : List (Utf16 × Value) → Snapshot → Except CatalogError Snapshot
  | [], snapshot => .ok snapshot
  | (key, entry) :: rest, snapshot => do
    if trim key = [] then throw (invalidCatalog path " contains an empty message key segment.")
    let value ← snapshotEntry (path ++ dot :: key) entry
    let snapshot ← assign snapshot key value
    snapshotEntries path rest snapshot
end

/-! ## The type generator -/

structure I18nCatalogTypegenInput where
  locale : Utf16
  ns : Option Utf16 := none
  messages : Value

structure NormalizedInput where
  locale : Utf16
  ns : Option Utf16
  messages : MessageTree

def normalizeInput (input : I18nCatalogTypegenInput) : Except CatalogError NormalizedInput := do
  (validateLoaderLocale input.locale (units "Catalog typegen")).mapError .i18n
  match input.ns with
  | some ns => (validateLoaderNamespace ns (units "Catalog typegen")).mapError .i18n
  | none => pure ()
  let path := units "catalogs." ++ input.locale ++ (input.ns.map (dot :: ·)).getD []
  return ⟨input.locale, input.ns, ← snapshotMessageTree path input.messages⟩

/-- `nextPrefix` -/
def extend (before key : Utf16) : Utf16 := if before = [] then key else before ++ dot :: key

-- The keys below an entry come before those of the next, in the order of the names: the entries are listed, then sorted.
mutual
def collectLeafKeys (before : Utf16) : MessageTree → List Utf16
  | .message _ => [before]
  | .tree _ entries => ((collectEntries before entries).insertionSort fun entry other => entry.1 ≤ other.1).flatMap (·.2)
def collectEntries (before : Utf16) : List (Utf16 × MessageTree) → List (Utf16 × List Utf16)
  | [] => []
  | (key, value) :: rest => (key, collectLeafKeys (extend before key) value) :: collectEntries before rest
end

def keysOf (input : NormalizedInput) : List Utf16 :=
  let leafKeys := collectLeafKeys [] input.messages
  match input.ns with
  | some ns => leafKeys.map fun leafKey => ns ++ dot :: leafKey
  | none => leafKeys

/-- The members of the key union that `generateI18nCatalogTypes` writes. -/
def generateI18nCatalogTypes (inputs : List I18nCatalogTypegenInput) : Except CatalogError (List Utf16) := do
  let inputs ← inputs.mapM normalizeInput
  return ((inputs.flatMap keysOf).eraseDups).insertionSort (· ≤ ·)

/-! ## The service -/

inductive I18nFallbackLocales
  | list (locales : List Utf16)
  | map (chains : OrderedMap Utf16 (List Utf16))

structure I18nModuleOptions where
  defaultLocale : Option Utf16 := none
  supportedLocales : Option (List Utf16) := none
  fallbackLocales : Option I18nFallbackLocales := none
  catalogs : Option (OrderedMap Utf16 Value) := none

def assertLocale (value label : Utf16) : Except CatalogError Unit :=
  if trim value = [] then .error (.i18n ⟨label ++ units " must be a non-empty string.", .invalidLocaleConfig⟩) else .ok ()

def assertSupportedLocale (locale : Utf16) (supportedLocales : Option (List Utf16)) (label : Utf16) : Except CatalogError Unit :=
  if supportedLocales.all (locale ∈ ·) then .ok ()
  else .error (.i18n ⟨label ++ units " must be listed in supportedLocales.", .invalidLocaleConfig⟩)

def validateModuleOptions (options : I18nModuleOptions) : Except CatalogError Unit := do
  options.defaultLocale.forM fun locale => assertLocale locale (units "defaultLocale")
  options.supportedLocales.forM fun locales => do
    locales.forM fun locale => assertLocale locale (units "supportedLocales")
    options.defaultLocale.forM fun locale => assertSupportedLocale locale (some locales) (units "defaultLocale")
  if options.catalogs.isSome ∧ options.defaultLocale = none then
    throw (.i18n ⟨units "defaultLocale is required when catalogs are configured.", .invalidOptions⟩)

def snapshotCatalog (supportedLocales : Option (List Utf16)) (entry : Utf16 × Value) : Except CatalogError (Utf16 × MessageTree) := do
  assertLocale entry.1 (units "catalog locale")
  assertSupportedLocale entry.1 supportedLocales (units "catalog locale")
  return (entry.1, ← snapshotMessageTree (units "catalogs." ++ entry.1) entry.2)

def snapshotCatalogs (catalogs : Option (OrderedMap Utf16 Value)) (supportedLocales : Option (List Utf16)) :
    Except CatalogError (OrderedMap Utf16 MessageTree) :=
  (catalogs.getD []).mapM (snapshotCatalog supportedLocales)

def validateFallbackLocales (fallbackLocales : Option I18nFallbackLocales) (supportedLocales : Option (List Utf16)) :
    Except CatalogError Unit :=
  match fallbackLocales with
  | none => .ok ()
  | some (.list locales) => do
    locales.forM fun locale => assertLocale locale (units "fallbackLocales")
    locales.forM fun locale => assertSupportedLocale locale supportedLocales (units "fallbackLocales locale")
  | some (.map chains) => chains.forM fun (locale, chain) => do
    assertLocale locale (units "fallbackLocales locale")
    assertSupportedLocale locale supportedLocales (units "fallbackLocales locale")
    chain.forM fun fallbackLocale => assertLocale fallbackLocale (units "fallbackLocales." ++ locale)
    chain.forM fun fallbackLocale => assertSupportedLocale fallbackLocale supportedLocales (units "fallbackLocales." ++ locale ++ units " locale")

/-- The options, with the snapshots of the catalogs in place of these. -/
structure I18nService where
  options : I18nModuleOptions
  catalogs : OrderedMap Utf16 MessageTree

/-- `snapshotI18nModuleOptions`, which the constructor of the service calls. -/
def I18nService.create (options : I18nModuleOptions) : Except CatalogError I18nService := do
  validateModuleOptions options
  let catalogs ← snapshotCatalogs options.catalogs options.supportedLocales
  validateFallbackLocales options.fallbackLocales options.supportedLocales
  return { options, catalogs }

/-! ## Lookup -/

def MessageTree.text : MessageTree → Option Utf16
  | .message text => some text
  | .tree .. => none

def MessageTree.entries : MessageTree → OrderedMap Utf16 MessageTree
  | .message _ => []
  | .tree _ entries => entries

/-- The loop of `resolveCatalogMessage` over the parts of a key. It goes on in plain objects only. -/
def walk : MessageTree → List Utf16 → Option MessageTree
  | current, [] => some current
  | .tree none entries, part :: rest => (OrderedMap.get entries part).bind fun next => walk next rest
  | _, _ :: _ => none

def resolveCatalogMessage (tree : MessageTree) (key : Utf16) : Option Utf16 :=
  match tree.entries.get key with
  | some direct => direct.text
  | none => (walk tree (key.splitOn dot)).bind MessageTree.text

def normalizeTranslationKey (key : Utf16) (ns : Option Utf16) : Except I18nError Utf16 :=
  if trim key = [] then .error ⟨units "Translation key must be a non-empty string.", .invalidOptions⟩
  else
    match ns with
    | none => .ok key
    | some ns =>
      if trim ns = [] then .error ⟨units "Translation namespace must be a non-empty string when provided.", .invalidOptions⟩
      else .ok (ns ++ dot :: key)

def pushUnique (locales : List Utf16) (locale : Utf16) : List Utf16 := if locale ∈ locales then locales else locales ++ [locale]

namespace I18nService

def fallbackChain (service : I18nService) (locale : Utf16) : List Utf16 :=
  match service.options.fallbackLocales with
  | none => []
  | some (.list locales) => locales
  | some (.map chains) => (chains.get locale).getD []

def resolveLocales (service : I18nService) (locale : Utf16) : Except I18nError (List Utf16) :=
  if trim locale = [] then .error ⟨units "Translation locale must be a non-empty string.", .invalidOptions⟩
  else if service.options.supportedLocales.all (locale ∈ ·) then
    .ok ((service.fallbackChain locale ++ service.options.defaultLocale.toList).foldl pushUnique [locale])
  else .error ⟨units "Unsupported i18n locale: " ++ locale, .invalidOptions⟩

/-- The message that `translate` interpolates, with the locale it is registered under. There is no default value and no hook. -/
def translate (service : I18nService) (key : Utf16) (ns : Option Utf16) (locale : Utf16) : Except I18nError (Utf16 × Utf16) := do
  let resolvedKey ← normalizeTranslationKey key ns
  let locales ← service.resolveLocales locale
  match locales.findSome? fun locale => ((service.catalogs.get locale).bind (resolveCatalogMessage · resolvedKey)).map (locale, ·) with
  | some found => .ok found
  | none => .error ⟨units "Missing i18n message: " ++ resolvedKey, .missingMessage⟩

end I18nService

end Fluo.I18n
