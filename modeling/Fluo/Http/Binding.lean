import Fluo.Core.DtoMetadata
/-!
# Binding requests to DTOs

`DefaultBinder` in `binding.ts` and the plan of `dto-binding-plan.ts` that it follows. What
is left out of the plan is what the validation adapter reads.
-/

namespace Fluo.Http.Binding
open Fluo.Lib
open Fluo.Core (Ref MetadataPropertyKey MetadataSource DtoFieldBindingMetadata)

/-! ## Requests -/

/-- The names of the properties of `Object.prototype`. -/
def objectPrototypeKeys : List Utf16 :=
  ["constructor", "__defineGetter__", "__defineSetter__", "hasOwnProperty", "__lookupGetter__", "__lookupSetter__", "isPrototypeOf",
    "propertyIsEnumerable", "toString", "valueOf", "__proto__", "toLocaleString"].map units

/-- An object whose prototype is that of objects, or none. No value is `undefined`. -/
structure PlainObject (V : Type) where
  own : OrderedMap Utf16 (Option V)
  bare : Bool := false

inductive Body (V : Type)
  /-- `undefined` or `null` -/
  | absent
  | object (body : PlainObject V)
  | other

structure FrameworkRequest (V : Type) where
  params : PlainObject V
  query : PlainObject V
  headers : PlainObject V
  cookies : PlainObject V
  body : Body V

/-- What a converter is told, apart from what is the same for all fields of a DTO. -/
structure ConverterTarget where
  key : Utf16
  propertyKey : MetadataPropertyKey
  source : MetadataSource

abbrev Converter (V : Type) := Option V → ConverterTarget → Option V

/-- What the language and the application have. -/
structure Host (V : Type) where
  toLowerCase : Utf16 → Utf16
  /-- `String(symbol)` -/
  symbolText : Nat → Utf16
  /-- The properties of `Object.prototype`. -/
  builtin : Utf16 → V
  /-- What `resolveConverter` comes to, if it succeeds. None for a converter that is none. -/
  resolveConverter : Ref → Option (Converter V)

variable {V : Type} (host : Host V)

/-- `object[key]` -/
def PlainObject.get (object : PlainObject V) (key : Utf16) : Option V :=
  match object.own.get key with
  | some value => value
  | none => if object.bare = false ∧ key ∈ objectPrototypeKeys then some (host.builtin key) else none

/-! ## The plan -/

def toFieldName : MetadataPropertyKey → Utf16
  | .text name => name
  | .symbol id => host.symbolText id

def resolveSourceKey (propertyKey : MetadataPropertyKey) (key : Option Utf16) : Utf16 := key.getD (toFieldName host propertyKey)

structure CompiledDtoBindingPlanEntry where
  converter : Option Ref
  fieldName : Utf16
  isOptional : Bool
  propertyKey : MetadataPropertyKey
  source : MetadataSource
  sourceKey : Utf16

/-- Header values are never null. -/
def readHeader (request : FrameworkRequest V) (key : Utf16) : Option V :=
  request.headers.get host (host.toLowerCase key) <|> request.headers.get host key

/-- The reader that `createSourceReader` makes for an entry. -/
def CompiledDtoBindingPlanEntry.read (entry : CompiledDtoBindingPlanEntry) (request : FrameworkRequest V) : Option V :=
  match entry.source with
  | .path => request.params.get host entry.sourceKey
  | .query => request.query.get host entry.sourceKey
  | .header => readHeader host request entry.sourceKey
  | .cookie => request.cookies.get host entry.sourceKey
  | .body =>
    match request.body with
    | .object body => body.get host entry.sourceKey
    | _ => none

structure CompiledDtoBindingPlan where
  bodyKeys : List Utf16
  entries : List CompiledDtoBindingPlanEntry
  hasFieldConverters : Bool

def compileEntry (entry : MetadataPropertyKey × DtoFieldBindingMetadata) : CompiledDtoBindingPlanEntry where
  converter := entry.2.converter
  fieldName := toFieldName host entry.1
  isOptional := entry.2.optional = some true
  propertyKey := entry.1
  source := entry.2.source
  sourceKey := resolveSourceKey host entry.1 entry.2.key

/-- `getCompiledDtoBindingPlan` of the binding schema of a class. -/
def compiledDtoBindingPlan (schema : List (MetadataPropertyKey × DtoFieldBindingMetadata)) : CompiledDtoBindingPlan :=
  let entries := schema.map (compileEntry host)
  { bodyKeys := (entries.filter fun entry => entry.source = .body).map CompiledDtoBindingPlanEntry.sourceKey
    entries
    hasFieldConverters := entries.any fun entry => entry.converter.isSome }

/-! ## Errors -/

inductive Code
  | invalidBody
  | dangerousKey
  | unknownField
  | missingField

structure HttpExceptionDetail where
  code : Code
  field : Option Utf16 := none
  message : Utf16
  source : MetadataSource

structure BadRequestException where
  message : Utf16
  details : List HttpExceptionDetail

def dangerousKeys : List Utf16 := ["__proto__", "constructor", "prototype"].map units

/-- The detail of a key of the body, if it is not supported. -/
def keyDetail (bodyKeys : List Utf16) (key : Utf16) : Option HttpExceptionDetail :=
  if key ∈ dangerousKeys then
    some { code := .dangerousKey, field := some key, message := units "Dangerous body key " ++ key ++ units " is not allowed.", source := .body }
  else if key ∉ bodyKeys then
    some { code := .unknownField, field := some key, message := units "Unknown body field " ++ key ++ units ".", source := .body }
  else none

def validateBodyKeys (bodyKeys : List Utf16) : Body V → Except BadRequestException Unit
  | .absent => .ok ()
  | .other =>
    .error {
      message := units "Request body must be a plain object."
      details := [{ code := .invalidBody, message := units "Request body must be a plain object.", source := .body }] }
  | .object body =>
    let details := (body.own.map Prod.fst).filterMap (keyDetail bodyKeys)
    if details = [] then .ok () else .error { message := units "Request body contains unsupported fields.", details }

def sourceText : MetadataSource → Utf16
  | .path => units "path"
  | .query => units "query"
  | .header => units "header"
  | .cookie => units "cookie"
  | .body => units "body"

def missingDetail (entry : CompiledDtoBindingPlanEntry) : HttpExceptionDetail where
  code := .missingField
  field := some entry.fieldName
  message := units "Missing required " ++ sourceText entry.source ++ units " field " ++ entry.sourceKey ++ units "."
  source := entry.source

/-! ## Binding -/

/-- The own properties of a DTO: those that its fields have been defined as, and what is assigned. -/
abbrev Instance (V : Type) := OrderedMap MetadataPropertyKey (Option V)

/-- One round of a loop over the entries. -/
def bindEntry (request : FrameworkRequest V) (convert : CompiledDtoBindingPlanEntry → V → Option V) (bound : Instance V × List HttpExceptionDetail)
    (entry : CompiledDtoBindingPlanEntry) : Instance V × List HttpExceptionDetail :=
  match entry.read host request with
  | none => if entry.isOptional then bound else (bound.1, bound.2 ++ [missingDetail entry])
  | some rawValue => (bound.1.set entry.propertyKey (convert entry rawValue), bound.2)

/-- A loop over the entries, and the check behind it. -/
def bindEntries (request : FrameworkRequest V) (entries : List CompiledDtoBindingPlanEntry) (constructed : Instance V)
    (convert : CompiledDtoBindingPlanEntry → V → Option V) : Except BadRequestException (Instance V) :=
  let bound := entries.foldl (bindEntry host request convert) (constructed, [])
  if bound.2 = [] then .ok bound.1 else .error { message := units "Request binding failed.", details := bound.2 }

def CompiledDtoBindingPlanEntry.target (entry : CompiledDtoBindingPlanEntry) : ConverterTarget := ⟨entry.sourceKey, entry.propertyKey, entry.source⟩

/-- The global converters, and then that of the field. -/
def convertValue (globalConverters : List (Converter V)) (entry : CompiledDtoBindingPlanEntry) (rawValue : V) : Option V :=
  let convertedValue := globalConverters.foldl (fun value converter => converter value entry.target) (some rawValue)
  match entry.converter.bind host.resolveConverter with
  | some fieldConverter => fieldConverter convertedValue entry.target
  | none => convertedValue

/-- `bind` of a binder with these converters, for the binding schema of a DTO and what its constructor gives. -/
def bind (converters : List Ref) (schema : List (MetadataPropertyKey × DtoFieldBindingMetadata)) (constructed : Instance V) (request : FrameworkRequest V) :
    Except BadRequestException (Instance V) := do
  let plan := compiledDtoBindingPlan host schema
  validateBodyKeys plan.bodyKeys request.body
  if converters.isEmpty && !plan.hasFieldConverters then bindEntries host request plan.entries constructed fun _ rawValue => some rawValue
  else bindEntries host request plan.entries constructed (convertValue host (converters.filterMap host.resolveConverter))

/-! ## What is bound -/

/-- The own value, if it is defined. -/
def PlainObject.ownValue (object : PlainObject V) (key : Utf16) : Option V := (object.own.get key).join

/-- The key is no own property, but a property of the prototype. -/
def PlainObject.Inherits (object : PlainObject V) (key : Utf16) : Prop := object.own.get key = none ∧ object.bare = false ∧ key ∈ objectPrototypeKeys

namespace CompiledDtoBindingPlanEntry

/-- The own value at the source of an entry. -/
def ownValue (entry : CompiledDtoBindingPlanEntry) (request : FrameworkRequest V) : Option V :=
  match entry.source with
  | .path => request.params.ownValue entry.sourceKey
  | .query => request.query.ownValue entry.sourceKey
  | .header => request.headers.ownValue (host.toLowerCase entry.sourceKey) <|> request.headers.ownValue entry.sourceKey
  | .cookie => request.cookies.ownValue entry.sourceKey
  | .body =>
    match request.body with
    | .object body => body.ownValue entry.sourceKey
    | _ => none

/-- The source of an entry inherits a property of its name. -/
def Inherits (entry : CompiledDtoBindingPlanEntry) (request : FrameworkRequest V) : Prop :=
  match entry.source with
  | .path => request.params.Inherits entry.sourceKey
  | .query => request.query.Inherits entry.sourceKey
  | .header =>
    request.headers.Inherits (host.toLowerCase entry.sourceKey) ∨
      request.headers.ownValue (host.toLowerCase entry.sourceKey) = none ∧ request.headers.Inherits entry.sourceKey
  | .cookie => request.cookies.Inherits entry.sourceKey
  | .body =>
    match request.body with
    | .object body => body.Inherits entry.sourceKey
    | _ => False

/-- The entry needs a value, and has none. -/
def missing (entry : CompiledDtoBindingPlanEntry) (request : FrameworkRequest V) : Bool := !entry.isOptional && (entry.ownValue host request).isNone

/-- The converters of a field, in order. -/
def convertersOf (entry : CompiledDtoBindingPlanEntry) (converters : List Ref) : List (Converter V) :=
  converters.filterMap host.resolveConverter ++ (entry.converter.bind host.resolveConverter).toList

/-- The value that a property is given, if it is given one. -/
def boundValue (entry : CompiledDtoBindingPlanEntry) (converters : List Ref) (request : FrameworkRequest V) : Option (Option V) :=
  (entry.ownValue host request).map fun rawValue =>
    (entry.convertersOf host converters).foldl (fun value converter => converter value entry.target) (some rawValue)

end CompiledDtoBindingPlanEntry

/-- The body is absent, or an object all of whose keys are declared and not dangerous. -/
def BodySupported (bodyKeys : List Utf16) : Body V → Prop
  | .absent => True
  | .object body => ∀ key ∈ body.own.map Prod.fst, key ∈ bodyKeys ∧ key ∉ dangerousKeys
  | .other => False

/-- The details for a body that is not supported: one, or one for each of its keys that is not. -/
def bodyDetails (bodyKeys : List Utf16) : Body V → List HttpExceptionDetail
  | .absent => []
  | .object body => (body.own.map Prod.fst).filterMap (keyDetail bodyKeys)
  | .other => [{ code := .invalidBody, message := units "Request body must be a plain object.", source := .body }]

section Entries
variable {host} {request : FrameworkRequest V} {entry : CompiledDtoBindingPlanEntry}

theorem PlainObject.get_eq_ownValue {object : PlainObject V} {key : Utf16} (h : ¬object.Inherits key) : object.get host key = object.ownValue key := by
  unfold PlainObject.get PlainObject.ownValue
  cases hown : object.own.get key with
  | some value => rfl
  | none => exact if_neg fun hinherited => h ⟨hown, hinherited⟩

theorem read_eq_ownValue (h : ¬entry.Inherits host request) : entry.read host request = entry.ownValue host request := by
  unfold CompiledDtoBindingPlanEntry.Inherits at h
  unfold CompiledDtoBindingPlanEntry.read CompiledDtoBindingPlanEntry.ownValue
  cases hsource : entry.source <;> simp only [hsource] at h ⊢
  case path => exact PlainObject.get_eq_ownValue h
  case query => exact PlainObject.get_eq_ownValue h
  case cookie => exact PlainObject.get_eq_ownValue h
  case header =>
    rw [not_or, not_and] at h
    rw [readHeader, PlainObject.get_eq_ownValue h.1]
    cases hlower : request.headers.ownValue (host.toLowerCase entry.sourceKey) with
    | some value => rfl
    | none => exact PlainObject.get_eq_ownValue (h.2 hlower)
  case body =>
    cases hbody : request.body with
    | absent => rfl
    | other => rfl
    | object body =>
      rw [hbody] at h
      exact PlainObject.get_eq_ownValue h

theorem convertValue_eq (converters : List Ref) (entry : CompiledDtoBindingPlanEntry) (rawValue : V) :
    convertValue host (converters.filterMap host.resolveConverter) entry rawValue =
      (entry.convertersOf host converters).foldl (fun value converter => converter value entry.target) (some rawValue) := by
  rw [convertValue, CompiledDtoBindingPlanEntry.convertersOf, List.foldl_append]
  cases entry.converter.bind host.resolveConverter <;> rfl

variable {convert convert' : CompiledDtoBindingPlanEntry → V → Option V} {entries : List CompiledDtoBindingPlanEntry}

theorem bindEntries_congr (h : ∀ entry ∈ entries, convert entry = convert' entry) (constructed : Instance V) :
    bindEntries host request entries constructed convert = bindEntries host request entries constructed convert' := by
  have hfold (bound : Instance V × List HttpExceptionDetail) : entries.foldl (bindEntry host request convert) bound =
      entries.foldl (bindEntry host request convert') bound := by
    refine List.foldl_ext _ _ _ fun bound entry hentry => ?_
    rw [bindEntry, bindEntry, h entry hentry]
  rw [bindEntries, bindEntries, hfold]

theorem bind_eq (converters : List Ref) (schema : List (MetadataPropertyKey × DtoFieldBindingMetadata)) (constructed : Instance V) :
    bind host converters schema constructed request = validateBodyKeys (compiledDtoBindingPlan host schema).bodyKeys request.body >>= fun _ =>
      bindEntries host request (compiledDtoBindingPlan host schema).entries constructed (convertValue host (converters.filterMap host.resolveConverter)) := by
  refine congrArg _ (funext fun _ => ?_)
  split_ifs with hnone
  · rw [Bool.and_eq_true, List.isEmpty_iff, Bool.not_eq_true'] at hnone
    obtain ⟨rfl, hfields⟩ := hnone
    refine bindEntries_congr (fun entry hentry => ?_) constructed
    have hconverter : entry.converter = none := by simpa using List.any_eq_false.1 hfields entry hentry
    funext rawValue
    simp [convertValue, hconverter]
  · rfl

theorem bindEntry_details (bound : Instance V × List HttpExceptionDetail) (h : ¬entry.Inherits host request) :
    (bindEntry host request convert bound entry).2 = bound.2 ++ if entry.missing host request then [missingDetail entry] else [] := by
  rw [bindEntry, read_eq_ownValue h, CompiledDtoBindingPlanEntry.missing]
  cases entry.ownValue host request <;> cases entry.isOptional <;> simp

theorem foldl_details (h : ∀ entry ∈ entries, ¬entry.Inherits host request) (bound : Instance V × List HttpExceptionDetail) :
    (entries.foldl (bindEntry host request convert) bound).2 = bound.2 ++ (entries.filter fun entry => entry.missing host request).map missingDetail := by
  induction entries generalizing bound with
  | nil => simp
  | cons entry entries ih =>
    obtain ⟨hfirst, hrest⟩ := List.forall_mem_cons.1 h
    rw [List.foldl_cons, ih hrest, bindEntry_details bound hfirst, List.filter_cons, List.append_assoc]
    split <;> simp

variable {key : MetadataPropertyKey}

theorem bindEntry_get_of_ne (bound : Instance V × List HttpExceptionDetail) (hne : entry.propertyKey ≠ key) :
    OrderedMap.get (bindEntry host request convert bound entry).1 key = OrderedMap.get bound.1 key := by
  unfold bindEntry
  split
  · split <;> rfl
  · exact OrderedMap.get_set_of_ne _ hne.symm _

theorem foldl_get_of_ne (h : ∀ entry ∈ entries, entry.propertyKey ≠ key) (bound : Instance V × List HttpExceptionDetail) :
    OrderedMap.get (entries.foldl (bindEntry host request convert) bound).1 key = OrderedMap.get bound.1 key := by
  induction entries generalizing bound with
  | nil => rfl
  | cons entry entries ih =>
    obtain ⟨hfirst, hrest⟩ := List.forall_mem_cons.1 h
    rw [List.foldl_cons, ih hrest, bindEntry_get_of_ne bound hfirst]

theorem foldl_get (hnodup : (entries.map CompiledDtoBindingPlanEntry.propertyKey).Nodup) (h : ∀ entry ∈ entries, ¬entry.Inherits host request)
    (bound : Instance V × List HttpExceptionDetail) (hentry : entry ∈ entries) :
    OrderedMap.get (entries.foldl (bindEntry host request convert) bound).1 entry.propertyKey =
      ((entry.ownValue host request).map (convert entry)).or (OrderedMap.get bound.1 entry.propertyKey) := by
  induction entries generalizing bound with
  | nil => cases hentry
  | cons first entries ih =>
    obtain ⟨hfirst, hrest⟩ := List.forall_mem_cons.1 h
    rw [List.map_cons, List.nodup_cons] at hnodup
    rw [List.foldl_cons]
    rcases List.mem_cons.1 hentry with rfl | hentry
    · have hothers other (hother : other ∈ entries) : other.propertyKey ≠ entry.propertyKey := fun heq =>
        hnodup.1 (heq ▸ List.mem_map_of_mem hother)
      rw [foldl_get_of_ne hothers, bindEntry, read_eq_ownValue hfirst]
      cases entry.ownValue host request with
      | none => cases entry.isOptional <;> rfl
      | some rawValue => exact OrderedMap.get_set_self _ _ _
    · have hne : first.propertyKey ≠ entry.propertyKey := fun heq => hnodup.1 (heq ▸ List.mem_map_of_mem hentry)
      rw [ih hnodup.2 hrest _ hentry, bindEntry_get_of_ne bound hne]

theorem keyDetail_eq_none {bodyKeys : List Utf16} {key : Utf16} : keyDetail bodyKeys key = none ↔ key ∈ bodyKeys ∧ key ∉ dangerousKeys := by
  unfold keyDetail
  split_ifs with hdangerous hunknown
  · simp [hdangerous]
  · exact iff_of_true rfl ⟨hunknown, hdangerous⟩
  · simp [hunknown]

theorem bodyDetails_eq_nil {bodyKeys : List Utf16} {body : Body V} : bodyDetails bodyKeys body = [] ↔ BodySupported bodyKeys body := by
  cases body with
  | absent => simp [bodyDetails, BodySupported]
  | object body => simp only [bodyDetails, BodySupported, List.filterMap_eq_nil_iff, keyDetail_eq_none]
  | other => simp [bodyDetails, BodySupported]

theorem validateBodyKeys_eq (bodyKeys : List Utf16) (body : Body V) : ∃ message, validateBodyKeys bodyKeys body =
    if bodyDetails bodyKeys body = [] then .ok () else .error ⟨message, bodyDetails bodyKeys body⟩ := by
  cases body with
  | absent => exact ⟨[], rfl⟩
  | object body => exact ⟨_, rfl⟩
  | other => exact ⟨_, rfl⟩

end Entries

section Bind
variable {host} {request : FrameworkRequest V} {converters : List Ref} {schema : List (MetadataPropertyKey × DtoFieldBindingMetadata)}
  {constructed : Instance V}

variable (host schema request converters constructed) in
theorem bind_of_unsupported (h : ¬BodySupported (compiledDtoBindingPlan host schema).bodyKeys request.body) :
    ∃ message, bind host converters schema constructed request =
      .error ⟨message, bodyDetails (compiledDtoBindingPlan host schema).bodyKeys request.body⟩ := by
  obtain ⟨message, hvalidate⟩ := validateBodyKeys_eq (compiledDtoBindingPlan host schema).bodyKeys request.body
  rw [if_neg (mt bodyDetails_eq_nil.1 h)] at hvalidate
  refine ⟨message, ?_⟩
  rw [bind_eq, hvalidate]
  rfl

variable (converters constructed) in
theorem bind_of_supported (hinherits : ∀ entry ∈ (compiledDtoBindingPlan host schema).entries, ¬entry.Inherits host request)
    (h : BodySupported (compiledDtoBindingPlan host schema).bodyKeys request.body) :
    bind host converters schema constructed request =
      if (compiledDtoBindingPlan host schema).entries.filter (fun entry => entry.missing host request) = [] then
        .ok ((compiledDtoBindingPlan host schema).entries.foldl
          (bindEntry host request (convertValue host (converters.filterMap host.resolveConverter))) (constructed, [])).1
      else
        .error ⟨units "Request binding failed.",
          ((compiledDtoBindingPlan host schema).entries.filter fun entry => entry.missing host request).map missingDetail⟩ := by
  obtain ⟨message, hvalidate⟩ := validateBodyKeys_eq (compiledDtoBindingPlan host schema).bodyKeys request.body
  rw [if_pos (bodyDetails_eq_nil.2 h)] at hvalidate
  rw [bind_eq, hvalidate]
  show bindEntries _ _ _ _ _ = _
  rw [bindEntries, foldl_details hinherits, List.nil_append]
  simp only [List.map_eq_nil_iff]

theorem filter_missing_eq_nil {entries : List CompiledDtoBindingPlanEntry} : entries.filter (fun entry => entry.missing host request) = [] ↔
    ∀ entry ∈ entries, entry.isOptional = false → (entry.ownValue host request).isSome := by
  simp only [List.filter_eq_nil_iff, CompiledDtoBindingPlanEntry.missing, Bool.and_eq_true, Bool.not_eq_true', not_and]
  refine forall_congr' fun entry => forall_congr' fun _ => forall_congr' fun _ => ?_
  cases entry.ownValue host request <;> simp

theorem propertyKey_entries (host : Host V) (schema : List (MetadataPropertyKey × DtoFieldBindingMetadata)) :
    (compiledDtoBindingPlan host schema).entries.map CompiledDtoBindingPlanEntry.propertyKey = schema.map Prod.fst :=
  (List.map_map ..).trans (List.map_congr_left fun _ _ => rfl)

/-- The schema of the same fields without converters. -/
def withoutConverters (schema : List (MetadataPropertyKey × DtoFieldBindingMetadata)) : List (MetadataPropertyKey × DtoFieldBindingMetadata) :=
  schema.map fun entry => (entry.1, { entry.2 with converter := none })

theorem foldl_identity {converters : List (Converter V)} (h : ∀ converter ∈ converters, ∀ value target, converter value target = value)
    (target : ConverterTarget) (value : Option V) : converters.foldl (fun value converter => converter value target) value = value := by
  induction converters generalizing value with
  | nil => rfl
  | cons converter converters ih =>
    obtain ⟨hfirst, hrest⟩ := List.forall_mem_cons.1 h
    rw [List.foldl_cons, hfirst, ih hrest]

theorem bind_identity (hidentity : ∀ entry ∈ (compiledDtoBindingPlan host schema).entries, ∀ converter ∈ entry.convertersOf host converters,
      ∀ value target, converter value target = value) :
    bind host converters schema constructed request = bind host [] (withoutConverters schema) constructed request := by
  have hentries : (compiledDtoBindingPlan host (withoutConverters schema)).entries =
      (compiledDtoBindingPlan host schema).entries.map fun entry => { entry with converter := none } := by
    show ((schema.map _).map _) = (schema.map _).map _
    rw [List.map_map, List.map_map]
    rfl
  have hkeys : (compiledDtoBindingPlan host (withoutConverters schema)).bodyKeys = (compiledDtoBindingPlan host schema).bodyKeys := by
    show (List.filter _ (compiledDtoBindingPlan host (withoutConverters schema)).entries).map _ = _
    rw [hentries, List.filter_map, List.map_map]
    rfl
  rw [bind_eq, bind_eq, hkeys]
  refine congrArg _ (funext fun _ => ?_)
  have hconvert entry (hentry : entry ∈ (compiledDtoBindingPlan host schema).entries) :
      convertValue host (converters.filterMap host.resolveConverter) entry = fun rawValue => some rawValue := by
    funext rawValue
    rw [convertValue_eq, foldl_identity (hidentity entry hentry)]
  rw [bindEntries_congr hconvert, bindEntries, bindEntries, hentries, List.foldl_map]
  rfl

end Bind

/-- Where no source inherits a property that the DTO asks for, binding succeeds if and only if the body is supported and
no entry is missing; then every property has the own value at its source, put through the converters, or what it was
constructed with, and otherwise the details list every key of the body that is not supported, or else every entry
that is missing. Converters that leave values as they are make no difference. -/
theorem bind_exact (host : Host V) (stores : Core.Stores) (bags : Core.Bags) (dto : Core.Class) (converters : List Ref) (constructed : Instance V)
    (request : FrameworkRequest V)
    (hinherits : ∀ entry ∈ (compiledDtoBindingPlan host (Core.getDtoBindingSchema stores bags dto)).entries, ¬entry.Inherits host request) :
    let schema := Core.getDtoBindingSchema stores bags dto
    let plan := compiledDtoBindingPlan host schema
    ((∃ value, bind host converters schema constructed request = .ok value) ↔
      BodySupported plan.bodyKeys request.body ∧ ∀ entry ∈ plan.entries, entry.isOptional = false → (entry.ownValue host request).isSome) ∧
    (∀ value, bind host converters schema constructed request = .ok value →
      (∀ entry ∈ plan.entries, value.get entry.propertyKey = (entry.boundValue host converters request).or (constructed.get entry.propertyKey)) ∧
        ∀ key, (∀ entry ∈ plan.entries, entry.propertyKey ≠ key) → value.get key = constructed.get key) ∧
    (∀ error, bind host converters schema constructed request = .error error →
      (¬BodySupported plan.bodyKeys request.body ∧ error.details = bodyDetails plan.bodyKeys request.body) ∨
        (BodySupported plan.bodyKeys request.body ∧
          error.details = (plan.entries.filter fun entry => entry.missing host request).map missingDetail)) ∧
    ((∀ entry ∈ plan.entries, ∀ converter ∈ entry.convertersOf host converters, ∀ value target, converter value target = value) →
      bind host converters schema constructed request = bind host [] (withoutConverters schema) constructed request) := by
  intro schema plan
  have hsupported := bind_of_supported converters constructed hinherits
  have hunsupported := bind_of_unsupported host request converters schema constructed
  have hnodup : (plan.entries.map CompiledDtoBindingPlanEntry.propertyKey).Nodup := by
    rw [propertyKey_entries]
    exact Core.keyed_getDtoBindingSchema stores bags dto
  refine ⟨?_, fun value hvalue => ?_, fun error herror => ?_, bind_identity⟩
  · by_cases hbody : BodySupported plan.bodyKeys request.body
    · rw [hsupported hbody, ← filter_missing_eq_nil]
      split_ifs with hcomplete
      · exact iff_of_true ⟨_, rfl⟩ ⟨hbody, hcomplete⟩
      · exact iff_of_false nofun fun h => hcomplete h.2
    · obtain ⟨message, hrejected⟩ := hunsupported hbody
      rw [hrejected]
      exact iff_of_false nofun fun h => hbody h.1
  · have hbody : BodySupported plan.bodyKeys request.body := by
      by_contra hbody
      obtain ⟨message, hrejected⟩ := hunsupported hbody
      rw [hrejected] at hvalue
      cases hvalue
    rw [hsupported hbody] at hvalue
    split_ifs at hvalue
    cases hvalue
    refine ⟨fun entry hentry => ?_, fun key hkey => foldl_get_of_ne hkey _⟩
    rw [foldl_get hnodup hinherits _ hentry, funext (convertValue_eq converters entry)]
    rfl
  · by_cases hbody : BodySupported plan.bodyKeys request.body
    · rw [hsupported hbody] at herror
      split_ifs at herror
      cases herror
      exact .inr ⟨hbody, rfl⟩
    · obtain ⟨message, hrejected⟩ := hunsupported hbody
      rw [hrejected] at herror
      cases herror
      exact .inl ⟨hbody, rfl⟩

section Example

/-- A host that only knows lower case, of texts as values, with one converter: it puts an exclamation mark behind a value. -/
def plainHost : Host Utf16 where
  toLowerCase text := text
  symbolText _ := units "Symbol()"
  builtin name := units "function " ++ name
  resolveConverter _ := some fun value _ => value.map (· ++ units "!")

/-- What the decorators of a class with one field have stored. -/
def storesOf (source : MetadataSource) (field : String) : Core.Stores where
  dtoFieldBinding _ := [(.text (units field), ⟨source, none, none, some 1⟩)]
  dtoFieldValidation _ := []
  classValidation _ := []
  controller _ := none
  route _ := []
  legacyRoute _ := []

def requestWith (body : Body Utf16) : FrameworkRequest Utf16 := ⟨⟨[], false⟩, ⟨[], false⟩, ⟨[], false⟩, ⟨[], false⟩, body⟩

def bindOne (converters : List Ref) (source : MetadataSource) (field : String) (body : Body Utf16) : Except BadRequestException (Instance Utf16) :=
  bind plainHost converters (Core.getDtoBindingSchema (storesOf source field) .empty (.base 0)) [] (requestWith body)

/-- A global converter and that of the field put two marks behind a value. -/
theorem bind_exact_name : ∃ value, bindOne [2] .body "name" (.object ⟨[(units "name", some (units "Ada"))], false⟩) = .ok value ∧
    OrderedMap.get value (.text (units "name")) = some (some (units "Ada!!")) := by
  have hinherits : ∀ entry ∈ (compiledDtoBindingPlan plainHost (Core.getDtoBindingSchema (storesOf .body "name") .empty (.base 0))).entries,
      ¬entry.Inherits plainHost (requestWith (.object ⟨[(units "name", some (units "Ada"))], false⟩)) := by
    intro entry hentry hinherited
    obtain rfl := List.mem_singleton.1 hentry
    cases hinherited.1
  obtain ⟨hok, hbound, -, -⟩ := bind_exact plainHost (storesOf .body "name") .empty (.base 0) [2] []
    (requestWith (.object ⟨[(units "name", some (units "Ada"))], false⟩)) hinherits
  obtain ⟨value, hvalue⟩ := hok.2 ⟨bodyDetails_eq_nil.1 (by decide +kernel), by decide +kernel⟩
  exact ⟨value, hvalue, (hbound value hvalue).1 _ (List.mem_singleton_self _)⟩

/-- Where a key of the body is unknown, a field that is missing is not listed, and a field that is not in the query is
bound to a method of all objects. -/
theorem bind_counterexample :
    (∃ error, bindOne [] .query "q" (.object ⟨[(units "x", none)], false⟩) = .error error ∧ error.details.length = 1 ∧
      ∀ detail ∈ error.details, detail.field ≠ some (units "q")) ∧
    ∃ value, bindOne [] .query "toString" .absent = .ok value ∧
      OrderedMap.get value (.text (units "toString")) = some (some (units "function toString!")) := by
  refine ⟨⟨_, rfl, ?_⟩, ⟨_, rfl, ?_⟩⟩
  · decide +kernel
  · decide +kernel

end Example

end Fluo.Http.Binding
