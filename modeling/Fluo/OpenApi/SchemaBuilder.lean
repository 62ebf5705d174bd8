import Fluo.Lib.FreshName
import Fluo.Lib.Fuel
import Fluo.OpenApi.Schema
/-!
# The schema builder

`buildOpenApiDocument`, up to the caller's own `documentTransform`. The DTO
classes of the program are `δ`, a number is an `N`. The component schemas, the
allocated names and the used operation ids are the state of the build. The
recursion through nested DTO classes takes a step of fuel per component schema;
caches of what the metadata alone decides are left out.
-/

namespace Fluo.OpenApi
open Fluo.Lib
open Fluo.Core (MetadataSource)
open Fluo.Http.Mapping (HttpMethod slash)
open Fluo.Validation (Literal DtoFieldValidationRule ValidatorJs MetadataPropertyKey DtoBindingEntry DtoValidationEntry DtoClass)

/-! ## Metadata -/

structure ApiOperationMetadata where
  summary : Option Utf16 := none
  description : Option Utf16 := none
  deprecated : Option Bool := none

structure ApiResponseMetadata (δ N : Type) where
  status : N
  description : Option Utf16 := none
  schema : Option (ExplicitSchema N) := none
  type : Option δ := none

structure ApiParameterMetadata (N : Type) where
  name : Utf16
  source : ParameterSource
  description : Option Utf16 := none
  required : Option Bool := none
  schema : Option (ExplicitSchema N) := none

structure ApiBodyMetadata (N : Type) where
  description : Option Utf16 := none
  required : Option Bool := none
  schema : Option (ExplicitSchema N) := none
  content : Option (OrderedMap Utf16 (ExplicitSchema N)) := none

structure MethodApiMetadata (δ N : Type) where
  operation : Option ApiOperationMetadata := none
  responses : List (ApiResponseMetadata δ N) := []
  parameters : Option (List (ApiParameterMetadata N)) := none
  requestBody : Option (ApiBodyMetadata N) := none
  security : Option (List Utf16) := none
  securityRequirements : Option (List OpenApiSecurityRequirementObject) := none
  excludeEndpoint : Option Bool := none

/-- A controller class, with what `getControllerTags` and `getMethodApiMetadata` return for it. -/
structure ControllerToken (δ N : Type) where
  name : Utf16
  tags : Option (List Utf16) := none
  methodApiMetadata : OrderedMap Utf16 (MethodApiMetadata δ N) := []

/-- A route path of the handler mapping, which normalizes it: a slash first. -/
abbrev EffectivePath := { path : Utf16 // path.head? = some slash }

structure RouteDefinition (δ N : Type) where
  method : HttpMethod
  path : EffectivePath
  produces : Option (List Utf16) := none
  request : Option δ := none
  successStatus : Option N := none

structure HandlerDescriptor (δ N : Type) where
  controllerToken : ControllerToken δ N
  methodName : Utf16
  route : RouteDefinition δ N

inductive DefaultErrorResponsesPolicy
  | inject | omit
deriving DecidableEq

structure BuildOpenApiDocumentOptions (δ N : Type) where
  defaultErrorResponsesPolicy : Option DefaultErrorResponsesPolicy := none
  descriptors : List (HandlerDescriptor δ N)
  title : Utf16
  version : Utf16
  securitySchemes : Option (OrderedMap Utf16 OpenApiSecuritySchemeObject) := none
  extraModels : Option (List δ) := none

/-! ## Paths and operation ids -/

/-- Where a scan of a route path is: in the text, behind a colon, or in the name of a parameter. -/
inductive PathScan
  | text | colon | name

def isNameStart (u : UInt16) : Bool :=
  (97 ≤ u.toNat && u.toNat ≤ 122) || (65 ≤ u.toNat && u.toNat ≤ 90) || u.toNat == 95

def isNamePart (u : UInt16) : Bool := isNameStart u || (48 ≤ u.toNat && u.toNat ≤ 57)

/-- A colon, or where the scan goes on behind a unit that belongs to no name. -/
def scanFrom (u : UInt16) : PathScan × Utf16 := if u.toNat = 58 then (.colon, []) else (.text, [u])

/-- What a unit adds to the output. -/
def scanStep (u : UInt16) : PathScan → PathScan × Utf16
  | .text => scanFrom u
  | .colon => if isNameStart u then (.name, units "\x7b" ++ [u]) else ((scanFrom u).1, units ":" ++ (scanFrom u).2)
  | .name => if isNamePart u then (.name, [u]) else ((scanFrom u).1, units "\x7d" ++ (scanFrom u).2)

def scanPath : PathScan → Utf16 → Utf16
  | .text, [] => []
  | .colon, [] => units ":"
  | .name, [] => units "\x7d"
  | scan, u :: rest => (scanStep u scan).2 ++ scanPath (scanStep u scan).1 rest

/-- `/:([a-zA-Z_][a-zA-Z0-9_]*)/g` becomes the name in braces. -/
def expressPathToOpenApi (path : Utf16) : Utf16 := scanPath .text path

def replaceAll (old new text : Utf16) : Utf16 := text.flatMap fun u => if [u] = old then new else [u]

def lowerName : HttpMethod → Utf16
  | .get => units "get"
  | .post => units "post"
  | .put => units "put"
  | .patch => units "patch"
  | .delete => units "delete"
  | .options => units "options"
  | .head => units "head"
  | .all => units "all"

variable {δ N : Type}

def resolveControllerTags (descriptor : HandlerDescriptor δ N) : List Utf16 :=
  match descriptor.controllerToken.tags with
  | some (tag :: tags) => tag :: tags
  | _ => [if descriptor.controllerToken.name = [] then units "Controller" else descriptor.controllerToken.name]

def normalizeOperationId (descriptor : HandlerDescriptor δ N) : Utf16 :=
  let tag := (resolveControllerTags descriptor).head?.getD (units "Controller")
  let path := replaceAll (units "-") (units "_") (replaceAll (units "\x7d") [] (replaceAll (units "\x7b") []
    (replaceAll (units "/") (units "_") (expressPathToOpenApi descriptor.route.path.1))))
  tag ++ units "_" ++ descriptor.methodName ++ units "_" ++ lowerName descriptor.route.method ++ path

def createOperationDeduplicationKey (descriptor : HandlerDescriptor δ N) : Utf16 :=
  lowerName descriptor.route.method ++ units ":" ++ expressPathToOpenApi descriptor.route.path.1

def dedupeDescriptorsByOperation (descriptors : List (HandlerDescriptor δ N)) : List (HandlerDescriptor δ N) :=
  (descriptors.foldl (fun byOperation descriptor => OrderedMap.set byOperation (createOperationDeduplicationKey descriptor) descriptor)
    []).map Prod.snd

/-! ## The state of a build -/

structure BuildSchemaContext (δ N : Type) where
  componentSchemas : OrderedMap Utf16 (OpenApiSchemaObject N) := []
  /-- By class and suffix. -/
  dtoSchemaNames : List ((δ × Utf16) × Utf16) := []
  usedSchemaNames : List Utf16
  usedOperationIds : List Utf16 := []

abbrev BuildM (δ N : Type) := StateT (BuildSchemaContext δ N) Option

/-- The candidates for a name, from the name itself on. -/
def numbered (name : Utf16) : Nat → Utf16
  | 0 => name
  | i + 1 => name ++ units "_" ++ units (toString (i + 2))

def unusedName (used : List Utf16) (name : Utf16) : Utf16 := firstUnused used (numbered name) used.length 0

def resolveUniqueOperationId (operationId : Utf16) : BuildM δ N Utf16 := do
  let context ← get
  let candidate := unusedName context.usedOperationIds operationId
  set { context with usedOperationIds := candidate :: context.usedOperationIds }
  return candidate

/-- What every object inherits from `Object.prototype`. -/
def objectPrototypeKeys : List Utf16 :=
  ["constructor", "toString", "toLocaleString", "valueOf", "hasOwnProperty", "isPrototypeOf", "propertyIsEnumerable", "__proto__",
    "__defineGetter__", "__defineSetter__", "__lookupGetter__", "__lookupSetter__"].map units

/-- `componentSchemas[schemaName]` is there, as an own property or as an inherited one. -/
def hasSchema (context : BuildSchemaContext δ N) (schemaName : Utf16) : Bool :=
  (context.componentSchemas.get schemaName).isSome || schemaName ∈ objectPrototypeKeys

def setSchema (schemaName : Utf16) (schema : OpenApiSchemaObject N) : BuildM δ N PUnit :=
  modify fun context => { context with componentSchemas := context.componentSchemas.set schemaName schema }

def createSchemaRef (name : Utf16) : OpenApiSchemaObject N := { ref := some (.component name) }

variable [DecidableEq δ] (dtos : δ → DtoClass δ N)

def getDtoSchemaName (dto : δ) (suffix : Utf16) : BuildM δ N Utf16 := do
  let context ← get
  match OrderedMap.get context.dtoSchemaNames (dto, suffix) with
  | some cached => return cached
  | none =>
    let name := if (dtos dto).name = [] then units "AnonymousDto" else (dtos dto).name
    let candidate := unusedName context.usedSchemaNames (name ++ suffix)
    set { context with
      usedSchemaNames := candidate :: context.usedSchemaNames
      dtoSchemaNames := OrderedMap.set context.dtoSchemaNames (dto, suffix) candidate }
    return candidate

/-! ## Rules as a schema -/

structure CollectedDtoEntry (δ N : Type) where
  binding : Option DtoBindingEntry
  name : Utf16
  validation : Option (DtoValidationEntry δ N)

def propertyName : MetadataPropertyKey → Utf16
  | .text name => name
  | .symbol _ description => units "Symbol(" ++ description ++ units ")"

omit [DecidableEq δ] in
def collectDtoEntries (dto : δ) : List (CollectedDtoEntry δ N) :=
  let bindingMap := (dtos dto).bindingSchema.foldl (fun map entry => OrderedMap.set map entry.propertyKey entry) []
  let validationMap := (dtos dto).validationSchema.foldl (fun map entry => OrderedMap.set map entry.propertyKey entry) []
  let propertyKeys := (bindingMap.map Prod.fst ++ validationMap.map Prod.fst).eraseDups
  propertyKeys.map fun propertyKey =>
    { binding := bindingMap.get propertyKey, name := propertyName propertyKey, validation := validationMap.get propertyKey }

def CollectedDtoEntry.rules (entry : CollectedDtoEntry δ N) : List (DtoFieldValidationRule δ N) := (entry.validation.map (·.rules)).getD []

def inferEnumValueType : Literal N → OpenApiSchemaPrimitiveType
  | .number _ => .number
  | .boolean _ => .boolean
  | _ => .string

def createEnumSchema (values : List (Literal N)) : OpenApiSchemaObject N where
  enum := some values
  type := match values with
    | [] => none
    | value :: _ => if (values.map inferEnumValueType).eraseDups.length = 1 then some (.one (inferEnumValueType value)) else none

structure NestedRule (δ : Type) where
  dto : δ
  each : Bool

def inferNestedSchema (nestedRule : Option (NestedRule δ)) : BuildM δ N (Option (OpenApiSchemaObject N)) :=
  match nestedRule with
  | none => return none
  | some rule => do
    let schemaName ← getDtoSchemaName dtos rule.dto []
    if rule.each then
      return some { items := some (createSchemaRef schemaName), type := some (.one .array) }
    return some (createSchemaRef schemaName)

structure RuleProfile (δ N : Type) where
  enumEachRule : Option (List (Literal N)) := none
  enumRule : Option (List (Literal N)) := none
  hasArrayRule : Bool := false
  hasBooleanRule : Bool := false
  hasDateRule : Bool := false
  hasEachBooleanRule : Bool := false
  hasEachIntRule : Bool := false
  hasEachNumberRule : Bool := false
  hasIntRule : Bool := false
  hasNumberRule : Bool := false
  hasObjectRule : Bool := false
  hasStringRule : Bool := false
  hasStringRuleForEach : Bool := false
  maxLength : Option N := none
  maximum : Option N := none
  minLength : Option N := none
  minimum : Option N := none
  nestedEachRule : Option (NestedRule δ) := none
  nestedRule : Option (NestedRule δ) := none
  stringFormat : Option Utf16 := none

def resolveValidatorStringFormat : ValidatorJs → Option Utf16
  | .email => some (units "email")
  | .uuid => some (units "uuid")
  | .url => some (units "uri")
  | .dateString | .iso8601 => some (units "date-time")
  | _ => none

def applyRuleToProfile (profile : RuleProfile δ N) (rule : DtoFieldValidationRule δ N) : RuleProfile δ N :=
  match rule.kind with
  | .nested dto => { profile with
      nestedRule := profile.nestedRule <|> some ⟨dto, rule.each⟩
      nestedEachRule := if rule.each then profile.nestedEachRule <|> some ⟨dto, rule.each⟩ else profile.nestedEachRule }
  | .array => { profile with hasArrayRule := true }
  | .enum values => { profile with
      enumRule := profile.enumRule <|> some values
      enumEachRule := if rule.each then profile.enumEachRule <|> some values else profile.enumEachRule }
  | .int => { profile with hasIntRule := true, hasEachIntRule := rule.each || profile.hasEachIntRule }
  | .number _ => { profile with hasNumberRule := true, hasEachNumberRule := rule.each || profile.hasEachNumberRule }
  | .boolean => { profile with hasBooleanRule := true, hasEachBooleanRule := rule.each || profile.hasEachBooleanRule }
  | .date => { profile with hasDateRule := true }
  | .object => { profile with hasObjectRule := true }
  | .string => { profile with hasStringRule := true }
  | .minLength value => if rule.each then { profile with hasStringRuleForEach := true } else { profile with minLength := some value }
  | .maxLength value => if rule.each then { profile with hasStringRuleForEach := true } else { profile with maxLength := some value }
  | .min value => if rule.each then profile else { profile with minimum := some value }
  | .max value => if rule.each then profile else { profile with maximum := some value }
  | .validatorjs validator _ => { profile with stringFormat := resolveValidatorStringFormat validator <|> profile.stringFormat }
  | _ => profile

def getRuleProfile (rules : List (DtoFieldValidationRule δ N)) : RuleProfile δ N := rules.foldl applyRuleToProfile {}

def typeSchema (type : OpenApiSchemaPrimitiveType) : OpenApiSchemaObject N := { type := some (.one type) }

def inferEachItemSchema (profile : RuleProfile δ N) : BuildM δ N (Option (OpenApiSchemaObject N)) :=
  match profile.nestedEachRule, profile.enumEachRule with
  | some rule, _ => do
    let schemaName ← getDtoSchemaName dtos rule.dto []
    return some (createSchemaRef schemaName)
  | none, some values => return some (createEnumSchema values)
  | none, none =>
    if profile.hasStringRule || profile.hasStringRuleForEach then return some (typeSchema .string)
    else if profile.hasEachIntRule then return some (typeSchema .integer)
    else if profile.hasEachNumberRule then return some (typeSchema .number)
    else if profile.hasEachBooleanRule then return some (typeSchema .boolean)
    else return none

def inferPrimitiveTypeFromRules (rules : List (DtoFieldValidationRule δ N)) : BuildM δ N (Option (OpenApiSchemaObject N)) := do
  let profile := getRuleProfile rules
  match ← inferNestedSchema dtos profile.nestedRule with
  | some nestedSchema => return some nestedSchema
  | none =>
    if profile.hasArrayRule then
      let items ← inferEachItemSchema dtos profile
      return some { items := some (items.getD {}), type := some (.one .array) }
    match profile.enumRule with
    | some values => return some (createEnumSchema values)
    | none =>
      if profile.hasIntRule then return some (typeSchema .integer)
      else if profile.hasNumberRule then return some (typeSchema .number)
      else if profile.hasBooleanRule then return some (typeSchema .boolean)
      else if profile.hasDateRule then return some { format := some (units "date-time"), type := some (.one .string) }
      else if profile.hasObjectRule then return some { additionalProperties := some true, type := some (.one .object) }
      else if profile.hasStringRule then return some (typeSchema .string)
      else return none

def applyValidationConstraints (schema : OpenApiSchemaObject N) (rules : List (DtoFieldValidationRule δ N)) : OpenApiSchemaObject N :=
  let profile := getRuleProfile rules
  if schema.type = some (.one .string) then
    { schema with
      minLength := profile.minLength <|> schema.minLength
      maxLength := profile.maxLength <|> schema.maxLength
      format := profile.stringFormat <|> schema.format }
  else if schema.type = some (.one .number) ∨ schema.type = some (.one .integer) then
    { schema with minimum := profile.minimum <|> schema.minimum, maximum := profile.maximum <|> schema.maximum }
  else schema

def isPropertyRequired (binding : Option DtoBindingEntry) (validation : Option (DtoValidationEntry δ N)) : Bool :=
  if binding.any fun binding => binding.metadata.optional.getD false then false
  else if validation.any fun validation => validation.rules.any fun rule => rule.kind matches .optional then false
  else true

/-! ## Component schemas -/

/-- `properties[name] = schema`: under `__proto__` this sets the prototype and adds no property. -/
def assignProperty (properties : OrderedMap Utf16 (OpenApiSchemaObject N)) (name : Utf16) (schema : OpenApiSchemaObject N) :
    OrderedMap Utf16 (OpenApiSchemaObject N) :=
  if name = units "__proto__" then properties else properties.set name schema

/-- `ensureComponentSchemaFromEntries`, as the functions it calls back to have it. -/
abbrev EnsureFromEntries (δ N : Type) := Utf16 → List (CollectedDtoEntry δ N) → BuildM δ N (OpenApiSchemaObject N)

section Shape
variable (ensureFromEntries : EnsureFromEntries δ N)

def ensureComponentSchemaBy (dto : δ) : BuildM δ N (OpenApiSchemaObject N) := do
  let schemaName ← getDtoSchemaName dtos dto []
  ensureFromEntries schemaName (collectDtoEntries dtos dto)

def ensureNestedSchemasFromRules (rules : List (DtoFieldValidationRule δ N)) : BuildM δ N PUnit :=
  rules.forM fun rule => match rule.kind with
    | .nested dto => do
      let _ ← ensureComponentSchemaBy dtos ensureFromEntries dto
    | _ => return

/-- The properties and those that are required. -/
def buildComponentSchemaShape (entries : List (CollectedDtoEntry δ N)) :
    BuildM δ N (OrderedMap Utf16 (OpenApiSchemaObject N) × List Utf16) :=
  entries.foldlM (fun (properties, required) entry => do
    ensureNestedSchemasFromRules dtos ensureFromEntries entry.rules
    let inferred ← inferPrimitiveTypeFromRules dtos entry.rules
    let properties := assignProperty properties entry.name (applyValidationConstraints (inferred.getD {}) entry.rules)
    return (properties, if isPropertyRequired entry.binding entry.validation then required ++ [entry.name] else required)) ([], [])

end Shape

def ensureComponentSchemaFromEntries : Nat → EnsureFromEntries δ N
  | 0, _, _ => failure
  | fuel + 1, schemaName, entries => do
    if hasSchema (← get) schemaName then
      return createSchemaRef schemaName
    setSchema schemaName { additionalProperties := some false, type := some (.one .object) }
    let (properties, required) ← buildComponentSchemaShape dtos (ensureComponentSchemaFromEntries fuel) entries
    setSchema schemaName { additionalProperties := some false, properties, required, type := some (.one .object) }
    return createSchemaRef schemaName

def ensureComponentSchema (fuel : Nat) (dto : δ) : BuildM δ N (OpenApiSchemaObject N) :=
  ensureComponentSchemaBy dtos (ensureComponentSchemaFromEntries dtos fuel) dto

/-! ## Operations -/

def scalarizeArraySchemaItems (items : Option (OpenApiSchemaObject N)) : OpenApiSchemaObject N :=
  match items with
  | none => typeSchema .string
  | some items =>
    if items.ref.isSome ∨ items.type = none ∨ items.type = some (.one .array) ∨ items.type = some (.one .object) then typeSchema .string
    else { type := items.type, format := items.format, enum := items.enum }

/-! The replacements of `alignParameterSchemaWithRuntimeBindingContract`, in its order: a
reference, an object, and the items of an array that are either. -/

def alignReference (schema : OpenApiSchemaObject N) : OpenApiSchemaObject N := if schema.ref.isSome then typeSchema .string else schema

def alignObject (schema : OpenApiSchemaObject N) : OpenApiSchemaObject N :=
  if schema.type = some (.one .object) then typeSchema .string else schema

def alignItems (schema : OpenApiSchemaObject N) : OpenApiSchemaObject N :=
  match schema.items with
  | none => schema
  | some items =>
    if schema.type = some (.one .array) ∧ (items.ref.isSome ∨ items.type = some (.one .object)) then
      { schema with items := some (typeSchema .string) }
    else schema

def alignParameterSchemaWithRuntimeBindingContract (schema : OpenApiSchemaObject N) (source : ParameterSource) : OpenApiSchemaObject N :=
  let aligned := alignItems (alignObject (alignReference schema))
  if (source = .path ∨ source = .cookie) ∧ aligned.type = some (.one .array) then scalarizeArraySchemaItems aligned.items else aligned

def parameterSource : MetadataSource → Option ParameterSource
  | .path => some .path
  | .query => some .query
  | .header => some .header
  | .cookie => some .cookie
  | .body => none

def createParameters (dto : Option δ) : BuildM δ N (List (OpenApiParameterObject N)) :=
  match dto with
  | none => return []
  | some dto =>
    let entries := (collectDtoEntries dtos dto).filterMap fun entry => do
      let binding ← entry.binding
      let source ← parameterSource binding.metadata.source
      return (entry, binding, source)
    entries.mapM fun (entry, binding, source) => do
      let inferred ← inferPrimitiveTypeFromRules dtos entry.rules
      return {
        source
        name := binding.metadata.key.getD entry.name
        required := some (if source = .path then true else isPropertyRequired entry.binding entry.validation)
        schema := alignParameterSchemaWithRuntimeBindingContract (applyValidationConstraints (inferred.getD {}) entry.rules) source }

def objectSchema (properties : OrderedMap Utf16 (OpenApiSchemaObject N)) (required : List Utf16) : OpenApiSchemaObject N :=
  { additionalProperties := some false, properties, required, type := some (.one .object) }

def errorResponseName : Utf16 := units "ErrorResponse"

def errorDetailSchema : OpenApiSchemaObject N :=
  objectSchema [
    (units "code", typeSchema .string),
    (units "field", typeSchema .string),
    (units "message", typeSchema .string),
    (units "source", {
      enum := some (["path", "query", "header", "cookie", "body"].map fun source => .string (units source)), type := some (.one .string) })]
    [units "code", units "message"]

def errorResponseSchema : OpenApiSchemaObject N :=
  objectSchema [
    (units "error", objectSchema [
      (units "code", typeSchema .string),
      (units "details", { items := some errorDetailSchema, type := some (.one .array) }),
      (units "message", typeSchema .string),
      (units "meta", { additionalProperties := some true, type := some (.one .object) }),
      (units "requestId", typeSchema .string),
      (units "status", typeSchema .integer)]
      [units "code", units "status", units "message"])]
    [units "error"]

omit [DecidableEq δ] in
def ensureErrorResponseSchema : BuildM δ N (OpenApiSchemaObject N) := do
  if !hasSchema (← get) errorResponseName then
    setSchema errorResponseName errorResponseSchema
  return createSchemaRef errorResponseName

def applicationJson : Utf16 := units "application/json"

def defaultErrorResponses : List (Utf16 × Utf16) :=
  [("400", "Bad Request"), ("401", "Unauthorized"), ("403", "Forbidden"), ("404", "Not Found"), ("500", "Internal Server Error")].map
    fun (status, description) => (units status, units description)

omit [DecidableEq δ] in
def addDefaultErrorResponses (responses : OrderedMap Utf16 (OpenApiResponseObject N)) :
    BuildM δ N (OrderedMap Utf16 (OpenApiResponseObject N)) := do
  let errorSchema ← ensureErrorResponseSchema
  return defaultErrorResponses.foldl (fun responses (status, description) =>
    if (responses.get status).isSome then responses
    else responses.set status { content := some [(applicationJson, errorSchema)], description }) responses

def createRequestBody (fuel : Nat) (dto : Option δ) : BuildM δ N (Option (OpenApiRequestBodyObject N)) :=
  match dto with
  | none => return none
  | some dto => do
    let dtoEntries := collectDtoEntries dtos dto
    let entries := dtoEntries.filter fun entry => entry.binding.any fun binding => binding.metadata.source = .body
    if entries.length = 0 then
      return none
    let schemaName ←
      if entries.length = dtoEntries.length then getDtoSchemaName dtos dto [] else getDtoSchemaName dtos dto (units "RequestBody")
    let _ ← ensureComponentSchemaFromEntries dtos fuel schemaName entries
    return some {
      content := [(applicationJson, createSchemaRef schemaName)]
      required := if entries.any fun entry => isPropertyRequired entry.binding entry.validation then some true else none }

def explicitContent (requestBodyMeta : ApiBodyMetadata N) : Option (Content N) :=
  match requestBodyMeta.content with
  | some content => some (content.map fun entry => (entry.1, entry.2.1))
  | none => requestBodyMeta.schema.map fun schema => [(applicationJson, schema.1)]

def createExplicitRequestBody (methodMeta : Option (MethodApiMetadata δ N)) : Option (OpenApiRequestBodyObject N) := do
  let requestBodyMeta ← (← methodMeta).requestBody
  let content ← explicitContent requestBodyMeta
  return { content, description := requestBodyMeta.description, required := requestBodyMeta.required }

def createExplicitParameter (parameter : ApiParameterMetadata N) : OpenApiParameterObject N where
  source := parameter.source
  name := parameter.name
  description := parameter.description
  required := if parameter.source = .path then some true else parameter.required
  schema := alignParameterSchemaWithRuntimeBindingContract ((parameter.schema.map (·.1)).getD (typeSchema .string)) parameter.source

def parameterKey (parameter : OpenApiParameterObject N) : Utf16 := parameter.source.text ++ units ":" ++ parameter.name

def mergeOperationParameters (inferred : List (OpenApiParameterObject N)) (explicit : Option (List (ApiParameterMetadata N))) :
    List (OpenApiParameterObject N) :=
  match explicit with
  | none | some [] => inferred
  | some explicit =>
    ((inferred ++ explicit.map createExplicitParameter).foldl (fun merged parameter =>
      OrderedMap.set merged (parameterKey parameter) parameter) []).map Prod.snd

def mergeOperationRequestBody (inferred : Option (OpenApiRequestBodyObject N)) (methodMeta : Option (MethodApiMetadata δ N)) :
    Option (OpenApiRequestBodyObject N) :=
  match createExplicitRequestBody methodMeta, inferred with
  | none, inferred => inferred
  | some explicit, none => some explicit
  | some explicit, some inferred => some {
      content := explicit.content
      description := explicit.description <|> inferred.description
      required := explicit.required <|> inferred.required }

def createResponseObject (fuel : Nat) (response : ApiResponseMetadata δ N) (mediaTypes : List Utf16) :
    BuildM δ N (OpenApiResponseObject N) := do
  let schema ← match response.schema, response.type with
    | some schema, _ => pure (some schema.1)
    | none, some type => some <$> ensureComponentSchema dtos fuel type
    | none, none => pure none
  return {
    description := response.description.getD (units "OK")
    content := schema.map fun schema => mediaTypes.foldl (fun content mediaType => OrderedMap.set content mediaType schema) [] }

def resolveDocumentedDefaultSuccessStatus (method : HttpMethod) : Nat := if method = .post then 201 else 200

section Build
variable [ToString N]

def createOperationResponses (fuel : Nat) (descriptor : HandlerDescriptor δ N) (methodMeta : Option (MethodApiMetadata δ N))
    (policy : DefaultErrorResponsesPolicy) : BuildM δ N (OrderedMap Utf16 (OpenApiResponseObject N)) := do
  let responseMediaTypes := match descriptor.route.produces with
    | some (mediaType :: mediaTypes) => mediaType :: mediaTypes
    | _ => [applicationJson]
  let responses ← match (methodMeta.map (·.responses)).getD [] with
    | [] => do
      let status := match descriptor.route.successStatus with
        | some status => toString status
        | none => toString (resolveDocumentedDefaultSuccessStatus descriptor.route.method)
      pure [(units status, { description := units "OK" })]
    | declared => declared.foldlM (fun responses response => do
        let object ← createResponseObject dtos fuel response responseMediaTypes
        return OrderedMap.set responses (units (toString response.status)) object) []
  if policy = .inject then addDefaultErrorResponses responses else return responses

def addScopes (scopes existingScopes : List Utf16) : List Utf16 :=
  scopes.foldl (fun existing scope => if scope ∈ existing then existing else existing ++ [scope]) existingScopes

def createOperationSecurity (methodMeta : Option (MethodApiMetadata δ N)) : Option (List OpenApiSecurityRequirementObject) :=
  match methodMeta.bind (·.securityRequirements), methodMeta.bind (·.security) with
  | some (requirement :: requirements), _ =>
    some (((requirement :: requirements).flatten.foldl (fun merged (scheme, scopes) =>
      OrderedMap.set merged scheme (addScopes scopes ((OrderedMap.get merged scheme).getD []))) []).map fun entry => [entry])
  | _, some (scheme :: schemes) => some ((scheme :: schemes).map fun scheme => [(scheme, [])])
  | _, _ => none

def bearerAuth : Utf16 := units "bearerAuth"

def hasBearerAuthRequirement (security : Option (List OpenApiSecurityRequirementObject)) : Bool :=
  security.any fun requirements => requirements.any fun requirement => bearerAuth ∈ requirement.map Prod.fst

def createOperationObject (fuel : Nat) (descriptor : HandlerDescriptor δ N) (methodMeta : Option (MethodApiMetadata δ N))
    (responses : OrderedMap Utf16 (OpenApiResponseObject N)) (security : Option (List OpenApiSecurityRequirementObject)) :
    BuildM δ N (OpenApiOperationObject N) := do
  let parameters := mergeOperationParameters (← createParameters dtos descriptor.route.request) (methodMeta.bind (·.parameters))
  let requestBody := mergeOperationRequestBody (← createRequestBody dtos fuel descriptor.route.request) methodMeta
  let operationId ← resolveUniqueOperationId (normalizeOperationId descriptor)
  let operation := methodMeta.bind (·.operation)
  return {
    operationId
    responses
    tags := resolveControllerTags descriptor
    summary := operation.bind (·.summary)
    description := operation.bind (·.description)
    deprecated := operation.bind (·.deprecated)
    parameters
    requestBody
    security }

structure BuiltOperationEntry (N : Type) where
  method : HttpMethod
  openApiPath : Utf16
  operation : OpenApiOperationObject N
  requiresBearerAuth : Bool

def getMethodApiMetadata (descriptor : HandlerDescriptor δ N) : Option (MethodApiMetadata δ N) :=
  descriptor.controllerToken.methodApiMetadata.get descriptor.methodName

def buildOperationEntry (fuel : Nat) (descriptor : HandlerDescriptor δ N) (policy : DefaultErrorResponsesPolicy) :
    BuildM δ N (Option (BuiltOperationEntry N)) := do
  let methodMeta := getMethodApiMetadata descriptor
  if methodMeta.any fun methodMeta => methodMeta.excludeEndpoint = some true then
    return none
  let responses ← createOperationResponses dtos fuel descriptor methodMeta policy
  let security := createOperationSecurity methodMeta
  let operation ← createOperationObject dtos fuel descriptor methodMeta responses security
  return some {
    method := descriptor.route.method
    openApiPath := expressPathToOpenApi descriptor.route.path.1
    operation
    requiresBearerAuth := hasBearerAuthRequirement security }

/-! ## The document -/

omit [DecidableEq δ] [ToString N] in
def createOpenApiComponents (componentSchemas : OrderedMap Utf16 (OpenApiSchemaObject N)) (hasBearerAuth : Bool)
    (configuredSecuritySchemes : Option (OrderedMap Utf16 OpenApiSecuritySchemeObject)) : OpenApiComponentsObject N :=
  let configured := configuredSecuritySchemes.getD []
  { schemas := componentSchemas
    securitySchemes :=
      if hasBearerAuth ∧ (configured.get bearerAuth).isNone then
        configured.set bearerAuth { bearerFormat := some (units "JWT"), scheme := some (units "bearer"), type := units "http" }
      else configured }

def registerExtraModels (fuel : Nat) (extraModels : Option (List δ)) : BuildM δ N PUnit :=
  (extraModels.getD []).forM fun model => do
    let _ ← ensureComponentSchema dtos fuel model

/-- `paths[openApiPath][method] = operation` -/
def addOperation (paths : OrderedMap Utf16 (OpenApiPathItemObject N)) (entry : BuiltOperationEntry N) :
    OrderedMap Utf16 (OpenApiPathItemObject N) :=
  paths.set entry.openApiPath (OrderedMap.set ((paths.get entry.openApiPath).getD []) entry.method entry.operation)

def BuildOpenApiDocumentOptions.policy (options : BuildOpenApiDocumentOptions δ N) : DefaultErrorResponsesPolicy :=
  options.defaultErrorResponsesPolicy.getD .inject

/-- The paths, and whether an operation requires bearer authentication. -/
def buildPaths (fuel : Nat) (options : BuildOpenApiDocumentOptions δ N) : BuildM δ N (OrderedMap Utf16 (OpenApiPathItemObject N) × Bool) :=
  (dedupeDescriptorsByOperation options.descriptors).foldlM (fun (paths, hasBearerAuth) descriptor => do
    match ← buildOperationEntry dtos fuel descriptor options.policy with
    | none => return (paths, hasBearerAuth)
    | some entry => return (addOperation paths entry, hasBearerAuth || entry.requiresBearerAuth)) ([], false)

def assembleDocument (fuel : Nat) (options : BuildOpenApiDocumentOptions δ N) : BuildM δ N (OpenApiDocument N) := do
  registerExtraModels dtos fuel options.extraModels
  let (paths, hasBearerAuth) ← buildPaths dtos fuel options
  return {
    components := createOpenApiComponents (← get).componentSchemas hasBearerAuth options.securitySchemes
    info := { title := options.title, version := options.version }
    openapi := units "3.1.0"
    paths }

def initialContext (options : BuildOpenApiDocumentOptions δ N) : BuildSchemaContext δ N where
  usedSchemaNames := if options.policy = .inject then [errorResponseName] else []

/-- The document, and the context with the names that were allocated for it. -/
def buildOpenApiDocument (fuel : Nat) (options : BuildOpenApiDocumentOptions δ N) :
    Option (OpenApiDocument N × BuildSchemaContext δ N) :=
  (assembleDocument dtos fuel options).run (initialContext options)

end Build

end Fluo.OpenApi
