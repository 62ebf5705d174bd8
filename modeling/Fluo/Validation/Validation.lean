import Mathlib.Data.List.Infix
import Fluo.Validation.Values
/-!
# Validation

`DefaultValidator`: the DTO instance that is built of an input, and the walk that
collects the issues of its fields. Both keep the objects of the input that they are
in (`active`), and both recurse a step of fuel at a time. A recursive call stands as
a parameter of the functions between two of its levels.
-/

namespace Fluo.Validation
open Fluo.Lib
open Fluo.Core (MetadataSource DtoFieldBindingMetadata ClassValidationRule)

structure ValidationIssue where
  code : Utf16
  field : Option Utf16
  message : Utf16
  source : Option MetadataSource

/-- A DTO class: its metadata, the classes it extends, and the own properties that its
constructor sets. -/
structure ClassDefinition (δ : Type) extends DtoClass δ JsNumber where
  superclasses : List δ := []
  initial : List (MetadataPropertyKey × OwnProperty (Value δ)) := []
  classValidationRules : List ClassValidationRule := []

variable {δ : Type}

def toFieldName : MetadataPropertyKey → Utf16
  | .text name => name
  | .symbol _ description => units "Symbol(" ++ description ++ units ")"

/-! ## Issues -/

def normalizeIssue (issue : ValidationIssueMetadata) (field : Option Utf16) (source : Option MetadataSource) : ValidationIssue where
  code := issue.code
  field := issue.field <|> field
  message := issue.message
  source := issue.source <|> source

/-- The code and the message of a rule that names none itself. -/
structure Fallback where
  code : Utf16
  message : Utf16

def normalizeResult (result : ValidationRuleResult) (field : Option Utf16) (source : Option MetadataSource) (fallback : Fallback) :
    List ValidationIssue :=
  match result with
  | .undefined | .boolean true => []
  | .boolean false => [{ code := fallback.code, field, message := fallback.message, source }]
  | .issues issues => issues.map fun issue => normalizeIssue issue field source
  | .issue issue => [normalizeIssue issue field source]

def joinFieldPath (parent : Utf16) (child : Option Utf16) : Utf16 :=
  match child with
  | none | some [] => parent
  | some child => if units "[" <+: child then parent ++ child else parent ++ units "." ++ child

def prefixIssues (issues : List ValidationIssue) (fieldPrefix : Utf16) (source : Option MetadataSource) : List ValidationIssue :=
  issues.map fun issue => { issue with field := some (joinFieldPath fieldPrefix issue.field), source := issue.source <|> source }

/-- `path[index]` -/
def indexed (path : Utf16) (index : Nat) : Utf16 := path ++ units "[" ++ units (toString index) ++ units "]"

def ValidatorJs.upperName : ValidatorJs → Utf16
  | .alpha => units "ALPHA"
  | .alphanumeric => units "ALPHANUMERIC"
  | .ascii => units "ASCII"
  | .base64 => units "BASE64"
  | .booleanString => units "BOOLEANSTRING"
  | .currency => units "CURRENCY"
  | .dataURI => units "DATAURI"
  | .dateString => units "DATESTRING"
  | .decimal => units "DECIMAL"
  | .email => units "EMAIL"
  | .fqdn => units "FQDN"
  | .hexColor => units "HEXCOLOR"
  | .hexadecimal => units "HEXADECIMAL"
  | .ip => units "IP"
  | .isbn => units "ISBN"
  | .issn => units "ISSN"
  | .json => units "JSON"
  | .jwt => units "JWT"
  | .locale => units "LOCALE"
  | .lowercase => units "LOWERCASE"
  | .magnetURI => units "MAGNETURI"
  | .matches => units "MATCHES"
  | .mimeType => units "MIMETYPE"
  | .mobilePhone => units "MOBILEPHONE"
  | .mongoId => units "MONGOID"
  | .numberString => units "NUMBERSTRING"
  | .port => units "PORT"
  | .postalCode => units "POSTALCODE"
  | .rgbColor => units "RGBCOLOR"
  | .rfc3339 => units "RFC3339"
  | .semVer => units "SEMVER"
  | .uppercase => units "UPPERCASE"
  | .url => units "URL"
  | .uuid => units "UUID"
  | .iso8601 => units "ISO8601"
  | .latitude => units "LATITUDE"
  | .longitude => units "LONGITUDE"
  | .latLong => units "LATLONG"

/-- The default code of a rule, and its message for a field. -/
def defaultDescription (host : Host δ) (field : Utf16) : RuleKind δ JsNumber → Utf16 × Utf16
  | .validateIf _ => (units "VALIDATE_IF", field ++ units " is conditionally invalid.")
  | .defined => (units "REQUIRED", field ++ units " is required.")
  | .optional => (units "OPTIONAL", field ++ units " is optional.")
  | .equals value => (units "EQUALS", field ++ units " must equal " ++ host.literalText value ++ units ".")
  | .notEquals value => (units "NOT_EQUALS", field ++ units " must not equal " ++ host.literalText value ++ units ".")
  | .empty => (units "EMPTY", field ++ units " must be empty.")
  | .notEmpty => (units "NOT_EMPTY", field ++ units " should not be empty.")
  | .isIn _ => (units "IN", field ++ units " must be one of the allowed values.")
  | .isNotIn _ => (units "NOT_IN", field ++ units " contains a forbidden value.")
  | .string => (units "INVALID_STRING", field ++ units " must be a string.")
  | .number _ => (units "INVALID_NUMBER", field ++ units " must be a number.")
  | .boolean => (units "INVALID_BOOLEAN", field ++ units " must be a boolean.")
  | .date => (units "INVALID_DATE", field ++ units " must be a Date instance.")
  | .array => (units "INVALID_ARRAY", field ++ units " must be an array.")
  | .object => (units "INVALID_OBJECT", field ++ units " must be an object.")
  | .enum _ => (units "INVALID_ENUM", field ++ units " must be a supported enum value.")
  | .int => (units "INVALID_INT", field ++ units " must be an integer.")
  | .divisibleBy value => (units "DIVISIBLE_BY", field ++ units " must be divisible by " ++ host.literalText (.number value) ++ units ".")
  | .positive => (units "POSITIVE", field ++ units " must be positive.")
  | .negative => (units "NEGATIVE", field ++ units " must be negative.")
  | .min value => (units "MIN", field ++ units " must be greater than or equal to " ++ host.literalText (.number value) ++ units ".")
  | .max value => (units "MAX", field ++ units " must be less than or equal to " ++ host.literalText (.number value) ++ units ".")
  | .minDate time => (units "MIN_DATE", field ++ units " must be on or after " ++ host.isoText time ++ units ".")
  | .maxDate time => (units "MAX_DATE", field ++ units " must be on or before " ++ host.isoText time ++ units ".")
  | .contains value => (units "CONTAINS", field ++ units " must contain " ++ value ++ units ".")
  | .notContains value => (units "NOT_CONTAINS", field ++ units " must not contain " ++ value ++ units ".")
  | .length _ _ => (units "LENGTH", field ++ units " must have a valid length.")
  | .minLength value => (units "MIN_LENGTH", field ++ units " must have length at least " ++ host.literalText (.number value) ++ units ".")
  | .maxLength value => (units "MAX_LENGTH", field ++ units " must have length at most " ++ host.literalText (.number value) ++ units ".")
  | .nested _ => (units "INVALID_NESTED", field ++ units " contains invalid nested data.")
  | .validatorjs validator _ => (validator.upperName, field ++ units " is invalid.")
  | .arrayContains _ => (units "ARRAY_CONTAINS", field ++ units " must contain the required values.")
  | .arrayNotContains _ => (units "ARRAY_NOT_CONTAINS", field ++ units " contains forbidden values.")
  | .arrayNotEmpty => (units "ARRAY_NOT_EMPTY", field ++ units " must not be an empty array.")
  | .arrayMinSize value =>
    (units "ARRAY_MIN_SIZE", field ++ units " must contain at least " ++ host.literalText (.number value) ++ units " items.")
  | .arrayMaxSize value =>
    (units "ARRAY_MAX_SIZE", field ++ units " must contain at most " ++ host.literalText (.number value) ++ units " items.")
  | .arrayUnique _ => (units "ARRAY_UNIQUE", field ++ units " must contain unique values.")
  | .custom _ _ => (units "INVALID_FIELD", field ++ units " is invalid.")

def describeValidator (host : Host δ) (rule : DtoFieldValidationRule δ JsNumber) (field : Utf16) : Fallback :=
  let description := defaultDescription host field rule.kind
  { code := rule.code.getD description.1, message := rule.message.getD description.2 }

/-! ## Rules of one value -/

def runValidatorJs (host : Host δ) (validator : ValidatorJs) (args : List (Literal JsNumber)) (value : Value δ) : Bool :=
  match validator with
  | .latitude => (numberOf value).any fun n => n.isFinite && JsNumber.le (.ofInt (-90)) n && n.le (.ofInt 90)
  | .longitude => (numberOf value).any fun n => n.isFinite && JsNumber.le (.ofInt (-180)) n && n.le (.ofInt 180)
  | validator => (stringOf value).any fun text => host.validator validator args text

/-- Whether a list of keys has no two equal ones. -/
def isUnique : List (Value δ) → Bool
  | [] => true
  | key :: keys => !(keys.any fun other => sameValue key other) && isUnique keys

/-- `RULE_HANDLERS[kind].validate` -/
def runRulePredicate (host : Host δ) (kind : RuleKind δ JsNumber) (value : Value δ) : Bool :=
  match kind with
  | .validateIf _ | .optional | .nested _ | .custom _ _ => true
  | .defined => !isMissing value
  | .equals expected => match value with
    | .given literal => strictEquals literal expected
    | .built _ => false
  | .notEquals expected => match value with
    | .given literal => !strictEquals literal expected
    | .built _ => true
  | .empty => isEmptyValue value
  | .notEmpty => !isEmptyValue value
  | .isIn values | .enum values => isAmong value values
  | .isNotIn values => !isAmong value values
  | .string => (stringOf value).isSome
  | .number allowNaN => (numberOf value).any fun n => allowNaN || !n.isNaN
  | .boolean => (value matches .given (.boolean _))
  | .date => (host.timeOf value).isSome
  | .array => (host.arrayItems value).isSome
  | .object => host.isPlainObject value
  | .int => (numberOf value).any JsNumber.isInteger
  | .divisibleBy divisor => (numberOf value).any fun n => !n.isNaN && n.isDivisibleBy divisor
  | .positive => (numberOf value).any fun n => JsNumber.lt (.ofInt 0) n
  | .negative => (numberOf value).any fun n => n.lt (.ofInt 0)
  | .min bound => (numberOf value).any fun n => !n.isNaN && bound.le n
  | .max bound => (numberOf value).any fun n => !n.isNaN && n.le bound
  | .minDate time => (host.timeOf value).any fun t => time.le t
  | .maxDate time => (host.timeOf value).any fun t => t.le time
  | .contains part => (stringOf value).any fun text => part <:+: text
  | .notContains part => (stringOf value).any fun text => !(part <:+: text)
  | .length min max => (stringOf value).any fun text => min.le (size text) && max.all fun max => (size text).le max
  | .minLength bound => (stringOf value).any fun text => bound.le (size text)
  | .maxLength bound => (stringOf value).any fun text => (size text).le bound
  | .validatorjs validator args => runValidatorJs host validator args value
  | .arrayContains values => (host.arrayItems value).any fun items => values.all fun expected => includes items expected
  | .arrayNotContains values => (host.arrayItems value).any fun items => values.all fun expected => !includes items expected
  | .arrayNotEmpty => (host.arrayItems value).any fun items => items.length > 0
  | .arrayMinSize bound => (host.arrayItems value).any fun items => bound.le (size items)
  | .arrayMaxSize bound => (host.arrayItems value).any fun items => (size items).le bound
  | .arrayUnique none => (host.arrayItems value).any fun items => isUnique items
  | .arrayUnique (some selector) => (host.arrayItems value).any fun items => isUnique (items.map (host.selector selector))

/-! ## Materialization -/

/-- The identities of the input objects that a walk is in. -/
abbrev Active := List Nat

def isActive (active : Active) : Value δ → Bool
  | .given (.object id) => id ∈ active
  | _ => false

/-- `enterTraversal`: no walk comes back to an object that was built. -/
def enterTraversal (active : Active) : Value δ → Active
  | .given (.object id) => id :: active
  | _ => active

structure NestedDtoTransform (δ : Type) where
  each : Bool
  propertyKey : MetadataPropertyKey
  target : δ

def nestedOf (rule : DtoFieldValidationRule δ JsNumber) : Option (δ × Bool) :=
  match rule.kind with
  | .nested dto => some (dto, rule.each)
  | _ => none

/-- By the first nested rule of each field. -/
def collectNestedDtoTransforms (schema : List (DtoValidationEntry δ JsNumber)) : List (NestedDtoTransform δ) :=
  schema.filterMap fun entry => (entry.rules.findSome? nestedOf).map fun (target, each) => { each, propertyKey := entry.propertyKey, target }

def getDtoBindingMap (target : ClassDefinition δ) : OrderedMap MetadataPropertyKey DtoFieldBindingMetadata :=
  target.bindingSchema.foldl (fun map entry => OrderedMap.set map entry.propertyKey entry.metadata) []

def mergedPropertyKeys (target : ClassDefinition δ) : List MetadataPropertyKey :=
  ((getDtoBindingMap target).map Prod.fst ++ target.validationSchema.map (·.propertyKey)).eraseDups

def dangerousKeys : List MetadataPropertyKey :=
  [.text (units "__proto__"), .text (units "constructor"), .text (units "prototype")]

/-- The own properties of an instance under construction. -/
abbrev Properties (δ : Type) := OrderedMap MetadataPropertyKey (OwnProperty (Value δ))

def assign (properties : Properties δ) (key : MetadataPropertyKey) (value : Value δ) : Properties δ := properties.set key { value }

def assignSafeOwnEnumerableProperties (target : Properties δ) (source : List (MetadataPropertyKey × OwnProperty (Value δ))) : Properties δ :=
  source.foldl (fun target (key, own) => if key ∈ dangerousKeys then target else if !own.enumerable then target else assign target key own.value)
    target

def sourceKeyOf (bindingMap : OrderedMap MetadataPropertyKey DtoFieldBindingMetadata) (propertyKey : MetadataPropertyKey) : Option Utf16 :=
  match (bindingMap.get propertyKey).bind (·.key) with
  | none | some [] => none
  | some sourceKey => some sourceKey

def applyBindingValues (host : Host δ) (properties : Properties δ) (rawValue : Value δ) (keys : List MetadataPropertyKey)
    (bindingMap : OrderedMap MetadataPropertyKey DtoFieldBindingMetadata) : Properties δ :=
  keys.foldl (fun properties propertyKey => match sourceKeyOf bindingMap propertyKey with
    | none => properties
    | some sourceKey => assign properties propertyKey (host.readProperty rawValue (.text sourceKey))) properties

/-- The parts of a DTO instance that are DTOs, as a function of one value and its class. -/
abbrev Create (δ : Type) := δ → Value δ → Option (Value δ)

def transformNestedValue (create : Create δ) (value : Value δ) (target : δ) : Option (Value δ) :=
  if isMissing value then some value else create target value

def transformNestedEachValue (host : Host δ) (create : Create δ) (value : Value δ) (target : δ) : Option (Value δ) :=
  match host.shapeOf value with
  | some (.array items) => do
    let items ← items.mapM fun item => transformNestedValue create item target
    return .built (.array items)
  | some (.set items) => do
    let items ← items.mapM fun item => transformNestedValue create item target
    return .built (.set items)
  | some (.map entries) => do
    let entries ← entries.mapM fun (key, item) => do return (key, ← transformNestedValue create item target)
    return .built (.map entries)
  | _ => transformNestedValue create value target

variable [DecidableEq δ] (host : Host δ) (classes : δ → ClassDefinition δ)

/-- `value instanceof target` -/
def instanceOf (value : Value δ) (target : δ) : Bool :=
  match host.prototypeOf value with
  | some (.dto cls) => cls = target ∨ target ∈ (classes cls).superclasses
  | _ => false

/-- What a property of an instance under construction reads. -/
def readInstance (target : δ) (properties : Properties δ) (key : MetadataPropertyKey) : Value δ :=
  host.readProperty (.built (.record (.dto target) properties)) key

def applyNestedTransforms (create : Create δ) (target : δ) (properties : Properties δ) : Option (Properties δ) :=
  (collectNestedDtoTransforms (classes target).validationSchema).foldlM (fun properties nestedEntry => do
    let currentValue := readInstance host target properties nestedEntry.propertyKey
    if isMissing currentValue then
      return properties
    let value ← if nestedEntry.each then transformNestedEachValue host create currentValue nestedEntry.target
      else transformNestedValue create currentValue nestedEntry.target
    return assign properties nestedEntry.propertyKey value) properties

/-- The own properties of a new instance before its nested values are made instances. -/
def hydrate (target : δ) (rawValue : Value δ) : Properties δ :=
  applyBindingValues host (assignSafeOwnEnumerableProperties (classes target).initial (host.ownProperties rawValue)) rawValue
    (mergedPropertyKeys (classes target)) (getDtoBindingMap (classes target))

/-- Also `materializeNestedDtoValue`, which makes the first two tests once more. -/
def createNestedDtoInstance : Nat → Active → Create δ
  | 0, _, _, _ => none
  | fuel + 1, active, target, rawValue =>
    if instanceOf host classes rawValue target then some rawValue
    else if !host.isPlainObject rawValue then some rawValue
    else if isActive active rawValue then some rawValue
    else do
      let properties ← applyNestedTransforms host classes (createNestedDtoInstance fuel (enterTraversal active rawValue)) target
        (hydrate host classes target rawValue)
      return .built (.record (.dto target) properties)

/-! ## The issues of a DTO -/

def getRuleValues (value : Value δ) : List (Value δ) := (host.getIterableValues value).getD [value]

def shouldSkipRuleForMissingValue (rule : DtoFieldValidationRule δ JsNumber) (value : Value δ) : Bool :=
  isMissing value && match rule.kind with
    | .defined | .notEmpty | .empty => false
    | _ => true

def shouldConditionallySkip (rules : List (DtoFieldValidationRule δ JsNumber)) (dto value : Value δ) : Bool :=
  rules.any fun rule => match rule.kind with
    | .validateIf condition => !host.validateIf condition dto value
    | _ => false

/-- Where a field stands: its DTO, its key, its path and the source of its value. -/
structure FieldContext (δ : Type) where
  dto : Value δ
  propertyKey : MetadataPropertyKey
  fieldPath : Utf16
  source : Option MetadataSource

def buildIssue (fallback : Fallback) (field : Utf16) (source : Option MetadataSource) : ValidationIssue :=
  { code := fallback.code, field := some field, message := fallback.message, source }

def evaluateCustomRule (rule : DtoFieldValidationRule δ JsNumber) (validate : Nat) (ruleSource : Option MetadataSource) (value : Value δ)
    (field : FieldContext δ) : List ValidationIssue :=
  let fallback := describeValidator host rule field.fieldPath
  let run (value : Value δ) := host.validate validate value field.dto field.propertyKey
  if !rule.each then normalizeResult (run value) (some field.fieldPath) (ruleSource <|> field.source) fallback
  else (getRuleValues host value).zipIdx.flatMap fun (entry, index) =>
    prefixIssues (normalizeResult (run entry) none (ruleSource <|> field.source) fallback) (indexed field.fieldPath index) field.source

/-- The issues of a DTO, in the objects of the walk, under a path. -/
abbrev Collect (δ : Type) := Active → δ → Value δ → Option Utf16 → Option MetadataSource → Option (List ValidationIssue)

section Nested
variable (create : Active → Create δ) (collect : Collect δ)

def validateNestedEntry (active : Active) (rule : DtoFieldValidationRule δ JsNumber) (resolvedDto : δ) (entry : Value δ) (nestedPath : Utf16)
    (inheritedSource : Option MetadataSource) : Option (List ValidationIssue) :=
  if isMissing entry then some []
  else if !instanceOf host classes entry resolvedDto && !host.isPlainObject entry then
    some [buildIssue (describeValidator host rule nestedPath) nestedPath inheritedSource]
  else if isActive active entry then some [buildIssue (describeValidator host rule nestedPath) nestedPath inheritedSource]
  else do
    let nestedDto ← create active resolvedDto entry
    collect (if instanceOf host classes entry resolvedDto then active else enterTraversal active entry) resolvedDto nestedDto (some nestedPath)
      inheritedSource

/-- The values of a nested rule, each with its path. -/
def nestedValues (each : Bool) (value : Value δ) (fieldPath : Utf16) : List (Value δ × Utf16) :=
  if each then (getRuleValues host value).zipIdx.map fun (entry, index) => (entry, indexed fieldPath index) else [(value, fieldPath)]

def validateNestedRule (active : Active) (rule : DtoFieldValidationRule δ JsNumber) (resolvedDto : δ) (value : Value δ) (fieldPath : Utf16)
    (inheritedSource : Option MetadataSource) : Option (List ValidationIssue) := do
  let issues ← (nestedValues host rule.each value fieldPath).mapM fun (entry, nestedPath) =>
    validateNestedEntry host classes create collect active rule resolvedDto entry nestedPath inheritedSource
  return issues.flatten

def evaluateRule (active : Active) (rule : DtoFieldValidationRule δ JsNumber) (value : Value δ) (field : FieldContext δ) :
    Option (List ValidationIssue) :=
  match rule.kind with
  | .custom validate ruleSource => some (evaluateCustomRule host rule validate ruleSource value field)
  | .nested resolvedDto => validateNestedRule host classes create collect active rule resolvedDto value field.fieldPath field.source
  | kind =>
    let fallback := describeValidator host rule field.fieldPath
    if rule.each then
      some ((getRuleValues host value).zipIdx.flatMap fun (entry, index) =>
        if runRulePredicate host kind entry then [] else [buildIssue fallback (indexed field.fieldPath index) field.source])
    else if runRulePredicate host kind value then some [] else some [buildIssue fallback field.fieldPath field.source]

/-- The rules that are no condition of the others. -/
def isConstraint (rule : DtoFieldValidationRule δ JsNumber) : Bool :=
  match rule.kind with
  | .validateIf _ | .optional => false
  | _ => true

def isOptional (rule : DtoFieldValidationRule δ JsNumber) : Bool := rule.kind matches .optional

def applyPropertyRules (active : Active) (rules : List (DtoFieldValidationRule δ JsNumber)) (value : Value δ) (field : FieldContext δ) :
    Option (List ValidationIssue) :=
  let conditionallySkip := shouldConditionallySkip host rules field.dto value
  if rules.any isOptional && isMissing value then some []
  else do
    let issues ← rules.mapM fun rule =>
      if !isConstraint rule || conditionallySkip || shouldSkipRuleForMissingValue rule value then some []
      else evaluateRule host classes create collect active rule value field
    return issues.flatten

end Nested

omit [DecidableEq δ] in
def validateClassRule (rule : ClassValidationRule) (dto : Value δ) : List ValidationIssue :=
  normalizeResult (host.validateClass rule.validate dto) none none
    { code := rule.code.getD (units "INVALID_DTO"), message := rule.message.getD (units "DTO validation failed.") }

omit [DecidableEq δ] in
def validateClassRules (rules : List ClassValidationRule) (dto : Value δ) (fieldPrefix : Option Utf16)
    (inheritedSource : Option MetadataSource) : List ValidationIssue :=
  rules.flatMap fun rule => match fieldPrefix with
    | none | some [] => validateClassRule host rule dto
    | some fieldPrefix => prefixIssues (validateClassRule host rule dto) fieldPrefix inheritedSource

omit [DecidableEq δ] in
def fieldContext (target : δ) (dto : Value δ) (propertyKey : MetadataPropertyKey) (fieldPrefix : Option Utf16)
    (inheritedSource : Option MetadataSource) : FieldContext δ where
  dto
  propertyKey
  fieldPath := match fieldPrefix with
    | none | some [] => toFieldName propertyKey
    | some fieldPrefix => joinFieldPath fieldPrefix (some (toFieldName propertyKey))
  source := ((getDtoBindingMap (classes target)).get propertyKey).map (·.source) <|> inheritedSource

/-- The issues of each field that has rules. -/
def collectFieldIssues (create : Active → Create δ) (collect : Collect δ) (active : Active) (target : δ) (value : Value δ)
    (fieldPrefix : Option Utf16) (inheritedSource : Option MetadataSource) : Option (List (MetadataPropertyKey × List ValidationIssue)) :=
  (classes target).validationSchema.mapM fun entry => do
    let issues ← applyPropertyRules host classes create collect active entry.rules (host.readProperty value entry.propertyKey)
      (fieldContext classes target value entry.propertyKey fieldPrefix inheritedSource)
    return (entry.propertyKey, issues)

def collectValidationIssuesInternal : Nat → Collect δ
  | 0, _, _, _, _, _ => none
  | fuel + 1, active, target, value, fieldPrefix, inheritedSource =>
    if isActive active value then some []
    else do
      let issues ← collectFieldIssues host classes (createNestedDtoInstance host classes fuel) (collectValidationIssuesInternal fuel)
        (enterTraversal active value) target value fieldPrefix inheritedSource
      return issues.flatMap Prod.snd ++ validateClassRules host (classes target).classValidationRules value fieldPrefix inheritedSource

def collectValidationIssues (fuel : Nat) (target : δ) (value : Value δ) : Option (List ValidationIssue) :=
  collectValidationIssuesInternal host classes fuel [] target value none none

/-! ## `DefaultValidator` -/

def buildInvalidRootIssue : ValidationIssue :=
  { code := units "INVALID_DTO", field := none, message := units "DTO root value must be a plain object.", source := none }

def assertValidRootValue (value : Value δ) (target : δ) : Except (List ValidationIssue) Unit :=
  if instanceOf host classes value target || host.isPlainObject value then .ok () else .error [buildInvalidRootIssue]

/-- The issues of the error that is thrown, if one is. -/
def validate (fuel : Nat) (value : Value δ) (target : δ) : Option (Except (List ValidationIssue) Unit) :=
  match assertValidRootValue host classes value target with
  | .error issues => some (.error issues)
  | .ok () => do
    let issues ← collectValidationIssues host classes fuel target value
    return if issues.isEmpty then .ok () else .error issues

def materialize (fuel : Nat) (value : Value δ) (target : δ) : Option (Except (List ValidationIssue) (Value δ)) :=
  match assertValidRootValue host classes value target with
  | .error issues => some (.error issues)
  | .ok () => do
    let instanceDto ← createNestedDtoInstance host classes fuel [] target value
    let issues ← collectValidationIssues host classes fuel target instanceDto
    return if issues.isEmpty then .ok instanceDto else .error issues

end Fluo.Validation
