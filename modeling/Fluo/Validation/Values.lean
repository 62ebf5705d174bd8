import Fluo.Lib.JsNumber
import Fluo.Validation.Rules
/-!
# Runtime values

The values that a validation run reads: the objects of the input, which may share
parts and form cycles, and the objects that the run and the constructors build on
top of them, which do neither. What the application provides (the functions that
rules name, the texts of its objects) and the third-party validators are the record
`Host`.
-/

namespace Fluo.Validation
open Fluo.Lib
open Fluo.Core (MetadataSource)

/-- What an object with properties inherits from. -/
inductive Prototype (δ : Type)
  | object
  | null
  | dto (cls : δ)

structure OwnProperty (α : Type) where
  value : α
  enumerable : Bool := true

/-- An object with parts in `α`. -/
inductive Shape (δ α : Type)
  | record (prototype : Prototype δ) (properties : List (MetadataPropertyKey × OwnProperty α))
  | array (items : List α)
  | set (items : List α)
  | map (entries : List (Literal JsNumber × α))
  | date (time : JsNumber)

/-- A value: one of the input, with its objects by identity, or an object that was built.
No two built objects are the same object. -/
inductive Value (δ : Type)
  | given (literal : Literal JsNumber)
  | built (shape : Shape δ (Value δ))

/-- The objects of the input. An identity without an object here is a function, a symbol or an
object of a rule, which is a clone of its own. -/
abbrev Graph (δ : Type) := List (Shape δ (Literal JsNumber))

structure ValidationIssueMetadata where
  code : Utf16
  field : Option Utf16 := none
  message : Utf16
  source : Option MetadataSource := none

inductive ValidationRuleResult
  | undefined
  | boolean (value : Bool)
  | issue (issue : ValidationIssueMetadata)
  | issues (issues : List ValidationIssueMetadata)

structure Host (δ : Type) where
  graph : Graph δ
  /-- What is read of a prototype: methods and the like, by identity. -/
  inherited : Prototype δ → MetadataPropertyKey → Literal JsNumber
  /-- `String(value)` -/
  literalText : Literal JsNumber → Utf16
  /-- `toISOString()` of a date. -/
  isoText : JsNumber → Utf16
  /-- The functions of the `validator` package. -/
  validator : ValidatorJs → List (Literal JsNumber) → Utf16 → Bool
  /-- Of a value, its DTO and its key. -/
  validate : Nat → Value δ → Value δ → MetadataPropertyKey → ValidationRuleResult
  /-- Of a DTO and a value. -/
  validateIf : Nat → Value δ → Value δ → Bool
  selector : Nat → Value δ → Value δ
  validateClass : Nat → Value δ → ValidationRuleResult

variable {δ : Type}

def Shape.mapParts {α β : Type} (f : α → β) : Shape δ α → Shape δ β
  | .record prototype properties => .record prototype (properties.map fun (key, own) => (key, { value := f own.value, enumerable := own.enumerable }))
  | .array items => .array (items.map f)
  | .set items => .set (items.map f)
  | .map entries => .map (entries.map fun (key, value) => (key, f value))
  | .date time => .date time

/-! ## Reading a value -/

/-- `value === undefined || value === null` -/
def isMissing : Value δ → Bool
  | .given .undefined | .given .null => true
  | _ => false

def numberOf : Value δ → Option JsNumber
  | .given (.number value) => some value
  | _ => none

def stringOf : Value δ → Option Utf16
  | .given (.string value) => some value
  | _ => none

def isEmptyValue (value : Value δ) : Bool := isMissing value || stringOf value == some []

namespace Host
variable (host : Host δ)

def shapeOf : Value δ → Option (Shape δ (Value δ))
  | .given (.object id) => host.graph[id]?.map (Shape.mapParts .given)
  | .given _ => none
  | .built shape => some shape

def prototypeOf (value : Value δ) : Option (Prototype δ) :=
  match host.shapeOf value with
  | some (.record prototype _) => some prototype
  | _ => none

def ownProperties (value : Value δ) : List (MetadataPropertyKey × OwnProperty (Value δ)) :=
  match host.shapeOf value with
  | some (.record _ properties) => properties
  | _ => []

/-- `value[key]` of an object with properties. -/
def readProperty (value : Value δ) (key : MetadataPropertyKey) : Value δ :=
  match OrderedMap.get (host.ownProperties value) key, host.prototypeOf value with
  | some own, _ => own.value
  | none, some prototype => .given (host.inherited prototype key)
  | none, none => .given .undefined

def arrayItems (value : Value δ) : Option (List (Value δ)) :=
  match host.shapeOf value with
  | some (.array items) => some items
  | _ => none

def getIterableValues (value : Value δ) : Option (List (Value δ)) :=
  match host.shapeOf value with
  | some (.array items) => some items
  | some (.set items) => some items
  | some (.map entries) => some (entries.map Prod.snd)
  | _ => none

/-- The time of a valid date. -/
def timeOf (value : Value δ) : Option JsNumber :=
  match host.shapeOf value with
  | some (.date time) => if time.isNaN then none else some time
  | _ => none

def isPlainObject (value : Value δ) : Bool :=
  match host.prototypeOf value with
  | some .object | some .null => true
  | _ => false

end Host

/-! ## Comparing values -/

/-- `a === b` -/
def strictEquals : Literal JsNumber → Literal JsNumber → Bool
  | .number a, .number b => a.strictEqual b
  | a, b => a == b

/-- As in a set or an array: no number is the same as itself, too. -/
def sameValueZero (a b : Literal JsNumber) : Bool := a == b

/-- `values.includes(value)`: a built object is none of the values. -/
def isAmong (value : Value δ) (values : List (Literal JsNumber)) : Bool :=
  match value with
  | .given literal => values.any fun expected => sameValueZero expected literal
  | .built _ => false

/-- `items.includes(expected)` -/
def includes (items : List (Value δ)) (expected : Literal JsNumber) : Bool := items.any fun item => isAmong item [expected]

def sameValue : Value δ → Value δ → Bool
  | .given a, .given b => sameValueZero a b
  | _, _ => false

/-- `length` as a value of the rules. -/
def size {α : Type} (items : List α) : JsNumber := .ofInt items.length

end Fluo.Validation
