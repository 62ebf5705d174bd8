import Mathlib.Data.Finset.Card
import Fluo.Lib.Prototypes
/-!
# Serialization

`serialize` over a graph of objects: what a class instance, a plain object and
an array contribute, and the walk that tracks which objects it is serialising
and which it has finished. An output object is named by the object it was made
from. A transform may return another object each time it is called; a call is
named by the object and the key it is made for, which the walk visits once.
-/

namespace Fluo.Serialization

abbrev Ref := Nat

/-- A class, by the classes it extends. -/
abbrev Class := Lib.Proto

/-- A property key, text or symbol. -/
inductive Key
  | text (name : String)
  | symbol (id : Nat)
deriving DecidableEq

/-- A JavaScript value: `undefined`, another value that is no object (`null`
and functions among them), or an object. -/
inductive Value
  | undefined
  | primitive (id : Nat)
  | object (ref : Ref)
deriving DecidableEq

/-- A transform, called for a key of an object. -/
abbrev TransformFunction := Ref → Key → Value → Value

structure ClassSerializationOptions where
  excludeExtraneous : Bool := false

structure SerializationFieldMetadata where
  excluded : Bool := false
  exposed : Bool := false
  transforms : List TransformFunction := []

/-- The metadata of a class, its fields in the order of the merged map. -/
structure ClassMetadata where
  classOptions : ClassSerializationOptions := {}
  fieldMetadata : List (Key × SerializationFieldMetadata) := []

/-- The own enumerable keys of an object, texts before symbols, and its properties as they are read. -/
structure Properties where
  keys : List Key
  get : Key → Value

/-- What `serializeInternal` tells apart. An opaque object is one of the
built-ins that pass through, and an instance may have no constructor. -/
inductive Node
  | array (items : List Value)
  | opaqueObject
  | plain (properties : Properties)
  | instance (constructor : Option Class) (properties : Properties)

/-- A serialised value. `object` is the output object made from an object,
`same` an opaque object itself. -/
inductive Output
  | undefined
  | primitive (id : Nat)
  | same (ref : Ref)
  | object (ref : Ref)
deriving DecidableEq

/-- The objects, and the metadata of the classes. -/
structure World where
  node : Ref → Node
  metadata : Class → ClassMetadata

/-- The references of the context with their `active` flag, and what the
output objects hold so far. The items of an array are under their positions. -/
structure SerializationContext where
  references : Ref → Option Bool
  content : Ref → List (Key × Output)

/-! ## The code -/

def SerializationContext.empty : SerializationContext where
  references := fun _ => none
  content := fun _ => []

def fieldOf (fieldMetadata : List (Key × SerializationFieldMetadata)) (key : Key) : Option SerializationFieldMetadata :=
  (fieldMetadata.find? fun entry => entry.1 = key).map Prod.snd

def applyTransforms (ref : Ref) (key : Key) (value : Value) (metadata : SerializationFieldMetadata) : Value :=
  metadata.transforms.foldl (fun transformed transform => transform ref key transformed) value

def addKey (keys : List Key) (key : Key) : List Key := if key ∈ keys then keys else keys ++ [key]

def resolveCandidateKeys (properties : Properties) (fieldMetadata : List (Key × SerializationFieldMetadata))
    (excludeExtraneous : Bool) : List Key :=
  let exposed := (fieldMetadata.filter fun entry => entry.2.exposed).map Prod.fst
  if excludeExtraneous then exposed
  else exposed.foldl addKey properties.keys

/-- One round of the loop of `serializeClassInstance`: the value to serialise under a key, if any. -/
def classField (ref : Ref) (properties : Properties) (metadata : ClassMetadata) (key : Key) : Option (Key × Value) :=
  let field := fieldOf metadata.fieldMetadata key
  if field.any (·.excluded) then none
  else
    let raw := properties.get key
    if raw = .undefined ∧ metadata.classOptions.excludeExtraneous ∧ ¬field.any (·.exposed) then none
    else some (key, match field with
      | some field => applyTransforms ref key raw field
      | none => raw)

def recordFields (properties : Properties) : List (Key × Value) := properties.keys.map fun key => (key, properties.get key)

def classFields (ref : Ref) (properties : Properties) (metadata : ClassMetadata) : List (Key × Value) :=
  (resolveCandidateKeys properties metadata.fieldMetadata metadata.classOptions.excludeExtraneous).filterMap
    (classField ref properties metadata)

def hasMetadata (metadata : ClassMetadata) : Bool := !metadata.fieldMetadata.isEmpty || metadata.classOptions.excludeExtraneous

def arrayFields (items : List Value) : List (Key × Value) := items.zipIdx.map fun item => (.text (toString item.2), item.1)

/-- What the walk serialises of an object, in order: none of an opaque one. -/
def World.fields (w : World) (ref : Ref) : Option (List (Key × Value)) :=
  match w.node ref with
  | .array items => some (arrayFields items)
  | .opaqueObject => none
  | .plain properties => some (recordFields properties)
  | .instance none properties => some (recordFields properties)
  | .instance (some cls) properties =>
    if hasMetadata (w.metadata cls) then some (classFields ref properties (w.metadata cls)) else some (recordFields properties)

def SerializationContext.start (context : SerializationContext) (ref : Ref) : SerializationContext where
  references := fun r => if r = ref then some true else context.references r
  content := fun r => if r = ref then [] else context.content r

def SerializationContext.assign (context : SerializationContext) (ref : Ref) (key : Key) (value : Output) : SerializationContext :=
  { context with content := fun r => if r = ref then context.content r ++ [(key, value)] else context.content r }

def SerializationContext.complete (context : SerializationContext) (ref : Ref) : SerializationContext :=
  { context with references := fun r => if r = ref then some false else context.references r }

section
variable (serializeValue : Value → SerializationContext → Option (Output × SerializationContext))

/-- The loop that fills an output object. -/
def fill (ref : Ref) : List (Key × Value) → SerializationContext → Option SerializationContext
  | [], context => some context
  | (key, value) :: rest, context =>
    match serializeValue value context with
    | none => none
    | some (serialized, context) => fill ref rest (context.assign ref key serialized)

def serializeWithTrackedReference (ref : Ref) (fields : List (Key × Value)) (context : SerializationContext) :
    Option (Output × SerializationContext) :=
  match context.references ref with
  | some true => some (.undefined, context)
  | some false => some (.object ref, context)
  | none => (fill serializeValue ref fields (context.start ref)).map fun context => (.object ref, context.complete ref)

end

/-- The walk, to a depth: `none` where the depth does not suffice. -/
def serializeInternal (w : World) : Nat → Value → SerializationContext → Option (Output × SerializationContext)
  | 0, _, _ => none
  | depth + 1, value, context =>
    match value with
    | .undefined => some (.undefined, context)
    | .primitive id => some (.primitive id, context)
    | .object ref =>
      match w.fields ref with
      | none => some (.same ref, context)
      | some fields => serializeWithTrackedReference (serializeInternal w depth) ref fields context

def serialize (w : World) (depth : Nat) (value : Value) : Option (Output × SerializationContext) :=
  serializeInternal w depth value .empty

end Fluo.Serialization
