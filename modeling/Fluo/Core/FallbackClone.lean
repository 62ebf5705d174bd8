import Mathlib.Logic.Relation
import Fluo.Lib.OrderedMap
import Fluo.Lib.Utf8
/-!
# Deep copies

`fallbackClone` of `packages/core/src/utils.ts`, on the objects that a value leads to.
-/

namespace Fluo.Core.Clone
open Fluo.Lib
open Relation (ReflTransGen)

/-! ## Values -/

inductive Val (P : Type)
  | primitive (value : P)
  /-- An object or a function, by its address. -/
  | object (address : Nat)
deriving DecidableEq

structure Attributes where
  writable : Bool := true
  enumerable : Bool := true
  configurable : Bool := true
deriving DecidableEq

inductive PropertyKey
  | string (text : Text)
  | symbol (id : Nat)
deriving DecidableEq

inductive Descriptor (P : Type)
  | data (value : Val P) (attributes : Attributes)
  | accessor (get set : Val P) (enumerable configurable : Bool)
deriving DecidableEq

/-- What an object has besides its properties. -/
inductive Content (P : Type)
  | function
  /-- Is `length` writable, and the elements. -/
  | array (lengthWritable : Bool) (elements : List (Val P × Attributes))
  /-- None for an invalid date. -/
  | date (time : Option Int)
  /-- With `lastIndex`, and whether that is writable. -/
  | regExp (source flags : Text) (lastIndex : P) (lastIndexWritable : Bool)
  | map (entries : OrderedMap (Val P) (Val P))
  | set (values : List (Val P))
  | ordinary
deriving DecidableEq

structure Node (P : Type) where
  content : Content P := .ordinary
  /-- The properties apart from the elements of an array and the `lastIndex` of a regular expression. -/
  own : OrderedMap PropertyKey (Descriptor P) := []
  proto : Option Nat
deriving DecidableEq

inductive Builtin
  | array | date | regExp | map | set | dataView | arrayBuffer
deriving DecidableEq

variable {P : Type} [DecidableEq P]

def Content.Keyed : Content P → Prop
  | .map entries => entries.Keyed
  | .set values => values.Nodup
  | _ => True

/-- `target instanceof`: is an object among a prototype and its prototypes? -/
def hasPrototype (nodes : List (Node P)) (target : Nat) : Nat → Option Nat → Bool
  | _, none => false
  | 0, some _ => false
  | fuel + 1, some a => a = target || hasPrototype nodes target fuel (nodes[a]?.bind (·.proto))

/-- The objects of a program, with the prototypes of the built-in classes. No built-in class inherits from another one. -/
structure ValueGraph (P : Type) [DecidableEq P] where
  nodes : List (Node P)
  prototype : Builtin → Nat
  keyed : ∀ node ∈ nodes, node.own.Keyed ∧ node.content.Keyed
  apart : ∀ b b', hasPrototype nodes (prototype b') (nodes.length + 1) (some (prototype b)) = true → b = b'

variable (graph : ValueGraph P)

def inherits (node : Node P) (b : Builtin) : Bool := hasPrototype graph.nodes (graph.prototype b) (graph.nodes.length + 1) node.proto

/-! ## The copy -/

/-- What is put into a clone, with the values that are cloned before. -/
inductive Item (P : Type)
  | element (value : Val P)
  | entry (key value : Val P)
  | member (value : Val P)
  | property (key : PropertyKey) (descriptor : Descriptor P)

/-- `push`, `Map.set`, `Set.add` and `Object.defineProperty` -/
def Node.put (node : Node P) : Item P → Node P
  | .element value =>
    match node.content with
    | .array lengthWritable elements => { node with content := .array lengthWritable (elements ++ [(value, {})]) }
    | _ => node
  | .entry key value =>
    match node.content with
    | .map entries => { node with content := .map (entries.set key value) }
    | _ => node
  | .member value =>
    match node.content with
    | .set values => { node with content := .set (if value ∈ values then values else values ++ [value]) }
    | _ => node
  | .property key descriptor => { node with own := node.own.set key descriptor }

/-- What is registered as the clone of an object, and what it is then given: item by item, or all at once. -/
structure Plan (P : Type) where
  start : Node P
  items : List (Item P) := []
  atOnce : Bool := false

def lastIndexKey : PropertyKey := .string "lastIndex".toList

/-- `Reflect.ownKeys`, with the descriptors. -/
def Node.properties (node : Node P) : OrderedMap PropertyKey (Descriptor P) :=
  match node.content with
  | .regExp _ _ lastIndex writable => (lastIndexKey, .data (.primitive lastIndex) ⟨writable, false, false⟩) :: node.own
  | _ => node.own

/-- The branches of `cloneFallbackValue`. None where it throws: a method of a built-in class is called on what is no instance of it. -/
def plan (node : Node P) : Option (Plan P) :=
  match node.content with
  | .array _ elements =>
    some { start := ⟨.array true [], [], some (graph.prototype .array)⟩, items := elements.map fun element => .element element.1, atOnce := true }
  | content =>
    if inherits graph node .date then
      match content with
      | .date time => some { start := ⟨.date time, [], some (graph.prototype .date)⟩ }
      | _ => none
    else if inherits graph node .regExp then
      match content with
      | .regExp source flags lastIndex _ => some { start := ⟨.regExp source flags lastIndex true, [], some (graph.prototype .regExp)⟩ }
      | _ => none
    else if inherits graph node .map then
      match content with
      | .map entries => some { start := ⟨.map [], [], some (graph.prototype .map)⟩, items := entries.map fun entry => .entry entry.1 entry.2 }
      | _ => none
    else if inherits graph node .set then
      match content with
      | .set values => some { start := ⟨.set [], [], some (graph.prototype .set)⟩, items := values.map .member }
      | _ => none
    else if inherits graph node .dataView || inherits graph node .arrayBuffer then none
    else some { start := ⟨.ordinary, [], node.proto⟩, items := node.properties.map fun property => .property property.1 property.2 }

/-- The clones so far, and which object each is the clone of. The address of a clone is its place behind all objects. -/
structure Copy (P : Type) where
  seen : OrderedMap Nat Nat := []
  clones : List (Node P) := []

def Copy.register (s : Copy P) (address : Nat) (node : Node P) : Copy P where
  seen := s.seen.set address s.clones.length
  clones := s.clones ++ [node]

def Copy.write (s : Copy P) (place : Nat) (f : Node P → Node P) : Copy P := { s with clones := s.clones.modify place f }

def cloneItem (clone : Val P → Copy P → Option (Val P × Copy P)) : Item P → Copy P → Option (Item P × Copy P)
  | .element value, s => (clone value s).map fun cloned => (.element cloned.1, cloned.2)
  | .entry key value, s =>
    (clone key s).bind fun clonedKey => (clone value clonedKey.2).map fun cloned => (.entry clonedKey.1 cloned.1, cloned.2)
  | .member value, s => (clone value s).map fun cloned => (.member cloned.1, cloned.2)
  | .property key (.data value attributes), s =>
    (clone value s).map fun cloned => (.property key (.data cloned.1 attributes), cloned.2)
  | .property key (.accessor get set enumerable configurable), s => some (.property key (.accessor get set enumerable configurable), s)

def cloneItems (clone : Val P → Copy P → Option (Val P × Copy P)) : List (Item P) → Copy P → Option (List (Item P) × Copy P)
  | [], s => some ([], s)
  | item :: rest, s =>
    (cloneItem clone item s).bind fun cloned => (cloneItems clone rest cloned.2).map fun clonedRest => (cloned.1 :: clonedRest.1, clonedRest.2)

def putEach (clone : Val P → Copy P → Option (Val P × Copy P)) (place : Nat) : List (Item P) → Copy P → Option (Copy P)
  | [], s => some s
  | item :: rest, s => (cloneItem clone item s).bind fun cloned => putEach clone place rest (cloned.2.write place (·.put cloned.1))

def fill (clone : Val P → Copy P → Option (Val P × Copy P)) (place : Nat) (p : Plan P) (s : Copy P) : Option (Copy P) :=
  if p.atOnce then (cloneItems clone p.items s).map fun cloned => cloned.2.write place fun node => cloned.1.foldl Node.put node
  else putEach clone place p.items s

/-- With the calls that the stack has room for. None where it throws. -/
def cloneFallbackValue : Nat → Val P → Copy P → Option (Val P × Copy P)
  | _, .primitive value, s => some (.primitive value, s)
  | 0, .object _, _ => none
  | depth + 1, .object address, s =>
    match graph.nodes[address]? with
    | none => none
    | some node =>
      if node.content = .function then some (.object address, s)
      else match s.seen.get address with
        | some place => some (.object (graph.nodes.length + place), s)
        | none =>
          match plan graph node with
          | none => none
          | some p =>
            (fill (cloneFallbackValue depth) s.clones.length p (s.register address p.start)).map fun s' =>
              (.object (graph.nodes.length + s.clones.length), s')

/-- The clone, and the objects that are made for it. -/
def fallbackClone (depth : Nat) (value : Val P) : Option (Val P × List (Node P)) :=
  (cloneFallbackValue graph depth value {}).map fun cloned => (cloned.1, cloned.2.clones)

/-! ## What a copy is -/

def Val.relocate (f : Nat → Nat) : Val P → Val P
  | .primitive value => .primitive value
  | .object address => .object (f address)

/-- The functions of an accessor are kept as they are. -/
def Descriptor.relocate (f : Nat → Nat) : Descriptor P → Descriptor P
  | .data value attributes => .data (value.relocate f) attributes
  | .accessor get set enumerable configurable => .accessor get set enumerable configurable

def Content.relocate (f : Nat → Nat) : Content P → Content P
  | .array lengthWritable elements => .array lengthWritable (elements.map fun element => (element.1.relocate f, element.2))
  | .map entries => .map (entries.map fun entry => (entry.1.relocate f, entry.2.relocate f))
  | .set values => .set (values.map (Val.relocate f))
  | content => content

/-- An object whose values are others. Its prototype is the same. -/
def Node.relocate (f : Nat → Nat) (node : Node P) : Node P where
  content := node.content.relocate f
  own := node.own.map fun property => (property.1, property.2.relocate f)
  proto := node.proto

def Descriptor.values : Descriptor P → List (Val P)
  | .data value _ => [value]
  | .accessor .. => []

def Content.values : Content P → List (Val P)
  | .array _ elements => elements.map Prod.fst
  | .map entries => entries.flatMap fun entry => [entry.1, entry.2]
  | .set values => values
  | _ => []

/-- The values of an object. What a function has is its own. -/
def Node.values (node : Node P) : List (Val P) :=
  if node.content = .function then [] else node.content.values ++ node.own.flatMap fun property => property.2.values

def Points (a b : Nat) : Prop := ∃ node, graph.nodes[a]? = some node ∧ .object b ∈ node.values

/-- An object that a value leads to. -/
def Reaches (value : Val P) (a : Nat) : Prop := ∃ b, value = .object b ∧ ReflTransGen (Points graph) b a

/-- The graphs of the two values are the same, with new objects in the one for those of the other, and functions as they were. -/
def IsCopy (value : Val P) (cloned : Val P × List (Node P)) : Prop :=
  ∃ f : Nat → Nat, cloned.1 = value.relocate f ∧ (∀ a b, Reaches graph value a → Reaches graph value b → f a = f b → a = b) ∧
    ∀ a, Reaches graph value a → ∃ node, graph.nodes[a]? = some node ∧
      if node.content = .function then f a = a
      else graph.nodes.length ≤ f a ∧ cloned.2[f a - graph.nodes.length]? = some (node.relocate f)

/-- Built-in objects that have nothing of their own, and other objects that inherit from none. -/
def Plain (node : Node P) : Prop :=
  match node.content with
  | .function => True
  | .array lengthWritable elements =>
    node.own = [] ∧ node.proto = some (graph.prototype .array) ∧ lengthWritable = true ∧ ∀ element ∈ elements, element.2 = {}
  | .date _ => node.own = [] ∧ node.proto = some (graph.prototype .date)
  | .regExp _ _ _ lastIndexWritable => node.own = [] ∧ node.proto = some (graph.prototype .regExp) ∧ lastIndexWritable = true
  | .map _ => node.own = [] ∧ node.proto = some (graph.prototype .map)
  | .set _ => node.own = [] ∧ node.proto = some (graph.prototype .set)
  | .ordinary => ∀ b, b ≠ .array → inherits graph node b = false

end Fluo.Core.Clone
