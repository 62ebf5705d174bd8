import Mathlib.Data.Set.Lattice
import Mathlib.Order.CompletePartialOrder
import Fluo.Lib.Fuel
import Fluo.Lib.OrderedMap
import Fluo.Lib.Utf8
/-!
# Objects on a heap

Objects with own properties and a prototype, by their addresses: reading a property follows
the prototypes, and `__proto__` is a property of `Object.prototype` that reads and sets the
prototype. A value holds a tree where its objects are laid out as the tree is. What holds
disjoint parts of the heap is kept by writes outside of them.
-/

namespace Fluo.Lib

inductive Kind
  | plain
  | array
  /-- An object of the runtime such as a date or a map, whose content is no property. -/
  | builtin (name : Text)
  | ofClass (className : Text)
deriving DecidableEq

inductive Atom (P : Type)
  | null
  | primitive (value : P)
  | function (name : Text)

inductive Val (P : Type)
  | atom (a : Atom P)
  | object (address : Nat)

structure Obj (P : Type) where
  kind : Kind := .plain
  /-- The own properties that are enumerated. -/
  own : OrderedMap Text (Val P) := []
  proto : Option Nat

abbrev Heap (P : Type) := List (Obj P)

namespace Heap
variable {P : Type}

def objectPrototype : Nat := 0

def arrayPrototype : Nat := 1

def functionPrototype : Nat := 2

def underscoreProto : Text := "__proto__".toList

/-! ## Properties -/

/-- The first of an object and its prototypes that has a property. -/
def owner (heap : Heap P) (key : Text) : Nat → Nat → Option Nat
  | 0, _ => none
  | fuel + 1, a => do
    let o ← heap[a]?
    if (o.own.get key).isSome || (a = objectPrototype && key = underscoreProto) then some a
    else owner heap key fuel (← o.proto)

def prototypeVal : Option Nat → Val P
  | none => .atom .null
  | some a => .object a

/-- `object[key]` -/
def get (heap : Heap P) (a : Nat) (key : Text) : Option (Val P) := do
  let receiver ← heap[a]?
  let o ← heap[← owner heap key heap.length a]?
  return (o.own.get key).getD (prototypeVal receiver.proto)

/-- Sets the prototype of an object; none is the `TypeError` of an object whose prototype is immutable. -/
def setPrototype (heap : Heap P) (a : Nat) (o : Obj P) (proto : Option Nat) : Option (Heap P) :=
  if a = objectPrototype then if o.proto = proto then some heap else none
  else some (heap.set a { o with proto })

/-- `object[key] = value` -/
def put (heap : Heap P) (a : Nat) (key : Text) (v : Val P) : Option (Heap P) := do
  let o ← heap[a]?
  if key = underscoreProto ∧ o.own.get key = none ∧ owner heap key heap.length a = some objectPrototype then
    match v with
    | .object p => setPrototype heap a o (some p)
    | .atom .null => setPrototype heap a o none
    -- what the function itself has is left out
    | .atom (.function _) => setPrototype heap a o (some functionPrototype)
    | .atom (.primitive _) => some heap
  else some (heap.set a { o with own := o.own.set key v })

/-! ## Copies -/

def anyOwn (p : Val P → Option Bool) : OrderedMap Text (Val P) → Option Bool
  | [] => some false
  | (_, v) :: rest => do if ← p v then return true else anyOwn p rest

/-- What `structuredClone` refuses. -/
def hasFunction (heap : Heap P) : Nat → Val P → Option Bool
  | _, .atom (.function _) => some true
  | _, .atom _ => some false
  | 0, .object _ => none
  | fuel + 1, .object a => do anyOwn (hasFunction heap fuel) (← heap[a]?).own

/-- `structuredClone` makes a plain object of an instance. -/
def copyKind (keep : Bool) : Kind → Kind
  | .ofClass className => if keep then .ofClass className else .plain
  | kind => kind

/-- What a date or a map is copied from is not among its properties. -/
def copied {α : Type} (kind : Kind) (own nothing : α) : α :=
  match kind with
  | .builtin _ => nothing
  | _ => own

def copyObj (keep : Bool) (o : Obj P) (own : OrderedMap Text (Val P)) : Obj P :=
  { kind  := copyKind keep o.kind
    own   := copied o.kind own []
    proto := if !keep && copyKind keep o.kind = .plain then some objectPrototype else o.proto }

/-- Copies what an object has, value by value. -/
def copyOwn (copy : Heap P → Val P → Option (Heap P × Val P)) : Heap P → OrderedMap Text (Val P) → Option (Heap P × OrderedMap Text (Val P))
  | heap, [] => some (heap, [])
  | heap, (key, v) :: rest => do
    let (heap, v) ← copy heap v
    let (heap, rest) ← copyOwn copy heap rest
    return (heap, (key, v) :: rest)

/-- A deep copy. An object that is reached twice is copied twice. -/
def copy (keep : Bool) : Nat → Heap P → Val P → Option (Heap P × Val P)
  | _, heap, .atom a => some (heap, .atom a)
  | 0, _, .object _ => none
  | fuel + 1, heap, .object a => do
    let o ← heap[a]?
    let (heap, own) ← copyOwn (copy keep fuel) heap o.own
    return (heap ++ [copyObj keep o own], .object heap.length)

end Heap

/-! ## Trees -/

mutual
inductive ObjectTree (P : Type)
  | atom (a : Atom P)
  | node (kind : Kind) (own : Entries P)
inductive Entries (P : Type)
  | nil
  | cons (key : Text) (value : ObjectTree P) (rest : Entries P)
end

namespace Entries
variable {P : Type}

def get : Entries P → Text → Option (ObjectTree P)
  | .nil, _ => none
  | .cons first value rest, key => if first = key then some value else get rest key

def set : Entries P → Text → ObjectTree P → Entries P
  | .nil, key, value => .cons key value .nil
  | .cons first found rest, key, value => if first = key then .cons key value rest else .cons first found (set rest key value)

def keys : Entries P → List Text
  | .nil => []
  | .cons key _ rest => key :: keys rest

def append : Entries P → Entries P → Entries P
  | .nil, later => later
  | .cons key value rest, later => .cons key value (append rest later)

attribute [local simp] append get set keys in
@[simp] theorem append_nil : ∀ es : Entries P, es.append .nil = es
  | .nil => rfl
  | .cons key value rest => by rw [append, append_nil rest]

theorem append_assoc : ∀ (es later last : Entries P), (es.append later).append last = es.append (later.append last)
  | .nil, _, _ => rfl
  | .cons key value rest, later, last => by rw [append, append, append, append_assoc rest]

@[simp] theorem keys_append : ∀ es later : Entries P, (es.append later).keys = es.keys ++ later.keys
  | .nil, _ => rfl
  | .cons key value rest, later => by rw [append, keys, keys, keys_append rest, List.cons_append]

variable {key key' : Text} {value : ObjectTree P}

theorem mem_keys_set : ∀ {es : Entries P}, key' ∈ (es.set key value).keys ↔ key' = key ∨ key' ∈ es.keys
  | .nil => by simp [set, keys]
  | .cons first found rest => by
    by_cases hfirst : first = key
    · simp [set, hfirst, keys]
    · have hrest : key' ∈ (rest.set key value).keys ↔ key' = key ∨ key' ∈ rest.keys := mem_keys_set
      simp only [set, if_neg hfirst, keys, List.mem_cons, hrest]
      grind

theorem get_eq_none : ∀ {es : Entries P}, es.get key = none ↔ key ∉ es.keys
  | .nil => by simp [get, keys]
  | .cons first found rest => by
    by_cases hfirst : first = key
    · simp [get, hfirst, keys]
    · have hrest : rest.get key = none ↔ key ∉ rest.keys := get_eq_none
      simp only [get, if_neg hfirst, keys, List.mem_cons, not_or, hrest]
      exact ⟨fun h => ⟨fun heq => hfirst heq.symm, h⟩, fun h => h.2⟩

theorem get_set_self : ∀ es : Entries P, (es.set key value).get key = some value
  | .nil => by simp [set, get]
  | .cons first found rest => by
    by_cases hfirst : first = key
    · simp [set, get, hfirst]
    · simp [set, get, hfirst, get_set_self rest]

theorem get_set_of_ne (hne : key' ≠ key) : ∀ es : Entries P, (es.set key value).get key' = es.get key'
  | .nil => by simp [set, get, hne.symm]
  | .cons first found rest => by
    by_cases hfirst : first = key
    · simp [set, get, hfirst, hne.symm]
    · simp [set, get, hfirst, get_set_of_ne hne rest]

theorem set_of_notMem : ∀ {es : Entries P}, key ∉ es.keys → es.set key value = es.append (.cons key value .nil)
  | .nil, _ => rfl
  | .cons first found rest, h => by
    rw [keys, List.mem_cons, not_or] at h
    rw [set, if_neg (Ne.symm h.1), append, set_of_notMem h.2]

end Entries

namespace Heap
variable {P : Type}

mutual
def copyTree (keep : Bool) : ObjectTree P → ObjectTree P
  | .atom a => .atom a
  | .node kind own => .node (copyKind keep kind) (copied kind (copyEntries keep own) .nil)
def copyEntries (keep : Bool) : Entries P → Entries P
  | .nil => .nil
  | .cons key value rest => .cons key (copyTree keep value) (copyEntries keep rest)
end

mutual
def hasFunctionTree : ObjectTree P → Bool
  | .atom (.function _) => true
  | .atom _ => false
  | .node _ own => hasFunctionEntries own
def hasFunctionEntries : Entries P → Bool
  | .nil => false
  | .cons _ value rest => hasFunctionTree value || hasFunctionEntries rest
end

/-- A plain object has the prototype of object literals, or none. -/
def IsProper (o : Obj P) : Prop := o.kind = .plain → o.proto = none ∨ o.proto = some objectPrototype

mutual
/-- The value holds the tree in a part of the heap, where `apart` relates the parts that its objects lie in. -/
def Holds (apart : Set Nat → Set Nat → Prop) (heap : Heap P) (v : Val P) : ObjectTree P → Set Nat → Prop
  | .atom a, _ => v = .atom a
  | .node kind own, part => ∃ (a : Nat) (o : Obj P) (below : Set Nat), v = .object a ∧ a ∈ part ∧ heap[a]? = some o ∧ o.kind = kind ∧
      IsProper o ∧ below ⊆ part ∧ apart {a} below ∧ HoldsEntries apart heap o.own own below
def HoldsEntries (apart : Set Nat → Set Nat → Prop) (heap : Heap P) (own : OrderedMap Text (Val P)) : Entries P → Set Nat → Prop
  | .nil, _ => own = []
  | .cons key value rest, part => ∃ (v : Val P) (more : OrderedMap Text (Val P)) (first later : Set Nat), own = (key, v) :: more ∧
      first ⊆ part ∧ later ⊆ part ∧ apart first later ∧ Holds apart heap v value first ∧ HoldsEntries apart heap more rest later
end

/-- No object of a part is written to. -/
def Keeps (heap heap' : Heap P) (part : Set Nat) : Prop := ∀ x ∈ part, ∀ o, heap[x]? = some o → heap'[x]? = some o

section Frame
variable {apart : Set Nat → Set Nat → Prop} {heap heap' : Heap P}

theorem Keeps.mono {part part' : Set Nat} (h : Keeps heap heap' part) (hsub : part' ⊆ part) : Keeps heap heap' part' :=
  fun x hx => h x (hsub hx)

theorem Keeps.trans {heap'' : Heap P} {part : Set Nat} (h : Keeps heap heap' part) (h' : Keeps heap' heap'' part) : Keeps heap heap'' part :=
  fun x hx o ho => h' x hx o (h x hx o ho)

theorem keeps_append (heap more : Heap P) (part : Set Nat) : Keeps heap (heap ++ more) part := by
  intro x _ o ho
  rw [List.getElem?_append_left (List.getElem?_eq_some_iff.1 ho).1, ho]

mutual
theorem Holds.frame {v : Val P} : ∀ {t : ObjectTree P} {part : Set Nat}, Holds apart heap v t part → Keeps heap heap' part → Holds apart heap' v t part
  | .atom a, part, h, _ => h
  | .node kind own, part, h, hkeeps => by
    obtain ⟨a, o, below, hv, ha, ho, hkind, hproper, hbelow, hapart, hown⟩ := h
    exact ⟨a, o, below, hv, ha, hkeeps a ha o ho, hkind, hproper, hbelow, hapart, hown.frame (hkeeps.mono hbelow)⟩
theorem HoldsEntries.frame : ∀ {own : OrderedMap Text (Val P)} {es : Entries P} {part : Set Nat}, HoldsEntries apart heap own es part →
    Keeps heap heap' part → HoldsEntries apart heap' own es part
  | own, .nil, part, h, _ => h
  | own, .cons key value rest, part, h, hkeeps => by
    obtain ⟨v, more, first, later, hown, hfirst, hlater, hapart, hvalue, hrest⟩ := h
    exact ⟨v, more, first, later, hown, hfirst, hlater, hapart, hvalue.frame (hkeeps.mono hfirst), hrest.frame (hkeeps.mono hlater)⟩
end

theorem Holds.mono {v : Val P} {t : ObjectTree P} {part part' : Set Nat} (h : Holds apart heap v t part) (hsub : part ⊆ part') : Holds apart heap v t part' := by
  cases t with
  | atom a => exact h
  | node kind own =>
    obtain ⟨a, o, below, hv, ha, ho, hkind, hproper, hbelow, hapart, hown⟩ := h
    exact ⟨a, o, below, hv, hsub ha, ho, hkind, hproper, hbelow.trans hsub, hapart, hown⟩

theorem HoldsEntries.mono {own : OrderedMap Text (Val P)} {es : Entries P} {part part' : Set Nat} (h : HoldsEntries apart heap own es part)
    (hsub : part ⊆ part') : HoldsEntries apart heap own es part' := by
  cases es with
  | nil => exact h
  | cons key value rest =>
    obtain ⟨v, more, first, later, hown, hfirst, hlater, hapart, hvalue, hrest⟩ := h
    exact ⟨v, more, first, later, hown, hfirst.trans hsub, hlater.trans hsub, hapart, hvalue, hrest⟩

mutual
theorem Holds.weaken {apart' : Set Nat → Set Nat → Prop} (himp : ∀ s t, apart s t → apart' s t) {v : Val P} :
    ∀ {t : ObjectTree P} {part : Set Nat}, Holds apart heap v t part → Holds apart' heap v t part
  | .atom a, part, h => h
  | .node kind own, part, h => by
    obtain ⟨a, o, below, hv, ha, ho, hkind, hproper, hbelow, hapart, hown⟩ := h
    exact ⟨a, o, below, hv, ha, ho, hkind, hproper, hbelow, himp _ _ hapart, hown.weaken himp⟩
theorem HoldsEntries.weaken {apart' : Set Nat → Set Nat → Prop} (himp : ∀ s t, apart s t → apart' s t) :
    ∀ {own : OrderedMap Text (Val P)} {es : Entries P} {part : Set Nat}, HoldsEntries apart heap own es part → HoldsEntries apart' heap own es part
  | own, .nil, part, h => h
  | own, .cons key value rest, part, h => by
    obtain ⟨v, more, first, later, hown, hfirst, hlater, hapart, hvalue, hrest⟩ := h
    exact ⟨v, more, first, later, hown, hfirst, hlater, himp _ _ hapart, hvalue.weaken himp, hrest.weaken himp⟩
end

theorem holds_shared {a : Nat} {o : Obj P} {kind : Kind} {own : Entries P} {part : Set Nat} (ha : a ∈ part) (ho : heap[a]? = some o) (hkind : o.kind = kind)
    (hproper : IsProper o) (hown : HoldsEntries (fun _ _ => True) heap o.own own part) : Holds (fun _ _ => True) heap (.object a) (.node kind own) part :=
  ⟨a, o, part, rfl, ha, ho, hkind, hproper, le_rfl, trivial, hown⟩

theorem holdsEntries_shared {key : Text} {v : Val P} {value : ObjectTree P} {more : OrderedMap Text (Val P)} {rest : Entries P} {part : Set Nat}
    (hvalue : Holds (fun _ _ => True) heap v value part) (hrest : HoldsEntries (fun _ _ => True) heap more rest part) :
    HoldsEntries (fun _ _ => True) heap ((key, v) :: more) (.cons key value rest) part :=
  ⟨v, more, part, part, rfl, le_rfl, le_rfl, trivial, hvalue, hrest⟩

end Frame

/-! ## Copies hold copies -/

section Copy
variable {apart : Set Nat → Set Nat → Prop} {heap : Heap P} {keep : Bool}

theorem isProper_copyObj {o : Obj P} (h : IsProper o) (own : OrderedMap Text (Val P)) : IsProper (copyObj keep o own) := by
  intro hplain
  have hkind : copyKind keep o.kind = .plain := hplain
  cases keep with
  | false =>
    right
    simp [copyObj, hkind]
  | true =>
    have hsame : copyKind true o.kind = o.kind := by cases o.kind <;> rfl
    exact h (hsame ▸ hkind)

theorem disjoint_Ico {a b c : Nat} : Disjoint (Set.Ico a b) (Set.Ico b c) :=
  Set.disjoint_left.2 fun _ h h' => absurd h.2 (Nat.not_lt.2 h'.1)

theorem HoldsEntries.copied {own : OrderedMap Text (Val P)} {es : Entries P} {part : Set Nat} (h : HoldsEntries apart heap own es part) (kind : Kind) :
    HoldsEntries apart heap (Heap.copied kind own []) (Heap.copied kind es .nil) part := by
  cases kind <;> first | exact h | rfl

mutual
theorem copy_spec (keep : Bool) {heap : Heap P} {v : Val P} : ∀ {t : ObjectTree P} {part : Set Nat}, Holds apart heap v t part →
    ∃ more v', Yields (fun fuel => copy keep fuel heap v) (heap ++ more, v') ∧
      Holds Disjoint (heap ++ more) v' (copyTree keep t) (Set.Ico heap.length (heap ++ more).length)
  | .atom a, part, h => by
    cases h
    refine ⟨[], .atom a, Yields.of_forall fun fuel => ?_, rfl⟩
    cases fuel <;> simp [copy]
  | .node kind own, part, h => by
    obtain ⟨a, o, below, rfl, ha, ho, rfl, hproper, hbelow, hapart, hown⟩ := h
    obtain ⟨more, own', hcopy, hheld⟩ := copyOwn_spec keep hown
    refine ⟨more ++ [copyObj keep o own'], .object (heap ++ more).length, Yields.of_succ ?_, ?_⟩
    · refine (hcopy.bind (g := fun copied _ => some (copied.1 ++ [copyObj keep o copied.2], .object copied.1.length)) ?_).congr fun fuel => ?_
      · exact Yields.of_forall fun fuel => by simp
      · simp [copy, ho]
    · refine ⟨_, copyObj keep o own', Set.Ico heap.length (heap ++ more).length, rfl, ?_, ?_, rfl, isProper_copyObj hproper own', ?_, ?_, ?_⟩
      · simp
      · rw [← List.append_assoc, List.getElem?_concat_length]
      · exact Set.Ico_subset_Ico_right (by simp)
      · exact Set.disjoint_singleton_left.2 fun hmem => absurd hmem.2 (Nat.lt_irrefl _)
      · rw [← List.append_assoc]
        exact (hheld.copied o.kind).frame (keeps_append _ _ _)
theorem copyOwn_spec (keep : Bool) {heap : Heap P} {own : OrderedMap Text (Val P)} : ∀ {es : Entries P} {part : Set Nat}, HoldsEntries apart heap own es part →
    ∃ more own', Yields (fun fuel => copyOwn (copy keep fuel) heap own) (heap ++ more, own') ∧
      HoldsEntries Disjoint (heap ++ more) own' (copyEntries keep es) (Set.Ico heap.length (heap ++ more).length)
  | .nil, part, h => by
    cases h
    exact ⟨[], [], Yields.of_forall fun fuel => by simp [copyOwn], rfl⟩
  | .cons key value rest, part, h => by
    obtain ⟨v, later, first, lpart, rfl, hfirst, hlater, hapart, hvalue, hrest⟩ := h
    obtain ⟨more, v', hcopy, hheld⟩ := copy_spec keep hvalue
    obtain ⟨more', own', hcopies, hrestheld⟩ := copyOwn_spec keep (hrest.frame (keeps_append heap more lpart))
    refine ⟨more ++ more', (key, v') :: own', ?_, ?_⟩
    · refine (hcopy.bind (g := fun copied fuel => do
        let (heap, rest) ← copyOwn (copy keep fuel) copied.1 later
        return (heap, (key, copied.2) :: rest)) ?_).congr fun fuel => rfl
      refine (hcopies.bind (g := fun copied _ => some (copied.1, (key, v') :: copied.2)) ?_).congr fun fuel => rfl
      exact Yields.of_forall fun fuel => by simp
    · rw [← List.append_assoc]
      refine ⟨v', own', _, _, rfl, ?_, ?_, disjoint_Ico, hheld.frame (keeps_append _ _ _), hrestheld⟩
      · exact Set.Ico_subset_Ico_right (by simp)
      · exact Set.Ico_subset_Ico_left (by simp)
end

mutual
theorem hasFunction_spec {v : Val P} : ∀ {t : ObjectTree P} {part : Set Nat}, Holds apart heap v t part →
    Yields (fun fuel => hasFunction heap fuel v) (hasFunctionTree t)
  | .atom a, part, h => by
    cases h
    refine Yields.of_forall fun fuel => ?_
    cases a <;> cases fuel <;> rfl
  | .node kind own, part, h => by
    obtain ⟨a, o, below, rfl, ha, ho, rfl, hproper, hbelow, hapart, hown⟩ := h
    refine Yields.of_succ ((hasFunction_spec_own hown).congr fun fuel => ?_)
    simp [hasFunction, ho]
theorem hasFunction_spec_own {own : OrderedMap Text (Val P)} : ∀ {es : Entries P} {part : Set Nat}, HoldsEntries apart heap own es part →
    Yields (fun fuel => anyOwn (hasFunction heap fuel) own) (hasFunctionEntries es)
  | .nil, part, h => by
    cases h
    exact Yields.of_forall fun _ => rfl
  | .cons key value rest, part, h => by
    obtain ⟨v, later, first, lpart, rfl, hfirst, hlater, hapart, hvalue, hrest⟩ := h
    refine ((hasFunction_spec hvalue).bind (g := fun found fuel => if found then some true else anyOwn (hasFunction heap fuel) later) ?_).congr fun fuel => rfl
    rw [hasFunctionEntries]
    cases hasFunctionTree value with
    | true => exact Yields.of_forall fun _ => rfl
    | false => exact hasFunction_spec_own hrest
end

mutual
theorem copyTree_true_of_false : ∀ {t : ObjectTree P}, copyTree false t = t → copyTree true t = t
  | .atom a, _ => rfl
  | .node kind own, h => by
    simp only [copyTree, ObjectTree.node.injEq] at h ⊢
    cases kind with
    | plain => exact ⟨rfl, copyEntries_true_of_false h.2⟩
    | array => exact ⟨rfl, copyEntries_true_of_false h.2⟩
    | builtin name => exact ⟨rfl, h.2⟩
    | ofClass className => exact absurd h.1 (by simp [copyKind])
theorem copyEntries_true_of_false : ∀ {es : Entries P}, copyEntries false es = es → copyEntries true es = es
  | .nil, _ => rfl
  | .cons key value rest, h => by
    simp only [copyEntries, Entries.cons.injEq] at h ⊢
    exact ⟨trivial, copyTree_true_of_false h.2.1, copyEntries_true_of_false h.2.2⟩
end

end Copy

/-! ## Writing to a laid out object -/

/-- The prototype of object literals has no prototype, and what it has are functions. -/
def IsRuntime (heap : Heap P) : Prop :=
  ∃ root, heap[objectPrototype]? = some root ∧ root.proto = none ∧ ∀ key v, root.own.get key = some v → ∃ a, v = .atom a

theorem IsRuntime.keeps {heap heap' : Heap P} (h : IsRuntime heap) (hkeeps : Keeps heap heap' {objectPrototype}) : IsRuntime heap' := by
  obtain ⟨root, hroot, hlast⟩ := h
  exact ⟨root, hkeeps _ rfl root hroot, hlast⟩

section Write
variable {heap : Heap P} {a : Nat} {o : Obj P} {key : Text} {v : Val P}

theorem get_own (ho : heap[a]? = some o) (hown : o.own.get key = some v) : heap.get a key = some v := by
  have hlt : a < heap.length := (List.getElem?_eq_some_iff.1 ho).1
  obtain ⟨n, hn⟩ : ∃ n, heap.length = n + 1 := ⟨heap.length - 1, by omega⟩
  have howner : owner heap key heap.length a = some a := by simp [hn, owner, ho, hown]
  simp [get, ho, howner, hown]

theorem get_inherited (hrun : IsRuntime heap) (ha : a ≠ objectPrototype) (ho : heap[a]? = some o)
    (hproto : o.proto = none ∨ o.proto = some objectPrototype) (hkey : key ≠ underscoreProto) (hown : o.own.get key = none)
    (hget : heap.get a key = some v) : ∃ x, v = .atom x := by
  obtain ⟨root, hroot, hlast, hatoms⟩ := hrun
  have hlt : a < heap.length := (List.getElem?_eq_some_iff.1 ho).1
  obtain ⟨n, hn⟩ : ∃ n, heap.length = n + 2 := ⟨heap.length - 2, by unfold objectPrototype at ha; omega⟩
  rcases hproto with hproto | hproto
  · have howner : owner heap key heap.length a = none := by simp [hn, owner, ho, hown, hkey, hproto]
    simp [get, ho, howner] at hget
  · cases hfound : root.own.get key with
    | none =>
      have howner : owner heap key heap.length a = none := by simp [hn, owner, ho, hown, hkey, hproto, hroot, hfound, hlast]
      simp [get, ho, howner] at hget
    | some found =>
      have howner : owner heap key heap.length a = some objectPrototype := by simp [hn, owner, ho, hown, hkey, hproto, hroot, hfound]
      simp only [get, ho, howner, hroot, hfound, Option.bind_eq_bind, Option.bind_some, Option.getD_some, Option.pure_def, Option.some.injEq] at hget
      exact hget ▸ hatoms key found hfound

theorem put_eq (hkey : key ≠ underscoreProto) (ho : heap[a]? = some o) :
    heap.put a key v = some (heap.set a { o with own := o.own.set key v }) := by
  simp [put, ho, hkey]

theorem keeps_set {part : Set Nat} (ha : a ∉ part) (o : Obj P) : Keeps heap (heap.set a o) part := by
  intro x hx found hfound
  have hne : a ≠ x := fun h => ha (h ▸ hx)
  rw [List.getElem?_set_ne hne, hfound]

end Write

theorem HoldsEntries.focus {heap : Heap P} (key : Text) : ∀ {own : OrderedMap Text (Val P)} {es : Entries P} {part : Set Nat}, HoldsEntries Disjoint heap own es part →
    ∃ at' others : Set Nat, at' ⊆ part ∧ others ⊆ part ∧ Disjoint at' others ∧
      ((es.get key = none ∧ own.get key = none) ∨ ∃ t v, es.get key = some t ∧ own.get key = some v ∧ Holds Disjoint heap v t at') ∧
      ∀ heap' v' t' part', Keeps heap heap' others → Holds Disjoint heap' v' t' part' → Disjoint part' others →
        HoldsEntries Disjoint heap' (own.set key v') (es.set key t') (part' ∪ others)
  | own, .nil, part, h => by
    cases h
    refine ⟨∅, ∅, Set.empty_subset _, Set.empty_subset _, disjoint_bot_left, .inl ⟨rfl, rfl⟩, ?_⟩
    intro heap' v' t' part' _ hheld _
    exact ⟨v', [], part', ∅, rfl, Set.subset_union_left, Set.empty_subset _, disjoint_bot_right, hheld, rfl⟩
  | own, .cons first value rest, part, h => by
    obtain ⟨v, more, fpart, lpart, rfl, hfirst, hlater, hapart, hvalue, hrest⟩ := h
    by_cases hkey : first = key
    · refine ⟨fpart, lpart, hfirst, hlater, hapart, .inr ⟨value, v, ?_, ?_, hvalue⟩, ?_⟩
      · rw [Entries.get, if_pos hkey]
      · rw [OrderedMap.get_cons, if_pos hkey]
      · intro heap' v' t' part' hkeeps hheld hdisj
        rw [OrderedMap.set, if_pos hkey, Entries.set, if_pos hkey]
        exact ⟨v', more, part', lpart, rfl, Set.subset_union_left, Set.subset_union_right, hdisj, hheld, hrest.frame hkeeps⟩
    · obtain ⟨at', others, hat, hothers, hdisj, hfound, hset⟩ := hrest.focus key
      refine ⟨at', fpart ∪ others, hat.trans hlater, Set.union_subset hfirst (hothers.trans hlater), ?_, ?_, ?_⟩
      · exact Set.disjoint_union_right.2 ⟨(hapart.mono_right hat).symm, hdisj⟩
      · rw [Entries.get, if_neg hkey, OrderedMap.get_cons, if_neg hkey]
        exact hfound
      · intro heap' v' t' part' hkeeps hheld hpart
        rw [OrderedMap.set, if_neg hkey, Entries.set, if_neg hkey]
        obtain ⟨hpfirst, hpothers⟩ := Set.disjoint_union_right.1 hpart
        refine ⟨v, _, fpart, part' ∪ others, rfl, ?_, ?_, ?_, hvalue.frame (hkeeps.mono Set.subset_union_left), ?_⟩
        · exact Set.subset_union_left.trans Set.subset_union_right
        · exact Set.union_subset_union_right _ Set.subset_union_right
        · exact Set.disjoint_union_right.2 ⟨hpfirst.symm, hapart.mono_right hothers⟩
        · exact hset heap' v' t' part' (hkeeps.mono Set.subset_union_right) hheld hpothers

theorem Holds.focus {heap : Heap P} {a : Nat} {kind : Kind} {es : Entries P} {part : Set Nat} (h : Holds Disjoint heap (.object a) (.node kind es) part) (key : Text) :
    ∃ (o : Obj P) (at' others : Set Nat), heap[a]? = some o ∧ o.kind = kind ∧ IsProper o ∧ a ∈ part ∧ at' ⊆ part ∧ a ∉ at' ∧
      others ⊆ part ∧ a ∉ others ∧ Disjoint at' others ∧
      ((es.get key = none ∧ o.own.get key = none) ∨ ∃ t v, es.get key = some t ∧ o.own.get key = some v ∧ Holds Disjoint heap v t at') ∧
      ∀ heap' v' t' part', heap'[a]? = some { o with own := o.own.set key v' } → Keeps heap heap' others → Holds Disjoint heap' v' t' part' →
        Disjoint part' others → a ∉ part' → Holds Disjoint heap' (.object a) (.node kind (es.set key t')) (part ∪ part') := by
  obtain ⟨_, o, below, ⟨⟩, ha, ho, rfl, hproper, hbelow, hapart, hown⟩ := h
  obtain ⟨at', others, hat, hothers, hdisj, hfound, hset⟩ := hown.focus key
  have hnot : a ∉ below := Set.disjoint_singleton_left.1 hapart
  refine ⟨o, at', others, ho, rfl, hproper, ha, hat.trans hbelow, fun h => hnot (hat h), hothers.trans hbelow, fun h => hnot (hothers h), hdisj, hfound, ?_⟩
  intro heap' v' t' part' ho' hkeeps hheld hpart hnew
  refine ⟨a, _, part' ∪ others, rfl, Set.mem_union_left _ ha, ho', rfl, hproper, ?_, ?_, hset heap' v' t' part' hkeeps hheld hpart⟩
  · exact Set.union_subset Set.subset_union_right (Set.subset_union_of_subset_left (hothers.trans hbelow) _)
  · exact Set.disjoint_singleton_left.2 fun h => h.elim hnew fun h => hnot (hothers h)

end Heap
end Fluo.Lib
