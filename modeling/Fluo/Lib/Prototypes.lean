import Mathlib.Data.List.Basic
/-!
# Prototype-linked objects

Objects that are created from one another, and one property of them: reading it
finds the nearest object that owns a record. A writer that changes the record it
finds in place reaches the object that owns it, which may be one above; where the
writer owns a record, or nothing above it does, only objects below it see a change.
-/

namespace Fluo.Lib

/-- An object, by what it was created from. -/
inductive Proto
  | base (id : Nat)
  | extend (id : Nat) (parent : Proto)
deriving DecidableEq

namespace Proto

/-- The object and those above it, the nearest first. -/
def chain : Proto → List Proto
  | .base id => [.base id]
  | .extend id parent => .extend id parent :: parent.chain

theorem mem_chain_self (o : Proto) : o ∈ o.chain := by
  cases o <;> exact List.mem_cons_self

theorem chain_subset {o d : Proto} (h : o ∈ d.chain) : o.chain ⊆ d.chain := by
  induction d with
  | base id =>
    rw [List.mem_singleton.1 h]
    exact List.Subset.refl _
  | extend id parent ih =>
    rcases List.mem_cons.1 h with rfl | h
    · exact List.Subset.refl _
    · exact List.Subset.trans (ih h) (List.subset_cons_self _ _)

end Proto

/-- A property: what each object itself owns. -/
abbrev Slot (Record : Type) := Proto → Option Record

namespace Slot
variable {Record : Type} (slot : Slot Record)

/-- Reading the property of an object. -/
def find (o : Proto) : Option Record := o.chain.findSome? slot

/-- The object whose record is read. -/
def owner (o : Proto) : Option Proto := o.chain.find? fun p => (slot p).isSome

/-- Changes the record that is read, or creates one where there is none. -/
def write (o : Proto) (create : Record) (f : Record → Record) : Slot Record :=
  match slot.owner o with
  | some p => Function.update slot p ((slot p).map f)
  | none => Function.update slot o (some (f create))

/-- A write to `o` is one to its own record. -/
def Own (o : Proto) : Prop := (slot o).isSome ∨ (slot.find o).isNone

instance (o : Proto) : Decidable (slot.Own o) := inferInstanceAs (Decidable (_ ∨ _))

variable {slot} {o : Proto} {create : Record} {f : Record → Record}

theorem chain_eq_cons (o : Proto) : ∃ above, o.chain = o :: above := by
  cases o <;> exact ⟨_, rfl⟩

theorem owner_eq_none (h : slot.find o = none) : slot.owner o = none := by
  rw [find, List.findSome?_eq_none_iff] at h
  rw [owner, List.find?_eq_none]
  intro p hp
  simp [h p hp]

theorem owner_self (h : (slot o).isSome) : slot.owner o = some o := by
  obtain ⟨above, ho⟩ := chain_eq_cons o
  simp [owner, ho, h]

theorem write_of_own (h : slot.Own o) : slot.write o create f = Function.update slot o (some (f ((slot o).getD create))) := by
  rcases h with h | h
  · obtain ⟨record, hr⟩ := Option.isSome_iff_exists.1 h
    simp [write, owner_self h, hr]
  · have hfind : slot.find o = none := Option.isNone_iff_eq_none.1 h
    have hnone : slot o = none := List.findSome?_eq_none_iff.1 hfind o o.mem_chain_self
    simp [write, owner_eq_none hfind, hnone]

theorem find_congr {slot' : Slot Record} {d : Proto} (h : ∀ p ∈ d.chain, slot' p = slot p) : slot'.find d = slot.find d := by
  rw [find, find]
  revert h
  generalize d.chain = objects
  intro h
  induction objects with
  | nil => rfl
  | cons p rest ih =>
    rw [List.findSome?_cons, List.findSome?_cons, h p List.mem_cons_self]
    rw [ih fun q hq => h q (List.mem_cons_of_mem _ hq)]

theorem find_write (h : slot.Own o) {d : Proto} (hd : o ∉ d.chain) : (slot.write o create f).find d = slot.find d := by
  refine find_congr fun p hp => ?_
  have hne : p ≠ o := fun he => hd (he ▸ hp)
  rw [write_of_own h, Function.update_of_ne hne]

end Slot

end Fluo.Lib
