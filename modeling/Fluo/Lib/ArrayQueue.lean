import Mathlib.Data.List.Basic
import Mathlib.Order.Nat
import Mathlib.Order.RelClasses
/-!
# Queues in arrays

An array whose first items have been taken, and which is cut now and then.
-/

namespace Fluo.Lib

/-- The items from `startIndex` on. -/
structure ArrayQueue (α : Type) where
  items : List α := []
  startIndex : Nat := 0
  startIndex_le : startIndex ≤ items.length := by simp

namespace ArrayQueue
variable {α : Type}

def toList (q : ArrayQueue α) : List α := q.items.drop q.startIndex

def count (q : ArrayQueue α) : Nat := q.items.length - q.startIndex

def push (q : ArrayQueue α) (a : α) : ArrayQueue α where
  items := q.items ++ [a]
  startIndex := q.startIndex
  startIndex_le := by simpa using Nat.le_succ_of_le q.startIndex_le

/-- The items taken are cut off once they are half of the array. -/
def compact (q : ArrayQueue α) : ArrayQueue α :=
  if q.startIndex = 0 ∨ 2 * q.startIndex < q.items.length then q else { items := q.items.drop q.startIndex }

/-- The first item, and the queue after it. -/
def shift (q : ArrayQueue α) : Option (α × ArrayQueue α) :=
  if h : q.startIndex < q.items.length then
    some (q.items[q.startIndex], { items := q.items, startIndex := q.startIndex + 1, startIndex_le := h })
  else none

/-- A queue without its first item. -/
def dropOldest (q : ArrayQueue α) : ArrayQueue α :=
  match q.shift with
  | some (_, q) => q.compact
  | none => q

@[simp] theorem toList_empty : ({} : ArrayQueue α).toList = [] := rfl

@[simp] theorem toList_push (q : ArrayQueue α) (a : α) : (q.push a).toList = q.toList ++ [a] := by
  simp [toList, push, List.drop_append_of_le_length q.startIndex_le]

@[simp] theorem toList_compact (q : ArrayQueue α) : q.compact.toList = q.toList := by
  simp only [compact]
  split <;> simp [toList]

theorem shift_eq_none {q : ArrayQueue α} (h : q.shift = none) : q.toList = [] := by
  simp only [shift] at h
  split at h
  · cases h
  · next hlt => simpa [toList] using hlt

theorem shift_eq_some {q q' : ArrayQueue α} {a : α} (h : q.shift = some (a, q')) : q.toList = a :: q'.toList := by
  simp only [shift] at h
  split at h
  · next hlt =>
    cases h
    exact List.drop_eq_getElem_cons hlt
  · cases h

@[simp] theorem toList_dropOldest (q : ArrayQueue α) : q.dropOldest.toList = q.toList.tail := by
  simp only [dropOldest]
  split
  · next h => simp [shift_eq_some h]
  · next h => simp [shift_eq_none h]

end ArrayQueue

end Fluo.Lib
