import Mathlib.Data.List.Nodup
import Mathlib.Data.List.Perm.Subperm
/-!
# Fresh names

The first name of a sequence that is not used yet. A sequence without repetition
runs out of used names within as many rounds as there are used names.
-/

namespace Fluo.Lib

variable {α : Type} [DecidableEq α]

/-- The first name from index `i` on that is not used, looked for in `fuel` rounds. -/
def firstUnused (used : List α) (name : Nat → α) : Nat → Nat → α
  | 0, i => name i
  | fuel + 1, i => if name i ∈ used then firstUnused used name fuel (i + 1) else name i

theorem firstUnused_eq (used : List α) (name : Nat → α) (fuel i : Nat) :
    ∃ j, firstUnused used name fuel i = name j := by
  induction fuel generalizing i with
  | zero => exact ⟨i, rfl⟩
  | succ fuel ih =>
    rw [firstUnused]
    split
    · exact ih (i + 1)
    · exact ⟨i, rfl⟩

theorem firstUnused_mem {used : List α} {name : Nat → α} {fuel i : Nat} (h : firstUnused used name fuel i ∈ used) :
    ∀ j ≤ fuel, name (i + j) ∈ used := by
  induction fuel generalizing i with
  | zero =>
    intro j hj
    obtain rfl : j = 0 := Nat.le_zero.1 hj
    exact h
  | succ fuel ih =>
    intro j hj
    rw [firstUnused] at h
    split at h
    · cases j with
      | zero => assumption
      | succ j =>
        have hrest := ih h j (Nat.le_of_succ_le_succ hj)
        rwa [Nat.add_right_comm, Nat.add_assoc] at hrest
    · exact absurd h ‹_›

theorem firstUnused_notMem {used : List α} {name : Nat → α} (hname : Function.Injective name) (i : Nat) :
    firstUnused used name used.length i ∉ used := by
  intro h
  have hall := firstUnused_mem h
  have hsub : (List.range (used.length + 1)).map (fun j => name (i + j)) ⊆ used := by
    intro a ha
    obtain ⟨j, hj, rfl⟩ := List.mem_map.1 ha
    exact hall j (Nat.le_of_lt_succ (List.mem_range.1 hj))
  have hnodup : ((List.range (used.length + 1)).map fun j => name (i + j)).Nodup :=
    List.Nodup.map (fun a b hab => Nat.add_left_cancel (hname hab)) List.nodup_range
  have hle := (List.subperm_of_subset hnodup hsub).length_le
  rw [List.length_map, List.length_range] at hle
  exact Nat.not_succ_le_self _ hle

end Fluo.Lib
