import Mathlib.Data.List.Basic
/-!
# Lists joined by a separator

What `splitOn` takes apart and `intercalate` puts together.
-/

namespace Fluo.Lib

variable {α : Type} [DecidableEq α]

theorem notMem_of_mem_splitOn (c : α) (l : List α) : ∀ piece ∈ l.splitOn c, c ∉ piece := by
  induction l with
  | nil => simp
  | cons a rest ih =>
    obtain ⟨first, others, hsplit⟩ := List.exists_cons_of_ne_nil (List.splitOn_ne_nil c rest)
    rw [hsplit, List.forall_mem_cons] at ih
    rw [List.splitOn_cons_eq_if_modifyHead, hsplit]
    split
    next => simpa using ih
    next hne =>
      have : c ≠ a := fun h => hne (by simp [h])
      simpa [this] using ih

omit [DecidableEq α] in
theorem intercalate_cons_eq (c : α) (piece : List α) (rest : List (List α)) :
    [c].intercalate (piece :: rest) = piece ++ rest.flatMap (c :: ·) := by
  induction rest generalizing piece with
  | nil => simp
  | cons next rest ih => simp [List.intercalate_cons_cons, ih]

omit [DecidableEq α] in
theorem flatMap_concat_eq (c : α) {pieces : List (List α)} (h : pieces ≠ []) : pieces.flatMap (· ++ [c]) = [c].intercalate pieces ++ [c] := by
  obtain ⟨first, rest, rfl⟩ := List.exists_cons_of_ne_nil h
  clear h
  induction rest generalizing first with
  | nil => simp
  | cons next rest ih => rw [List.flatMap_cons, ih next, List.intercalate_cons_cons, List.append_assoc, List.append_assoc, List.append_assoc]

end Fluo.Lib
