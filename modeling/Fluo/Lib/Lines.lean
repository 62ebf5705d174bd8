import Mathlib.Data.List.Basic
/-!
# Lines

A sequence split at its ends of line: the lines that have ended, and what follows the last
of them. What arrives in parts is split as if it came at once, when each part is put behind
what was left over.
-/

namespace Fluo.Lib

variable {α : Type} [DecidableEq α]

/-- The lines that end in a sequence, behind a line that has begun, and what is left over. -/
def cut (newline : α) : List α → List α → List (List α) × List α
  | line, [] => ([], line)
  | line, c :: rest => if c = newline then (line :: (cut newline [] rest).1, (cut newline [] rest).2) else cut newline (line ++ [c]) rest

def splitLines (newline : α) (text : List α) : List (List α) × List α := cut newline [] text

/-- The lines as they are written. -/
def joinLines (newline : α) (lines : List (List α)) : List α := lines.flatMap (· ++ [newline])

variable {newline : α}

attribute [local simp] cut in
theorem cut_append (line s t : List α) : cut newline line (s ++ t) =
    ((cut newline line s).1 ++ (cut newline (cut newline line s).2 t).1, (cut newline (cut newline line s).2 t).2) := by
  induction s generalizing line with
  | nil => rfl
  | cons c rest ih =>
    rw [List.cons_append, cut, cut]
    split
    · rw [ih]
      rfl
    · exact ih _

theorem cut_of_notMem (line : List α) {s : List α} (h : newline ∉ s) : cut newline line s = ([], line ++ s) := by
  induction s generalizing line with
  | nil => rw [cut, List.append_nil]
  | cons c rest ih =>
    have hne : c ≠ newline := fun heq => h (by rw [heq]; exact List.mem_cons_self)
    rw [cut, if_neg hne, ih _ (fun hmem => h (List.mem_cons_of_mem _ hmem)), List.append_assoc, List.singleton_append]

theorem cut_spec {line : List α} (h : newline ∉ line) (s : List α) :
    newline ∉ (cut newline line s).2 ∧ joinLines newline (cut newline line s).1 ++ (cut newline line s).2 = line ++ s := by
  induction s generalizing line with
  | nil => exact ⟨h, (List.append_nil line).symm⟩
  | cons c rest ih =>
    rw [cut]
    split
    · next heq =>
      subst heq
      obtain ⟨hleft, hjoin⟩ := ih (List.not_mem_nil (a := c))
      refine ⟨hleft, ?_⟩
      rw [joinLines, List.flatMap_cons, List.append_assoc]
      change (line ++ [c]) ++ (joinLines c (cut c [] rest).1 ++ (cut c [] rest).2) = _
      rw [hjoin, List.nil_append, List.append_assoc, List.singleton_append]
    · next hne =>
      have hline : newline ∉ line ++ [c] := by simp [h, Ne.symm hne]
      obtain ⟨hleft, hjoin⟩ := ih hline
      exact ⟨hleft, by rw [hjoin, List.append_assoc, List.singleton_append]⟩

theorem splitLines_append (s t : List α) : splitLines newline (s ++ t) =
    ((splitLines newline s).1 ++ (splitLines newline ((splitLines newline s).2 ++ t)).1,
      (splitLines newline ((splitLines newline s).2 ++ t)).2) := by
  have hleft : newline ∉ (cut newline [] s).2 := (cut_spec List.not_mem_nil s).1
  rw [splitLines, splitLines, splitLines, cut_append, cut_append, cut_of_notMem _ hleft]
  rfl

theorem splitLines_joinLines {lines : List (List α)} (h : ∀ line ∈ lines, newline ∉ line) :
    splitLines newline (joinLines newline lines) = (lines, []) := by
  induction lines with
  | nil => rfl
  | cons line rest ih =>
    have hline : splitLines newline (line ++ [newline]) = ([line], []) := by
      rw [splitLines, cut_append, cut_of_notMem _ (h line List.mem_cons_self), cut, if_pos rfl]
      rfl
    rw [joinLines, List.flatMap_cons, splitLines_append, hline]
    change ([line] ++ (splitLines newline (joinLines newline rest)).1, (splitLines newline (joinLines newline rest)).2) = _
    rw [ih fun line hmem => h line (List.mem_cons_of_mem _ hmem)]
    rfl

omit [DecidableEq α] in
theorem forall_split_concat {P : List α → α → Prop} {xs : List α} {x : α} :
    (∀ before y after, xs ++ [x] = before ++ y :: after → P before y) ↔ (∀ before y after, xs = before ++ y :: after → P before y) ∧ P xs x := by
  constructor
  · intro h
    exact ⟨fun before y after heq => h before y (after ++ [x]) (by rw [heq, List.append_assoc, List.cons_append]), h xs x [] rfl⟩
  · rintro ⟨hxs, hx⟩ before y after heq
    rcases List.eq_nil_or_concat' after with rfl | ⟨after, z, rfl⟩
    · obtain ⟨rfl, hy⟩ := List.append_inj' heq rfl
      cases hy
      exact hx
    · rw [← List.cons_append, ← List.append_assoc] at heq
      exact hxs before y after (List.append_inj' heq rfl).1

end Fluo.Lib
