import Mathlib.Data.List.Induction
/-!
# Precedence

Choosing among candidates by rank, ties going to the one that comes first: one
scan that keeps the best candidate so far, and the same choice made in stages,
one search after another.
-/

namespace Fluo.Lib

variable {α : Type}

section Scan
variable (rank : α → Nat) (bound : Nat)

/-- A candidate replaces what the scan has kept when its rank is strictly below. -/
def prefer (kept : Option α) (a : α) : Option α := if rank a < kept.elim bound rank then some a else kept

/-- The first candidate of the least rank below the bound. -/
def best (xs : List α) : Option α := xs.foldl (prefer rank bound) none

theorem best_concat (xs : List α) (a : α) : best rank bound (xs ++ [a]) = prefer rank bound (best rank bound xs) a := by
  simp [best]

theorem rank_foldl_prefer {n : Nat} {xs : List α} (hxs : ∀ x ∈ xs, n < rank x) :
    ∀ kept : Option α, n < kept.elim bound rank → n < (xs.foldl (prefer rank bound) kept).elim bound rank := by
  induction xs with
  | nil => intro kept h; exact h
  | cons x xs ih =>
    intro kept h
    refine ih (fun y hy => hxs y (List.mem_cons_of_mem _ hy)) _ ?_
    rw [prefer]
    split
    · exact hxs x List.mem_cons_self
    · exact h

theorem foldl_prefer_keeps {xs : List α} {kept : Option α} (hxs : ∀ x ∈ xs, kept.elim bound rank ≤ rank x) :
    xs.foldl (prefer rank bound) kept = kept := by
  induction xs with
  | nil => rfl
  | cons x xs ih =>
    have hx := hxs x List.mem_cons_self
    rw [List.foldl_cons, prefer, if_neg (by omega)]
    exact ih fun y hy => hxs y (List.mem_cons_of_mem _ hy)

/-- Every candidate before the one chosen ranks strictly above it, and none after it ranks below. -/
def Leads (xs : List α) (a : α) : Prop :=
  ∃ before after, xs = before ++ a :: after ∧ (∀ x ∈ before, rank a < rank x) ∧ ∀ x ∈ after, rank a ≤ rank x

variable {rank bound}

theorem Leads.mem {xs : List α} {a : α} (h : Leads rank xs a) : a ∈ xs := by
  obtain ⟨before, after, rfl, _⟩ := h
  simp

theorem best_of_leads {xs : List α} {a : α} (hlt : rank a < bound) (h : Leads rank xs a) : best rank bound xs = some a := by
  obtain ⟨before, after, rfl, hbefore, hafter⟩ := h
  rw [best, List.foldl_append, List.foldl_cons, prefer, if_pos (rank_foldl_prefer rank bound hbefore none hlt)]
  exact foldl_prefer_keeps rank bound hafter

theorem best_spec (xs : List α) : (best rank bound xs = none ∧ ∀ x ∈ xs, bound ≤ rank x) ∨
    ∃ a, best rank bound xs = some a ∧ rank a < bound ∧ Leads rank xs a := by
  induction xs using List.reverseRecOn with
  | nil => exact .inl ⟨rfl, by simp⟩
  | append_singleton xs x ih =>
    rw [best_concat]
    rcases ih with ⟨hnone, hall⟩ | ⟨a, hsome, hlt, before, after, rfl, hbefore, hafter⟩
    · rw [hnone, prefer]
      split
      case isTrue h =>
        have h : rank x < bound := h
        exact .inr ⟨x, rfl, h, xs, [], rfl, fun y hy => Nat.lt_of_lt_of_le h (hall y hy), by simp⟩
      case isFalse h =>
        refine .inl ⟨rfl, fun y hy => ?_⟩
        rcases List.mem_append.1 hy with hy | hy
        · exact hall y hy
        · rw [List.mem_singleton.1 hy]
          exact Nat.not_lt.1 h
    · rw [hsome, prefer]
      split
      case isTrue h =>
        have h : rank x < rank a := h
        refine .inr ⟨x, rfl, by omega, before ++ a :: after, [], rfl, fun y hy => ?_, by simp⟩
        rcases List.mem_append.1 hy with hy | hy
        · exact Nat.lt_trans h (hbefore y hy)
        · rcases List.mem_cons.1 hy with rfl | hy
          · exact h
          · exact Nat.lt_of_lt_of_le h (hafter y hy)
      case isFalse h =>
        refine .inr ⟨a, rfl, hlt, before, after ++ [x], by simp, hbefore, fun y hy => ?_⟩
        rcases List.mem_append.1 hy with hy | hy
        · exact hafter y hy
        · rw [List.mem_singleton.1 hy]
          exact Nat.not_lt.1 h

theorem best_eq_some {xs : List α} {a : α} : best rank bound xs = some a ↔ rank a < bound ∧ Leads rank xs a := by
  refine ⟨fun h => ?_, fun h => best_of_leads h.1 h.2⟩
  rcases @best_spec _ rank bound xs with ⟨hnone, _⟩ | ⟨b, hb, hlt, hleads⟩
  · rw [hnone] at h
    cases h
  · rw [hb] at h
    cases h
    exact ⟨hlt, hleads⟩

theorem best_eq_none {xs : List α} : best rank bound xs = none ↔ ∀ x ∈ xs, bound ≤ rank x := by
  refine ⟨fun h => ?_, fun h => foldl_prefer_keeps rank bound h⟩
  rcases @best_spec _ rank bound xs with ⟨_, hall⟩ | ⟨b, hb, _⟩
  · exact hall
  · rw [h] at hb
    cases hb

end Scan

/-! ## Stages -/

/-- The first stage that takes a candidate. -/
def stageOf (stages : List (α → Bool)) (a : α) : Nat := stages.findIdx (· a)

theorem findSome?_find?_cons {stages : List (α → Bool)} {a : α} (h : ∀ p ∈ stages, p a = false) (xs : List α) :
    stages.findSome? (fun p => (a :: xs).find? p) = stages.findSome? (fun p => xs.find? p) := by
  induction stages with
  | nil => rfl
  | cons p stages ih =>
    rw [List.findSome?_cons, List.findSome?_cons, ih fun q hq => h q (List.mem_cons_of_mem _ hq),
      List.find?_cons, h p List.mem_cons_self]

theorem take_findIdx {stages : List (α → Bool)} {a : α} : ∀ p ∈ stages.take (stageOf stages a), p a = false := by
  intro p hp
  obtain ⟨i, hi, rfl⟩ := List.getElem_of_mem hp
  rw [List.getElem_take]
  have hlt : i < stages.findIdx (· a) := by
    rw [List.length_take] at hi
    exact Nat.lt_of_lt_of_le hi (Nat.min_le_left _ _)
  simpa using List.not_of_lt_findIdx hlt

theorem foldl_prefer_stages (stages : List (α → Bool)) : ∀ (xs : List α) (kept : Option α),
    xs.foldl (prefer (stageOf stages) stages.length) kept =
      ((stages.take (kept.elim stages.length (stageOf stages))).findSome? fun p => xs.find? p).or kept
  | [], kept => by simp [List.findSome?_eq_none_iff.2]
  | a :: xs, kept => by
    rw [List.foldl_cons, foldl_prefer_stages stages xs, prefer]
    generalize hn : kept.elim stages.length (stageOf stages) = n
    split
    case isFalse h =>
      have hnone (p) (hp : p ∈ stages.take n) : p a = false := by
        refine take_findIdx p (List.mem_of_mem_take (i := n) (l := stages.take (stageOf stages a)) ?_)
        rwa [List.take_take, Nat.min_eq_left (Nat.not_lt.1 h)]
      rw [hn, findSome?_find?_cons hnone]
    case isTrue h =>
      have hle : n ≤ stages.length := by
        rw [← hn]
        cases kept with
        | none => exact Nat.le_refl _
        | some b => exact List.findIdx_le_length
      have hstage : stageOf stages a < stages.length := Nat.lt_of_lt_of_le h hle
      -- the stages before `n` are those before the candidate's, its own, and the rest
      have hsplit : stages.take n = stages.take (stageOf stages a) ++ stages[stageOf stages a] ::
          (stages.drop (stageOf stages a + 1)).take (n - stageOf stages a - 1) := by
        obtain ⟨k, rfl⟩ : ∃ k, n = stageOf stages a + (k + 1) := ⟨n - stageOf stages a - 1, by omega⟩
        rw [List.take_add, List.drop_eq_getElem_cons hstage, List.take_succ_cons]
        simp
      have hown : stages[stageOf stages a] a = true := List.findIdx_getElem (w := hstage)
      rw [hsplit, List.findSome?_append, findSome?_find?_cons take_findIdx, List.findSome?_cons, List.find?_cons, hown]
      simp

theorem findSome?_cons_or {β : Type} (f : α → Option β) (a : α) (xs : List α) :
    (a :: xs).findSome? f = (f a).or (xs.findSome? f) := by
  rw [List.findSome?_cons]
  cases f a <;> rfl

theorem findSome?_stages (stages : List (α → Bool)) (xs : List α) :
    (stages.findSome? fun p => xs.find? p) = best (stageOf stages) stages.length xs := by
  rw [best, foldl_prefer_stages]
  simp

end Fluo.Lib
