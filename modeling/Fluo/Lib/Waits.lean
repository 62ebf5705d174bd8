import Mathlib.Data.Set.Finite.Basic
import Mathlib.Order.WellFounded
/-!
# Waiting relations

Parties wait for one another. A relation without cycles stays so when one
party starts to wait for another that does not, in the end, wait for it; and
in a finite set of parties that wait without cycles somebody waits for no
member of the set.
-/

namespace Fluo.Lib

open Relation (ReflTransGen TransGen)

variable {α : Type*} {r r' : α → α → Prop}

/-- No party waits, in the end, for itself. -/
def Acyclic (r : α → α → Prop) : Prop := ∀ x, ¬ TransGen r x x

namespace Acyclic

theorem mono (h : Acyclic r) (hr : ∀ x y, r' x y → r x y) : Acyclic r' := fun x hx => h x (TransGen.mono hr x x hx)

theorem insert {k j : α} (h : Acyclic r) (hback : ¬ ReflTransGen r j k)
    (hr : ∀ x y, r' x y → r x y ∨ x = k ∧ y = j) : Acyclic r' := by
  -- a path uses the new edge at most once
  have hpath : ∀ {x y}, TransGen r' x y → TransGen r x y ∨ ReflTransGen r x k ∧ ReflTransGen r j y := by
    intro x y hxy
    induction hxy with
    | single he =>
      rcases hr _ _ he with he | ⟨rfl, rfl⟩
      · exact .inl (.single he)
      · exact .inr ⟨.refl, .refl⟩
    | tail _ he ih =>
      rcases ih with hp | ⟨hx, hy⟩ <;> rcases hr _ _ he with he | ⟨rfl, rfl⟩
      · exact .inl (hp.tail he)
      · exact .inr ⟨hp.to_reflTransGen, .refl⟩
      · exact .inr ⟨hx, hy.tail he⟩
      · exact absurd hy hback
  intro x hx
  rcases hpath hx with hp | ⟨hk, hj⟩
  · exact h x hp
  · exact hback (hj.trans hk)

theorem of_lt {β : Type*} [Preorder β] (rank : α → β) (h : ∀ x y, r x y → rank x < rank y) : Acyclic r := by
  intro x hx
  have hlt : ∀ y, TransGen r x y → rank x < rank y := by
    intro y hy
    induction hy with
    | single he => exact h _ _ he
    | tail _ he ih => exact ih.trans (h _ _ he)
  exact lt_irrefl _ (hlt x hx)

theorem exists_free (h : Acyclic r) {D : Set α} (hfin : D.Finite) (hne : D.Nonempty) : ∃ x ∈ D, ∀ y ∈ D, ¬ r x y := by
  have : Finite D := hfin
  let lt : D → D → Prop := fun x y => TransGen r y.1 x.1
  have : IsTrans D lt := ⟨fun _ _ _ hxy hyz => hyz.trans hxy⟩
  have : Std.Irrefl lt := ⟨fun x hx => h x.1 hx⟩
  obtain ⟨x, hx⟩ := hne
  obtain ⟨m, _, hm⟩ := (Finite.wellFounded_of_trans_of_irrefl lt).has_min Set.univ ⟨⟨x, hx⟩, trivial⟩
  exact ⟨m.1, m.2, fun y hy he => hm ⟨y, hy⟩ trivial (.single he)⟩

end Acyclic

end Fluo.Lib
