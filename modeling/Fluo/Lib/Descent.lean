import Mathlib.Logic.Relation
/-!
# Walks of a finite acyclic graph

A recursive walk that carries the nodes above the present one, and has fuel: below
the present node no node above it comes again, and there are ever fewer nodes.
-/

namespace Fluo.Lib
open Relation

variable {α : Type*} {edge : α → α → Prop} {nodes path : List α} {a b : α}

/-- The graph is acyclic and within `nodes` from `a` on, where no node of `path` is. -/
structure Descent (edge : α → α → Prop) (nodes path : List α) (a : α) : Prop where
  nodes   : ∀ b, ReflTransGen edge a b → b ∈ nodes
  acyclic : ∀ b, ReflTransGen edge a b → ¬ TransGen edge b b
  path    : ∀ b ∈ path, ¬ ReflTransGen edge a b

namespace Descent

theorem notMem (h : Descent edge nodes path a) : a ∉ path := fun ha => h.path a ha .refl

theorem mem (h : Descent edge nodes path a) : a ∈ nodes := h.nodes a .refl

theorem of_subset (h : Descent edge nodes path a) (path' : List α) (hsub : ∀ b ∈ path', b ∈ path) : Descent edge nodes path' a :=
  ⟨h.nodes, h.acyclic, fun b hb => h.path b (hsub b hb)⟩

theorem child [DecidableEq α] (h : Descent edge nodes path a) (hab : TransGen edge a b) :
    Descent edge (nodes.filter (· ≠ a)) (a :: path) b where
  nodes c hbc := by
    have hac := hab.trans_left hbc
    have hne : c ≠ a := by
      rintro rfl
      exact h.acyclic c .refl hac
    simpa [hne] using h.nodes c hac.to_reflTransGen
  acyclic c hbc := h.acyclic c (hab.trans_left hbc).to_reflTransGen
  path c hc hbc := by
    have hac := hab.trans_left hbc
    rcases List.mem_cons.1 hc with rfl | hc
    · exact h.acyclic c .refl hac
    · exact h.path c hc hac.to_reflTransGen

theorem length_lt [DecidableEq α] (h : Descent edge nodes path a) : (nodes.filter (· ≠ a)).length < nodes.length := by
  have hfilter : nodes.filter (· ≠ a) ≠ nodes := by
    intro heq
    have := List.filter_eq_self.1 heq a h.mem
    simp at this
  exact Nat.lt_of_le_of_ne (List.length_filter_le ..) fun hlen => hfilter ((List.filter_sublist ..).eq_of_length hlen)

end Descent

end Fluo.Lib
