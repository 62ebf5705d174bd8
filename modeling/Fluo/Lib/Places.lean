import Mathlib.Data.List.Dedup
/-!
# Places in a list

What stands ahead of what in a list, and in the parts of it. Read backwards, with each item
kept where it is met last, a list has its items in the order of their first places, the last first.
-/

namespace Fluo.Lib

variable {α : Type*} {l l' : List α} {a b c : α}

/-- Some `a` stands ahead of some `b`. -/
def Ahead (l : List α) (a b : α) : Prop := List.Sublist [a, b] l

instance [DecidableEq α] : Decidable (Ahead l a b) := inferInstanceAs (Decidable (List.Sublist _ _))

theorem ahead_iff : Ahead l a b ↔ ∃ l₁ l₂, l = l₁ ++ l₂ ∧ a ∈ l₁ ∧ b ∈ l₂ := by
  unfold Ahead
  simp only [List.cons_sublist_iff, List.nil_sublist, and_true]
  constructor
  · rintro ⟨l₁, l₂, rfl, ha, l₃, l₄, rfl, hb⟩
    exact ⟨l₁, l₃ ++ l₄, rfl, ha, List.mem_append_left l₄ hb⟩
  · rintro ⟨l₁, l₂, rfl, ha, hb⟩
    exact ⟨l₁, l₂, rfl, ha, l₂, [], (List.append_nil l₂).symm, hb⟩

namespace Ahead

theorem mono (h : Ahead l a b) (hl : List.Sublist l l') : Ahead l' a b := List.Sublist.trans h hl

theorem of_mem (ha : a ∈ l) (hb : b ∈ l') : Ahead (l ++ l') a b := ahead_iff.2 ⟨l, l', rfl, ha, hb⟩

theorem left (h : Ahead l a b) : a ∈ l := h.subset List.mem_cons_self

theorem right (h : Ahead l a b) : b ∈ l := h.subset (List.mem_cons_of_mem a List.mem_cons_self)

theorem total (ha : a ∈ l) (hb : b ∈ l) (hne : a ≠ b) : Ahead l a b ∨ Ahead l b a := by
  obtain ⟨l₁, l₂, rfl⟩ := List.append_of_mem ha
  rcases List.mem_append.1 hb with hb | hb
  · exact .inr (of_mem hb List.mem_cons_self)
  · have hb : b ∈ l₂ := (List.mem_cons.1 hb).resolve_left hne.symm
    exact .inl ((of_mem (List.mem_singleton_self a) hb).mono (List.sublist_append_right l₁ (a :: l₂)))

section Nodup
variable (hn : l.Nodup)
include hn

theorem trans (h : Ahead l a b) (h' : Ahead l b c) : Ahead l a c := by
  obtain ⟨l₁, l₂, rfl, ha, hb⟩ := ahead_iff.1 h
  obtain ⟨l₃, l₄, heq, hb', hc⟩ := ahead_iff.1 h'
  -- `b` is not in `l₁`, so `l₁` ends before `l₃` does
  rcases List.append_eq_append_iff.1 heq with ⟨m, rfl, rfl⟩ | ⟨m, rfl, rfl⟩
  · exact of_mem ha (List.mem_append_right m hc)
  · exact absurd hb ((List.disjoint_of_nodup_append hn) (List.mem_append_left m hb'))

theorem irrefl : ¬ Ahead l a a := by
  intro h
  obtain ⟨l₁, l₂, rfl, ha, ha'⟩ := ahead_iff.1 h
  exact (List.disjoint_of_nodup_append hn) ha ha'

theorem asymm (h : Ahead l a b) : ¬ Ahead l b a := fun h' => irrefl hn (trans hn h h')

theorem of_sublist (hl : List.Sublist l' l) (ha : a ∈ l') (hb : b ∈ l') (h : Ahead l a b) : Ahead l' a b := by
  have hne : a ≠ b := by
    rintro rfl
    exact irrefl hn h
  exact (total ha hb hne).resolve_right fun h' => asymm hn h (h'.mono hl)

end Nodup

theorem mem_of_append (hn : (l ++ b :: l').Nodup) (h : Ahead (l ++ b :: l') a b) : a ∈ l := by
  rcases List.mem_append.1 h.left with ha | ha
  · exact ha
  rcases List.mem_cons.1 ha with rfl | ha
  · exact absurd h (irrefl hn)
  · have : Ahead (l ++ b :: l') b a := by
      refine (of_mem (l := [b]) (List.mem_singleton_self b) ha).mono ?_
      exact List.sublist_append_right l (b :: l')
    exact absurd h (asymm hn this)

/-- If some `b` stands ahead of each `a`, then `a` comes ahead of `b` when the list is read backwards and each item is kept
where it is met last. -/
theorem dedup_reverse [DecidableEq α] (ha : a ∈ l) (h : ∀ l₁ l₂, l = l₁ ++ a :: l₂ → b ∈ l₁) : Ahead l.reverse.dedup a b := by
  obtain ⟨l₁, l₂, rfl, hfirst⟩ := List.eq_append_cons_of_mem ha
  have hb : b ∈ l₁ := h l₁ l₂ rfl
  obtain ⟨t, -, heq⟩ := List.sublist_suffix_of_union (l₂.reverse ++ [a]) l₁.reverse.dedup
  rw [List.reverse_append, List.reverse_cons, List.dedup_append, ← heq]
  refine of_mem ?_ (by simpa using hb)
  have : a ∈ t ++ l₁.reverse.dedup := by rw [heq]; simp
  simpa [hfirst] using this

end Ahead

end Fluo.Lib
