import Mathlib.Data.List.Basic
/-!
# Parties of a system

A system whose parties stand in a list, each at its place: one place changes at a
time, and new parties come at the end.
-/

namespace Fluo.Lib

variable {α : Type}

theorem getElem?_set_iff {l : List α} {i j : Nat} {old new a : α} (hi : l[i]? = some old) :
    (l.set i new)[j]? = some a ↔ (j = i ∧ a = new) ∨ (j ≠ i ∧ l[j]? = some a) := by
  obtain ⟨hlt, -⟩ := List.getElem?_eq_some_iff.1 hi
  by_cases hj : j = i
  · subst hj
    simp [List.getElem?_set_self hlt, eq_comm]
  · simp [List.getElem?_set_ne (Ne.symm hj), hj]

theorem getElem?_concat_iff {l : List α} {j : Nat} {new a : α} :
    (l ++ [new])[j]? = some a ↔ (j = l.length ∧ a = new) ∨ l[j]? = some a := by
  rcases Nat.lt_trichotomy j l.length with hlt | rfl | hgt
  · simp [List.getElem?_append_left hlt, Nat.ne_of_lt hlt]
  · simp [eq_comm]
  · have hnone : l[j]? = none := List.getElem?_eq_none (Nat.le_of_lt hgt)
    have hnone' : (l ++ [new])[j]? = none := List.getElem?_eq_none (by simpa using Nat.succ_le_of_lt hgt)
    simp [hnone, hnone', Nat.ne_of_gt hgt]

theorem countP_set_add {l : List α} {p : α → Bool} {i : Nat} {old : α} (hi : l[i]? = some old) (new : α) :
    (l.set i new).countP p + (if p old then 1 else 0) = l.countP p + if p new then 1 else 0 := by
  obtain ⟨hlt, hget⟩ := List.getElem?_eq_some_iff.1 hi
  have hpos : p old → 0 < l.countP p := fun h => List.countP_pos_iff.2 ⟨old, List.mem_of_getElem? hi, h⟩
  rw [List.countP_set hlt, hget]
  by_cases h : p old
  · have := hpos h
    simp only [h, if_true]
    omega
  · simp [h]

theorem bind_guarded_eq_some {β : Type} {l : List α} {i : Nat} {p : α → Prop} [DecidablePred p] {f : α → β} {b : β}
    (h : (l[i]?.bind fun a => if p a then some (f a) else none) = some b) : ∃ a, l[i]? = some a ∧ p a ∧ b = f a := by
  obtain ⟨a, hi, h⟩ := Option.bind_eq_some_iff.1 h
  split at h
  · next hp => exact ⟨a, hi, hp, (Option.some.inj h).symm⟩
  · cases h

/-- `R` holds between any two parties. -/
def Apart (R : α → α → Prop) (l : List α) : Prop := ∀ (i j : Nat) (a b : α), i ≠ j → l[i]? = some a → l[j]? = some b → R a b

namespace Apart
variable {R : α → α → Prop} {l : List α}

theorem nil : Apart R [] := by
  intro i j a b _ h
  cases h

theorem set (h : Apart R l) {i : Nat} {old new : α} (hi : l[i]? = some old)
    (hnew : ∀ (j : Nat) (b : α), j ≠ i → l[j]? = some b → R new b ∧ R b new) : Apart R (l.set i new) := by
  intro j k a b hne ha hb
  rcases (getElem?_set_iff hi).1 ha with ⟨rfl, rfl⟩ | ⟨hj, ha'⟩ <;> rcases (getElem?_set_iff hi).1 hb with ⟨rfl, rfl⟩ | ⟨hk, hb'⟩
  · exact absurd rfl hne
  · exact (hnew k b hk hb').1
  · exact (hnew j a hj ha').2
  · exact h j k a b hne ha' hb'

theorem concat (h : Apart R l) {new : α} (hnew : ∀ b ∈ l, R new b ∧ R b new) : Apart R (l ++ [new]) := by
  intro j k a b hne ha hb
  rcases getElem?_concat_iff.1 ha with ⟨rfl, rfl⟩ | ha' <;> rcases getElem?_concat_iff.1 hb with ⟨rfl, rfl⟩ | hb'
  · exact absurd rfl hne
  · exact (hnew b (List.mem_of_getElem? hb')).1
  · exact (hnew a (List.mem_of_getElem? ha')).2
  · exact h j k a b hne ha' hb'

theorem pairwise (h : Apart R l) : l.Pairwise R := by
  rw [List.pairwise_iff_getElem]
  intro i j hi hj hlt
  exact h i j _ _ (Nat.ne_of_lt hlt) (List.getElem?_eq_getElem hi) (List.getElem?_eq_getElem hj)

theorem flatten_around {β : Type} {l : List (List β)} (h : Apart (fun a b => a = [] ∨ b = []) l) {i : Nat} {a : List β} (hi : l[i]? = some a)
    (ha : a ≠ []) : (l.take i).flatten = [] ∧ (l.drop (i + 1)).flatten = [] := by
  have hother (j : Nat) (b : List β) (hj : j ≠ i) (hb : l[j]? = some b) : b = [] := (h i j a b (Ne.symm hj) hi hb).resolve_left ha
  constructor
  · rw [List.flatten_eq_nil_iff]
    intro b hb
    obtain ⟨j, hj, rfl⟩ := List.mem_take_iff_getElem.1 hb
    exact hother j _ (by omega) (List.getElem?_eq_getElem _)
  · rw [List.flatten_eq_nil_iff]
    intro b hb
    obtain ⟨j, hj, rfl⟩ := List.mem_drop_iff_getElem.1 hb
    exact hother (i + 1 + j) _ (by omega) (List.getElem?_eq_getElem _)

theorem flatten_set {β : Type} {l : List (List β)} (h : Apart (fun a b => a = [] ∨ b = []) l) {i : Nat} {a b : List β}
    (hi : l[i]? = some (a ++ b)) : a ++ (l.set i b).flatten = l.flatten := by
  obtain ⟨hlt, hget⟩ := List.getElem?_eq_some_iff.1 hi
  by_cases hab : a ++ b = []
  · obtain ⟨rfl, rfl⟩ := List.append_eq_nil_iff.1 hab
    have hset : l.set i [] = l := by
      have hnil : l[i] = [] := hget
      rw [← hnil, List.set_getElem_self]
    rw [hset, List.nil_append]
  · obtain ⟨htake, hdrop⟩ := h.flatten_around hi hab
    have hsplit : l.flatten = (l.take i).flatten ++ ((a ++ b) ++ (l.drop (i + 1)).flatten) := by
      rw [← hget, ← List.flatten_cons, ← List.drop_eq_getElem_cons hlt, ← List.flatten_append, List.take_append_drop]
    rw [List.set_eq_take_append_cons_drop, if_pos hlt, hsplit]
    simp [htake, hdrop]

end Apart

theorem flatten_set_perm {β : Type} {l : List (List β)} {i : Nat} {old : List β} (hi : l[i]? = some old) (new : List β) :
    (old ++ (l.set i new).flatten).Perm (new ++ l.flatten) := by
  induction l generalizing i with
  | nil => cases hi
  | cons a l ih =>
    cases i with
    | zero =>
      cases hi
      simpa using List.perm_append_comm_assoc old new l.flatten
    | succ i =>
      have hi : l[i]? = some old := by simpa using hi
      simp only [List.set_cons_succ, List.flatten_cons]
      have hleft : (old ++ (a ++ (l.set i new).flatten)).Perm (a ++ (old ++ (l.set i new).flatten)) := List.perm_append_comm_assoc ..
      have hright : (a ++ (new ++ l.flatten)).Perm (new ++ (a ++ l.flatten)) := List.perm_append_comm_assoc ..
      exact hleft.trans (((ih hi).append_left a).trans hright)

theorem perm_exchange {β : Type} {came went here here' old new x y : List β} (h : came.Perm (went ++ here)) (hset : (old ++ here').Perm (new ++ here))
    (hx : (old ++ x).Perm (y ++ new)) : (came ++ x).Perm (went ++ y ++ here') := by
  classical
  rw [List.perm_iff_count]
  intro b
  have h₁ := h.count_eq b
  have h₂ := hset.count_eq b
  have h₃ := hx.count_eq b
  simp only [List.count_append] at h₁ h₂ h₃ ⊢
  omega

theorem filter_key_notMem {κ : Type} [DecidableEq κ] {key : α → κ} {before items behind : List α}
    (h : ((before ++ items ++ behind).map key).Nodup) :
    (before ++ items ++ behind).filter (fun a => key a ∉ items.map key) = before ++ behind := by
  simp only [List.map_append, List.nodup_append, List.mem_append] at h
  obtain ⟨⟨_, _, hbefore⟩, _, hbehind⟩ := h
  have hnone : items.filter (fun a => key a ∉ items.map key) = [] := by
    simpa using fun a ha => ⟨a, ha, rfl⟩
  have hleft : before.filter (fun a => key a ∉ items.map key) = before :=
    List.filter_eq_self.2 fun a ha => by
      simpa using fun b hb he => hbefore _ (List.mem_map_of_mem ha) _ (List.mem_map_of_mem hb) he.symm
  have hright : behind.filter (fun a => key a ∉ items.map key) = behind :=
    List.filter_eq_self.2 fun a ha => by
      simpa using fun b hb he => hbehind _ (.inr (List.mem_map_of_mem hb)) _ (List.mem_map_of_mem ha) he
  rw [List.filter_append, List.filter_append, hnone, hleft, hright, List.append_nil]

theorem forall_mem_set {P : α → Prop} {l : List α} (h : ∀ a ∈ l, P a) {new : α} (hnew : P new) (i : Nat) : ∀ a ∈ l.set i new, P a := by
  intro a ha
  rcases List.mem_or_eq_of_mem_set ha with ha | rfl
  · exact h a ha
  · exact hnew

theorem forall_mem_concat {P : α → Prop} {l : List α} (h : ∀ a ∈ l, P a) {new : α} (hnew : P new) : ∀ a ∈ l ++ [new], P a := by
  intro a ha
  rcases List.mem_append.1 ha with ha | ha
  · exact h a ha
  · exact List.mem_singleton.1 ha ▸ hnew

end Fluo.Lib
