import Fluo.Lib.OrderedMap
/-!
# Maps to sets

A map from keys to sets that are not empty: a set is entered with its first element and goes with its
last one. Two such maps are converse when each has the keys of the other as elements; they stay so when
the same pair is added to both or removed from both.
-/

namespace Fluo.Lib

variable {κ ν : Type} [DecidableEq κ] [DecidableEq ν]

abbrev SetMap (κ ν : Type) := OrderedMap κ (List ν)

namespace SetMap

def members (map : SetMap κ ν) (key : κ) : List ν := (map.get key).getD []

def delete (map : SetMap κ ν) (key : κ) : SetMap κ ν := map.filter fun entry => entry.1 ≠ key

def add (map : SetMap κ ν) (key : κ) (value : ν) : SetMap κ ν :=
  map.set key (if value ∈ members map key then members map key else members map key ++ [value])

def remove (map : SetMap κ ν) (key : κ) (value : ν) : SetMap κ ν :=
  match map.get key with
  | none => map
  | some values =>
    if (values.filter (· ≠ value)).length = 0 then delete map key else map.set key (values.filter (· ≠ value))

/-- No set is empty. -/
def Filled (map : SetMap κ ν) : Prop := ∀ key values, map.get key = some values → values ≠ []

omit [DecidableEq ν] in
theorem get_delete (map : SetMap κ ν) (key key' : κ) : (delete map key).get key' = if key' = key then none else map.get key' := by
  split
  · next heq =>
    rw [heq, OrderedMap.get_eq_none]
    intro hmem
    obtain ⟨entry, hentry, hkey⟩ := List.mem_map.1 hmem
    exact of_decide_eq_true (List.mem_filter.1 hentry).2 hkey
  · next hne => exact OrderedMap.get_filter_of_ne map hne

omit [DecidableEq ν] in
theorem get_set (map : SetMap κ ν) (key key' : κ) (values : List ν) : (map.set key values).get key' = if key' = key then some values else map.get key' := by
  split
  · next heq => rw [heq, OrderedMap.get_set_self]
  · next hne => exact OrderedMap.get_set_of_ne map hne values

variable {key : κ} {map : SetMap κ ν} {value value' : ν} {back : SetMap ν κ}

theorem mem_add {key' : κ} :
    value' ∈ members (add map key value) key' ↔ (key' = key ∧ value' = value) ∨ value' ∈ members map key' := by
  rw [add, members, get_set]
  by_cases hkey : key' = key
  · subst hkey
    rw [if_pos rfl, Option.getD_some]
    split
    · next hmem => exact ⟨.inr, fun h => h.elim (fun heq => heq.2 ▸ hmem) id⟩
    · rw [List.mem_append, List.mem_singleton, or_comm, and_iff_right rfl]
  · rw [if_neg hkey]
    exact ⟨.inr, fun h => h.resolve_left fun hboth => hkey hboth.1⟩

theorem mem_remove {key' : κ} :
    value' ∈ members (remove map key value) key' ↔ value' ∈ members map key' ∧ ¬(key' = key ∧ value' = value) := by
  have hmem : ∀ values : List ν, value' ∈ values.filter (· ≠ value) ↔ value' ∈ values ∧ value' ≠ value := by simp
  rw [remove]
  cases hget : map.get key with
  | none =>
    refine ⟨fun h => ⟨h, fun ⟨hkey, _⟩ => ?_⟩, And.left⟩
    rw [members, hkey, hget] at h
    cases h
  | some values =>
    by_cases hkey : key' = key
    · subst hkey
      have hbefore : members map key' = values := by rw [members, hget, Option.getD_some]
      have hafter : members (if (values.filter (· ≠ value)).length = 0 then delete map key' else map.set key' (values.filter (· ≠ value))) key' =
          values.filter (· ≠ value) := by
        split
        · next hempty => rw [members, get_delete, if_pos rfl, List.eq_nil_of_length_eq_zero hempty, Option.getD_none]
        · rw [members, get_set, if_pos rfl, Option.getD_some]
      dsimp only
      rw [hafter, hbefore, hmem, and_iff_right rfl]
    · have hafter : members (if (values.filter (· ≠ value)).length = 0 then delete map key else map.set key (values.filter (· ≠ value))) key' =
          members map key' := by
        split
        · rw [members, get_delete, if_neg hkey, members]
        · rw [members, get_set, if_neg hkey, members]
      dsimp only
      rw [hafter]
      exact ⟨fun h => ⟨h, fun hboth => hkey hboth.1⟩, And.left⟩

theorem Filled.add (h : Filled map) (key : κ) (value : ν) : Filled (add map key value) := by
  intro key' values hget
  rw [SetMap.add, get_set] at hget
  split at hget
  · cases hget
    split
    · next hmem => exact List.ne_nil_of_mem hmem
    · exact List.concat_ne_nil _ _
  · exact h key' values hget

omit [DecidableEq ν] in
theorem Filled.delete (h : Filled map) (key : κ) : Filled (delete map key) := by
  intro key' values hget
  rw [get_delete] at hget
  split at hget
  · cases hget
  · exact h key' values hget

theorem Filled.remove (h : Filled map) (key : κ) (value : ν) : Filled (remove map key value) := by
  rw [SetMap.remove]
  split
  · exact h
  · split
    · exact h.delete key
    · next hlength =>
      intro key' values hget
      rw [get_set] at hget
      split at hget
      · cases hget
        exact fun hnil => hlength (by rw [hnil]; rfl)
      · exact h key' values hget

omit [DecidableEq ν] in
theorem mem_delete {key' : κ} : value ∈ members (delete map key) key' ↔ key' ≠ key ∧ value ∈ members map key' := by
  rw [members, get_delete]
  split
  · next heq => exact ⟨fun h => absurd h List.not_mem_nil, fun h => absurd heq h.1⟩
  · next hne => exact ⟨fun h => ⟨hne, h⟩, And.right⟩

/-- Each map has the keys of the other as elements. -/
def Converse (map : SetMap κ ν) (back : SetMap ν κ) : Prop := ∀ key value, value ∈ members map key ↔ key ∈ members back value

theorem Converse.add (h : Converse map back) (key : κ) (value : ν) :
    Converse (add map key value) (SetMap.add back value key) := by
  intro key' value'
  rw [mem_add, mem_add, h key' value', and_comm]

theorem Converse.remove (h : Converse map back) (key : κ) (value : ν) :
    Converse (remove map key value) (SetMap.remove back value key) := by
  intro key' value'
  rw [mem_remove, mem_remove, h key' value', and_comm (a := key' = key)]

/-- A value is removed from the sets of some keys. -/
def removeAll (map : SetMap κ ν) (keys : List κ) (value : ν) : SetMap κ ν := keys.foldl (fun map key => remove map key value) map

theorem mem_removeAll {keys : List κ} :
    value' ∈ members (removeAll map keys value) key ↔ value' ∈ members map key ∧ ¬(key ∈ keys ∧ value' = value) := by
  induction keys generalizing map with
  | nil => simp [removeAll]
  | cons first keys ih =>
    have hstep : removeAll map (first :: keys) value = removeAll (remove map first value) keys value := rfl
    rw [hstep, ih, mem_remove, List.mem_cons]
    tauto

theorem Filled.removeAll (h : Filled map) (keys : List κ) (value : ν) : Filled (removeAll map keys value) :=
  List.foldlRecOn (motive := Filled) keys _ h fun _ hmap key _ => hmap.remove key value

theorem Converse.removeAll (h : Converse map back) (key : κ) :
    Converse (delete map key) (SetMap.removeAll back (members map key) key) := by
  intro key' value
  rw [mem_delete, mem_removeAll, h key' value, h key value]
  constructor
  · rintro ⟨hne, hmem⟩
    exact ⟨hmem, fun hboth => hne hboth.2⟩
  · rintro ⟨hmem, hnot⟩
    exact ⟨fun heq => hnot ⟨heq ▸ hmem, heq⟩, hmem⟩

end SetMap

end Fluo.Lib
