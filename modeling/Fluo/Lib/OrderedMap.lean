import Mathlib.Data.List.Basic
/-!
# Maps in insertion order

A map whose keys keep the order they were first set in.
-/

namespace Fluo.Lib

variable {κ ν : Type} [DecidableEq κ]

abbrev OrderedMap (κ ν : Type) := List (κ × ν)

namespace OrderedMap

def get (map : OrderedMap κ ν) (key : κ) : Option ν := (map.find? fun entry => entry.1 = key).map Prod.snd

def set : OrderedMap κ ν → κ → ν → OrderedMap κ ν
  | [], key, value => [(key, value)]
  | entry :: rest, key, value => if entry.1 = key then (key, value) :: rest else entry :: set rest key value

attribute [local simp] get set in
@[simp] theorem get_set_self (map : OrderedMap κ ν) (key : κ) (value : ν) : (map.set key value).get key = some value := by
  induction map with
  | nil => simp [set, get]
  | cons entry rest ih =>
    by_cases h : entry.1 = key
    · simp [set, get, h]
    · have hrest : (set rest key value).get key = some value := ih
      simp only [get] at hrest
      simp [set, get, h, hrest]

variable {key key' : κ} {map : OrderedMap κ ν} {value : ν} {entries : OrderedMap κ (List ν)}

theorem get_set_of_ne (map : OrderedMap κ ν) (hne : key' ≠ key) (value : ν) : (map.set key value).get key' = map.get key' := by
  induction map with
  | nil => simp [set, get, hne.symm]
  | cons entry rest ih =>
    have hrest : (set rest key value).get key' = OrderedMap.get rest key' := ih
    simp only [get] at hrest
    by_cases hfirst : entry.1 = key
    · simp [set, get, hfirst, hne.symm]
    · by_cases hentry : entry.1 = key' <;> simp [set, get, hfirst, hentry, hrest, hne]

theorem mem_of_get (h : map.get key = some value) : (key, value) ∈ map := by
  obtain ⟨entry, hfind, rfl⟩ := Option.map_eq_some_iff.1 h
  have hkey : entry.1 = key := by simpa using List.find?_some hfind
  rw [← hkey]
  exact List.mem_of_find?_eq_some hfind

theorem isSome_get : (map.get key).isSome ↔ key ∈ map.map Prod.fst := by
  rw [get, Option.isSome_map, List.find?_isSome, List.mem_map]
  simp only [decide_eq_true_eq]

theorem eq_or_mem_of_mem_set {value' : ν} (h : (key', value') ∈ map.set key value) :
    (key' = key ∧ value' = value) ∨ (key', value') ∈ map := by
  induction map with
  | nil =>
    exact .inl (Prod.mk.inj (List.mem_singleton.1 h))
  | cons entry rest ih =>
    by_cases hfirst : entry.1 = key
    · rw [set, if_pos hfirst] at h
      rcases List.mem_cons.1 h with h | h
      · exact .inl (Prod.mk.inj h)
      · exact .inr (List.mem_cons_of_mem _ h)
    · rw [set, if_neg hfirst] at h
      rcases List.mem_cons.1 h with h | h
      · exact .inr (h ▸ List.mem_cons_self)
      · exact (ih h).imp_right (List.mem_cons_of_mem _)

/-- No key twice. -/
def Keyed (map : OrderedMap κ ν) : Prop := (map.map Prod.fst).Nodup

theorem mem_set (h : map.Keyed) {value' : ν} :
    (key', value') ∈ map.set key value ↔ (key' = key ∧ value' = value) ∨ (key' ≠ key ∧ (key', value') ∈ map) := by
  induction map with
  | nil => simp [set]
  | cons entry rest ih =>
    obtain ⟨first, found⟩ := entry
    rw [Keyed, List.map_cons, List.nodup_cons] at h
    by_cases hfirst : first = key
    · subst hfirst
      have hrest (hmem : (key', value') ∈ rest) : key' ≠ first := by
        rintro rfl
        exact h.1 (List.mem_map.2 ⟨_, hmem, rfl⟩)
      simp only [set, if_true, List.mem_cons, Prod.mk.injEq]
      grind
    · simp only [set, if_neg hfirst, List.mem_cons, Prod.mk.injEq, ih h.2]
      grind

theorem mem_keys_set :
    key' ∈ (map.set key value).map Prod.fst ↔ key' = key ∨ key' ∈ map.map Prod.fst := by
  induction map with
  | nil => simp [set]
  | cons entry rest ih =>
    by_cases hfirst : entry.1 = key
    · simp [set, hfirst]
    · simp only [set, if_neg hfirst, List.map_cons, List.mem_cons, ih]
      grind

theorem keys_set (map : OrderedMap κ ν) (key : κ) (value : ν) :
    (map.set key value).map Prod.fst = if key ∈ map.map Prod.fst then map.map Prod.fst else map.map Prod.fst ++ [key] := by
  induction map with
  | nil => simp [set]
  | cons entry rest ih =>
    by_cases hfirst : entry.1 = key
    · simp [set, hfirst]
    · simp only [set, if_neg hfirst, List.map_cons, ih, List.mem_cons, Ne.symm hfirst, false_or]
      split <;> simp

theorem Keyed.set (h : map.Keyed) (key : κ) (value : ν) : (map.set key value).Keyed := by
  induction map with
  | nil => simp [Keyed, OrderedMap.set]
  | cons entry rest ih =>
    rw [Keyed, List.map_cons, List.nodup_cons] at h
    by_cases hfirst : entry.1 = key
    · simp only [OrderedMap.set, if_pos hfirst, Keyed, List.map_cons, List.nodup_cons]
      exact ⟨hfirst ▸ h.1, h.2⟩
    · simp only [OrderedMap.set, if_neg hfirst, Keyed, List.map_cons, List.nodup_cons]
      exact ⟨fun hmem => (mem_keys_set.1 hmem).elim hfirst h.1, ih h.2⟩

theorem get_cons (first key : κ) (found : ν) (rest : OrderedMap κ ν) :
    OrderedMap.get ((first, found) :: rest) key = if first = key then some found else OrderedMap.get rest key := by
  by_cases hfirst : first = key <;> simp [get, hfirst]

theorem set_of_get (h : map.get key = some value) : map.set key value = map := by
  induction map with
  | nil => cases h
  | cons entry rest ih =>
    obtain ⟨first, found⟩ := entry
    rw [get_cons] at h
    by_cases hfirst : first = key
    · rw [if_pos hfirst, Option.some.injEq] at h
      rw [set, if_pos hfirst, hfirst, h]
    · rw [if_neg hfirst] at h
      rw [set, if_neg hfirst, ih h]

theorem set_of_notMem (h : key ∉ map.map Prod.fst) (value : ν) : map.set key value = map ++ [(key, value)] := by
  induction map with
  | nil => rfl
  | cons entry rest ih =>
    rw [List.map_cons, List.mem_cons, not_or] at h
    rw [set, if_neg (Ne.symm h.1), ih h.2, List.cons_append]

theorem get_eq_none : map.get key = none ↔ key ∉ map.map Prod.fst := by
  rw [← isSome_get, Option.not_isSome_iff_eq_none]

theorem get_eq_some (h : map.Keyed) : map.get key = some value ↔ (key, value) ∈ map := by
  refine ⟨mem_of_get, fun hmem => ?_⟩
  induction map with
  | nil => cases hmem
  | cons entry rest ih =>
    obtain ⟨first, found⟩ := entry
    rw [Keyed, List.map_cons, List.nodup_cons] at h
    rw [get_cons]
    rcases List.mem_cons.1 hmem with heq | hrest
    · cases heq
      rw [if_pos rfl]
    · have hne : first ≠ key := by
        rintro rfl
        exact h.1 (List.mem_map.2 ⟨_, hrest, rfl⟩)
      rw [if_neg hne, ih h.2 hrest]

theorem get_filter (h : map.Keyed) (p : κ × ν → Bool) (key : κ) :
    OrderedMap.get (map.filter p) key = (map.get key).filter fun value => p (key, value) := by
  induction map with
  | nil => rfl
  | cons entry rest ih =>
    obtain ⟨first, found⟩ := entry
    rw [Keyed, List.map_cons, List.nodup_cons] at h
    have hrest := ih h.2
    rw [List.filter_cons, get_cons]
    by_cases hfirst : first = key
    · subst hfirst
      have hgone : OrderedMap.get rest first = none := get_eq_none.2 h.1
      rw [hgone] at hrest
      rw [if_pos rfl, Option.filter_some]
      split
      · rw [get_cons, if_pos rfl]
      · exact hrest
    · rw [if_neg hfirst, ← hrest]
      split
      · rw [get_cons, if_neg hfirst]
      · rfl

theorem get_filter_of_ne (map : OrderedMap κ ν) (hne : key' ≠ key) :
    OrderedMap.get (map.filter fun entry => entry.1 ≠ key) key' = map.get key' := by
  induction map with
  | nil => rfl
  | cons entry rest ih =>
    obtain ⟨first, found⟩ := entry
    rw [List.filter_cons, get_cons, ← ih]
    by_cases hfirst : first = key
    · subst hfirst
      rw [if_neg (Ne.symm hne)]
      simp
    · simp only [ne_eq, hfirst, not_false_eq_true, decide_true, if_true, get_cons]

omit [DecidableEq κ] in
theorem Keyed.filter (h : map.Keyed) (p : κ × ν → Bool) : OrderedMap.Keyed (map.filter p) :=
  List.Nodup.sublist (List.filter_sublist.map _) h

theorem set_set (map : OrderedMap κ ν) (key : κ) (value value' : ν) : (map.set key value).set key value' = map.set key value' := by
  induction map with
  | nil => simp [set]
  | cons entry rest ih =>
    by_cases hfirst : entry.1 = key
    · simp [set, hfirst]
    · simp only [set, if_neg hfirst, ih]

/-! ## Copying entries -/

/-- The entries set over those of a map, in turn. -/
def setAll (map entries : OrderedMap κ ν) : OrderedMap κ ν := entries.foldl (fun map entry => map.set entry.1 entry.2) map

/-- The lists of the entries, each appended to what the map has under its key. -/
def appendAll (map entries : OrderedMap κ (List ν)) : OrderedMap κ (List ν) :=
  entries.foldl (fun map entry => map.set entry.1 ((map.get entry.1).getD [] ++ entry.2)) map

omit [DecidableEq κ] in
theorem Keyed.of_append {entries : OrderedMap κ ν} {entry : κ × ν} (h : OrderedMap.Keyed (map ++ entry :: entries)) :
    entry.1 ∉ map.map Prod.fst := by
  rw [Keyed, List.map_append, List.map_cons] at h
  intro hmem
  exact (List.nodup_append.1 h).2.2 _ hmem _ List.mem_cons_self rfl

theorem setAll_eq_append {entries : OrderedMap κ ν} (h : OrderedMap.Keyed (map ++ entries)) : map.setAll entries = map ++ entries := by
  induction entries generalizing map with
  | nil => exact (List.append_nil map).symm
  | cons entry rest ih =>
    rw [setAll, List.foldl_cons, set_of_notMem h.of_append]
    exact (ih (by simpa using h)).trans (by simp)

theorem appendAll_eq_append {map : OrderedMap κ (List ν)} (h : OrderedMap.Keyed (map ++ entries)) :
    map.appendAll entries = map ++ entries := by
  induction entries generalizing map with
  | nil => exact (List.append_nil map).symm
  | cons entry rest ih =>
    have hnew : map.get entry.1 = none := get_eq_none.2 h.of_append
    rw [appendAll, List.foldl_cons, hnew, set_of_notMem h.of_append]
    exact (ih (by simpa using h)).trans (by simp)

theorem setAll_nil {entries : OrderedMap κ ν} (h : entries.Keyed) : OrderedMap.setAll [] entries = entries := setAll_eq_append h

theorem appendAll_nil (h : entries.Keyed) : OrderedMap.appendAll [] entries = entries := appendAll_eq_append h

theorem Keyed.appendAll {map : OrderedMap κ (List ν)} (h : map.Keyed) (entries : OrderedMap κ (List ν)) : (map.appendAll entries).Keyed := by
  induction entries generalizing map with
  | nil => exact h
  | cons entry rest ih => exact ih (h.set _ _)

/-- What a map of lists has under a key. -/
def listOf (map : OrderedMap κ (List ν)) (key : κ) : List ν := (map.get key).getD []

theorem listOf_cons (entry : κ × List ν) (rest : OrderedMap κ (List ν)) (key : κ) :
    OrderedMap.listOf (entry :: rest) key = if entry.1 = key then entry.2 else OrderedMap.listOf rest key := by
  rw [listOf, get_cons]
  split <;> rfl

theorem listOf_of_mem {map : OrderedMap κ (List ν)} (h : map.Keyed) {entry : κ × List ν} (hmem : entry ∈ map) : map.listOf entry.1 = entry.2 := by
  rw [listOf, (get_eq_some h).2 hmem]
  rfl

theorem listOf_set (map : OrderedMap κ (List ν)) (key key' : κ) (list : List ν) :
    (map.set key list).listOf key' = if key' = key then list else map.listOf key' := by
  by_cases hkey : key' = key
  · rw [if_pos hkey, hkey, listOf, get_set_self]
    rfl
  · rw [if_neg hkey, listOf, get_set_of_ne map hkey, listOf]

theorem listOf_appendAll (map : OrderedMap κ (List ν)) (h : entries.Keyed) (key : κ) :
    (map.appendAll entries).listOf key = map.listOf key ++ entries.listOf key := by
  induction entries generalizing map with
  | nil => exact (List.append_nil _).symm
  | cons entry rest ih =>
    rw [Keyed, List.map_cons, List.nodup_cons] at h
    have hrest := ih (map.set entry.1 (map.listOf entry.1 ++ entry.2)) h.2
    rw [appendAll, List.foldl_cons]
    refine hrest.trans ?_
    rw [listOf_set, listOf_cons]
    by_cases hkey : key = entry.1
    · subst hkey
      have hnone : OrderedMap.listOf rest entry.1 = [] := by
        rw [listOf, get_eq_none.2 h.1]
        rfl
      rw [if_pos rfl, if_pos rfl, hnone, List.append_nil]
    · rw [if_neg hkey, if_neg (Ne.symm hkey)]

/-- No list is empty. -/
def Filled (map : OrderedMap κ (List ν)) : Prop := ∀ entry ∈ map, entry.2 ≠ []

omit [DecidableEq κ] in
theorem Filled.filter {map : OrderedMap κ (List ν)} (h : map.Filled) (p : κ × List ν → Bool) : OrderedMap.Filled (map.filter p) :=
  fun entry hentry => h entry (List.mem_of_mem_filter hentry)

theorem Filled.appendAll {map : OrderedMap κ (List ν)} (hmap : map.Filled) (hentries : entries.Filled) : (map.appendAll entries).Filled := by
  induction entries generalizing map with
  | nil => exact hmap
  | cons entry rest ih =>
    refine ih ?_ fun entry' hmem => hentries entry' (List.mem_cons_of_mem _ hmem)
    rintro ⟨key, list⟩ hmem
    rcases eq_or_mem_of_mem_set hmem with ⟨-, rfl⟩ | hmem
    · exact fun heq => hentries entry List.mem_cons_self (List.append_eq_nil_iff.1 heq).2
    · exact hmap _ hmem

theorem filterMap_keys (h : map.Keyed) {α : Type} (f : κ → Option ν → Option α) :
    (map.map Prod.fst).filterMap (fun key => f key (map.get key)) = map.filterMap fun entry => f entry.1 (some entry.2) := by
  rw [List.filterMap_map]
  refine List.filterMap_congr fun entry hmem => ?_
  rw [Function.comp_apply, (get_eq_some h).2 hmem]

end OrderedMap

end Fluo.Lib
