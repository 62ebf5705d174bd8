import Fluo.Core.Metadata
import Mathlib.Data.List.Nodup
/-!
# Explicit DTO metadata

What the `define` and `append` functions store for a class, and what is read of a
class that has just been created once its metadata is stored. The classes that do
not extend it read what they did before.
-/

namespace Fluo.Core
open Fluo.Lib

/-! ## Writing -/

def defineDtoFieldBindingMetadata (target : Class) (stores : Stores) (entry : MetadataPropertyKey × DtoFieldBindingMetadata) : Stores :=
  { stores with dtoFieldBinding := Function.update stores.dtoFieldBinding target ((stores.dtoFieldBinding target).set entry.1 entry.2) }

def appendDtoFieldValidationRule (target : Class) (propertyKey : MetadataPropertyKey) (stores : Stores) (rule : DtoFieldValidationRule) : Stores :=
  { stores with
    dtoFieldValidation := Function.update stores.dtoFieldValidation target
      ((stores.dtoFieldValidation target).set propertyKey ((stores.dtoFieldValidation target).listOf propertyKey ++ [rule])) }

def appendClassValidationRule (target : Class) (stores : Stores) (rule : ClassValidationRule) : Stores :=
  { stores with classValidation := Function.update stores.classValidation target (stores.classValidation target ++ [rule]) }

/-- All rules of an entry in turn. -/
def appendDtoFieldValidationRules (target : Class) (stores : Stores) (entry : MetadataPropertyKey × List DtoFieldValidationRule) : Stores :=
  entry.2.foldl (appendDtoFieldValidationRule target entry.1) stores

structure Stored where
  dtoFieldBinding : OrderedMap MetadataPropertyKey DtoFieldBindingMetadata
  dtoFieldValidation : OrderedMap MetadataPropertyKey (List DtoFieldValidationRule)
  classValidation : List ClassValidationRule

def Stores.of (stores : Stores) (cls : Class) : Stored := ⟨stores.dtoFieldBinding cls, stores.dtoFieldValidation cls, stores.classValidation cls⟩

section Loops
variable (target : Class) (stores : Stores)

theorem foldl_defineDtoFieldBindingMetadata (entries : OrderedMap MetadataPropertyKey DtoFieldBindingMetadata) :
    entries.foldl (defineDtoFieldBindingMetadata target) stores =
      { stores with dtoFieldBinding := Function.update stores.dtoFieldBinding target ((stores.dtoFieldBinding target).setAll entries) } := by
  induction entries generalizing stores with
  | nil => simp [OrderedMap.setAll]
  | cons entry rest ih =>
    rw [List.foldl_cons, ih]
    simp [defineDtoFieldBindingMetadata, OrderedMap.setAll]

theorem foldl_appendDtoFieldValidationRule (propertyKey : MetadataPropertyKey) {rules : List DtoFieldValidationRule} (h : rules ≠ []) :
    rules.foldl (appendDtoFieldValidationRule target propertyKey) stores =
      { stores with
        dtoFieldValidation := Function.update stores.dtoFieldValidation target
          ((stores.dtoFieldValidation target).set propertyKey ((stores.dtoFieldValidation target).listOf propertyKey ++ rules)) } := by
  induction rules generalizing stores with
  | nil => exact absurd rfl h
  | cons rule rest ih =>
    rw [List.foldl_cons]
    by_cases hrest : rest = []
    · rw [hrest]
      rfl
    · rw [ih _ hrest]
      simp [appendDtoFieldValidationRule, OrderedMap.listOf_set, OrderedMap.set_set]

theorem foldl_appendDtoFieldValidationRules {entries : OrderedMap MetadataPropertyKey (List DtoFieldValidationRule)} (h : entries.Filled) :
    entries.foldl (appendDtoFieldValidationRules target) stores =
      { stores with
        dtoFieldValidation := Function.update stores.dtoFieldValidation target ((stores.dtoFieldValidation target).appendAll entries) } := by
  induction entries generalizing stores with
  | nil => simp [OrderedMap.appendAll]
  | cons entry rest ih =>
    rw [List.foldl_cons, appendDtoFieldValidationRules, foldl_appendDtoFieldValidationRule target stores entry.1 (h entry List.mem_cons_self)]
    rw [ih _ fun entry' hmem => h entry' (List.mem_cons_of_mem _ hmem)]
    simp [OrderedMap.appendAll, OrderedMap.listOf]

theorem foldl_appendClassValidationRule (rules : List ClassValidationRule) :
    rules.foldl (appendClassValidationRule target) stores =
      { stores with classValidation := Function.update stores.classValidation target (stores.classValidation target ++ rules) } := by
  induction rules generalizing stores with
  | nil => simp
  | cons rule rest ih =>
    rw [List.foldl_cons, ih]
    simp [appendClassValidationRule]

end Loops

/-! ## Reading -/

/-- A class that has just been created: it extends none, and nothing is recorded of it. -/
structure IsNew (stores : Stores) (bags : Bags) (cls : Class) : Prop where
  chain : cls.chain = [cls]
  storedBinding : stores.dtoFieldBinding cls = []
  storedValidation : stores.dtoFieldValidation cls = []
  storedClassValidation : stores.classValidation cls = []
  standardBinding : bags.dtoFieldBinding cls = none
  standardValidation : bags.dtoFieldValidation cls = none
  standardClassValidation : bags.classValidation cls = none

section Keys
variable {ν ν' : Type}

theorem foldl_insertNew {keys new : List MetadataPropertyKey} (h : (keys ++ new).Nodup) :
    new.foldl (fun keys key => if key ∈ keys then keys else keys ++ [key]) keys = keys ++ new := by
  induction new generalizing keys with
  | nil => exact (List.append_nil keys).symm
  | cons key rest ih =>
    have hnew : key ∉ keys := fun hmem => (List.nodup_append.1 h).2.2 _ hmem _ List.mem_cons_self rfl
    rw [List.foldl_cons, if_neg hnew]
    exact (ih (by simpa using h)).trans (by simp)

theorem nodup_mergeMetadataPropertyKeys (stored : OrderedMap MetadataPropertyKey ν) (standard : OrderedMap MetadataPropertyKey ν') :
    (mergeMetadataPropertyKeys stored standard).Nodup := by
  rw [mergeMetadataPropertyKeys]
  refine List.foldlRecOn _ _ List.nodup_nil fun keys hkeys key _ => ?_
  split
  case isTrue => exact hkeys
  case isFalse hnew => exact List.concat_eq_append ▸ hkeys.concat hnew

theorem mergeMetadataPropertyKeys_nil {stored : OrderedMap MetadataPropertyKey ν} (h : stored.Keyed) :
    mergeMetadataPropertyKeys stored ([] : OrderedMap MetadataPropertyKey ν') = stored.map Prod.fst := by
  rw [mergeMetadataPropertyKeys, List.map_nil, List.append_nil]
  exact foldl_insertNew h

theorem keyed_filterMap {keys : List MetadataPropertyKey} (hkeys : keys.Nodup) {f : MetadataPropertyKey → Option (MetadataPropertyKey × ν)}
    (hf : ∀ key entry, f key = some entry → entry.1 = key) : OrderedMap.Keyed (keys.filterMap f) := by
  suffices hsub : ((keys.filterMap f).map Prod.fst).Sublist keys from hkeys.sublist hsub
  clear hkeys
  induction keys with
  | nil => exact List.Sublist.refl _
  | cons key rest ih =>
    cases hkey : f key with
    | none =>
      rw [List.filterMap_cons_none hkey]
      exact ih.cons key
    | some entry =>
      rw [List.filterMap_cons_some hkey, List.map_cons, hf key entry hkey]
      exact ih.cons_cons key

end Keys

section Schemas
variable (stores : Stores) (bags : Bags) (cls : Class)

theorem keyed_getDtoBindingSchema : OrderedMap.Keyed (getDtoBindingSchema stores bags cls) := by
  refine keyed_filterMap (nodup_mergeMetadataPropertyKeys _ _) fun key entry h => ?_
  obtain ⟨metadata, -, rfl⟩ := Option.map_eq_some_iff.1 h
  rfl

theorem keyed_getDtoValidationSchema : OrderedMap.Keyed (getDtoValidationSchema stores bags cls) := by
  refine keyed_filterMap (nodup_mergeMetadataPropertyKeys _ _) fun key entry h => ?_
  obtain ⟨-, h⟩ := Option.ite_none_left_eq_some.1 h
  exact congrArg Prod.fst (Option.some.inj h).symm

theorem filled_getDtoValidationSchema : OrderedMap.Filled (getDtoValidationSchema stores bags cls) := by
  intro entry hentry
  obtain ⟨key, -, h⟩ := List.mem_filterMap.1 hentry
  obtain ⟨hfilled, h⟩ := Option.ite_none_left_eq_some.1 h
  cases h
  exact hfilled

/-! ### A class whose metadata is stored -/

variable {stores bags cls}

theorem getDtoBindingSchema_stored (hchain : cls.chain = [cls]) (hstandard : bags.dtoFieldBinding cls = none)
    (h : OrderedMap.Keyed (stores.dtoFieldBinding cls)) : getDtoBindingSchema stores bags cls = stores.dtoFieldBinding cls := by
  have hstored : getInheritedStoredDtoBindingMap stores cls = stores.dtoFieldBinding cls := by
    rw [getInheritedStoredDtoBindingMap, hchain]
    exact OrderedMap.setAll_nil h
  have hfind : bags.dtoFieldBinding.find cls = none := by simp [Slot.find, hchain, hstandard]
  rw [getDtoBindingSchema, hstored, hfind]
  dsimp only [Option.getD_none]
  rw [mergeMetadataPropertyKeys_nil h]
  refine (OrderedMap.filterMap_keys h fun key found => (mergeDtoFieldBinding found none).map (key, ·)).trans ?_
  exact (List.filterMap_congr fun entry _ => by simp [mergeDtoFieldBinding]).trans List.filterMap_some

theorem getDtoValidationSchema_stored (hchain : cls.chain = [cls]) (hstandard : bags.dtoFieldValidation cls = none)
    (h : OrderedMap.Keyed (stores.dtoFieldValidation cls)) (hfilled : OrderedMap.Filled (stores.dtoFieldValidation cls)) :
    getDtoValidationSchema stores bags cls = stores.dtoFieldValidation cls := by
  have hstored : getInheritedStoredDtoValidationMap stores cls = stores.dtoFieldValidation cls := by
    rw [getInheritedStoredDtoValidationMap, hchain]
    exact OrderedMap.appendAll_nil h
  have hfind : bags.dtoFieldValidation.find cls = none := by simp [Slot.find, hchain, hstandard]
  rw [getDtoValidationSchema, hstored, hfind]
  dsimp only [Option.getD_none]
  rw [mergeMetadataPropertyKeys_nil h]
  refine (OrderedMap.filterMap_keys h fun key found =>
    if ([] : List DtoFieldValidationRule) ++ found.getD [] = [] then none else some (key, [] ++ found.getD [])).trans ?_
  refine (List.filterMap_congr fun entry hentry => ?_).trans List.filterMap_some
  exact if_neg (hfilled entry hentry)

theorem getClassValidationRules_stored (hchain : cls.chain = [cls]) (hstandard : bags.classValidation cls = none) :
    getClassValidationRules stores bags cls = stores.classValidation cls := by
  simp [getClassValidationRules, getInheritedStoredClassValidationRules, Slot.find, hchain, hstandard]

end Schemas

/-! ### The other classes -/

structure SameStored (stores stores' : Stores) (cls : Class) : Prop where
  dtoFieldBinding : ∀ current ∈ cls.chain, stores'.dtoFieldBinding current = stores.dtoFieldBinding current
  dtoFieldValidation : ∀ current ∈ cls.chain, stores'.dtoFieldValidation current = stores.dtoFieldValidation current
  classValidation : ∀ current ∈ cls.chain, stores'.classValidation current = stores.classValidation current

namespace SameStored
variable {stores stores' : Stores} {cls : Class} (h : SameStored stores stores' cls) (bags : Bags)
include h

theorem getDtoBindingSchema : getDtoBindingSchema stores' bags cls = getDtoBindingSchema stores bags cls := by
  have hstored : getInheritedStoredDtoBindingMap stores' cls = getInheritedStoredDtoBindingMap stores cls := by
    refine List.foldl_ext _ _ _ fun merged current hcurrent => ?_
    rw [h.dtoFieldBinding current (List.mem_reverse.1 hcurrent)]
  rw [Core.getDtoBindingSchema, Core.getDtoBindingSchema, hstored]

theorem getDtoValidationSchema : getDtoValidationSchema stores' bags cls = getDtoValidationSchema stores bags cls := by
  have hstored : getInheritedStoredDtoValidationMap stores' cls = getInheritedStoredDtoValidationMap stores cls := by
    refine List.foldl_ext _ _ _ fun merged current hcurrent => ?_
    rw [h.dtoFieldValidation current (List.mem_reverse.1 hcurrent)]
  rw [Core.getDtoValidationSchema, Core.getDtoValidationSchema, hstored]

theorem getClassValidationRules : getClassValidationRules stores' bags cls = getClassValidationRules stores bags cls := by
  have hstored : getInheritedStoredClassValidationRules stores' cls = getInheritedStoredClassValidationRules stores cls :=
    List.flatMap_congr fun current hcurrent => h.classValidation current (List.mem_reverse.1 hcurrent)
  rw [Core.getClassValidationRules, Core.getClassValidationRules, hstored]

end SameStored

end Fluo.Core
