import Fluo.Core.DtoMetadata
import Fluo.Validation.Acceptance
/-!
# Mapped DTO types

`PickType`, `OmitType`, `PartialType` and `IntersectionType` copy the metadata of DTO
classes to a class that they create. What is recorded of a class names rules by their
identity; a `RuleTable` says what they are, and a `ClassDefinition` is read through it.
-/

namespace Fluo.Validation
open Fluo.Lib
open Fluo.Core (Stores Bags Ref DtoFieldBindingMetadata ClassValidationRule IsNew)

structure RuleTable where
  kind : Ref → RuleKind Core.Class JsNumber
  /-- The description of a symbol. -/
  description : Nat → Utf16
  /-- The rule that `PartialType` adds. -/
  optional : Ref
  kind_optional : kind optional = .optional

/-- The classes of an application: what is recorded of them, their names, and the own
properties that their constructors set. -/
structure Declarations where
  stores : Stores
  bags : Bags
  name : Core.Class → Utf16
  initial : Core.Class → Properties Core.Class

namespace RuleTable
variable (table : RuleTable)

def toPropertyKey : Core.MetadataPropertyKey → MetadataPropertyKey
  | .text name => .text name
  | .symbol id => .symbol id (table.description id)

def toRule (rule : Core.DtoFieldValidationRule) : DtoFieldValidationRule Core.Class JsNumber where
  kind := table.kind rule.rule
  each := rule.each.getD false
  code := rule.code
  message := rule.message

def toBindingEntry (entry : Core.MetadataPropertyKey × DtoFieldBindingMetadata) : DtoBindingEntry := ⟨table.toPropertyKey entry.1, entry.2⟩

def toValidationEntry (entry : Core.MetadataPropertyKey × List Core.DtoFieldValidationRule) : DtoValidationEntry Core.Class JsNumber :=
  ⟨table.toPropertyKey entry.1, entry.2.map table.toRule⟩

def definition (declarations : Declarations) (cls : Core.Class) : ClassDefinition Core.Class where
  name := declarations.name cls
  bindingSchema := (Core.getDtoBindingSchema declarations.stores declarations.bags cls).map table.toBindingEntry
  validationSchema := (Core.getDtoValidationSchema declarations.stores declarations.bags cls).map table.toValidationEntry
  superclasses := cls.chain.tail
  initial := declarations.initial cls
  classValidationRules := Core.getClassValidationRules declarations.stores declarations.bags cls

theorem validationSchema_definition (declarations : Declarations) (cls : Core.Class) :
    (table.definition declarations cls).validationSchema =
      (Core.getDtoValidationSchema declarations.stores declarations.bags cls).map table.toValidationEntry := rfl

end RuleTable

/-! ## The helpers -/

def collectDtoKeys (declarations : Declarations) (dto : Core.Class) : List Core.MetadataPropertyKey :=
  ((Core.getDtoBindingSchema declarations.stores declarations.bags dto).map Prod.fst ++
    (Core.getDtoValidationSchema declarations.stores declarations.bags dto).map Prod.fst).eraseDups

/-- `derived` is the class that is created. Its constructor sets each of the keys to `undefined`. -/
def createDerivedDto (table : RuleTable) (name : Utf16) (keys : List Core.MetadataPropertyKey) (derived : Core.Class)
    (declarations : Declarations) : Declarations :=
  { declarations with
    name := Function.update declarations.name derived name
    initial := Function.update declarations.initial derived
      (keys.foldl (fun created key => assign created (table.toPropertyKey key) (.given .undefined)) []) }

def copyDtoMetadata (bags : Bags) (source target : Core.Class) (includes : Core.MetadataPropertyKey → Bool) (copyClassRules : Bool) (stores : Stores) :
    Stores :=
  let bound := ((Core.getDtoBindingSchema stores bags source).filter fun entry => includes entry.1).foldl
    (Core.defineDtoFieldBindingMetadata target) stores
  let validated := ((Core.getDtoValidationSchema bound bags source).filter fun entry => includes entry.1).foldl
    (Core.appendDtoFieldValidationRules target) bound
  if copyClassRules then (Core.getClassValidationRules validated bags source).foldl (Core.appendClassValidationRule target) validated
  else validated

/-! ## The mapped types -/

section MappedTypes
variable (table : RuleTable) (declarations : Declarations) (derived : Core.Class)

def pickType (BaseDto : Core.Class) (keys : List Core.MetadataPropertyKey) : Declarations :=
  let created := createDerivedDto table (declarations.name BaseDto ++ units "PickType")
    ((collectDtoKeys declarations BaseDto).filter (· ∈ keys)) derived declarations
  { created with stores := copyDtoMetadata created.bags BaseDto derived (· ∈ keys) false created.stores }

def omitType (BaseDto : Core.Class) (keys : List Core.MetadataPropertyKey) : Declarations :=
  let created := createDerivedDto table (declarations.name BaseDto ++ units "OmitType")
    ((collectDtoKeys declarations BaseDto).filter (· ∉ keys)) derived declarations
  { created with stores := copyDtoMetadata created.bags BaseDto derived (· ∉ keys) false created.stores }

def intersectionName (baseDtos : List Core.Class) : Utf16 :=
  let names := baseDtos.flatMap declarations.name
  (if names = [] then units "Anonymous" else names) ++ units "IntersectionType"

def intersectionType (baseDtos : List Core.Class) : Declarations :=
  let created := createDerivedDto table (intersectionName declarations baseDtos) (baseDtos.flatMap (collectDtoKeys declarations)) derived
    declarations
  { created with
    stores := baseDtos.foldl (fun stores BaseDto => copyDtoMetadata created.bags BaseDto derived (fun _ => true) true stores) created.stores }

def partialBinding (metadata : DtoFieldBindingMetadata) : DtoFieldBindingMetadata := { metadata with optional := some true }

def hasOptional (rules : List Core.DtoFieldValidationRule) : Bool := rules.any fun rule => isOptional (table.toRule rule)

/-- The rules of a field, which is optional then. -/
def appendPartialRules (stores : Stores) (entry : Core.MetadataPropertyKey × List Core.DtoFieldValidationRule) : Stores :=
  let appended := Core.appendDtoFieldValidationRules derived stores entry
  if hasOptional table entry.2 then appended
  else Core.appendDtoFieldValidationRule derived entry.1 appended { rule := table.optional }

def partialType (BaseDto : Core.Class) : Declarations :=
  let created := createDerivedDto table (declarations.name BaseDto ++ units "PartialType") (collectDtoKeys declarations BaseDto) derived declarations
  let bound := (Core.getDtoBindingSchema created.stores created.bags BaseDto).foldl
    (fun stores entry => Core.defineDtoFieldBindingMetadata derived stores (entry.1, partialBinding entry.2)) created.stores
  { created with
    stores := (Core.getDtoValidationSchema bound created.bags BaseDto).foldl (appendPartialRules table derived) bound }

end MappedTypes

/-! ## What a mapped type has of its bases -/

section Copies
variable {bags : Bags} {source target : Core.Class} {stores : Stores}

theorem sameStored_of_ne (stores : Stores) (h : target ∉ source.chain) {stores' : Stores}
    (hbinding : ∀ current, current ≠ target → stores'.dtoFieldBinding current = stores.dtoFieldBinding current)
    (hvalidation : ∀ current, current ≠ target → stores'.dtoFieldValidation current = stores.dtoFieldValidation current)
    (hclass : ∀ current, current ≠ target → stores'.classValidation current = stores.classValidation current) :
    Core.SameStored stores stores' source := by
  have hne {current : Core.Class} (hcurrent : current ∈ source.chain) : current ≠ target := fun heq => h (heq ▸ hcurrent)
  exact ⟨fun current hcurrent => hbinding current (hne hcurrent), fun current hcurrent => hvalidation current (hne hcurrent),
    fun current hcurrent => hclass current (hne hcurrent)⟩

theorem sameStored_defined (h : target ∉ source.chain) (binding : OrderedMap Core.MetadataPropertyKey DtoFieldBindingMetadata) :
    Core.SameStored stores { stores with dtoFieldBinding := Function.update stores.dtoFieldBinding target binding } source :=
  sameStored_of_ne stores h (fun _ hne => Function.update_of_ne hne _ _) (fun _ _ => rfl) fun _ _ => rfl

theorem sameStored_appended (h : target ∉ source.chain) (binding : OrderedMap Core.MetadataPropertyKey DtoFieldBindingMetadata)
    (validation : OrderedMap Core.MetadataPropertyKey (List Core.DtoFieldValidationRule)) :
    Core.SameStored stores
      { stores with
        dtoFieldBinding := Function.update stores.dtoFieldBinding target binding
        dtoFieldValidation := Function.update stores.dtoFieldValidation target validation } source :=
  sameStored_of_ne stores h (fun _ hne => Function.update_of_ne hne _ _) (fun _ hne => Function.update_of_ne hne _ _) fun _ _ => rfl

theorem copyDtoMetadata_eq (h : target ∉ source.chain) (includes : Core.MetadataPropertyKey → Bool) (copyClassRules : Bool) :
    copyDtoMetadata bags source target includes copyClassRules stores =
      { stores with
        dtoFieldBinding := Function.update stores.dtoFieldBinding target
          ((stores.dtoFieldBinding target).setAll ((Core.getDtoBindingSchema stores bags source).filter fun entry => includes entry.1))
        dtoFieldValidation := Function.update stores.dtoFieldValidation target
          ((stores.dtoFieldValidation target).appendAll ((Core.getDtoValidationSchema stores bags source).filter fun entry => includes entry.1))
        classValidation := Function.update stores.classValidation target
          (stores.classValidation target ++ if copyClassRules then Core.getClassValidationRules stores bags source else []) } := by
  have hfilled : OrderedMap.Filled ((Core.getDtoValidationSchema stores bags source).filter fun entry => includes entry.1) :=
    (Core.filled_getDtoValidationSchema stores bags source).filter _
  rw [copyDtoMetadata]
  rw [Core.foldl_defineDtoFieldBindingMetadata]
  rw [(sameStored_defined h _).getDtoValidationSchema]
  rw [Core.foldl_appendDtoFieldValidationRules _ _ hfilled]
  cases copyClassRules with
  | false => simp
  | true =>
    rw [(sameStored_appended h _ _).getClassValidationRules]
    rw [Core.foldl_appendClassValidationRule]
    simp

end Copies

/-- `after` has the metadata of a class that `before` did not have, and of the other classes what `before` has. -/
structure Adds (before after : Declarations) (derived : Core.Class) (metadata : Core.Stored) : Prop where
  bags : after.bags = before.bags
  stored : after.stores.of derived = metadata
  same : ∀ cls, derived ∉ cls.chain → Core.SameStored before.stores after.stores cls

namespace Adds
variable {before after : Declarations} {derived : Core.Class} {metadata : Core.Stored} (h : Adds before after derived metadata) (table : RuleTable)
include h

theorem bindingSchema_base {cls : Core.Class} (hcls : derived ∉ cls.chain) :
    (table.definition after cls).bindingSchema = (table.definition before cls).bindingSchema := by
  rw [RuleTable.definition, RuleTable.definition, h.bags, (h.same cls hcls).getDtoBindingSchema]

theorem validationSchema_base {cls : Core.Class} (hcls : derived ∉ cls.chain) :
    (table.definition after cls).validationSchema = (table.definition before cls).validationSchema := by
  rw [RuleTable.definition, RuleTable.definition, h.bags, (h.same cls hcls).getDtoValidationSchema]

theorem classValidationRules_base {cls : Core.Class} (hcls : derived ∉ cls.chain) :
    (table.definition after cls).classValidationRules = (table.definition before cls).classValidationRules := by
  rw [RuleTable.definition, RuleTable.definition, h.bags, (h.same cls hcls).getClassValidationRules]

variable (hnew : IsNew before.stores before.bags derived)
include hnew

theorem bindingSchema_derived (hkeyed : metadata.dtoFieldBinding.Keyed) :
    (table.definition after derived).bindingSchema = metadata.dtoFieldBinding.map table.toBindingEntry := by
  have hstored : after.stores.dtoFieldBinding derived = metadata.dtoFieldBinding := congrArg Core.Stored.dtoFieldBinding h.stored
  rw [← hstored] at hkeyed ⊢
  rw [RuleTable.definition, h.bags, Core.getDtoBindingSchema_stored hnew.chain hnew.standardBinding hkeyed]

theorem validationSchema_derived (hkeyed : metadata.dtoFieldValidation.Keyed) (hfilled : metadata.dtoFieldValidation.Filled) :
    (table.definition after derived).validationSchema = metadata.dtoFieldValidation.map table.toValidationEntry := by
  have hstored : after.stores.dtoFieldValidation derived = metadata.dtoFieldValidation := congrArg Core.Stored.dtoFieldValidation h.stored
  rw [← hstored] at hkeyed hfilled ⊢
  rw [RuleTable.definition, h.bags, Core.getDtoValidationSchema_stored hnew.chain hnew.standardValidation hkeyed hfilled]

theorem classValidationRules_derived : (table.definition after derived).classValidationRules = metadata.classValidation := by
  have hstored : after.stores.classValidation derived = metadata.classValidation := congrArg Core.Stored.classValidation h.stored
  rw [RuleTable.definition, h.bags, Core.getClassValidationRules_stored hnew.chain hnew.standardClassValidation, hstored]

end Adds

section Added
variable (table : RuleTable) {declarations : Declarations} {derived : Core.Class} (hnew : IsNew declarations.stores declarations.bags derived)
include hnew

theorem adds_copyDtoMetadata {BaseDto : Core.Class} (hbase : derived ∉ BaseDto.chain) (includes : Core.MetadataPropertyKey → Bool)
    {after : Declarations} (hbags : after.bags = declarations.bags)
    (hstores : after.stores = copyDtoMetadata declarations.bags BaseDto derived includes false declarations.stores) :
    Adds declarations after derived
      { dtoFieldBinding := (Core.getDtoBindingSchema declarations.stores declarations.bags BaseDto).filter fun entry => includes entry.1
        dtoFieldValidation := (Core.getDtoValidationSchema declarations.stores declarations.bags BaseDto).filter fun entry => includes entry.1
        classValidation := [] } := by
  rw [copyDtoMetadata_eq hbase] at hstores
  refine ⟨hbags, ?_, fun cls hcls => ?_⟩
  · rw [hstores]
    simp only [Stores.of, Function.update_self, hnew.storedBinding, hnew.storedValidation, hnew.storedClassValidation]
    rw [OrderedMap.setAll_nil ((Core.keyed_getDtoBindingSchema _ _ _).filter _)]
    rw [OrderedMap.appendAll_nil ((Core.keyed_getDtoValidationSchema _ _ _).filter _)]
    rfl
  · rw [hstores]
    exact sameStored_of_ne _ hcls (fun _ hne => Function.update_of_ne hne _ _) (fun _ hne => Function.update_of_ne hne _ _)
      fun _ hne => Function.update_of_ne hne _ _

theorem adds_pickType {BaseDto : Core.Class} (hbase : derived ∉ BaseDto.chain) (keys : List Core.MetadataPropertyKey) :
    Adds declarations (pickType table declarations derived BaseDto keys) derived
      { dtoFieldBinding := (Core.getDtoBindingSchema declarations.stores declarations.bags BaseDto).filter fun entry => entry.1 ∈ keys
        dtoFieldValidation := (Core.getDtoValidationSchema declarations.stores declarations.bags BaseDto).filter fun entry => entry.1 ∈ keys
        classValidation := [] } :=
  adds_copyDtoMetadata hnew hbase (· ∈ keys) rfl rfl

theorem adds_omitType {BaseDto : Core.Class} (hbase : derived ∉ BaseDto.chain) (keys : List Core.MetadataPropertyKey) :
    Adds declarations (omitType table declarations derived BaseDto keys) derived
      { dtoFieldBinding := (Core.getDtoBindingSchema declarations.stores declarations.bags BaseDto).filter fun entry => entry.1 ∉ keys
        dtoFieldValidation := (Core.getDtoValidationSchema declarations.stores declarations.bags BaseDto).filter fun entry => entry.1 ∉ keys
        classValidation := [] } :=
  adds_copyDtoMetadata hnew hbase (· ∉ keys) rfl rfl

end Added

/-! ### `PartialType` -/

section Partial
variable (table : RuleTable) {declarations : Declarations} {derived : Core.Class}

def partialRules (rules : List Core.DtoFieldValidationRule) : List Core.DtoFieldValidationRule :=
  if hasOptional table rules then rules else rules ++ [{ rule := table.optional }]

theorem appendPartialRules_eq (stores : Stores) (entry : Core.MetadataPropertyKey × List Core.DtoFieldValidationRule) :
    appendPartialRules table derived stores entry = Core.appendDtoFieldValidationRules derived stores (entry.1, partialRules table entry.2) := by
  rw [appendPartialRules, partialRules]
  split
  case isTrue => rfl
  case isFalse =>
    rw [Core.appendDtoFieldValidationRules, Core.appendDtoFieldValidationRules, List.foldl_append]
    rfl

theorem keyed_map_snd {ν ν' : Type} {entries : OrderedMap Core.MetadataPropertyKey ν} (h : entries.Keyed) (f : ν → ν') :
    OrderedMap.Keyed (entries.map fun entry => (entry.1, f entry.2)) := by
  rw [OrderedMap.Keyed, List.map_map]
  exact h

theorem partialRules_ne_nil {rules : List Core.DtoFieldValidationRule} (h : rules ≠ []) : partialRules table rules ≠ [] := by
  rw [partialRules]
  split
  case isTrue => exact h
  case isFalse => simp

theorem adds_partialType (hnew : IsNew declarations.stores declarations.bags derived) {BaseDto : Core.Class} (hbase : derived ∉ BaseDto.chain) :
    Adds declarations (partialType table declarations derived BaseDto) derived
      { dtoFieldBinding := (Core.getDtoBindingSchema declarations.stores declarations.bags BaseDto).map fun entry =>
          (entry.1, partialBinding entry.2)
        dtoFieldValidation := (Core.getDtoValidationSchema declarations.stores declarations.bags BaseDto).map fun entry =>
          (entry.1, partialRules table entry.2)
        classValidation := [] } := by
  have hbinding := Core.keyed_getDtoBindingSchema declarations.stores declarations.bags BaseDto
  have hvalidation := Core.keyed_getDtoValidationSchema declarations.stores declarations.bags BaseDto
  have hstores : (partialType table declarations derived BaseDto).stores = { declarations.stores with
      dtoFieldBinding := Function.update declarations.stores.dtoFieldBinding derived
        ((Core.getDtoBindingSchema declarations.stores declarations.bags BaseDto).map fun entry => (entry.1, partialBinding entry.2))
      dtoFieldValidation := Function.update declarations.stores.dtoFieldValidation derived
        ((Core.getDtoValidationSchema declarations.stores declarations.bags BaseDto).map fun entry => (entry.1, partialRules table entry.2)) } := by
    have hdefined := Core.foldl_defineDtoFieldBindingMetadata derived declarations.stores
      ((Core.getDtoBindingSchema declarations.stores declarations.bags BaseDto).map fun entry => (entry.1, partialBinding entry.2))
    rw [List.foldl_map, hnew.storedBinding, OrderedMap.setAll_nil (keyed_map_snd hbinding partialBinding)] at hdefined
    have hloop (stores : Stores) (entries : OrderedMap Core.MetadataPropertyKey (List Core.DtoFieldValidationRule)) :
        entries.foldl (appendPartialRules table derived) stores =
          (entries.map fun entry => (entry.1, partialRules table entry.2)).foldl (Core.appendDtoFieldValidationRules derived) stores := by
      rw [List.foldl_map]
      exact List.foldl_ext _ _ _ fun stores entry _ => appendPartialRules_eq table stores entry
    have hfilled : OrderedMap.Filled ((Core.getDtoValidationSchema declarations.stores declarations.bags BaseDto).map fun entry =>
        (entry.1, partialRules table entry.2)) := by
      intro entry hentry
      obtain ⟨entry, hmem, rfl⟩ := List.mem_map.1 hentry
      exact partialRules_ne_nil table (Core.filled_getDtoValidationSchema _ _ _ entry hmem)
    simp only [partialType, createDerivedDto]
    rw [hdefined, (sameStored_defined hbase _).getDtoValidationSchema, hloop, Core.foldl_appendDtoFieldValidationRules _ _ hfilled]
    rw [hnew.storedValidation, OrderedMap.appendAll_nil (keyed_map_snd hvalidation (partialRules table))]
  refine ⟨rfl, ?_, fun cls hcls => ?_⟩
  · rw [hstores]
    simp only [Stores.of, Function.update_self, hnew.storedClassValidation]
  · rw [hstores]
    exact sameStored_appended hcls _ _

end Partial

/-! ### `IntersectionType` -/

section Intersection
variable (table : RuleTable) {declarations : Declarations} {derived : Core.Class}

theorem foldl_copyDtoMetadata (bags : Bags) {baseDtos : List Core.Class} (h : ∀ BaseDto ∈ baseDtos, derived ∉ BaseDto.chain) (stores : Stores) :
    baseDtos.foldl (fun stores BaseDto => copyDtoMetadata bags BaseDto derived (fun _ => true) true stores) stores =
      { stores with
        dtoFieldBinding := Function.update stores.dtoFieldBinding derived
          (baseDtos.foldl (fun map BaseDto => map.setAll (Core.getDtoBindingSchema stores bags BaseDto)) (stores.dtoFieldBinding derived))
        dtoFieldValidation := Function.update stores.dtoFieldValidation derived
          (baseDtos.foldl (fun map BaseDto => map.appendAll (Core.getDtoValidationSchema stores bags BaseDto)) (stores.dtoFieldValidation derived))
        classValidation := Function.update stores.classValidation derived
          (stores.classValidation derived ++ baseDtos.flatMap (Core.getClassValidationRules stores bags)) } := by
  induction baseDtos generalizing stores with
  | nil => simp
  | cons first rest ih =>
    obtain ⟨hfirst, hrest⟩ := List.forall_mem_cons.1 h
    have hsame (stores' : Stores) (hstores : stores' = copyDtoMetadata bags first derived (fun _ => true) true stores) (BaseDto : Core.Class)
        (hBaseDto : BaseDto ∈ rest) : Core.SameStored stores stores' BaseDto := by
      rw [hstores, copyDtoMetadata_eq hfirst]
      exact sameStored_of_ne stores (hrest BaseDto hBaseDto) (fun _ hne => Function.update_of_ne hne _ _)
        (fun _ hne => Function.update_of_ne hne _ _) fun _ hne => Function.update_of_ne hne _ _
    rw [List.foldl_cons, ih hrest]
    generalize hstores : copyDtoMetadata bags first derived (fun _ => true) true stores = stores'
    have hbinding (map : OrderedMap Core.MetadataPropertyKey DtoFieldBindingMetadata) :
        rest.foldl (fun map BaseDto => map.setAll (Core.getDtoBindingSchema stores' bags BaseDto)) map =
          rest.foldl (fun map BaseDto => map.setAll (Core.getDtoBindingSchema stores bags BaseDto)) map :=
      List.foldl_ext _ _ _ fun map BaseDto hBaseDto => by rw [(hsame stores' hstores.symm BaseDto hBaseDto).getDtoBindingSchema]
    have hvalidation (map : OrderedMap Core.MetadataPropertyKey (List Core.DtoFieldValidationRule)) :
        rest.foldl (fun map BaseDto => map.appendAll (Core.getDtoValidationSchema stores' bags BaseDto)) map =
          rest.foldl (fun map BaseDto => map.appendAll (Core.getDtoValidationSchema stores bags BaseDto)) map :=
      List.foldl_ext _ _ _ fun map BaseDto hBaseDto => by rw [(hsame stores' hstores.symm BaseDto hBaseDto).getDtoValidationSchema]
    have hclass : rest.flatMap (Core.getClassValidationRules stores' bags) = rest.flatMap (Core.getClassValidationRules stores bags) :=
      List.flatMap_congr fun BaseDto hBaseDto => (hsame stores' hstores.symm BaseDto hBaseDto).getClassValidationRules bags
    rw [hbinding, hvalidation, hclass, ← hstores, copyDtoMetadata_eq hfirst]
    simp

def unitedRules (declarations : Declarations) (baseDtos : List Core.Class) : OrderedMap Core.MetadataPropertyKey (List Core.DtoFieldValidationRule) :=
  baseDtos.foldl (fun map BaseDto => map.appendAll (Core.getDtoValidationSchema declarations.stores declarations.bags BaseDto)) []

/-- The bindings of the classes, a later one in the place of an earlier. -/
def unitedBindings (declarations : Declarations) (baseDtos : List Core.Class) : OrderedMap Core.MetadataPropertyKey DtoFieldBindingMetadata :=
  baseDtos.foldl (fun map BaseDto => map.setAll (Core.getDtoBindingSchema declarations.stores declarations.bags BaseDto)) []

theorem adds_intersectionType (hnew : IsNew declarations.stores declarations.bags derived) {baseDtos : List Core.Class}
    (hbases : ∀ BaseDto ∈ baseDtos, derived ∉ BaseDto.chain) :
    Adds declarations (intersectionType table declarations derived baseDtos) derived
      { dtoFieldBinding := unitedBindings declarations baseDtos
        dtoFieldValidation := unitedRules declarations baseDtos
        classValidation := baseDtos.flatMap (Core.getClassValidationRules declarations.stores declarations.bags) } := by
  have hstores := foldl_copyDtoMetadata declarations.bags hbases declarations.stores
  rw [hnew.storedBinding, hnew.storedValidation, hnew.storedClassValidation, List.nil_append] at hstores
  refine ⟨rfl, ?_, fun cls hcls => ?_⟩
  · simp only [intersectionType, createDerivedDto]
    rw [hstores]
    simp only [Stores.of, Function.update_self]
    rfl
  · simp only [intersectionType, createDerivedDto]
    rw [hstores]
    exact sameStored_of_ne _ hcls (fun _ hne => Function.update_of_ne hne _ _) (fun _ hne => Function.update_of_ne hne _ _)
      fun _ hne => Function.update_of_ne hne _ _

theorem keyed_unitedRules (baseDtos : List Core.Class) : (unitedRules declarations baseDtos).Keyed :=
  List.foldlRecOn baseDtos _ List.nodup_nil fun _ hkeyed _ _ => hkeyed.appendAll _

theorem filled_unitedRules (baseDtos : List Core.Class) : (unitedRules declarations baseDtos).Filled :=
  List.foldlRecOn baseDtos _ (fun _ hentry => absurd hentry List.not_mem_nil) fun _ hfilled _ _ =>
    hfilled.appendAll (Core.filled_getDtoValidationSchema _ _ _)

theorem listOf_foldl_appendAll (baseDtos : List Core.Class) (map : OrderedMap Core.MetadataPropertyKey (List Core.DtoFieldValidationRule))
    (key : Core.MetadataPropertyKey) :
    (baseDtos.foldl (fun map BaseDto => map.appendAll (Core.getDtoValidationSchema declarations.stores declarations.bags BaseDto)) map).listOf key =
      map.listOf key ++ baseDtos.flatMap fun BaseDto =>
        OrderedMap.listOf (Core.getDtoValidationSchema declarations.stores declarations.bags BaseDto) key := by
  induction baseDtos generalizing map with
  | nil => simp
  | cons first rest ih =>
    rw [List.foldl_cons, ih, OrderedMap.listOf_appendAll _ (Core.keyed_getDtoValidationSchema _ _ _), List.flatMap_cons, List.append_assoc]

theorem listOf_unitedRules (baseDtos : List Core.Class) (key : Core.MetadataPropertyKey) :
    (unitedRules declarations baseDtos).listOf key = baseDtos.flatMap fun BaseDto =>
      OrderedMap.listOf (Core.getDtoValidationSchema declarations.stores declarations.bags BaseDto) key :=
  listOf_foldl_appendAll baseDtos [] key

end Intersection

end Fluo.Validation
