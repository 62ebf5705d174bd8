import Fluo.Validation.MappedTypes
/-!
# The rules of mapped DTO types

Which inputs a mapped type accepts, by the rules of its bases. An input is a plain
object, which the walk reads as it is.
-/

namespace Fluo.Validation
open Fluo.Lib
open Fluo.Core (IsNew)

section Outcomes
variable {δ : Type} [DecidableEq δ] (host : Host δ) (classes : δ → ClassDefinition δ)

/-- `DefaultValidator.validate` throws an error with the issues, or returns if there is none. -/
def Reports (target : δ) (value : Value δ) (issues : List ValidationIssue) : Prop :=
  Yields (fun fuel => validate host classes fuel value target) (if issues.isEmpty then .ok () else .error issues)

def Accepts (target : δ) (value : Value δ) : Prop := Reports host classes target value []

/-- The issues of each field of the input. -/
def fieldErrors (fuel : Nat) (target : δ) (value : Value δ) : Option (List (MetadataPropertyKey × List ValidationIssue)) :=
  collectFieldIssues host classes (createNestedDtoInstance host classes fuel) (collectValidationIssuesInternal host classes fuel)
    (enterTraversal [] value) target value none none

def FieldErrors (target : δ) (value : Value δ) (errors : List (MetadataPropertyKey × List ValidationIssue)) : Prop :=
  Yields (fun fuel => fieldErrors host classes fuel target value) errors

/-- The walk of the input, in which it is itself. -/
def Holds (rule : DtoFieldValidationRule δ JsNumber) (dto : Value δ) (propertyKey : MetadataPropertyKey) (value : Value δ) : Prop :=
  Enough fun fuel => RuleHolds host classes (createNestedDtoInstance host classes fuel) (Valid host classes fuel) (enterTraversal [] dto) rule dto
    propertyKey value

/-- The rules of a field hold if it is present and its conditions do not leave it out. -/
def HoldsIfPresent (dto : Value δ) (entry : DtoValidationEntry δ JsNumber) : Prop :=
  let value := host.readProperty dto entry.propertyKey
  isMissing value = false → shouldConditionallySkip host entry.rules dto value = false →
    ∀ rule ∈ entry.rules, isConstraint rule → Holds host classes rule dto entry.propertyKey value

/-- The classes that have rules of a field agree whether its conditions leave it out. -/
def SkipAlike (dtos : List δ) (value : Value δ) : Prop :=
  ∀ dto ∈ dtos, ∀ dto' ∈ dtos, ∀ entry ∈ (classes dto).validationSchema, ∀ entry' ∈ (classes dto').validationSchema,
    entry.propertyKey = entry'.propertyKey →
      (Skipped host entry.rules value (host.readProperty value entry.propertyKey) ↔
        Skipped host entry'.rules value (host.readProperty value entry'.propertyKey))

variable {host classes} {target : δ} {value : Value δ}

omit [DecidableEq δ] in
theorem isActive_nil (value : Value δ) : isActive [] value = false := by
  unfold isActive
  split <;> simp

theorem validate_of_isPlainObject (hplain : host.isPlainObject value = true) (fuel : Nat) :
    validate host classes fuel value target = (collectValidationIssues host classes fuel target value).map fun issues =>
      if issues.isEmpty then .ok () else .error issues := by
  rw [validate, assertValidRootValue, hplain, Bool.or_true, if_pos rfl]
  cases collectValidationIssues host classes fuel target value <;> rfl

theorem collectValidationIssues_succ (fuel : Nat) :
    collectValidationIssues host classes (fuel + 1) target value = (fieldErrors host classes fuel target value).map fun errors =>
      errors.flatMap Prod.snd ++ validateClassRules host (classes target).classValidationRules value none none := by
  rw [collectValidationIssues, collectValidationIssuesInternal, isActive_nil, fieldErrors]
  cases collectFieldIssues host classes (createNestedDtoInstance host classes fuel) (collectValidationIssuesInternal host classes fuel)
    (enterTraversal [] value) target value none none <;> rfl

theorem reports_of_fieldErrors (hplain : host.isPlainObject value = true) {errors : List (MetadataPropertyKey × List ValidationIssue)}
    (h : FieldErrors host classes target value errors) :
    Reports host classes target value
      (errors.flatMap Prod.snd ++ validateClassRules host (classes target).classValidationRules value none none) := by
  refine Enough.succ.1 (Enough.mono h fun fuel hfuel => ?_)
  dsimp only at hfuel ⊢
  rw [validate_of_isPlainObject hplain, collectValidationIssues_succ, hfuel]
  rfl

theorem accepts_iff (hplain : host.isPlainObject value = true) :
    Accepts host classes target value ↔ Enough fun fuel =>
      DtoHolds host classes (createNestedDtoInstance host classes fuel) (Valid host classes fuel) (enterTraversal [] value) target value := by
  refine Enough.succ.symm.trans (Enough.congr fun fuel => ?_)
  have hjudges := judges_collectValidationIssuesInternal host classes (fuel + 1) [] target value none none
  simp only [Valid, isActive_nil, Bool.false_eq_true, false_or] at hjudges
  dsimp only
  rw [validate_of_isPlainObject hplain, ← hjudges, ← collectValidationIssues]
  cases collectValidationIssues host classes (fuel + 1) target value with
  | none => simp
  | some issues => cases issues <;> simp

end Outcomes

/-! ## Kept fields -/

/-- The metadata of `derived` is that of the fields of `base` that are kept, without class rules. -/
structure Restricts {δ : Type} (classes : δ → ClassDefinition δ) (derived base : δ) (kept : MetadataPropertyKey → Bool) : Prop where
  bindingSchema : (classes derived).bindingSchema = (classes base).bindingSchema.filter fun entry => kept entry.propertyKey
  validationSchema : (classes derived).validationSchema = (classes base).validationSchema.filter fun entry => kept entry.propertyKey
  classValidationRules : (classes derived).classValidationRules = []
  distinct : ((classes base).bindingSchema.map (·.propertyKey)).Nodup

namespace Restricts
variable {δ : Type} [DecidableEq δ] {host : Host δ} {classes : δ → ClassDefinition δ} {derived base : δ} {kept : MetadataPropertyKey → Bool}
  {value : Value δ}

omit [DecidableEq δ] in
theorem getDtoBindingMap_eq {target : ClassDefinition δ} (h : (target.bindingSchema.map (·.propertyKey)).Nodup) :
    getDtoBindingMap target = target.bindingSchema.map fun entry => (entry.propertyKey, entry.metadata) := by
  have hkeyed : OrderedMap.Keyed (target.bindingSchema.map fun entry => (entry.propertyKey, entry.metadata)) := by
    rw [OrderedMap.Keyed, List.map_map]
    exact h
  refine Eq.trans ?_ (OrderedMap.setAll_nil hkeyed)
  rw [getDtoBindingMap, OrderedMap.setAll, List.foldl_map]

omit [DecidableEq δ] in
theorem fieldContext_eq (h : Restricts classes derived base kept) {propertyKey : MetadataPropertyKey} (hkept : kept propertyKey = true) :
    fieldContext classes derived value propertyKey none none = fieldContext classes base value propertyKey none none := by
  have hderived : ((classes derived).bindingSchema.map (·.propertyKey)).Nodup := by
    rw [h.bindingSchema]
    exact h.distinct.sublist (List.filter_sublist.map _)
  have hkeyed : OrderedMap.Keyed ((classes base).bindingSchema.map fun entry => (entry.propertyKey, entry.metadata)) := by
    rw [OrderedMap.Keyed, List.map_map]
    exact h.distinct
  have hget : (getDtoBindingMap (classes derived)).get propertyKey = (getDtoBindingMap (classes base)).get propertyKey := by
    have hfilter := OrderedMap.get_filter hkeyed (fun entry => kept entry.1) propertyKey
    rw [List.filter_map] at hfilter
    rw [getDtoBindingMap_eq hderived, getDtoBindingMap_eq h.distinct, h.bindingSchema]
    refine hfilter.trans ?_
    cases OrderedMap.get ((classes base).bindingSchema.map fun entry => (entry.propertyKey, entry.metadata)) propertyKey with
    | none => rfl
    | some metadata => exact Option.filter_some_pos hkept
  rw [fieldContext, fieldContext, hget]

variable {errors : List (MetadataPropertyKey × List ValidationIssue)}

theorem fieldErrors_eq (h : Restricts classes derived base kept) {fuel : Nat}
    (herrors : fieldErrors host classes fuel base value = some errors) :
    fieldErrors host classes fuel derived value = some (errors.filter fun error => kept error.1) := by
  rw [fieldErrors, collectFieldIssues] at *
  rw [h.validationSchema]
  refine mapM_filter (fun entry error hentry => ?_) (fun entry hkept => ?_) herrors
  · obtain ⟨issues, -, hissues⟩ := Option.bind_eq_some_iff.1 hentry
    cases hissues
    rfl
  · rw [h.fieldContext_eq hkept]

theorem reports (h : Restricts classes derived base kept) (hplain : host.isPlainObject value = true)
    (herrors : FieldErrors host classes base value errors) :
    Reports host classes derived value ((errors.filter fun error => kept error.1).flatMap Prod.snd) := by
  have hderived : FieldErrors host classes derived value (errors.filter fun error => kept error.1) :=
    Enough.mono herrors fun fuel hfuel => h.fieldErrors_eq hfuel
  have hreports := reports_of_fieldErrors hplain hderived
  rw [h.classValidationRules] at hreports
  simpa [validateClassRules] using hreports

end Restricts

/-! ## Optional fields -/

section Partial
variable (table : RuleTable) {declarations : Declarations} {derived BaseDto : Core.Class} (host : Host Core.Class)

theorem isOptional_toRule : isOptional (table.toRule { rule := table.optional }) = true := by
  rw [isOptional, RuleTable.toRule, table.kind_optional]

theorem not_isConstraint_of_isOptional {δ : Type} {rule : DtoFieldValidationRule δ JsNumber} (h : isOptional rule = true) :
    isConstraint rule = false := by
  rw [isOptional] at h
  rw [isConstraint]
  split at h
  case h_1 hkind => rw [hkind]
  case h_2 => cases h

theorem any_partialRules (rules : List Core.DtoFieldValidationRule) : ((partialRules table rules).map table.toRule).any isOptional = true := by
  rw [partialRules]
  split
  case isTrue h =>
    rw [List.any_map]
    exact h
  case isFalse => simp [isOptional_toRule]

theorem shouldConditionallySkip_partialRules (rules : List Core.DtoFieldValidationRule) (dto value : Value Core.Class) :
    shouldConditionallySkip host ((partialRules table rules).map table.toRule) dto value =
      shouldConditionallySkip host (rules.map table.toRule) dto value := by
  rw [partialRules]
  split
  case isTrue => rfl
  case isFalse =>
    rw [List.map_append, shouldConditionallySkip, List.any_append, shouldConditionallySkip]
    simp [RuleTable.toRule, table.kind_optional]

variable {rules : List Core.DtoFieldValidationRule}

theorem mem_partialRules {rule : DtoFieldValidationRule Core.Class JsNumber} (h : isConstraint rule = true) :
    rule ∈ (partialRules table rules).map table.toRule ↔ rule ∈ rules.map table.toRule := by
  rw [partialRules]
  split
  case isTrue => rfl
  case isFalse =>
    rw [List.map_append, List.mem_append]
    refine or_iff_left fun hoptional => ?_
    rw [List.mem_singleton.1 hoptional, not_isConstraint_of_isOptional (isOptional_toRule table)] at h
    cases h

variable {classes : Core.Class → ClassDefinition Core.Class} {create : Active → Create Core.Class} {valid : Active → Core.Class → Value Core.Class → Prop} {active : Active}

theorem fieldHolds_partialRules {dto value : Value Core.Class} {propertyKey : MetadataPropertyKey} :
    FieldHolds host classes create valid active ((partialRules table rules).map table.toRule) dto propertyKey value ↔
      (isMissing value = false → shouldConditionallySkip host (rules.map table.toRule) dto value = false →
        ∀ rule ∈ rules.map table.toRule, isConstraint rule → RuleHolds host classes create valid active rule dto propertyKey value) := by
  rw [FieldHolds, Skipped, any_partialRules, shouldConditionallySkip_partialRules]
  cases hmissing : isMissing value with
  | true => simp
  | false =>
    cases hskip : shouldConditionallySkip host (rules.map table.toRule) dto value with
    | true => simp
    | false =>
      have happlies (rule : DtoFieldValidationRule Core.Class JsNumber) : Applies rule value ↔ isConstraint rule = true := by
        simp [Applies, shouldSkipRuleForMissingValue, hmissing]
      simp only [happlies, Bool.false_eq_true, and_false, or_false, false_or, true_imp_iff]
      constructor
      · intro h rule hrule hconstraint
        exact h rule ((mem_partialRules table hconstraint).2 hrule) hconstraint
      · intro h rule hrule hconstraint
        exact h rule ((mem_partialRules table hconstraint).1 hrule) hconstraint

variable {host} {value : Value Core.Class}

theorem accepts_partialType (hnew : IsNew declarations.stores declarations.bags derived) (hbase : derived ∉ BaseDto.chain)
    (hplain : host.isPlainObject value = true) :
    Accepts host (table.definition (partialType table declarations derived BaseDto)) derived value ↔
      ∀ entry ∈ (table.definition (partialType table declarations derived BaseDto) BaseDto).validationSchema,
        HoldsIfPresent host (table.definition (partialType table declarations derived BaseDto)) value entry := by
  have hadds := adds_partialType table hnew hbase
  have hkeyed := keyed_map_snd (Core.keyed_getDtoValidationSchema declarations.stores declarations.bags BaseDto) (partialRules table)
  have hfilled : OrderedMap.Filled ((Core.getDtoValidationSchema declarations.stores declarations.bags BaseDto).map fun entry =>
      (entry.1, partialRules table entry.2)) := by
    intro entry hentry
    obtain ⟨entry, hmem, rfl⟩ := List.mem_map.1 hentry
    exact partialRules_ne_nil table (Core.filled_getDtoValidationSchema _ _ _ entry hmem)
  have hderived := hadds.validationSchema_derived table hnew hkeyed hfilled
  have hclass := hadds.classValidationRules_derived table hnew
  rw [accepts_iff hplain, hadds.validationSchema_base table hbase, table.validationSchema_definition]
  simp only [DtoHolds, hclass, hderived, List.map_map, List.forall_mem_map, List.not_mem_nil, false_imp_iff, implies_true,
    and_true, Function.comp_apply]
  rw [Enough.forall_mem]
  refine forall₂_congr fun entry _ => ?_
  simp only [RuleTable.toValidationEntry, fieldHolds_partialRules, HoldsIfPresent, Holds]
  rw [Enough.imp]
  refine imp_congr_right fun _ => ?_
  rw [Enough.imp]
  refine imp_congr_right fun _ => ?_
  rw [Enough.forall_mem]
  exact forall₂_congr fun rule _ => Enough.imp

end Partial

/-! ## United fields -/

section Intersection
variable (table : RuleTable) {host : Host Core.Class} {classes : Core.Class → ClassDefinition Core.Class} {create : Active → Create Core.Class}
  {valid : Active → Core.Class → Value Core.Class → Prop} {active : Active}

theorem toPropertyKey_injective : Function.Injective table.toPropertyKey := by
  intro key key' h
  cases key <;> cases key' <;> simp_all [RuleTable.toPropertyKey]

def rulesOf (declarations : Declarations) (dto : Core.Class) (key : Core.MetadataPropertyKey) : List (DtoFieldValidationRule Core.Class JsNumber) :=
  (OrderedMap.listOf (Core.getDtoValidationSchema declarations.stores declarations.bags dto) key).map table.toRule

theorem forall_toValidationEntry {entries : OrderedMap Core.MetadataPropertyKey (List Core.DtoFieldValidationRule)} (hkeyed : entries.Keyed)
    {p : List (DtoFieldValidationRule Core.Class JsNumber) → MetadataPropertyKey → Prop} (hnil : ∀ key, p [] key) :
    (∀ entry ∈ entries.map table.toValidationEntry, p entry.rules entry.propertyKey) ↔
      ∀ key, p ((entries.listOf key).map table.toRule) (table.toPropertyKey key) := by
  rw [List.forall_mem_map]
  constructor
  · intro h key
    by_cases hmem : key ∈ entries.map Prod.fst
    · obtain ⟨entry, hentry, rfl⟩ := List.mem_map.1 hmem
      rw [OrderedMap.listOf_of_mem hkeyed hentry]
      exact h entry hentry
    · rw [OrderedMap.listOf, OrderedMap.get_eq_none.2 hmem]
      exact hnil _
  · intro h entry hentry
    have hrules := h entry.1
    rw [OrderedMap.listOf_of_mem hkeyed hentry] at hrules
    exact hrules

variable {dto : Value Core.Class} {propertyKey : MetadataPropertyKey} {dtos : List Core.Class}
    {rules : Core.Class → List (DtoFieldValidationRule Core.Class JsNumber)}

theorem fieldHolds_nil {value : Value Core.Class} :
    FieldHolds host classes create valid active [] dto propertyKey value := .inr fun _ hrule => absurd hrule List.not_mem_nil

theorem skipped_flatMap {value : Value Core.Class} :
    Skipped host (dtos.flatMap rules) dto value ↔ ∃ cls ∈ dtos, Skipped host (rules cls) dto value := by
  simp only [Skipped, shouldConditionallySkip, List.any_flatMap, List.any_eq_true (l := dtos)]
  constructor
  · rintro (⟨cls, hcls, h⟩ | ⟨⟨cls, hcls, h⟩, hmissing⟩)
    · exact ⟨cls, hcls, .inl h⟩
    · exact ⟨cls, hcls, .inr ⟨h, hmissing⟩⟩
  · rintro ⟨cls, hcls, h | ⟨h, hmissing⟩⟩
    · exact .inl ⟨cls, hcls, h⟩
    · exact .inr ⟨⟨cls, hcls, h⟩, hmissing⟩

theorem fieldHolds_flatMap {value : Value Core.Class}
    (h : ∀ cls ∈ dtos, FieldHolds host classes create valid active (rules cls) dto propertyKey value) :
    FieldHolds host classes create valid active (dtos.flatMap rules) dto propertyKey value := by
  by_cases hskipped : Skipped host (dtos.flatMap rules) dto value
  · exact .inl hskipped
  · refine .inr fun rule hrule happlies => ?_
    obtain ⟨cls, hcls, hrule⟩ := List.mem_flatMap.1 hrule
    rcases h cls hcls with hcls' | hholds
    · exact absurd (skipped_flatMap.2 ⟨cls, hcls, hcls'⟩) hskipped
    · exact hholds rule hrule happlies

theorem fieldHolds_of_flatMap {value : Value Core.Class}
    (halike : ∀ cls ∈ dtos, ∀ cls' ∈ dtos, rules cls ≠ [] → rules cls' ≠ [] → (Skipped host (rules cls) dto value ↔ Skipped host (rules cls') dto value))
    (h : FieldHolds host classes create valid active (dtos.flatMap rules) dto propertyKey value) {cls : Core.Class} (hcls : cls ∈ dtos) :
    FieldHolds host classes create valid active (rules cls) dto propertyKey value := by
  by_cases hnil : rules cls = []
  · rw [hnil]
    exact fieldHolds_nil
  rcases h with hskipped | hholds
  · obtain ⟨cls', hcls', hskipped⟩ := skipped_flatMap.1 hskipped
    have hnil' : rules cls' ≠ [] := by
      intro hnil'
      simp [hnil', Skipped, shouldConditionallySkip] at hskipped
    exact .inl ((halike cls hcls cls' hcls' hnil hnil').2 hskipped)
  · exact .inr fun rule hrule => hholds rule (List.mem_flatMap.2 ⟨cls, hcls, hrule⟩)

variable {declarations : Declarations} {derived : Core.Class} {baseDtos : List Core.Class} {value : Value Core.Class}

theorem dtoHolds_intersectionType (hnew : IsNew declarations.stores declarations.bags derived)
    (hbases : ∀ BaseDto ∈ baseDtos, derived ∉ BaseDto.chain) :
    DtoHolds host (table.definition (intersectionType table declarations derived baseDtos)) create valid active derived value ↔
      (∀ key, FieldHolds host (table.definition (intersectionType table declarations derived baseDtos)) create valid active
        (baseDtos.flatMap fun BaseDto => rulesOf table declarations BaseDto key) value (table.toPropertyKey key)
        (host.readProperty value (table.toPropertyKey key))) ∧
      ∀ BaseDto ∈ baseDtos, ∀ rule ∈ Core.getClassValidationRules declarations.stores declarations.bags BaseDto,
        (host.validateClass rule.validate value).Passes := by
  have hadds := adds_intersectionType table hnew hbases
  rw [DtoHolds, hadds.validationSchema_derived table hnew (keyed_unitedRules baseDtos) (filled_unitedRules baseDtos),
    hadds.classValidationRules_derived table hnew]
  refine and_congr ?_ (by simp only [List.mem_flatMap]; grind)
  rw [forall_toValidationEntry table (keyed_unitedRules baseDtos) (p := fun rules key =>
    FieldHolds host (table.definition (intersectionType table declarations derived baseDtos)) create valid active rules value key
      (host.readProperty value key)) fun key => fieldHolds_nil]
  refine forall_congr' fun key => ?_
  rw [listOf_unitedRules, List.map_flatMap]
  rfl

theorem dtoHolds_base {cls : Core.Class} {after : Declarations} {metadata : Core.Stored} (hadds : Adds declarations after derived metadata)
    (hcls : derived ∉ cls.chain) :
    DtoHolds host (table.definition after) create valid active cls value ↔
      (∀ key, FieldHolds host (table.definition after) create valid active (rulesOf table declarations cls key) value (table.toPropertyKey key)
        (host.readProperty value (table.toPropertyKey key))) ∧
      ∀ rule ∈ Core.getClassValidationRules declarations.stores declarations.bags cls, (host.validateClass rule.validate value).Passes := by
  rw [DtoHolds, hadds.validationSchema_base table hcls, hadds.classValidationRules_base table hcls, table.validationSchema_definition]
  refine and_congr ?_ Iff.rfl
  exact forall_toValidationEntry table (Core.keyed_getDtoValidationSchema _ _ _) (p := fun rules key =>
    FieldHolds host (table.definition after) create valid active rules value key (host.readProperty value key)) fun key => fieldHolds_nil

theorem skipAlike_rulesOf {after : Declarations} {metadata : Core.Stored} (hadds : Adds declarations after derived metadata)
    (hbases : ∀ BaseDto ∈ baseDtos, derived ∉ BaseDto.chain) (h : SkipAlike host (table.definition after) baseDtos value)
    (key : Core.MetadataPropertyKey) :
    ∀ cls ∈ baseDtos, ∀ cls' ∈ baseDtos, rulesOf table declarations cls key ≠ [] → rulesOf table declarations cls' key ≠ [] →
      (Skipped host (rulesOf table declarations cls key) value (host.readProperty value (table.toPropertyKey key)) ↔
        Skipped host (rulesOf table declarations cls' key) value (host.readProperty value (table.toPropertyKey key))) := by
  have hentry (cls : Core.Class) (hcls : cls ∈ baseDtos) (hrules : rulesOf table declarations cls key ≠ []) :
      ⟨table.toPropertyKey key, rulesOf table declarations cls key⟩ ∈ (table.definition after cls).validationSchema := by
    rw [hadds.validationSchema_base table (hbases cls hcls), table.validationSchema_definition, List.mem_map]
    have hmem : key ∈ (Core.getDtoValidationSchema declarations.stores declarations.bags cls).map Prod.fst := by
      by_contra hmem
      exact hrules (by rw [rulesOf, OrderedMap.listOf, OrderedMap.get_eq_none.2 hmem]; rfl)
    obtain ⟨entry, hentry, rfl⟩ := List.mem_map.1 hmem
    refine ⟨entry, hentry, ?_⟩
    rw [rulesOf, OrderedMap.listOf_of_mem (Core.keyed_getDtoValidationSchema _ _ _) hentry]
    rfl
  intro cls hcls cls' hcls' hrules hrules'
  exact h cls hcls cls' hcls' _ (hentry cls hcls hrules) _ (hentry cls' hcls' hrules') rfl

theorem accepts_intersectionType (hnew : IsNew declarations.stores declarations.bags derived)
    (hbases : ∀ BaseDto ∈ baseDtos, derived ∉ BaseDto.chain) (hplain : host.isPlainObject value = true)
    (h : ∀ BaseDto ∈ baseDtos, Accepts host (table.definition (intersectionType table declarations derived baseDtos)) BaseDto value) :
    Accepts host (table.definition (intersectionType table declarations derived baseDtos)) derived value := by
  have hadds := adds_intersectionType table hnew hbases
  simp only [accepts_iff hplain] at h ⊢
  refine (Enough.forall_mem.2 h).mono fun fuel hholds => ?_
  refine (dtoHolds_intersectionType table hnew hbases).2 ⟨fun key => ?_, fun BaseDto hBaseDto => ?_⟩
  · exact fieldHolds_flatMap fun BaseDto hBaseDto => ((dtoHolds_base table hadds (hbases BaseDto hBaseDto)).1 (hholds BaseDto hBaseDto)).1 key
  · exact ((dtoHolds_base table hadds (hbases BaseDto hBaseDto)).1 (hholds BaseDto hBaseDto)).2

theorem accepts_of_intersectionType (hnew : IsNew declarations.stores declarations.bags derived)
    (hbases : ∀ BaseDto ∈ baseDtos, derived ∉ BaseDto.chain) (hplain : host.isPlainObject value = true)
    (halike : SkipAlike host (table.definition (intersectionType table declarations derived baseDtos)) baseDtos value)
    (h : Accepts host (table.definition (intersectionType table declarations derived baseDtos)) derived value) {BaseDto : Core.Class}
    (hBaseDto : BaseDto ∈ baseDtos) : Accepts host (table.definition (intersectionType table declarations derived baseDtos)) BaseDto value := by
  have hadds := adds_intersectionType table hnew hbases
  rw [accepts_iff hplain] at h ⊢
  refine h.mono fun fuel hholds => ?_
  obtain ⟨hfields, hclass⟩ := (dtoHolds_intersectionType table hnew hbases).1 hholds
  refine (dtoHolds_base table hadds (hbases BaseDto hBaseDto)).2 ⟨fun key => ?_, hclass BaseDto hBaseDto⟩
  exact fieldHolds_of_flatMap (skipAlike_rulesOf table hadds hbases halike key) (hfields key) hBaseDto

end Intersection

/-! ## The mapped types -/

section Kept
variable (table : RuleTable) {declarations after : Declarations} {derived BaseDto : Core.Class}

/-- The fields with one of the keys. -/
def isKeyOf (keys : List Core.MetadataPropertyKey) (propertyKey : MetadataPropertyKey) : Bool := propertyKey ∈ keys.map table.toPropertyKey

theorem isKeyOf_toPropertyKey (keys : List Core.MetadataPropertyKey) (key : Core.MetadataPropertyKey) :
    isKeyOf table keys (table.toPropertyKey key) = decide (key ∈ keys) := by
  rw [isKeyOf, decide_eq_decide]
  exact List.mem_map_of_injective (toPropertyKey_injective table)

theorem restricts_of_adds (kept : MetadataPropertyKey → Bool) (hnew : IsNew declarations.stores declarations.bags derived)
    (hbase : derived ∉ BaseDto.chain)
    (hadds : Adds declarations after derived
      { dtoFieldBinding := (Core.getDtoBindingSchema declarations.stores declarations.bags BaseDto).filter fun entry =>
          kept (table.toPropertyKey entry.1)
        dtoFieldValidation := (Core.getDtoValidationSchema declarations.stores declarations.bags BaseDto).filter fun entry =>
          kept (table.toPropertyKey entry.1)
        classValidation := [] }) : Restricts (table.definition after) derived BaseDto kept := by
  have hbinding := Core.keyed_getDtoBindingSchema declarations.stores declarations.bags BaseDto
  have hvalidation := Core.keyed_getDtoValidationSchema declarations.stores declarations.bags BaseDto
  have hfilled := Core.filled_getDtoValidationSchema declarations.stores declarations.bags BaseDto
  constructor
  · rw [hadds.bindingSchema_derived table hnew (hbinding.filter _), hadds.bindingSchema_base table hbase]
    dsimp only [RuleTable.definition]
    rw [List.filter_map]
    rfl
  · rw [hadds.validationSchema_derived table hnew (hvalidation.filter _) (hfilled.filter _), hadds.validationSchema_base table hbase]
    rw [table.validationSchema_definition, List.filter_map]
    rfl
  · exact hadds.classValidationRules_derived table hnew
  · rw [hadds.bindingSchema_base table hbase]
    have hkeys := hbinding.map (toPropertyKey_injective table)
    simpa [RuleTable.definition, RuleTable.toBindingEntry, Function.comp_def] using hkeys

end Kept

/-- A mapped type judges a plain object by the field rules of its bases: the errors of `PickType` and `OmitType`
are those of the kept fields, `PartialType` accepts what satisfies the rules of the fields that are present, and
`IntersectionType` what every base accepts, and, where no base leaves a field out that another one judges, nothing else. -/
theorem mappedTypes_preserve (table : RuleTable) (host : Host Core.Class) (declarations : Declarations) (derived : Core.Class)
    (hnew : IsNew declarations.stores declarations.bags derived) (value : Value Core.Class) (hplain : host.isPlainObject value = true) :
    (∀ BaseDto : Core.Class, derived ∉ BaseDto.chain → ∀ keys errors,
      (let classes := table.definition (pickType table declarations derived BaseDto keys)
       FieldErrors host classes BaseDto value errors →
         Reports host classes derived value ((errors.filter fun error => isKeyOf table keys error.1).flatMap Prod.snd)) ∧
      (let classes := table.definition (omitType table declarations derived BaseDto keys)
       FieldErrors host classes BaseDto value errors →
         Reports host classes derived value ((errors.filter fun error => !isKeyOf table keys error.1).flatMap Prod.snd))) ∧
    (∀ BaseDto : Core.Class, derived ∉ BaseDto.chain →
      let classes := table.definition (partialType table declarations derived BaseDto)
      Accepts host classes derived value ↔ ∀ entry ∈ (classes BaseDto).validationSchema, HoldsIfPresent host classes value entry) ∧
    ∀ baseDtos : List Core.Class, (∀ BaseDto ∈ baseDtos, derived ∉ BaseDto.chain) →
      let classes := table.definition (intersectionType table declarations derived baseDtos)
      ((∀ BaseDto ∈ baseDtos, Accepts host classes BaseDto value) → Accepts host classes derived value) ∧
      (SkipAlike host classes baseDtos value → Accepts host classes derived value → ∀ BaseDto ∈ baseDtos, Accepts host classes BaseDto value) := by
  refine ⟨fun BaseDto hbase keys errors => ⟨fun herrors => ?_, fun herrors => ?_⟩, fun BaseDto hbase => ?_, fun baseDtos hbases => ⟨?_, ?_⟩⟩
  · have hadds := adds_pickType table hnew hbase keys
    simp only [← isKeyOf_toPropertyKey table] at hadds
    exact (restricts_of_adds table (isKeyOf table keys) hnew hbase hadds).reports hplain herrors
  · have hadds := adds_omitType table hnew hbase keys
    simp only [decide_not, ← isKeyOf_toPropertyKey table] at hadds
    exact (restricts_of_adds table (fun key => !isKeyOf table keys key) hnew hbase hadds).reports hplain herrors
  · exact accepts_partialType table hnew hbase hplain
  · exact accepts_intersectionType table hnew hbases hplain
  · exact fun halike h BaseDto hBaseDto => accepts_of_intersectionType table hnew hbases hplain halike h hBaseDto

/-! ### A class with a required field -/

/-- `class UserDto { @IsDefined() name = 'x' }` -/
def userDto : Core.Class := .base 0

def mappedDto : Core.Class := .base 1

def sampleTable : RuleTable where
  kind := fun rule => if rule = 0 then .defined else .optional
  description := fun _ => []
  optional := 1
  kind_optional := rfl

def sampleDeclarations : Declarations where
  stores := ⟨fun _ => [], fun _ => [], fun _ => [], fun _ => none, fun _ => [], fun _ => []⟩
  bags := { Core.Bags.empty with dtoFieldValidation := fun cls => if cls = userDto then some [(.text (units "name"), [{ rule := 0 }])] else none }
  name := fun _ => units "UserDto"
  initial := fun cls => if cls = userDto then [(.text (units "name"), { value := .given (.string (units "x")) })] else []

/-- The inputs `{}` and `{ name: null }`. -/
def sampleHost : Host Core.Class where
  graph := [.record .object [], .record .object [(.text (units "name"), { value := .null })]]
  inherited := fun _ _ => .undefined
  literalText := fun _ => []
  isoText := fun _ => []
  validator := fun _ _ _ => true
  validate := fun _ _ _ _ => .undefined
  validateIf := fun _ _ _ => true
  selector := fun _ value => value
  validateClass := fun _ _ => .undefined

def nameRequired : ValidationIssue :=
  { code := units "REQUIRED", field := some (units "name"), message := units "name is required.", source := none }

theorem sampleIsNew : IsNew sampleDeclarations.stores sampleDeclarations.bags mappedDto := ⟨rfl, rfl, rfl, rfl, rfl, rfl, rfl⟩

theorem mappedTypes_preserve_userDto :
    Reports sampleHost (sampleTable.definition (pickType sampleTable sampleDeclarations mappedDto userDto [.text (units "name")])) mappedDto
      (.given (.object 1)) [nameRequired] :=
  (((mappedTypes_preserve sampleTable sampleHost sampleDeclarations mappedDto sampleIsNew (.given (.object 1)) (by decide)).1 userDto (by decide)
    [.text (units "name")] [(.text (units "name"), [nameRequired])]).1 ⟨0, fun _ _ => rfl⟩)

/-- An instance of the base is built with the initial values of its fields, one of a mapped type without them, and
`null` is no value of an optional field. -/
theorem mappedTypes_differ :
    (let classes := sampleTable.definition (pickType sampleTable sampleDeclarations mappedDto userDto [.text (units "name")])
     (∃ dto, materialize sampleHost classes 2 (.given (.object 0)) userDto = some (.ok dto)) ∧
       materialize sampleHost classes 2 (.given (.object 0)) mappedDto = some (.error [nameRequired])) ∧
    let classes := sampleTable.definition (partialType sampleTable sampleDeclarations mappedDto userDto)
    validate sampleHost classes 2 (.given (.object 1)) userDto = some (.error [nameRequired]) ∧
      validate sampleHost classes 2 (.given (.object 1)) mappedDto = some (.ok ()) := by
  refine ⟨⟨⟨_, rfl⟩, rfl⟩, rfl, rfl⟩

end Fluo.Validation
