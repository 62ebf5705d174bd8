import Fluo.Lib.Fuel
import Fluo.Validation.Validation
/-!
# When a walk finds nothing

A rule holds of a value, a field of a DTO, and a DTO is valid, when the walk finds
no issue of it. Neither the path nor the source that its issues would name matters.
-/

namespace Fluo.Validation
open Fluo.Lib
open Fluo.Core (MetadataSource ClassValidationRule)

variable {δ : Type} [DecidableEq δ] (host : Host δ) (classes : δ → ClassDefinition δ)

/-- A result without issues. -/
def ValidationRuleResult.Passes : ValidationRuleResult → Prop
  | .undefined => True
  | .boolean value => value = true
  | .issue _ => False
  | .issues list => list = []

omit [DecidableEq δ] in
/-- The values that a rule is about, one by one. -/
def ruleEntries (each : Bool) (value : Value δ) : List (Value δ) := if each then getRuleValues host value else [value]

section Rules
variable (create : Active → Create δ) (valid : Active → δ → Value δ → Prop) (active : Active)

/-- A part of a DTO that is one itself: the walk is not in it, and its instance is valid. -/
def NestedHolds (resolvedDto : δ) (entry : Value δ) : Prop :=
  isMissing entry ∨
    (instanceOf host classes entry resolvedDto || host.isPlainObject entry) ∧ isActive active entry = false ∧
      ∃ nestedDto, create active resolvedDto entry = some nestedDto ∧
        valid (if instanceOf host classes entry resolvedDto then active else enterTraversal active entry) resolvedDto nestedDto

def EntryHolds (rule : DtoFieldValidationRule δ JsNumber) (dto : Value δ) (propertyKey : MetadataPropertyKey) (entry : Value δ) : Prop :=
  match rule.kind with
  | .custom validate _ => (host.validate validate entry dto propertyKey).Passes
  | .nested resolvedDto => NestedHolds host classes create valid active resolvedDto entry
  | kind => runRulePredicate host kind entry

def RuleHolds (rule : DtoFieldValidationRule δ JsNumber) (dto : Value δ) (propertyKey : MetadataPropertyKey) (value : Value δ) : Prop :=
  ∀ entry ∈ ruleEntries host rule.each value, EntryHolds host classes create valid active rule dto propertyKey entry

/-- The conditions among the rules leave the field out. -/
def Skipped (rules : List (DtoFieldValidationRule δ JsNumber)) (dto value : Value δ) : Prop :=
  shouldConditionallySkip host rules dto value ∨ rules.any isOptional ∧ isMissing value

/-- The rule says something about the value. -/
def Applies (rule : DtoFieldValidationRule δ JsNumber) (value : Value δ) : Prop :=
  isConstraint rule ∧ shouldSkipRuleForMissingValue rule value = false

def FieldHolds (rules : List (DtoFieldValidationRule δ JsNumber)) (dto : Value δ) (propertyKey : MetadataPropertyKey) (value : Value δ) : Prop :=
  Skipped host rules dto value ∨ ∀ rule ∈ rules, Applies rule value → RuleHolds host classes create valid active rule dto propertyKey value

/-- The fields of a DTO and its class rules. -/
def DtoHolds (target : δ) (value : Value δ) : Prop :=
  (∀ entry ∈ (classes target).validationSchema,
    FieldHolds host classes create valid active entry.rules value entry.propertyKey (host.readProperty value entry.propertyKey)) ∧
  ∀ rule ∈ (classes target).classValidationRules, (host.validateClass rule.validate value).Passes

end Rules

/-! ## The issues of one rule -/

theorem normalizeResult_eq_nil {result : ValidationRuleResult} {field : Option Utf16} {source : Option MetadataSource} {fallback : Fallback} :
    normalizeResult result field source fallback = [] ↔ result.Passes := by
  cases result with
  | boolean value => cases value <;> simp [normalizeResult, ValidationRuleResult.Passes]
  | undefined | issue | issues => simp [normalizeResult, ValidationRuleResult.Passes]

theorem prefixIssues_eq_nil {issues : List ValidationIssue} {fieldPrefix : Utf16} {source : Option MetadataSource} :
    prefixIssues issues fieldPrefix source = [] ↔ issues = [] := List.map_eq_nil_iff

theorem flatMap_zipIdx_eq_nil {α β : Type} {l : List α} {f : α × ℕ → List β} {p : α → Prop} (h : ∀ a i, f (a, i) = [] ↔ p a) :
    l.zipIdx.flatMap f = [] ↔ ∀ a ∈ l, p a := by
  rw [List.flatMap_eq_nil_iff]
  constructor
  · intro hall a ha
    obtain ⟨i, hi, rfl⟩ := List.mem_iff_getElem.1 ha
    exact (h _ _).1 (hall _ (List.mk_mem_zipIdx_iff_getElem?.2 (List.getElem?_eq_getElem hi)))
  · rintro hall ⟨a, i⟩ hmem
    exact (h a i).2 (hall a (List.fst_mem_of_mem_zipIdx hmem))

omit [DecidableEq δ] in
theorem evaluateCustomRule_eq_nil {rule : DtoFieldValidationRule δ JsNumber} {validate : Nat} {ruleSource : Option MetadataSource}
    {value : Value δ} {field : FieldContext δ} :
    evaluateCustomRule host rule validate ruleSource value field = [] ↔
      ∀ entry ∈ ruleEntries host rule.each value, (host.validate validate entry field.dto field.propertyKey).Passes := by
  rw [evaluateCustomRule, ruleEntries]
  cases rule.each with
  | false => simp [normalizeResult_eq_nil]
  | true =>
    simp only [Bool.not_true, Bool.false_eq_true, if_false, if_true]
    exact flatMap_zipIdx_eq_nil fun entry index => prefixIssues_eq_nil.trans normalizeResult_eq_nil

section Nested
variable {create : Active → Create δ} {collect : Collect δ} {valid : Active → δ → Value δ → Prop} {active : Active}

def Judges (collect : Collect δ) (valid : Active → δ → Value δ → Prop) : Prop :=
  ∀ active target value fieldPrefix inheritedSource, collect active target value fieldPrefix inheritedSource = some [] ↔ valid active target value

theorem validateNestedEntry_eq_nil (hcollect : Judges collect valid) {rule : DtoFieldValidationRule δ JsNumber} {resolvedDto : δ}
    {entry : Value δ} {nestedPath : Utf16} {inheritedSource : Option MetadataSource} :
    validateNestedEntry host classes create collect active rule resolvedDto entry nestedPath inheritedSource = some [] ↔
      NestedHolds host classes create valid active resolvedDto entry := by
  rw [validateNestedEntry, NestedHolds]
  by_cases hmissing : isMissing entry
  · simp [hmissing]
  have hguard : (!instanceOf host classes entry resolvedDto && !host.isPlainObject entry) =
      !(instanceOf host classes entry resolvedDto || host.isPlainObject entry) := (Bool.not_or _ _).symm
  rw [hguard]
  cases hdto : instanceOf host classes entry resolvedDto || host.isPlainObject entry with
  | false => simp [hmissing]
  | true =>
    cases hactive : isActive active entry with
    | true => simp [hmissing]
    | false =>
      simp only [hmissing, Bool.not_true, Bool.false_eq_true, if_false, false_or, true_and, Option.bind_eq_bind, Option.bind_eq_some_iff]
      simp only [hcollect _ _ _ _ _]

omit [DecidableEq δ] in
theorem forall_nestedValues {each : Bool} {value : Value δ} {fieldPath : Utf16} {p : Value δ → Prop} :
    (∀ nested ∈ nestedValues host each value fieldPath, p nested.1) ↔ ∀ entry ∈ ruleEntries host each value, p entry := by
  rw [nestedValues, ruleEntries]
  cases each with
  | false => simp
  | true =>
    simp only [if_true, List.forall_mem_map]
    exact ⟨fun h entry hentry => by
      obtain ⟨index, hindex, rfl⟩ := List.mem_iff_getElem.1 hentry
      exact h _ (List.mk_mem_zipIdx_iff_getElem?.2 (List.getElem?_eq_getElem hindex)), fun h pair hpair => h _ (List.fst_mem_of_mem_zipIdx hpair)⟩

theorem validateNestedRule_eq_nil (hcollect : Judges collect valid) {rule : DtoFieldValidationRule δ JsNumber} {resolvedDto : δ}
    {value : Value δ} {fieldPath : Utf16} {inheritedSource : Option MetadataSource} :
    validateNestedRule host classes create collect active rule resolvedDto value fieldPath inheritedSource = some [] ↔
      ∀ entry ∈ ruleEntries host rule.each value, NestedHolds host classes create valid active resolvedDto entry := by
  rw [validateNestedRule, flatten_mapM_eq_nil, ← forall_nestedValues host]
  exact forall₂_congr fun nested _ => validateNestedEntry_eq_nil host classes hcollect

theorem evaluateRule_eq_nil (hcollect : Judges collect valid) {rule : DtoFieldValidationRule δ JsNumber} {value : Value δ}
    {field : FieldContext δ} :
    evaluateRule host classes create collect active rule value field = some [] ↔
      RuleHolds host classes create valid active rule field.dto field.propertyKey value := by
  have hpredicate (kind : RuleKind δ JsNumber) (fallback : Fallback) :
      (if rule.each then
        some ((getRuleValues host value).zipIdx.flatMap fun pair =>
          if runRulePredicate host kind pair.1 then [] else [buildIssue fallback (indexed field.fieldPath pair.2) field.source])
      else if runRulePredicate host kind value then some [] else some [buildIssue fallback field.fieldPath field.source]) = some [] ↔
        ∀ entry ∈ ruleEntries host rule.each value, runRulePredicate host kind entry := by
    rw [ruleEntries]
    cases rule.each with
    | false =>
      simp only [Bool.false_eq_true, if_false, List.forall_mem_singleton]
      split <;> simp_all
    | true =>
      simp only [if_true, Option.some_inj]
      exact flatMap_zipIdx_eq_nil fun entry index => by split <;> simp_all
  unfold RuleHolds EntryHolds evaluateRule
  cases rule.kind with
  | custom validate ruleSource => exact Option.some_inj.trans (evaluateCustomRule_eq_nil host)
  | nested resolvedDto => exact validateNestedRule_eq_nil host classes hcollect
  | _ => exact hpredicate _ _

/-! ## The issues of a field and of a DTO -/

theorem applyPropertyRules_eq_nil (hcollect : Judges collect valid) {rules : List (DtoFieldValidationRule δ JsNumber)} {value : Value δ}
    {field : FieldContext δ} :
    applyPropertyRules host classes create collect active rules value field = some [] ↔
      FieldHolds host classes create valid active rules field.dto field.propertyKey value := by
  rw [applyPropertyRules, FieldHolds, Skipped]
  by_cases hoptional : (rules.any isOptional && isMissing value) = true
  · rw [if_pos hoptional]
    simp [Bool.and_eq_true_iff.1 hoptional]
  · rw [if_neg hoptional, flatten_mapM_eq_nil]
    cases hskip : shouldConditionallySkip host rules field.dto value with
    | true => simp
    | false =>
      rw [Bool.and_eq_true] at hoptional
      simp only [Bool.false_eq_true, hoptional, false_or, Bool.or_false]
      refine forall₂_congr fun rule _ => ?_
      rw [Applies]
      cases isConstraint rule <;> cases shouldSkipRuleForMissingValue rule value <;>
        simp [evaluateRule_eq_nil host classes hcollect]

theorem collectFieldIssues_eq_nil (hcollect : Judges collect valid) {target : δ} {value : Value δ} (fieldPrefix : Option Utf16)
    (inheritedSource : Option MetadataSource) :
    (∃ issues, collectFieldIssues host classes create collect active target value fieldPrefix inheritedSource = some issues ∧
        issues.flatMap Prod.snd = []) ↔
      ∀ entry ∈ (classes target).validationSchema,
        FieldHolds host classes create valid active entry.rules value entry.propertyKey (host.readProperty value entry.propertyKey) := by
  have hfield (entry : DtoValidationEntry δ JsNumber) :
      applyPropertyRules host classes create collect active entry.rules (host.readProperty value entry.propertyKey)
          (fieldContext classes target value entry.propertyKey fieldPrefix inheritedSource) = some [] ↔
        FieldHolds host classes create valid active entry.rules value entry.propertyKey (host.readProperty value entry.propertyKey) :=
    applyPropertyRules_eq_nil host classes hcollect
  rw [collectFieldIssues, flatMap_mapM_eq_nil]
  refine forall₂_congr fun entry _ => ?_
  rw [← hfield]
  cases applyPropertyRules host classes create collect active entry.rules (host.readProperty value entry.propertyKey)
    (fieldContext classes target value entry.propertyKey fieldPrefix inheritedSource) with
  | none => simp
  | some issues => simp

omit [DecidableEq δ] in
theorem validateClassRules_eq_nil {rules : List ClassValidationRule} {value : Value δ} (fieldPrefix : Option Utf16)
    (inheritedSource : Option MetadataSource) :
    validateClassRules host rules value fieldPrefix inheritedSource = [] ↔ ∀ rule ∈ rules, (host.validateClass rule.validate value).Passes := by
  rw [validateClassRules, List.flatMap_eq_nil_iff]
  refine forall₂_congr fun rule _ => ?_
  split
  · exact normalizeResult_eq_nil
  · exact normalizeResult_eq_nil
  · exact prefixIssues_eq_nil.trans normalizeResult_eq_nil

end Nested

/-- What the walk of a DTO finds nothing of. -/
def Valid : Nat → Active → δ → Value δ → Prop
  | 0, _, _, _ => False
  | fuel + 1, active, target, value =>
    isActive active value ∨
      DtoHolds host classes (createNestedDtoInstance host classes fuel) (Valid fuel) (enterTraversal active value) target value

theorem judges_collectValidationIssuesInternal (fuel : Nat) : Judges (collectValidationIssuesInternal host classes fuel) (Valid host classes fuel) := by
  induction fuel with
  | zero =>
    intro active target value fieldPrefix inheritedSource
    simp [collectValidationIssuesInternal, Valid]
  | succ fuel ih =>
    intro active target value fieldPrefix inheritedSource
    rw [collectValidationIssuesInternal, Valid, DtoHolds]
    cases hactive : isActive active value with
    | true => simp
    | false =>
      simp only [Bool.false_eq_true, if_false, false_or]
      rw [← collectFieldIssues_eq_nil host classes ih fieldPrefix inheritedSource]
      rw [← validateClassRules_eq_nil host fieldPrefix inheritedSource]
      cases collectFieldIssues host classes (createNestedDtoInstance host classes fuel) (collectValidationIssuesInternal host classes fuel)
        (enterTraversal active value) target value fieldPrefix inheritedSource with
      | none => simp
      | some issues => simp

end Fluo.Validation
