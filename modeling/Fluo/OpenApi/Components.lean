import Fluo.Lib.Numbered
import Fluo.OpenApi.SchemaBuilder
import Mathlib.Data.Set.Card
/-!
# Component schemas

What the parts of a build do to its context: names are allocated and component
schemas entered, and nothing is taken back, which is why the classes may be met in
any order. The recursion through the nested classes ends because each step of it
enters a schema for a class that had none; an entry stands from its placeholder on.
-/

namespace Fluo.OpenApi
open Fluo.Lib
open Fluo.Validation (DtoFieldValidationRule DtoClass)

/-! ## Names -/

theorem numbered_injective (name : Utf16) : Function.Injective (numbered name) := by
  have hnumbered : ∀ i, numbered name i = numberedBy (units "_") name i := by
    intro i
    cases i with
    | zero => rfl
    | succ i => rfl
  intro i j h
  rw [hnumbered, hnumbered] at h
  exact numberedBy_injective (units "_") name h

theorem unusedName_notMem (used : List Utf16) (name : Utf16) : unusedName used name ∉ used :=
  firstUnused_notMem (numbered_injective name) 0

theorem getLast?_toString (n : Nat) : ∃ u, (units (toString n)).getLast? = some u ∧ u.toNat ≤ 57 := by
  have hne : units (toString n) ≠ [] := by
    rw [units, Nat.toString_eq_repr, Nat.toList_repr]
    exact fun h => Nat.toDigits_ne_nil (List.map_eq_nil_iff.1 h)
  refine ⟨_, List.getLast?_eq_some_getLast hne, ?_⟩
  obtain ⟨c, hc, hcu⟩ := List.mem_map.1 (List.getLast_mem hne)
  rw [← hcu]
  exact (toNat_digit hc).1

theorem numbered_succ_notMem (name : Utf16) (i : Nat) : numbered name (i + 1) ∉ objectPrototypeKeys := by
  intro hmem
  obtain ⟨u, hu, hle⟩ := getLast?_toString (i + 2)
  have hlast : (numbered name (i + 1)).getLast? = some u := by
    rw [numbered, List.getLast?_append, hu]
    rfl
  have hkeys : ∀ key ∈ objectPrototypeKeys, key.getLast?.all fun u => 57 < u.toNat := by decide
  have hkey := hkeys _ hmem
  rw [hlast] at hkey
  exact absurd hle (not_le.2 (of_decide_eq_true hkey))

theorem requestBody_notMem (name : Utf16) : name ++ units "RequestBody" ∉ objectPrototypeKeys := by
  intro hmem
  have hkeys : ∀ key ∈ objectPrototypeKeys, ¬ units "RequestBody" <:+ key := by decide
  exact hkeys _ hmem (List.suffix_append _ _)

/-! ## A context of a build -/

variable {δ N : Type} [DecidableEq δ] (dtos : δ → DtoClass δ N) (good : δ → Prop)

def baseName (dto : δ) : Utf16 := if (dtos dto).name = [] then units "AnonymousDto" else (dtos dto).name

namespace BuildSchemaContext

/-- The name that is allocated to the class for the suffix. -/
def Names (s : BuildSchemaContext δ N) (dto : δ) (suffix name : Utf16) : Prop := OrderedMap.get s.dtoSchemaNames (dto, suffix) = some name

/-- There is an entry for the name, of the component schemas' own unless a good class has an inherited name. -/
structure Has (s : BuildSchemaContext δ N) (name : Utf16) : Prop where
  entry : hasSchema s name = true
  own : name ∈ objectPrototypeKeys → ∃ dto, good dto ∧ (dtos dto).name = name

structure Sound (s : BuildSchemaContext δ N) : Prop where
  used {dto suffix name} : s.Names dto suffix name → name ∈ s.usedSchemaNames
  distinct {dto suffix dto' suffix' name} : s.Names dto suffix name → s.Names dto' suffix' name → dto = dto' ∧ suffix = suffix'
  numbered {dto suffix name} : s.Names dto suffix name → ∃ i, name = numbered (baseName dtos dto ++ suffix) i
  closed {key schema name} : (key, schema) ∈ s.componentSchemas → schema.Mentions name → s.Has dtos good name
  own {name} : (s.componentSchemas.get name).isSome → name ∉ objectPrototypeKeys

/-- What a part of the build may do to the context: it stays sound and keeps what it has. -/
structure Grows (s s' : BuildSchemaContext δ N) : Prop where
  sound : Sound dtos good s'
  names {dto suffix name} : s.Names dto suffix name → s'.Names dto suffix name
  schemas {name} : hasSchema s name = true → hasSchema s' name = true
  operationIds : s.usedOperationIds ⊆ s'.usedOperationIds

variable {dtos good} {s s' s'' : BuildSchemaContext δ N}

theorem Sound.grows (h : Sound dtos good s) : Grows dtos good s s := ⟨h, id, id, List.Subset.refl _⟩

theorem Grows.trans (h : Grows dtos good s s') (h' : Grows dtos good s' s'') : Grows dtos good s s'' where
  sound := h'.sound
  names hn := h'.names (h.names hn)
  schemas hn := h'.schemas (h.schemas hn)
  operationIds := List.Subset.trans h.operationIds h'.operationIds

theorem Grows.has (h : Grows dtos good s s') {name : Utf16} (hname : s.Has dtos good name) : s'.Has dtos good name :=
  ⟨h.schemas hname.entry, hname.own⟩

theorem Sound.setSchema (h : Sound dtos good s) {name : Utf16} {schema : OpenApiSchemaObject N} (hname : name ∉ objectPrototypeKeys)
    (hschema : ∀ mentioned, schema.Mentions mentioned → s.Has dtos good mentioned) :
    Grows dtos good s { s with componentSchemas := s.componentSchemas.set name schema } ∧
      hasSchema { s with componentSchemas := s.componentSchemas.set name schema } name = true := by
  have hself : hasSchema { s with componentSchemas := s.componentSchemas.set name schema } name = true := by
    rw [hasSchema, OrderedMap.get_set_self]
    rfl
  have hkeep {other : Utf16} (hother : hasSchema s other = true) :
      hasSchema { s with componentSchemas := s.componentSchemas.set name schema } other = true := by
    by_cases hne : other = name
    · exact hne ▸ hself
    · rwa [hasSchema, OrderedMap.get_set_of_ne _ hne]
  refine ⟨⟨⟨h.used, h.distinct, h.numbered, fun {key found mentioned} hmem hm => ?_, fun {other} hother => ?_⟩, id, hkeep,
    List.Subset.refl _⟩, hself⟩
  · rcases OrderedMap.eq_or_mem_of_mem_set hmem with ⟨-, rfl⟩ | hmem
    · exact ⟨hkeep (hschema mentioned hm).entry, (hschema mentioned hm).own⟩
    · exact ⟨hkeep (h.closed hmem hm).entry, (h.closed hmem hm).own⟩
  · by_cases hne : other = name
    · exact hne ▸ hname
    · rw [OrderedMap.get_set_of_ne _ hne] at hother
      exact h.own hother

theorem Sound.allocate (h : Sound dtos good s) {dto : δ} {suffix : Utf16} (hnone : OrderedMap.get s.dtoSchemaNames (dto, suffix) = none) :
    Grows dtos good s { s with
      usedSchemaNames := unusedName s.usedSchemaNames (baseName dtos dto ++ suffix) :: s.usedSchemaNames
      dtoSchemaNames := OrderedMap.set s.dtoSchemaNames (dto, suffix) (unusedName s.usedSchemaNames (baseName dtos dto ++ suffix)) } := by
  set candidate := unusedName s.usedSchemaNames (baseName dtos dto ++ suffix) with hcandidate
  have hfresh : candidate ∉ s.usedSchemaNames := unusedName_notMem _ _
  have hcases {dto' : δ} {suffix' name : Utf16}
      (hn : OrderedMap.get (OrderedMap.set s.dtoSchemaNames (dto, suffix) candidate) (dto', suffix') = some name) :
      ((dto', suffix') = (dto, suffix) ∧ name = candidate) ∨ s.Names dto' suffix' name := by
    by_cases hkey : (dto', suffix') = (dto, suffix)
    · rw [hkey, OrderedMap.get_set_self] at hn
      exact .inl ⟨hkey, (Option.some.inj hn).symm⟩
    · rw [OrderedMap.get_set_of_ne _ hkey] at hn
      exact .inr hn
  refine ⟨⟨?_, ?_, ?_, fun hmem hm => ⟨(h.closed hmem hm).entry, (h.closed hmem hm).own⟩, h.own⟩, ?_, id, List.Subset.refl _⟩
  · intro dto' suffix' name hn
    rcases hcases hn with ⟨-, rfl⟩ | hn
    · exact List.mem_cons_self
    · exact List.mem_cons_of_mem _ (h.used hn)
  · intro dto₁ suffix₁ dto₂ suffix₂ name h₁ h₂
    rcases hcases h₁ with ⟨hk₁, hc₁⟩ | h₁ <;> rcases hcases h₂ with ⟨hk₂, hc₂⟩ | h₂
    · exact Prod.mk.inj (hk₁.trans hk₂.symm)
    · exact absurd (h.used h₂) (hc₁ ▸ hfresh)
    · exact absurd (h.used h₁) (hc₂ ▸ hfresh)
    · exact h.distinct h₁ h₂
  · intro dto' suffix' name hn
    rcases hcases hn with ⟨hk, rfl⟩ | hn
    · obtain ⟨rfl, rfl⟩ := Prod.mk.inj hk
      exact firstUnused_eq _ _ _ _
    · exact h.numbered hn
  · intro dto' suffix' name hn
    have hne : (dto', suffix') ≠ (dto, suffix) := by
      rintro hk
      rw [Names, hk, hnone] at hn
      cases hn
    exact (OrderedMap.get_set_of_ne _ hne _).trans hn

end BuildSchemaContext

open BuildSchemaContext

variable {dtos} {good}

variable {s : BuildSchemaContext δ N} {dto : δ} {rule : DtoFieldValidationRule δ N} {rules : List (DtoFieldValidationRule δ N)}
    {inferred : Option (OpenApiSchemaObject N)} {ensureFromEntries : EnsureFromEntries δ N}

theorem getDtoSchemaName_returns (h : Sound dtos good s) (dto : δ) (suffix : Utf16) :
    Returns (getDtoSchemaName dtos dto suffix) (fun name s' =>
      Grows dtos good s s' ∧ s'.componentSchemas = s.componentSchemas ∧ s'.Names dto suffix name) s := by
  refine .bind (.get ?_)
  cases hget : OrderedMap.get s.dtoSchemaNames (dto, suffix) with
  | some cached => exact .pure ⟨h.grows, rfl, hget⟩
  | none => exact .bind (.set (.pure ⟨h.allocate hget, rfl, OrderedMap.get_set_self _ _ _⟩))

theorem BuildSchemaContext.Sound.has (h : Sound dtos good s) {name : Utf16} (hname : s.Names dto [] name)
    (hgood : good dto) (hentry : hasSchema s name = true) : s.Has dtos good name := by
  refine ⟨hentry, fun hkey => ⟨dto, hgood, ?_⟩⟩
  obtain ⟨i, rfl⟩ := h.numbered hname
  cases i with
  | zero =>
    rw [Fluo.OpenApi.numbered, List.append_nil, baseName] at hkey ⊢
    split at hkey
    · exact absurd hkey (by decide)
    · exact (if_neg ‹_›).symm
  | succ i => exact absurd hkey (numbered_succ_notMem _ i)

theorem BuildSchemaContext.Sound.has_requestBody (h : Sound dtos good s) {name : Utf16}
    (hname : s.Names dto (units "RequestBody") name) (hentry : hasSchema s name = true) : s.Has dtos good name := by
  refine ⟨hentry, fun hkey => ?_⟩
  obtain ⟨i, rfl⟩ := h.numbered hname
  cases i with
  | zero => exact absurd hkey (requestBody_notMem _)
  | succ i => exact absurd hkey (numbered_succ_notMem _ i)

/-! ## Inferred schemas -/

def nestedDtosOfRules (rules : List (DtoFieldValidationRule δ N)) : List δ :=
  rules.filterMap fun rule => match rule.kind with
    | .nested dto => some dto
    | _ => none

/-- What the rules of a field are turned into refers to components at two places only. -/
structure Inferred (target : Utf16 → Prop) (schema : OpenApiSchemaObject N) : Prop where
  properties : schema.properties = []
  ref {name} : schema.ref = some (.component name) → target name
  items {items} : schema.items = some items →
    schema.type = some (.one .array) ∧ items.properties = [] ∧ items.items = none ∧ ∀ name, items.ref = some (.component name) → target name

namespace Inferred
variable {target : Utf16 → Prop} {schema : OpenApiSchemaObject N}

theorem of_plain (hproperties : schema.properties = []) (href : schema.ref = none) (hitems : schema.items = none) : Inferred target schema :=
  ⟨hproperties, fun h => absurd (href.symm.trans h) nofun, fun h => absurd (hitems.symm.trans h) nofun⟩

theorem createSchemaRef {name : Utf16} (h : target name) : Inferred (N := N) target (createSchemaRef name) :=
  ⟨rfl, fun hname => by cases hname; exact h, nofun⟩

theorem array {item : OpenApiSchemaObject N} (h : Inferred target item) (hitem : item.items = none) :
    Inferred target { items := some item, type := some (.one .array) } :=
  ⟨rfl, nofun, fun hitems => by cases hitems; exact ⟨rfl, h.properties, hitem, fun _ => h.ref⟩⟩

theorem target_of_mentions (h : Inferred target schema) {name : Utf16} (hm : schema.Mentions name) : target name := by
  cases hm with
  | ref href => exact h.ref href
  | property hmem => exact absurd (h.properties ▸ hmem) List.not_mem_nil
  | items hitems hm =>
    obtain ⟨-, hproperties, hnone, href⟩ := h.items hitems
    cases hm with
    | ref hname => exact href _ hname
    | property hmem => exact absurd (hproperties ▸ hmem) List.not_mem_nil
    | items hsome => exact absurd (hnone.symm.trans hsome) nofun

omit [DecidableEq δ] in
theorem applyValidationConstraints (h : Inferred target schema) (rules : List (DtoFieldValidationRule δ N)) :
    Inferred target (applyValidationConstraints schema rules) := by
  unfold OpenApi.applyValidationConstraints
  dsimp only
  split_ifs
  · exact ⟨h.properties, h.ref, h.items⟩
  · exact ⟨h.properties, h.ref, h.items⟩
  · exact h

end Inferred

theorem createEnumSchema_inferred (target : Utf16 → Prop) (values : List (Validation.Literal N)) : Inferred target (createEnumSchema values) :=
  .of_plain rfl rfl rfl

omit [DecidableEq δ] in
theorem mem_nestedDtosOfRules (h : rule ∈ rules)
    (hkind : rule.kind = .nested dto) : dto ∈ nestedDtosOfRules rules :=
  List.mem_filterMap.2 ⟨rule, h, by rw [hkind]⟩

def RuleProfile.Nests (profile : RuleProfile δ N) (dto : δ) : Prop :=
  ∃ rule, (profile.nestedRule = some rule ∨ profile.nestedEachRule = some rule) ∧ rule.dto = dto

omit [DecidableEq δ] in
theorem applyRuleToProfile_nests {profile : RuleProfile δ N}
    (h : (applyRuleToProfile profile rule).Nests dto) : profile.Nests dto ∨ rule.kind = .nested dto := by
  obtain ⟨nested, hnested, rfl⟩ := h
  unfold applyRuleToProfile at hnested
  split at hnested
  case h_1 dto hkind =>
    -- a nested rule of the profile stays, the new one takes an empty place
    cases hfirst : profile.nestedRule <;> cases heach : profile.nestedEachRule <;> simp only [hfirst, heach] at hnested <;>
      grind [RuleProfile.Nests]
  all_goals first
    | exact .inl ⟨nested, hnested, rfl⟩
    | (split at hnested <;> exact .inl ⟨nested, hnested, rfl⟩)

omit [DecidableEq δ] in
theorem getRuleProfile_nests (h : (getRuleProfile rules).Nests dto) :
    dto ∈ nestedDtosOfRules rules := by
  suffices hfold : ∀ (rest : List (DtoFieldValidationRule δ N)) (profile : RuleProfile δ N), rest ⊆ rules →
      (∀ dto, profile.Nests dto → dto ∈ nestedDtosOfRules rules) →
      (rest.foldl applyRuleToProfile profile).Nests dto → dto ∈ nestedDtosOfRules rules by
    refine hfold rules {} (List.Subset.refl _) ?_ h
    rintro dto ⟨rule, hrule | hrule, -⟩ <;> cases hrule
  intro rest
  induction rest with
  | nil => exact fun profile _ hprofile hdto => hprofile dto hdto
  | cons rule rest ih =>
    intro profile hsub hprofile hdto
    refine ih _ (fun _ hr => hsub (List.mem_cons_of_mem _ hr)) (fun dto hnests => ?_) hdto
    rcases applyRuleToProfile_nests hnests with hnests | hkind
    · exact hprofile dto hnests
    · exact mem_nestedDtosOfRules (hsub List.mem_cons_self) hkind

/-- What an inference may do: allocate names, and answer a schema that refers to nested classes by these. -/
def Infers (dtos : δ → DtoClass δ N) (good : δ → Prop) (nested : List δ) (s : BuildSchemaContext δ N) (inferred : Option (OpenApiSchemaObject N))
    (s' : BuildSchemaContext δ N) : Prop :=
  Grows dtos good s s' ∧ s'.componentSchemas = s.componentSchemas ∧
    ∀ schema, inferred = some schema → Inferred (fun name => ∃ dto ∈ nested, s'.Names dto [] name) schema

theorem BuildSchemaContext.Sound.infers (h : Sound dtos good s) {nested : List δ}
    (hplain : ∀ target schema, inferred = some schema → Inferred target schema) :
    Returns (pure inferred) (Infers dtos good nested s) s :=
  .pure ⟨h.grows, rfl, fun schema hschema => hplain _ schema hschema⟩

theorem inferNestedSchema_returns (h : Sound dtos good s)
    {rule : NestedRule δ} (hrule : (getRuleProfile rules).nestedRule = some rule) :
    Returns (inferNestedSchema dtos (some rule)) (fun inferred s' => Infers dtos good (nestedDtosOfRules rules) s inferred s' ∧ inferred.isSome) s := by
  have hmem : rule.dto ∈ nestedDtosOfRules rules := getRuleProfile_nests ⟨rule, .inl hrule, rfl⟩
  refine .bind ((getDtoSchemaName_returns h rule.dto []).mono fun schemaName s' hs' => ?_)
  obtain ⟨hgrows, hsame, hname⟩ := hs'
  have href : Inferred (N := N) (fun name => ∃ dto ∈ nestedDtosOfRules rules, s'.Names dto [] name) (createSchemaRef schemaName) :=
    .createSchemaRef ⟨rule.dto, hmem, hname⟩
  split
  · exact .pure ⟨⟨hgrows, hsame, fun schema hschema => by cases hschema; exact .array href rfl⟩, rfl⟩
  · exact .pure ⟨⟨hgrows, hsame, fun schema hschema => by cases hschema; exact href⟩, rfl⟩

theorem inferEachItemSchema_returns (h : Sound dtos good s) (rules : List (DtoFieldValidationRule δ N)) :
    Returns (inferEachItemSchema dtos (getRuleProfile rules)) (fun inferred s' => Infers dtos good (nestedDtosOfRules rules) s inferred s' ∧
      ∀ schema, inferred = some schema → schema.items = none) s := by
  have htype (type : OpenApiSchemaPrimitiveType) : Returns (pure (some (typeSchema type))) (fun inferred s' =>
      Infers dtos good (nestedDtosOfRules rules) s inferred s' ∧ ∀ schema, inferred = some schema → schema.items = none) s :=
    .pure ⟨⟨h.grows, rfl, fun schema hschema => by cases hschema; exact .of_plain rfl rfl rfl⟩, fun schema hschema => by cases hschema; rfl⟩
  unfold inferEachItemSchema
  split
  · next rule hrule =>
    refine .bind ((getDtoSchemaName_returns h rule.dto []).mono fun schemaName s' hs' => ?_)
    obtain ⟨hgrows, hsame, hname⟩ := hs'
    refine .pure ⟨⟨hgrows, hsame, fun schema hschema => ?_⟩, fun schema hschema => by cases hschema; rfl⟩
    cases hschema
    exact .createSchemaRef ⟨rule.dto, getRuleProfile_nests ⟨rule, .inr hrule, rfl⟩, hname⟩
  · refine .pure ⟨⟨h.grows, rfl, fun schema hschema => ?_⟩, fun schema hschema => by cases hschema; rfl⟩
    cases hschema
    exact createEnumSchema_inferred _ _
  · split_ifs
    · exact htype .string
    · exact htype .integer
    · exact htype .number
    · exact htype .boolean
    · exact .pure ⟨⟨h.grows, rfl, nofun⟩, nofun⟩

theorem inferPrimitiveTypeFromRules_returns (h : Sound dtos good s) (rules : List (DtoFieldValidationRule δ N)) :
    Returns (inferPrimitiveTypeFromRules dtos rules) (Infers dtos good (nestedDtosOfRules rules) s) s := by
  unfold inferPrimitiveTypeFromRules
  refine .bind ?_
  cases hnested : (getRuleProfile rules).nestedRule with
  | some rule =>
    refine (inferNestedSchema_returns h hnested).mono fun inferred s' hs' => ?_
    cases inferred with
    | some schema => exact .pure hs'.1
    | none => exact absurd hs'.2 Bool.false_ne_true
  | none =>
    refine .pure ?_
    dsimp only
    split
    · refine .bind ((inferEachItemSchema_returns h rules).mono fun items s' hs' => ?_)
      obtain ⟨⟨hgrows, hsame, hitems⟩, hflat⟩ := hs'
      refine .pure ⟨hgrows, hsame, fun schema hschema => ?_⟩
      cases hschema
      cases items with
      | none => exact .array (.of_plain rfl rfl rfl) rfl
      | some items => exact .array (hitems items rfl) (hflat items rfl)
    · split
      · exact h.infers fun target schema hschema => by cases hschema; exact createEnumSchema_inferred _ _
      · split_ifs
        all_goals refine h.infers fun target schema hschema => ?_
        all_goals cases hschema
        all_goals exact .of_plain rfl rfl rfl

/-! ## Component schemas -/

def nestedDtos (entries : List (CollectedDtoEntry δ N)) : List δ := entries.flatMap fun entry => nestedDtosOfRules entry.rules

namespace BuildSchemaContext
variable {s s' : BuildSchemaContext δ N}

theorem Names.unique {dto : δ} {suffix name name' : Utf16} (h : s.Names dto suffix name) (h' : s.Names dto suffix name') : name = name' :=
  Option.some.inj (Eq.trans (Eq.symm h) h')

variable (dtos good) in
def Ready (s : BuildSchemaContext δ N) (dto : δ) : Prop := ∃ name, s.Names dto [] name ∧ s.Has dtos good name

theorem Grows.ready (h : Grows dtos good s s') {dto : δ} (hready : s.Ready dtos good dto) : s'.Ready dtos good dto := by
  obtain ⟨name, hname, hhas⟩ := hready
  exact ⟨name, h.names hname, h.has hhas⟩

variable (dtos good) in
def Covers (s : BuildSchemaContext δ N) (schemas : OrderedMap Utf16 (OpenApiSchemaObject N)) : Prop :=
  ∀ key schema name, (key, schema) ∈ schemas → schema.Mentions name → s.Has dtos good name

theorem Grows.covers (h : Grows dtos good s s') {schemas : OrderedMap Utf16 (OpenApiSchemaObject N)} (hschemas : s.Covers dtos good schemas) : s'.Covers dtos good schemas :=
  fun key schema name hmem hm => h.has (hschemas key schema name hmem hm)

/-- The classes whose component schema is not there yet, not even in appearance. -/
noncomputable def pending (s : BuildSchemaContext δ N) : Nat := Set.ncard {dto | ¬ ∃ name, s.Names dto [] name ∧ hasSchema s name = true}

variable [Finite δ]

theorem Grows.pending_le (h : Grows dtos good s s') : s'.pending ≤ s.pending := by
  refine Set.ncard_le_ncard (fun dto hdto hs => hdto ?_) (Set.toFinite _)
  obtain ⟨name, hname, hschema⟩ := hs
  exact ⟨name, h.names hname, h.schemas hschema⟩

theorem Grows.pending_lt (h : Grows dtos good s s') {dto : δ} {name : Utf16} (hname : s.Names dto [] name) (hs : ¬ hasSchema s name = true)
    (hs' : hasSchema s' name = true) : s'.pending < s.pending := by
  refine Set.ncard_lt_ncard ⟨fun dto hdto hs => hdto ?_, fun hsub => ?_⟩ (Set.toFinite _)
  · obtain ⟨name, hname, hschema⟩ := hs
    exact ⟨name, h.names hname, h.schemas hschema⟩
  · refine hsub (a := dto) ?_ ⟨name, h.names hname, hs'⟩
    rintro ⟨name', hname', hschema⟩
    exact hs (hname.unique hname' ▸ hschema)

omit [Finite δ] in
theorem pending_le_card [Fintype δ] (s : BuildSchemaContext δ N) : s.pending ≤ Fintype.card δ :=
  (Set.ncard_le_card _).trans_eq Nat.card_eq_fintype_card

end BuildSchemaContext

theorem ensureNestedSchemasFromRules_returns
    (h : Sound dtos good s)
    (hensure : ∀ dto ∈ nestedDtosOfRules rules, ∀ s', Grows dtos good s s' →
      Returns (ensureComponentSchemaBy dtos ensureFromEntries dto) (fun _ s'' => Grows dtos good s' s'' ∧ s''.Ready dtos good dto) s') :
    Returns (ensureNestedSchemasFromRules dtos ensureFromEntries rules) (fun _ s' =>
      Grows dtos good s s' ∧ ∀ dto ∈ nestedDtosOfRules rules, s'.Ready dtos good dto) s := by
  refine (Returns.forM (Grows dtos good s) (fun rule s' => ∀ dto, rule.kind = .nested dto → s'.Ready dtos good dto) (fun rule hrule s₁ hs₁ => ?_) h.grows).mono
    fun _ s' hs' => ⟨hs'.1, fun dto hdto => ?_⟩
  · split
    · next dto hkind =>
      refine .bind ((hensure dto (mem_nestedDtosOfRules hrule hkind) s₁ hs₁).mono fun _ s₂ hs₂ => .pure ⟨hs₁.trans hs₂.1, ?_, ?_⟩)
      · intro dto' hkind'
        rw [hkind] at hkind'
        cases hkind'
        exact hs₂.2
      · exact fun rule' hrule' dto' hkind' => hs₂.1.ready (hrule' dto' hkind')
    · next hnot => exact .pure ⟨hs₁, fun dto hkind => absurd hkind (hnot dto), fun _ hrule' => hrule'⟩
  · obtain ⟨rule, hrule, hkind⟩ := List.mem_filterMap.1 hdto
    split at hkind
    · next dto' hkind' =>
      cases hkind
      exact hs'.2.1 rule hrule dto hkind'
    · cases hkind

theorem has_of_infers {s' : BuildSchemaContext δ N}
    (h : Infers dtos good (nestedDtosOfRules rules) s inferred s') (hready : ∀ dto ∈ nestedDtosOfRules rules, s.Ready dtos good dto) {name : Utf16}
    (hm : (applyValidationConstraints (inferred.getD {}) rules).Mentions name) : s'.Has dtos good name := by
  obtain ⟨hgrows, -, hinferred⟩ := h
  have hschema : Inferred (fun name => ∃ dto ∈ nestedDtosOfRules rules, s'.Names dto [] name) (inferred.getD {}) := by
    cases inferred with
    | none => exact .of_plain rfl rfl rfl
    | some schema => exact hinferred schema rfl
  obtain ⟨dto, hdto, hname⟩ := (hschema.applyValidationConstraints rules).target_of_mentions hm
  obtain ⟨name', hname', hhas⟩ := hgrows.ready (hready dto hdto)
  exact hname.unique hname' ▸ hhas

theorem mem_assignProperty {properties : OrderedMap Utf16 (OpenApiSchemaObject N)} {name key : Utf16} {schema found : OpenApiSchemaObject N}
    (h : (key, found) ∈ assignProperty properties name schema) : found = schema ∨ (key, found) ∈ properties := by
  unfold assignProperty at h
  split at h
  · exact .inr h
  · exact (OrderedMap.eq_or_mem_of_mem_set h).imp_left And.right

theorem buildComponentSchemaShape_returns
    {entries : List (CollectedDtoEntry δ N)} (h : Sound dtos good s)
    (hensure : ∀ dto ∈ nestedDtos entries, ∀ s', Grows dtos good s s' →
      Returns (ensureComponentSchemaBy dtos ensureFromEntries dto) (fun _ s'' => Grows dtos good s' s'' ∧ s''.Ready dtos good dto) s') :
    Returns (buildComponentSchemaShape dtos ensureFromEntries entries) (fun shape s' =>
      Grows dtos good s s' ∧ s'.Covers dtos good shape.1) s := by
  refine Returns.foldlM (fun (shape : OrderedMap Utf16 (OpenApiSchemaObject N) × List Utf16) s' => Grows dtos good s s' ∧ s'.Covers dtos good shape.1) ?_
    ⟨h.grows, fun _ _ _ hmem => absurd hmem List.not_mem_nil⟩
  rintro ⟨properties, required⟩ entry hentry s₁ ⟨hs₁, hproperties⟩
  have hnested := ensureNestedSchemasFromRules_returns hs₁.sound fun dto hdto s' hs' =>
    hensure dto (List.mem_flatMap.2 ⟨entry, hentry, hdto⟩) s' (hs₁.trans hs')
  refine .bind (hnested.mono fun _ s₂ hs₂ => ?_)
  refine .bind ((inferPrimitiveTypeFromRules_returns hs₂.1.sound entry.rules).mono fun inferred s₃ hs₃ => .pure ⟨?_, ?_⟩)
  · exact hs₁.trans (hs₂.1.trans hs₃.1)
  · intro key schema name hmem hm
    rcases mem_assignProperty hmem with rfl | hmem
    · exact has_of_infers hs₃ hs₂.2 hm
    · exact (hs₂.1.trans hs₃.1).covers hproperties key schema name hmem hm

/-- There is fuel for a component schema: there is a step for it, and once it is there,
one for every class that is pending and one more. -/
def Enough (dtos : δ → DtoClass δ N) (good : δ → Prop) (fuel : Nat) (s : BuildSchemaContext δ N) (schemaName : Utf16) : Prop :=
  1 ≤ fuel ∧ (hasSchema s schemaName = true ∨ ∀ s', Grows dtos good s s' → hasSchema s' schemaName = true → s'.pending + 2 ≤ fuel)

/-- The function makes sure of a component schema if the classes nested in the entries are good. -/
def Ensures (dtos : δ → DtoClass δ N) (good : δ → Prop) (fuel : Nat) (ensureFromEntries : EnsureFromEntries δ N) : Prop :=
  ∀ schemaName entries s, Sound dtos good s → (∀ dto ∈ nestedDtos entries, good dto) → Enough dtos good fuel s schemaName →
    Returns (ensureFromEntries schemaName entries) (fun schema s' =>
      Grows dtos good s s' ∧ schema = createSchemaRef schemaName ∧ hasSchema s' schemaName = true) s

section Ensure
variable [Finite δ] {fuel : Nat} {s : BuildSchemaContext δ N}

theorem Ensures.component {ensureFromEntries : EnsureFromEntries δ N} (hensures : Ensures dtos good fuel ensureFromEntries)
    (h : Sound dtos good s) {dto : δ} (hnested : ∀ nested ∈ nestedDtos (collectDtoEntries dtos dto), good nested) (hfuel : s.pending + 1 ≤ fuel) :
    Returns (ensureComponentSchemaBy dtos ensureFromEntries dto) (fun schema s' => Grows dtos good s s' ∧
      ∃ name, schema = createSchemaRef name ∧ s'.Names dto [] name ∧ hasSchema s' name = true) s := by
  refine .bind ((getDtoSchemaName_returns h dto []).mono fun schemaName s₁ hs₁ => ?_)
  obtain ⟨hgrows, -, hname⟩ := hs₁
  have hpending := hgrows.pending_le
  have henough : Enough dtos good fuel s₁ schemaName := by
    refine ⟨by omega, or_iff_not_imp_left.2 fun hnot s₂ hs₂ hschema => ?_⟩
    have := hs₂.pending_lt hname hnot hschema
    omega
  exact (hensures schemaName _ s₁ hgrows.sound hnested henough).mono fun schema s₂ hs₂ =>
    ⟨hgrows.trans hs₂.1, schemaName, hs₂.2.1, hs₂.1.names hname, hs₂.2.2⟩

theorem ensureComponentSchemaFromEntries_ensures
    (hclosed : ∀ dto, good dto → ∀ nested ∈ nestedDtos (collectDtoEntries dtos dto), good nested) (fuel : Nat) : Ensures dtos good fuel (ensureComponentSchemaFromEntries dtos fuel) := by
  induction fuel with
  | zero => exact fun _ _ _ _ _ henough => absurd henough.1 (by decide)
  | succ fuel ih =>
    intro schemaName entries s h hentries henough
    refine .bind (.get ?_)
    split
    · exact .pure ⟨h.grows, rfl, ‹_›⟩
    · next hnot =>
      have hname : schemaName ∉ objectPrototypeKeys := fun hkey => hnot (by rw [hasSchema, decide_eq_true hkey, Bool.or_true])
      -- the placeholder
      obtain ⟨hs₁, hhas⟩ := @Sound.setSchema _ _ _ _ _ _ h schemaName
        { additionalProperties := some false, type := some (.one .object) } hname fun mentioned hm => absurd hm (by rintro (hm | hm | hm) <;> cases hm)
      refine .bind (.modify ?_)
      have hpending := (henough.2.resolve_left hnot) _ hs₁ hhas
      refine .bind ((buildComponentSchemaShape_returns hs₁.sound fun dto hdto s' hs' => ?_).mono fun shape s₂ hs₂ => ?_)
      · have hgood := hentries dto hdto
        refine (ih.component hs'.sound (hclosed dto hgood) ?_).mono fun schema s'' hs'' => ?_
        · have := hs'.pending_le
          omega
        · obtain ⟨hgrows, name, -, hname, hschema⟩ := hs''
          exact ⟨hgrows, name, hname, hgrows.sound.has hname hgood hschema⟩
      · obtain ⟨hs₃, hhas₃⟩ := @Sound.setSchema _ _ _ _ _ _ hs₂.1.sound schemaName
          { additionalProperties := some false, properties := shape.1, required := shape.2, type := some (.one .object) } hname
          fun mentioned hm => by
            cases hm with
            | ref href => cases href
            | property hmem hm => exact hs₂.2 _ _ _ hmem hm
            | items hitems => cases hitems
        refine .bind (.modify (.pure ⟨hs₁.trans (hs₂.1.trans hs₃), rfl, hhas₃⟩))

end Ensure

end Fluo.OpenApi
