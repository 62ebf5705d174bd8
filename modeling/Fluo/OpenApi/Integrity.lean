import Fluo.OpenApi.Components
/-!
# Document integrity

The build returns; every component that the builder refers to has an entry, as
long as no class it refers to is named like a member of `Object.prototype`; no two
classes share a component name, and no two operations an id.
-/

namespace Fluo.OpenApi
open Fluo.Lib
open Fluo.Http.Mapping (HttpMethod)
open Fluo.Validation (DtoClass)
open BuildSchemaContext

variable {δ N : Type} [DecidableEq δ] {dtos : δ → DtoClass δ N} {good : δ → Prop}

/-! ## Parameters -/

variable {name : Utf16} {schema : OpenApiSchemaObject N} {s : BuildSchemaContext δ N}

omit [DecidableEq δ] in
theorem not_mentions_of_plain (hproperties : schema.properties = []) (href : schema.ref = none)
    (hitems : schema.items = none) : ¬ schema.Mentions name :=
  (@Inferred.of_plain _ (fun _ => False) _ hproperties href hitems).target_of_mentions

theorem scalarizeArraySchemaItems_not_mentions (items : Option (OpenApiSchemaObject N)) :
    ¬ (scalarizeArraySchemaItems items).Mentions name := by
  unfold scalarizeArraySchemaItems
  split
  · exact not_mentions_of_plain rfl rfl rfl
  · split <;> exact not_mentions_of_plain rfl rfl rfl

theorem alignObject_alignReference (schema : OpenApiSchemaObject N) :
    alignObject (alignReference schema) = typeSchema .string ∨ (alignObject (alignReference schema) = schema ∧ schema.ref = none) := by
  unfold alignObject alignReference
  cases href : schema.ref with
  | some ref => exact .inl rfl
  | none =>
    by_cases htype : schema.type = some (.one .object)
    · exact .inl (if_pos htype)
    · exact .inr ⟨if_neg htype, rfl⟩

theorem align_mentions {source : ParameterSource}
    (h : (alignParameterSchemaWithRuntimeBindingContract schema source).Mentions name) :
    (∃ key sub, (key, sub) ∈ schema.properties ∧ sub.Mentions name) ∨
      ∃ items, schema.items = some items ∧ items.Mentions name ∧ ¬ (schema.type = some (.one .array) ∧ items.ref.isSome) := by
  have hstring : ¬ (typeSchema .string : OpenApiSchemaObject N).Mentions name := not_mentions_of_plain rfl rfl rfl
  unfold alignParameterSchemaWithRuntimeBindingContract at h
  dsimp only at h
  split at h
  · exact absurd h (scalarizeArraySchemaItems_not_mentions _)
  rcases alignObject_alignReference schema with hobject | ⟨hschema, href⟩
  · rw [hobject] at h
    exact absurd h hstring
  rw [hschema, alignItems] at h
  split at h
  · next hitems =>
    cases h with
    | ref hname => exact absurd (href.symm.trans hname) nofun
    | property hmem hm => exact .inl ⟨_, _, hmem, hm⟩
    | items hsome => exact absurd (hitems.symm.trans hsome) nofun
  · next items hitems =>
    split at h
    · cases h with
      | ref hname => exact absurd (href.symm.trans hname) nofun
      | property hmem hm => exact .inl ⟨_, _, hmem, hm⟩
      | items hsome hm =>
        cases hsome
        exact absurd hm hstring
    · next hcond =>
      cases h with
      | ref hname => exact absurd (href.symm.trans hname) nofun
      | property hmem hm => exact .inl ⟨_, _, hmem, hm⟩
      | items hsome hm =>
        obtain rfl := Option.some.inj (hitems.symm.trans hsome)
        exact .inr ⟨items, hitems, hm, fun hboth => hcond ⟨hboth.1, .inl hboth.2⟩⟩

theorem Inferred.align_not_mentions {target : Utf16 → Prop} (h : Inferred target schema)
    (source : ParameterSource) : ¬ (alignParameterSchemaWithRuntimeBindingContract schema source).Mentions name := by
  intro hm
  rcases align_mentions hm with ⟨key, sub, hmem, -⟩ | ⟨items, hitems, hm, hnot⟩
  · exact absurd (h.properties ▸ hmem) List.not_mem_nil
  · obtain ⟨htype, hproperties, hnone, -⟩ := h.items hitems
    cases href : items.ref with
    | none => exact not_mentions_of_plain hproperties href hnone hm
    | some ref => exact hnot ⟨htype, by rw [href]; rfl⟩

theorem createParameters_returns (h : Sound dtos good s) (dto : Option δ) :
    Returns (createParameters dtos dto) (fun parameters s' =>
      (∀ parameter ∈ parameters, ∀ name, ¬ parameter.schema.Mentions name) ∧ Grows dtos good s s') s := by
  cases dto with
  | none => exact .pure ⟨fun _ hmem => absurd hmem List.not_mem_nil, h.grows⟩
  | some dto =>
    refine .mapM (Grows dtos good s) (fun parameter : OpenApiParameterObject N => ∀ name, ¬ parameter.schema.Mentions name) ?_ h.grows
    rintro ⟨entry, binding, source⟩ - s₁ hs₁
    refine .bind ((inferPrimitiveTypeFromRules_returns hs₁.sound entry.rules).mono fun inferred s₂ hs₂ => .pure ⟨fun name => ?_, hs₁.trans hs₂.1⟩)
    have hschema : Inferred (fun name => ∃ dto ∈ nestedDtosOfRules entry.rules, s₂.Names dto [] name) (inferred.getD {}) := by
      cases inferred with
      | none => exact .of_plain rfl rfl rfl
      | some schema => exact hs₂.2.2 schema rfl
    exact (hschema.applyValidationConstraints entry.rules).align_not_mentions source

theorem createExplicitParameter_not_mentions (parameter : ApiParameterMetadata N) :
    ¬ (createExplicitParameter parameter).schema.Mentions name := by
  intro hm
  have hgiven : ¬ ((parameter.schema.map (·.1)).getD (typeSchema .string)).Mentions name := by
    cases parameter.schema with
    | none => exact not_mentions_of_plain rfl rfl rfl
    | some schema => exact schema.2 name
  rcases align_mentions hm with ⟨key, sub, hmem, hsub⟩ | ⟨items, hitems, hsub, -⟩
  · exact hgiven (.property hmem hsub)
  · exact hgiven (.items hitems hsub)

theorem mem_foldl_set {κ ν α : Type} [DecidableEq κ] (key : α → κ) (value : α → ν) {l : List α} {map : OrderedMap κ ν} {k : κ} {v : ν}
    (h : (k, v) ∈ l.foldl (fun map a => OrderedMap.set map (key a) (value a)) map) : (k, v) ∈ map ∨ ∃ a ∈ l, value a = v := by
  induction l generalizing map with
  | nil => exact .inl h
  | cons a rest ih =>
    rcases ih h with hmem | ⟨a', ha', hv⟩
    · rcases OrderedMap.eq_or_mem_of_mem_set hmem with ⟨-, rfl⟩ | hmem
      · exact .inr ⟨a, List.mem_cons_self, rfl⟩
      · exact .inl hmem
    · exact .inr ⟨a', List.mem_cons_of_mem _ ha', hv⟩

theorem mergeOperationParameters_not_mentions {inferred : List (OpenApiParameterObject N)} {explicit : Option (List (ApiParameterMetadata N))}
    (h : ∀ parameter ∈ inferred, ∀ name, ¬ parameter.schema.Mentions name) :
    ∀ parameter ∈ mergeOperationParameters inferred explicit, ∀ name, ¬ parameter.schema.Mentions name := by
  unfold mergeOperationParameters
  split
  · exact h
  · exact h
  · next explicit _ =>
    intro parameter hmem
    obtain ⟨⟨key, found⟩, hfound, rfl⟩ := List.mem_map.1 hmem
    rcases mem_foldl_set parameterKey id hfound with hmem | ⟨parameter, hparameter, rfl⟩
    · exact absurd hmem List.not_mem_nil
    · rcases List.mem_append.1 hparameter with hparameter | hparameter
      · exact h parameter hparameter
      · obtain ⟨declared, -, rfl⟩ := List.mem_map.1 hparameter
        exact fun name => createExplicitParameter_not_mentions declared

/-! ## Bodies and responses -/

def bodyEntries (dtos : δ → DtoClass δ N) (dto : δ) : List (CollectedDtoEntry δ N) :=
  (collectDtoEntries dtos dto).filter fun entry => entry.binding.any fun binding => binding.metadata.source = .body

omit [DecidableEq δ] in
theorem createSchemaRef_mentions {name' : Utf16} (h : (createSchemaRef name : OpenApiSchemaObject N).Mentions name') : name = name' := by
  rcases h with href | hmem | hitems
  · cases href
    rfl
  · cases hmem
  · cases hitems

namespace BuildSchemaContext
variable {s s' : BuildSchemaContext δ N}

omit [DecidableEq δ] in
theorem covers_of_ref {name mediaType : Utf16} (h : s.Has dtos good name) : s.Covers dtos good [(mediaType, createSchemaRef name)] := by
  intro key schema name' hmem hm
  cases List.mem_singleton.1 hmem
  exact createSchemaRef_mentions hm ▸ h

omit [DecidableEq δ] in
theorem covers_of_explicit {content : OrderedMap Utf16 (OpenApiSchemaObject N)}
    (h : ∀ key schema, (key, schema) ∈ content → ∀ name, ¬ schema.Mentions name) : s.Covers dtos good content :=
  fun key schema name hmem hm => absurd hm (h key schema hmem name)

variable (dtos good) in
def CoversResponses (s : BuildSchemaContext δ N) (responses : OrderedMap Utf16 (OpenApiResponseObject N)) : Prop :=
  ∀ status response content, (status, response) ∈ responses → response.content = some content → s.Covers dtos good content

variable {responses : OrderedMap Utf16 (OpenApiResponseObject N)}

theorem Grows.coversResponses (h : Grows dtos good s s') (hs : s.CoversResponses dtos good responses) :
    s'.CoversResponses dtos good responses :=
  fun status response content hmem hcontent => h.covers (hs status response content hmem hcontent)

omit [DecidableEq δ] in
theorem CoversResponses.set (h : s.CoversResponses dtos good responses) {status : Utf16}
    {response : OpenApiResponseObject N} (hresponse : ∀ content, response.content = some content → s.Covers dtos good content) :
    s.CoversResponses dtos good (responses.set status response) := by
  intro status' response' content hmem hcontent
  rcases OrderedMap.eq_or_mem_of_mem_set hmem with ⟨-, rfl⟩ | hmem
  · exact hresponse content hcontent
  · exact h status' response' content hmem hcontent

end BuildSchemaContext

theorem objectSchema_not_mentions {properties : OrderedMap Utf16 (OpenApiSchemaObject N)} {required : List Utf16}
    (h : ∀ property ∈ properties, ¬ property.2.Mentions name) : ¬ (objectSchema properties required).Mentions name := by
  rintro (href | ⟨hmem, hm⟩ | hitems)
  · cases href
  · exact h _ hmem hm
  · cases hitems

theorem errorResponseSchema_not_mentions : ¬ (errorResponseSchema : OpenApiSchemaObject N).Mentions name := by
  have hdetail : ¬ (errorDetailSchema : OpenApiSchemaObject N).Mentions name := by
    refine objectSchema_not_mentions fun property hmem => ?_
    simp only [List.mem_cons, List.not_mem_nil, or_false] at hmem
    rcases hmem with rfl | rfl | rfl | rfl <;> exact not_mentions_of_plain rfl rfl rfl
  have hdetails : ¬ ({ items := some errorDetailSchema, type := some (.one .array) } : OpenApiSchemaObject N).Mentions name := by
    rintro (href | ⟨hmem, -⟩ | ⟨hitems, hm⟩)
    · cases href
    · cases hmem
    · cases hitems
      exact hdetail hm
  refine objectSchema_not_mentions fun property hmem => ?_
  cases List.mem_singleton.1 hmem
  refine objectSchema_not_mentions fun property hmem => ?_
  simp only [List.mem_cons, List.not_mem_nil, or_false] at hmem
  rcases hmem with rfl | rfl | rfl | rfl | rfl | rfl
  case inr.inl => exact hdetails
  all_goals exact not_mentions_of_plain rfl rfl rfl

theorem ensureErrorResponseSchema_returns (h : Sound dtos good s) :
    Returns ensureErrorResponseSchema (fun schema s' => Grows dtos good s s' ∧ schema = createSchemaRef errorResponseName ∧ s'.Has dtos good errorResponseName)
      s := by
  refine .bind (.get ?_)
  split
  · obtain ⟨hgrows, hhas⟩ := @Sound.setSchema _ _ _ _ _ _ h errorResponseName errorResponseSchema (by decide)
      fun _ hm => absurd hm errorResponseSchema_not_mentions
    exact .bind (.modify (.pure ⟨hgrows, rfl, hhas, fun hkey => absurd hkey (by decide)⟩))
  · next hnot =>
    rw [Bool.not_eq_true', Bool.not_eq_false] at hnot
    exact .pure ⟨h.grows, rfl, hnot, fun hkey => absurd hkey (by decide)⟩

theorem addDefaultErrorResponses_returns (h : Sound dtos good s)
    {responses : OrderedMap Utf16 (OpenApiResponseObject N)} (hresponses : s.CoversResponses dtos good responses) :
    Returns (addDefaultErrorResponses responses) (fun responses s' => Grows dtos good s s' ∧ s'.CoversResponses dtos good responses) s := by
  refine .bind ((ensureErrorResponseSchema_returns h).mono fun schema s' hs' => .pure ⟨hs'.1, ?_⟩)
  obtain ⟨hgrows, rfl, hhas⟩ := hs'
  suffices hfold : ∀ (l : List (Utf16 × Utf16)) (responses : OrderedMap Utf16 (OpenApiResponseObject N)), s'.CoversResponses dtos good responses →
      s'.CoversResponses dtos good (l.foldl (fun responses entry => if (responses.get entry.1).isSome then responses
        else responses.set entry.1 { content := some [(applicationJson, createSchemaRef errorResponseName)], description := entry.2 })
        responses) from
    hfold defaultErrorResponses responses (hgrows.coversResponses hresponses)
  intro l
  induction l with
  | nil => exact fun _ hs => hs
  | cons entry rest ih =>
    intro responses hs
    refine ih _ ?_
    dsimp only
    split
    · exact hs
    · refine hs.set fun content hcontent => ?_
      cases hcontent
      exact covers_of_ref hhas

theorem explicitContent_not_mentions {requestBodyMeta : ApiBodyMetadata N} {content : Content N} (h : explicitContent requestBodyMeta = some content) :
    ∀ key schema, (key, schema) ∈ content → ∀ name, ¬ schema.Mentions name := by
  intro key schema hmem
  unfold explicitContent at h
  split at h
  · cases h
    obtain ⟨⟨mediaType, given⟩, -, hgiven⟩ := List.mem_map.1 hmem
    cases hgiven
    exact given.2
  · obtain ⟨given, -, rfl⟩ := Option.map_eq_some_iff.1 h
    cases List.mem_singleton.1 hmem
    exact given.2

omit [DecidableEq δ] in
theorem mergeOperationRequestBody_covers {inferred : Option (OpenApiRequestBodyObject N)}
    {methodMeta : Option (MethodApiMetadata δ N)} (h : ∀ requestBody, inferred = some requestBody → s.Covers dtos good requestBody.content)
    {requestBody : OpenApiRequestBodyObject N} (hmerge : mergeOperationRequestBody inferred methodMeta = some requestBody) :
    s.Covers dtos good requestBody.content := by
  have hexplicit : ∀ explicit, createExplicitRequestBody methodMeta = some explicit → s.Covers dtos good explicit.content := by
    intro explicit hsome
    obtain ⟨metadata, -, hsome⟩ := Option.bind_eq_some_iff.1 hsome
    obtain ⟨body, -, hsome⟩ := Option.bind_eq_some_iff.1 hsome
    obtain ⟨content, hcontent, hsome⟩ := Option.bind_eq_some_iff.1 hsome
    cases hsome
    exact covers_of_explicit (explicitContent_not_mentions hcontent)
  unfold mergeOperationRequestBody at hmerge
  split at hmerge
  · exact h _ hmerge
  · next hsome =>
    cases hmerge
    exact hexplicit _ hsome
  · next hsome =>
    cases hmerge
    have hcovers := hexplicit _ hsome
    exact hcovers

theorem resolveUniqueOperationId_returns (h : Sound dtos good s) (operationId : Utf16) :
    Returns (resolveUniqueOperationId operationId) (fun candidate s' =>
      Grows dtos good s s' ∧ candidate ∉ s.usedOperationIds ∧ candidate ∈ s'.usedOperationIds) s := by
  refine .bind (.get (.bind (.set (.pure ⟨⟨⟨h.used, h.distinct, h.numbered, fun hmem hm => ?_, h.own⟩, id, id, ?_⟩, ?_, List.mem_cons_self⟩))))
  · exact ⟨(h.closed hmem hm).entry, (h.closed hmem hm).own⟩
  · exact List.subset_cons_self _ _
  · exact unusedName_notMem _ _

/-- The descriptor is not excluded from the document. -/
def isDocumented (descriptor : HandlerDescriptor δ N) : Prop :=
  ¬ ((getMethodApiMetadata descriptor).any fun methodMeta => methodMeta.excludeEndpoint = some true) = true

section Operations
variable [Finite δ] {fuel : Nat} {s : BuildSchemaContext δ N}
variable (hclosed : ∀ dto, good dto → ∀ nested ∈ nestedDtos (collectDtoEntries dtos dto), good nested)
include hclosed

theorem ensureComponentSchema_returns (h : Sound dtos good s) {dto : δ} (hgood : good dto) (hfuel : s.pending + 1 ≤ fuel) :
    Returns (ensureComponentSchema dtos fuel dto) (fun schema s' => Grows dtos good s s' ∧ ∃ name, schema = createSchemaRef name ∧ s'.Has dtos good name) s :=
  ((ensureComponentSchemaFromEntries_ensures hclosed fuel).component h (hclosed dto hgood) hfuel).mono fun _ _ hs' => by
    obtain ⟨hgrows, name, hschema, hname, hhas⟩ := hs'
    exact ⟨hgrows, name, hschema, hgrows.sound.has hname hgood hhas⟩

theorem createRequestBody_returns (h : Sound dtos good s) (dto : Option δ) (hfuel : s.pending + 2 ≤ fuel)
    (hnested : ∀ request, dto = some request → ∀ nested ∈ nestedDtos (bodyEntries dtos request), good nested)
    (hwhole : ∀ request, dto = some request → bodyEntries dtos request ≠ [] →
      (bodyEntries dtos request).length = (collectDtoEntries dtos request).length → good request) :
    Returns (createRequestBody dtos fuel dto) (fun body s' => Grows dtos good s s' ∧ ∀ requestBody, body = some requestBody →
      s'.Covers dtos good requestBody.content) s := by
  cases dto with
  | none => exact .pure ⟨h.grows, nofun⟩
  | some dto =>
    have hrequest : ∀ name s₁, Grows dtos good s s₁ →
        Returns (ensureComponentSchemaFromEntries dtos fuel name (bodyEntries dtos dto)) (fun _ s' =>
          Grows dtos good s₁ s' ∧ hasSchema s' name = true) s₁ := by
      intro name s₁ hs₁
      have henough : Enough dtos good fuel s₁ name := by
        refine ⟨by omega, .inr fun s₂ hs₂ _ => ?_⟩
        have := (hs₁.trans hs₂).pending_le
        omega
      exact (ensureComponentSchemaFromEntries_ensures hclosed fuel name _ s₁ hs₁.sound (hnested dto rfl) henough).mono
        fun _ s' hs' => ⟨hs'.1, hs'.2.2⟩
    unfold createRequestBody
    dsimp only
    split
    · exact .pure ⟨h.grows, nofun⟩
    · next hne =>
      have hbody : ∀ name s₁, Returns (ensureComponentSchemaFromEntries dtos fuel name (bodyEntries dtos dto))
          (fun _ s' => Grows dtos good s s' ∧ s'.Has dtos good name) s₁ →
          Returns (do
            let _ ← ensureComponentSchemaFromEntries dtos fuel name (bodyEntries dtos dto)
            return some {
              content := [(applicationJson, createSchemaRef name)]
              required := if (bodyEntries dtos dto).any fun entry => isPropertyRequired entry.binding entry.validation then some true else none })
            (fun body s' => Grows dtos good s s' ∧ ∀ requestBody : OpenApiRequestBodyObject N, body = some requestBody → s'.Covers dtos good requestBody.content)
            s₁ := by
        intro name s₁ hreturns
        refine .bind (hreturns.mono fun _ s' hs' => .pure ⟨hs'.1, fun requestBody hrequest => ?_⟩)
        cases hrequest
        exact covers_of_ref hs'.2
      split
      · next hlength =>
        refine .bind ((getDtoSchemaName_returns h dto []).mono fun name s₁ hs₁ => hbody name s₁ ?_)
        refine (hrequest name s₁ hs₁.1).mono fun _ s₂ hs₂ => ⟨hs₁.1.trans hs₂.1, ?_⟩
        have hgood := hwhole dto rfl (fun hnil => hne (congrArg List.length hnil)) hlength
        exact hs₂.1.sound.has (hs₂.1.names hs₁.2.2) hgood hs₂.2
      · refine .bind ((getDtoSchemaName_returns h dto (units "RequestBody")).mono fun name s₁ hs₁ => hbody name s₁ ?_)
        refine (hrequest name s₁ hs₁.1).mono fun _ s₂ hs₂ => ⟨hs₁.1.trans hs₂.1, ?_⟩
        exact hs₂.1.sound.has_requestBody (hs₂.1.names hs₁.2.2) hs₂.2

theorem createResponseObject_returns (h : Sound dtos good s) {response : ApiResponseMetadata δ N} {mediaTypes : List Utf16}
    (hfuel : s.pending + 1 ≤ fuel) (hgood : ∀ dto, response.schema = none → response.type = some dto → good dto) :
    Returns (createResponseObject dtos fuel response mediaTypes) (fun object s' =>
      Grows dtos good s s' ∧ ∀ content, object.content = some content → s'.Covers dtos good content) s := by
  have hcontent {s' : BuildSchemaContext δ N} (schema : OpenApiSchemaObject N) (hschema : ∀ name, schema.Mentions name → s'.Has dtos good name) :
      s'.Covers dtos good (mediaTypes.foldl (fun content mediaType => OrderedMap.set content mediaType schema) []) := by
    intro key found name hmem hm
    rcases mem_foldl_set id (fun _ => schema) hmem with hmem | ⟨_, -, rfl⟩
    · exact absurd hmem List.not_mem_nil
    · exact hschema name hm
  unfold createResponseObject
  dsimp only
  split
  · next schema _ =>
    refine .bind (.pure (.pure ⟨h.grows, fun content hsome => ?_⟩))
    cases hsome
    exact hcontent schema.1 fun name hm => absurd hm (schema.2 name)
  · next dto hschema htype =>
    refine .bind (.map ((ensureComponentSchema_returns hclosed h (hgood dto hschema htype) hfuel).mono fun schema s' hs' => ?_))
    obtain ⟨hgrows, name, rfl, hhas⟩ := hs'
    refine .pure ⟨hgrows, fun content hsome => ?_⟩
    cases hsome
    exact hcontent _ fun name' hm => createSchemaRef_mentions hm ▸ hhas
  · exact .bind (.pure (.pure ⟨h.grows, fun _ h => by cases h⟩))

variable {descriptor : HandlerDescriptor δ N} {methodMeta : Option (MethodApiMetadata δ N)} {policy : DefaultErrorResponsesPolicy}

theorem createOperationResponses_returns [ToString N] (h : Sound dtos good s)
    (hfuel : s.pending + 1 ≤ fuel)
    (hgood : ∀ metadata response dto, methodMeta = some metadata → response ∈ metadata.responses → response.schema = none →
      response.type = some dto → good dto) :
    Returns (createOperationResponses dtos fuel descriptor methodMeta policy) (fun responses s' =>
      Grows dtos good s s' ∧ s'.CoversResponses dtos good responses) s := by
  have hpolicy : ∀ responses s₁, Grows dtos good s s₁ ∧ s₁.CoversResponses dtos good responses →
      Returns (if policy = .inject then addDefaultErrorResponses responses else return responses) (fun responses s' =>
        Grows dtos good s s' ∧ s'.CoversResponses dtos good responses) s₁ := by
    intro responses s₁ hs₁
    split
    · exact (addDefaultErrorResponses_returns hs₁.1.sound hs₁.2).mono fun _ s' hs' => ⟨hs₁.1.trans hs'.1, hs'.2⟩
    · exact .pure hs₁
  unfold createOperationResponses
  dsimp only
  split
  · refine .bind (.pure (hpolicy _ s ⟨h.grows, fun status response content hmem hcontent => ?_⟩))
    cases List.mem_singleton.1 hmem
    cases hcontent
  · refine .bind (Returns.mono ?_ hpolicy)
    refine .foldlM (fun responses s' => Grows dtos good s s' ∧ s'.CoversResponses dtos good responses) ?_
      ⟨h.grows, fun _ _ _ hmem => absurd hmem List.not_mem_nil⟩
    intro responses response hmem s₁ hs₁
    have hresponse : ∀ dto, response.schema = none → response.type = some dto → good dto := by
      intro dto hschema htype
      cases methodMeta with
      | none => exact absurd hmem List.not_mem_nil
      | some metadata => exact hgood metadata response dto rfl hmem hschema htype
    have := hs₁.1.pending_le
    refine .bind ((createResponseObject_returns hclosed hs₁.1.sound (by omega) hresponse).mono fun object s₂ hs₂ => .pure ?_)
    exact ⟨hs₁.1.trans hs₂.1, (hs₂.1.coversResponses hs₁.2).set hs₂.2⟩

def Builds (dtos : δ → DtoClass δ N) (good : δ → Prop) (s : BuildSchemaContext δ N) (operation : OpenApiOperationObject N) (s' : BuildSchemaContext δ N) : Prop :=
  Grows dtos good s s' ∧ (∀ name, operation.Mentions name → s'.Has dtos good name) ∧ operation.operationId ∉ s.usedOperationIds ∧
    operation.operationId ∈ s'.usedOperationIds

/-- The classes that the operation of a descriptor refers to, by its metadata, are good. -/
structure Fits (dtos : δ → DtoClass δ N) (good : δ → Prop) (descriptor : HandlerDescriptor δ N) : Prop where
  response {metadata response dto} : getMethodApiMetadata descriptor = some metadata → response ∈ metadata.responses →
    response.schema = none → response.type = some dto → good dto
  nested {request dto} : descriptor.route.request = some request → dto ∈ nestedDtos (bodyEntries dtos request) → good dto
  whole {request} : descriptor.route.request = some request → bodyEntries dtos request ≠ [] →
    (bodyEntries dtos request).length = (collectDtoEntries dtos request).length → good request

theorem createOperationObject_returns (h : Sound dtos good s) (hfits : Fits dtos good descriptor)
    {responses : OrderedMap Utf16 (OpenApiResponseObject N)}
    {security : Option (List OpenApiSecurityRequirementObject)} (hfuel : s.pending + 2 ≤ fuel) (hresponses : s.CoversResponses dtos good responses) :
    Returns (createOperationObject dtos fuel descriptor methodMeta responses security) (Builds dtos good s) s := by
  refine .bind ((createParameters_returns h descriptor.route.request).mono fun parameters s₁ hs₁ => ?_)
  have := hs₁.2.pending_le
  refine .bind ((createRequestBody_returns hclosed hs₁.2.sound descriptor.route.request (by omega)
    (fun _ hrequest _ hdto => hfits.nested hrequest hdto) fun _ hrequest hne hlength => hfits.whole hrequest hne hlength).mono
    fun body s₂ hs₂ => ?_)
  refine .bind ((resolveUniqueOperationId_returns hs₂.1.sound _).mono fun operationId s₃ hs₃ => .pure ⟨?_, fun name hm => ?_, fun hid => ?_, hs₃.2.2⟩)
  · exact hs₁.2.trans (hs₂.1.trans hs₃.1)
  · cases hm with
    | parameter hmem hm => exact absurd hm (mergeOperationParameters_not_mentions hs₁.1 _ hmem name)
    | response hmem hcontent hm =>
      obtain ⟨mediaType, schema, hschema, hm⟩ := hm
      exact (hs₁.2.trans (hs₂.1.trans hs₃.1)).coversResponses hresponses _ _ _ hmem hcontent mediaType schema name hschema hm
    | requestBody hbody hm =>
      obtain ⟨mediaType, schema, hschema, hm⟩ := hm
      exact hs₃.1.has (mergeOperationRequestBody_covers hs₂.2 hbody mediaType schema name hschema hm)
  · exact hs₃.2.1 ((hs₁.2.trans hs₂.1).operationIds hid)

variable [ToString N]

theorem buildOperationEntry_returns (h : Sound dtos good s) (hfits : isDocumented descriptor → Fits dtos good descriptor)
    (hfuel : s.pending + 2 ≤ fuel) :
    Returns (buildOperationEntry dtos fuel descriptor policy) (fun entry s' => Grows dtos good s s' ∧
      ∀ built, entry = some built → Builds dtos good s built.operation s') s := by
  unfold buildOperationEntry
  dsimp only
  split
  · exact .pure ⟨h.grows, fun _ h => by cases h⟩
  · next hexclude =>
    have hfits := hfits hexclude
    refine .bind ((createOperationResponses_returns hclosed h (by omega) fun _ _ _ hmeta hmem hschema htype =>
      hfits.response hmeta hmem hschema htype).mono fun responses s₁ hs₁ => ?_)
    have := hs₁.1.pending_le
    refine .bind ((createOperationObject_returns hclosed hs₁.1.sound hfits (by omega) hs₁.2).mono fun operation s₂ hs₂ => .pure ?_)
    refine ⟨hs₁.1.trans hs₂.1, fun built hbuilt => ?_⟩
    cases hbuilt
    exact ⟨hs₁.1.trans hs₂.1, hs₂.2.1, fun hid => hs₂.2.2.1 (hs₁.1.operationIds hid), hs₂.2.2.2⟩

end Operations

/-! ## Paths -/

structure PathsSound (dtos : δ → DtoClass δ N) (good : δ → Prop) (s : BuildSchemaContext δ N) (paths : OrderedMap Utf16 (OpenApiPathItemObject N)) : Prop where
  covered {path method operation name} : HasOperation paths path method operation → operation.Mentions name → s.Has dtos good name
  used {path method operation} : HasOperation paths path method operation → operation.operationId ∈ s.usedOperationIds
  distinct {path method operation path' method' operation'} : HasOperation paths path method operation →
    HasOperation paths path' method' operation' → operation.operationId = operation'.operationId →
    path = path' ∧ method = method' ∧ operation = operation'

theorem hasOperation_addOperation {paths : OrderedMap Utf16 (OpenApiPathItemObject N)} {entry : BuiltOperationEntry N} {path : Utf16}
    {method : HttpMethod} {operation : OpenApiOperationObject N} (h : HasOperation (addOperation paths entry) path method operation) :
    (path = entry.openApiPath ∧ method = entry.method ∧ operation = entry.operation) ∨ HasOperation paths path method operation := by
  obtain ⟨pathItem, hitem, hmem⟩ := h
  rcases OrderedMap.eq_or_mem_of_mem_set hitem with ⟨rfl, rfl⟩ | hitem
  · rcases OrderedMap.eq_or_mem_of_mem_set hmem with ⟨rfl, rfl⟩ | hmem
    · exact .inl ⟨rfl, rfl, rfl⟩
    · cases hget : paths.get entry.openApiPath with
      | none =>
        rw [hget] at hmem
        exact absurd hmem List.not_mem_nil
      | some found =>
        rw [hget] at hmem
        exact .inr ⟨found, OrderedMap.mem_of_get hget, hmem⟩
  · exact .inr ⟨pathItem, hitem, hmem⟩

namespace PathsSound
variable {s s' : BuildSchemaContext δ N} {paths : OrderedMap Utf16 (OpenApiPathItemObject N)}

theorem grows (h : PathsSound dtos good s paths) (hgrows : Grows dtos good s s') : PathsSound dtos good s' paths where
  covered hop hm := hgrows.has (h.covered hop hm)
  used hop := hgrows.operationIds (h.used hop)
  distinct := h.distinct

theorem addOperation (h : PathsSound dtos good s paths) {entry : BuiltOperationEntry N} (hbuilds : Builds dtos good s entry.operation s') :
    PathsSound dtos good s' (addOperation paths entry) := by
  obtain ⟨hgrows, hcovered, hfresh, hused⟩ := hbuilds
  refine ⟨fun {_ _ _ name} hop hm => ?_, fun hop => ?_, fun hop hop' hid => ?_⟩
  · rcases hasOperation_addOperation hop with ⟨-, -, rfl⟩ | hop
    · exact hcovered name hm
    · exact hgrows.has (h.covered hop hm)
  · rcases hasOperation_addOperation hop with ⟨-, -, rfl⟩ | hop
    · exact hused
    · exact hgrows.operationIds (h.used hop)
  · rcases hasOperation_addOperation hop with ⟨rfl, rfl, rfl⟩ | hop <;> rcases hasOperation_addOperation hop' with ⟨rfl, rfl, rfl⟩ | hop'
    · exact ⟨rfl, rfl, rfl⟩
    · exact absurd (hid ▸ h.used hop') hfresh
    · exact absurd (hid ▸ h.used hop) hfresh
    · exact h.distinct hop hop' hid

end PathsSound

/-! ## The document -/

def documentedDescriptors (options : BuildOpenApiDocumentOptions δ N) : Set (HandlerDescriptor δ N) :=
  {descriptor | descriptor ∈ dedupeDescriptorsByOperation options.descriptors ∧ isDocumented descriptor}

/-- The classes that the builder refers to: the types of responses, the requests whose fields all come from
the body, and what is nested in these, in the body of a request or in an extra model. -/
inductive Refers (dtos : δ → DtoClass δ N) (options : BuildOpenApiDocumentOptions δ N) : δ → Prop
  | response {descriptor metadata response dto} : descriptor ∈ documentedDescriptors options →
      getMethodApiMetadata descriptor = some metadata → response ∈ metadata.responses → response.schema = none →
      response.type = some dto → Refers dtos options dto
  | request {descriptor dto} : descriptor ∈ documentedDescriptors options → descriptor.route.request = some dto → bodyEntries dtos dto ≠ [] →
      (bodyEntries dtos dto).length = (collectDtoEntries dtos dto).length → Refers dtos options dto
  | inRequest {descriptor request dto} : descriptor ∈ documentedDescriptors options → descriptor.route.request = some request →
      dto ∈ nestedDtos (bodyEntries dtos request) → Refers dtos options dto
  | inExtraModel {model dto} : model ∈ options.extraModels.getD [] → dto ∈ nestedDtos (collectDtoEntries dtos model) → Refers dtos options dto
  | nested {outer dto} : Refers dtos options outer → dto ∈ nestedDtos (collectDtoEntries dtos outer) → Refers dtos options dto

omit [DecidableEq δ] in
theorem fits_of_documented {options : BuildOpenApiDocumentOptions δ N} {descriptor : HandlerDescriptor δ N}
    (h : descriptor ∈ documentedDescriptors options) : Fits dtos (Refers dtos options) descriptor where
  response := .response h
  nested := .inRequest h
  whole := .request h

omit [DecidableEq δ] in
theorem PathsSound.nil (s : BuildSchemaContext δ N) : PathsSound dtos good s [] := by
  have hnone {path method operation} : ¬ HasOperation (N := N) [] path method operation := fun ⟨_, hmem, _⟩ => List.not_mem_nil hmem
  exact ⟨fun hop => absurd hop hnone, fun hop => absurd hop hnone, fun hop => absurd hop hnone⟩

section Document
variable [Fintype δ] [ToString N] {options : BuildOpenApiDocumentOptions δ N} {fuel : Nat} {s : BuildSchemaContext δ N}
variable (hfuel : Fintype.card δ + 2 ≤ fuel)
include hfuel

omit [ToString N] in
theorem registerExtraModels_returns (h : Sound dtos (Refers dtos options) s) :
    Returns (registerExtraModels dtos fuel options.extraModels) (fun _ s' => Grows dtos (Refers dtos options) s s') s := by
  refine (Returns.forM (Grows dtos (Refers dtos options) s) (fun _ _ => True) (fun model hmodel s₁ hs₁ => ?_) h.grows).mono fun _ _ hs' => hs'.1
  have hpending := pending_le_card s₁
  refine .bind (((ensureComponentSchemaFromEntries_ensures (fun _ hrefers _ => .nested hrefers) fuel).component hs₁.sound
    (fun _ hdto => .inExtraModel hmodel hdto) (by omega)).mono fun _ s₂ hs₂ => .pure ⟨hs₁.trans hs₂.1, trivial, fun _ _ => trivial⟩)

theorem buildPaths_returns (h : Sound dtos (Refers dtos options) s) :
    Returns (buildPaths dtos fuel options) (fun built s' =>
      Grows dtos (Refers dtos options) s s' ∧ PathsSound dtos (Refers dtos options) s' built.1) s := by
  refine Returns.foldlM (fun (built : OrderedMap Utf16 (OpenApiPathItemObject N) × Bool) s' =>
    Grows dtos (Refers dtos options) s s' ∧ PathsSound dtos (Refers dtos options) s' built.1) ?_ ⟨h.grows, .nil s⟩
  rintro ⟨paths, hasBearerAuth⟩ descriptor hmem s₁ ⟨hs₁, hpaths⟩
  have hpending := pending_le_card s₁
  refine .bind ((buildOperationEntry_returns (fun _ hrefers _ => .nested hrefers) hs₁.sound
    (fun hdocumented => fits_of_documented ⟨hmem, hdocumented⟩) (by omega)).mono fun entry s₂ hs₂ => ?_)
  cases entry with
  | none => exact .pure ⟨hs₁.trans hs₂.1, hpaths.grows hs₂.1⟩
  | some entry => exact .pure ⟨hs₁.trans hs₂.1, hpaths.addOperation (hs₂.2 entry rfl)⟩

theorem assembleDocument_returns : Returns (assembleDocument dtos fuel options) (fun document s' => Sound dtos (Refers dtos options) s' ∧
    PathsSound dtos (Refers dtos options) s' document.paths ∧ document.components.schemas = s'.componentSchemas) (initialContext options) := by
  have hinitial : Sound dtos (Refers dtos options) (initialContext options) := ⟨nofun, nofun, nofun, nofun, nofun⟩
  refine .bind ((registerExtraModels_returns hfuel hinitial).mono fun _ s₁ hs₁ => ?_)
  refine .bind ((buildPaths_returns hfuel hs₁.sound).mono fun built s₂ hs₂ => ?_)
  exact .bind (.get (.pure ⟨hs₂.1.sound, hs₂.2, rfl⟩))

/-- The build returns. A component that the document refers to has an entry unless its name is one that every
object inherits; no such name is referred to if no class that the builder refers to has one. Names belong to one
class and one suffix, operation ids to one operation. -/
theorem document_integrity : ∃ document context, buildOpenApiDocument dtos fuel options = some (document, context) ∧
    (∀ name, document.Mentions name → (name ∈ document.components.schemas.map Prod.fst ↔ name ∉ objectPrototypeKeys)) ∧
    ((∀ dto, Refers dtos options dto → (dtos dto).name ∉ objectPrototypeKeys) →
      ∀ name, document.Mentions name → name ∈ document.components.schemas.map Prod.fst) ∧
    (∀ dto suffix dto' suffix' name, context.Names dto suffix name → context.Names dto' suffix' name → dto = dto' ∧ suffix = suffix') ∧
    ∀ path method operation path' method' operation', HasOperation document.paths path method operation →
      HasOperation document.paths path' method' operation' → operation.operationId = operation'.operationId →
      path = path' ∧ method = method' ∧ operation = operation' := by
  obtain ⟨document, context, hrun, hsound, hpaths, hschemas⟩ := @assembleDocument_returns _ _ _ dtos _ _ options _ hfuel
  have hhas {name} (hm : document.Mentions name) : context.Has dtos (Refers dtos options) name := by
    cases hm with
    | component hmem hm => exact hsound.closed (hschemas ▸ hmem) hm
    | operation hop hm => exact hpaths.covered hop hm
  have hown {name} (hm : document.Mentions name) : name ∈ document.components.schemas.map Prod.fst ↔ name ∉ objectPrototypeKeys := by
    rw [hschemas, ← OrderedMap.isSome_get]
    refine ⟨hsound.own, fun hname => ?_⟩
    have hentry := (hhas hm).entry
    rw [hasSchema, Bool.or_eq_true, decide_eq_true_eq] at hentry
    exact hentry.resolve_right hname
  refine ⟨document, context, hrun, fun _ => hown, fun hnames name hm => (hown hm).2 fun hkey => ?_, fun _ _ _ _ _ => hsound.distinct,
    fun _ _ _ _ _ _ => hpaths.distinct⟩
  obtain ⟨dto, hrefers, rfl⟩ := (hhas hm).own hkey
  exact hnames dto hrefers hkey

end Document

/-- Two classes of one name, nested in each other. -/
private def users : Bool → DtoClass Bool Nat
  | false => { name := units "User", validationSchema := [⟨.text (units "friend"), [{ kind := .nested true }]⟩] }
  | true => { name := units "User", validationSchema := [⟨.text (units "friends"), [{ kind := .nested false, each := true }]⟩] }

private def usersOptions : BuildOpenApiDocumentOptions Bool Nat where
  descriptors := []
  title := units "Users"
  version := units "1.0.0"
  extraModels := some [false]

theorem document_integrity_users : ∃ document context, buildOpenApiDocument users 4 usersOptions = some (document, context) ∧
    ∀ name, document.Mentions name → name ∈ document.components.schemas.map Prod.fst := by
  obtain ⟨document, context, hrun, -, hhas, -⟩ := @document_integrity Bool Nat _ users _ _ usersOptions 4 (by decide)
  exact ⟨document, context, hrun, hhas fun dto _ => by cases dto <;> decide⟩

/-- A class that is named like a method that every object inherits. -/
private def labels : Unit → DtoClass Unit Nat := fun _ => { name := units "toString" }

private def labelsOptions : BuildOpenApiDocumentOptions Unit Nat where
  descriptors := [{
    controllerToken := {
      name := units "LabelsController"
      methodApiMetadata := [(units "show", { responses := [{ status := 200, type := some () }] })] }
    methodName := units "show"
    route := { method := .get, path := ⟨units "/labels", rfl⟩ } }]
  title := units "Labels"
  version := units "1.0.0"

private def responseRefs (document : OpenApiDocument N) : List (Option SchemaRef) :=
  document.paths.flatMap fun path => path.2.flatMap fun operation => operation.2.responses.flatMap fun response =>
    (response.2.content.getD []).map fun entry => entry.2.ref

private theorem mentions_of_mem_responseRefs {document : OpenApiDocument N}
    (h : some (.component name) ∈ responseRefs document) : document.Mentions name := by
  obtain ⟨⟨path, pathItem⟩, hitem, h⟩ := List.mem_flatMap.1 h
  obtain ⟨⟨method, operation⟩, hop, h⟩ := List.mem_flatMap.1 h
  obtain ⟨⟨status, response⟩, hresponse, h⟩ := List.mem_flatMap.1 h
  obtain ⟨⟨mediaType, schema⟩, hmem, href⟩ := List.mem_map.1 h
  cases hcontent : response.content with
  | none =>
    rw [hcontent] at hmem
    exact absurd hmem List.not_mem_nil
  | some content =>
    rw [hcontent] at hmem
    exact .operation ⟨pathItem, hitem, hop⟩ (.response hresponse hcontent ⟨mediaType, schema, hmem, .ref href⟩)

/-- The response refers to a schema that is never built. -/
theorem inherited_name_is_taken_for_an_entry : ∃ document context, buildOpenApiDocument labels 3 labelsOptions = some (document, context) ∧
    document.Mentions (units "toString") ∧ units "toString" ∉ document.components.schemas.map Prod.fst := by
  have hbuilt : (buildOpenApiDocument labels 3 labelsOptions).any fun built => some (.component (units "toString")) ∈ responseRefs built.1 ∧
      units "toString" ∉ built.1.components.schemas.map Prod.fst := by decide
  obtain ⟨⟨document, context⟩, hrun, hbuilt⟩ := (Option.any_eq_true _ _).1 hbuilt
  obtain ⟨href, hkey⟩ := of_decide_eq_true hbuilt
  exact ⟨document, context, hrun, mentions_of_mem_responseRefs href, hkey⟩

end Fluo.OpenApi
