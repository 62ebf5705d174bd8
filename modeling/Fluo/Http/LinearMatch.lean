import Mathlib.Data.List.Find
import Fluo.Http.Mapping
/-!
# Matching is a scan

What a handler mapping means: one scan over all descriptors that keeps the one
of the best precedence. The index and the two fallback searches of
`createHandlerMapping` compute it.
-/

namespace Fluo.Http.Mapping
open Fluo.Lib

/-! ## The specification -/

/-- What a request asks for. Under URI versioning no versions are compared. -/
structure Query where
  method : Utf16
  segments : List Utf16
  byUri : Bool
  version : Option Utf16

def HandlerMapping.query (casing : Casing) (mapping : HandlerMapping) (request : FrameworkRequest) : Query where
  method := casing.toUpperCase request.method
  segments := fields slash request.path
  byUri := mapping.versioning.type = .uri
  version := mapping.requestVersion request

/-- The version a route declares, normalised. An empty version declares none. -/
def declaredVersion (d : HandlerDescriptor) : Option Utf16 := (d.route.version.filter (· ≠ [])).map normalizeVersionValue

def isLiteral (d : HandlerDescriptor) : Bool := (segmentsOf d.route.path).all RoutePathSegment.isLiteral

def isUnversioned (d : HandlerDescriptor) : Bool := d.route.version = none

def isAll (d : HandlerDescriptor) : Bool := d.route.method = .all

namespace Query
variable (q : Query)

def isCurrent (d : HandlerDescriptor) : Bool := q.byUri || declaredVersion d = q.version

def isConcrete (d : HandlerDescriptor) : Bool := d.route.method.name = q.method

def params (d : HandlerDescriptor) : Option Params := matchRoutePath (segmentsOf d.route.path) q.segments

/-- Whether the method, the path segment by segment and the version of a descriptor admit the request. -/
def admits (d : HandlerDescriptor) : Bool :=
  (q.isConcrete d || isAll d) && (q.params d).isSome && (q.isCurrent d || isUnversioned d)

/-- Literal routes before routes with a parameter, then a current version
before an unversioned fallback, then the concrete method before `ALL`. -/
def precedence (d : HandlerDescriptor) : Nat :=
  (if isLiteral d then 0 else 4) + (if q.isCurrent d then 0 else 2) + if q.isConcrete d then 0 else 1

/-- The precedence of a descriptor that admits the request, else out of bounds. -/
def rank (d : HandlerDescriptor) : Nat := if q.admits d then q.precedence d else 8

def result (d : HandlerDescriptor) : HandlerMatch where
  descriptor := d
  params := (q.params d).getD []

/-- The scan: the first descriptor of the best precedence. -/
def linearMatch (descriptors : List HandlerDescriptor) : Option HandlerMatch := (best q.rank 8 descriptors).map q.result

theorem rank_lt_iff (d : HandlerDescriptor) : q.rank d < 8 ↔ q.admits d := by
  unfold rank precedence
  split_ifs <;> simp_all

end Query

/-! ## Matching one route -/

theorem foldlM_matchSegment (params : Params) (pairs : List (RoutePathSegment × Utf16)) :
    pairs.foldlM matchSegment params = if pairs.any differs then none else some (pairs.foldl bindParams params) := by
  induction pairs generalizing params with
  | nil => rfl
  | cons pair pairs ih =>
    obtain ⟨segment, incoming⟩ := pair
    cases segment with
    | param name => exact ih (assign params name incoming)
    | literal value =>
      by_cases hv : value = incoming
      · subst hv
        have hd : differs (.literal value, value) = false := decide_eq_false (not_not.2 rfl)
        rw [List.any_cons, hd, Bool.false_or, List.foldl_cons, List.foldlM_cons]
        simp [matchSegment, bindParams, ih params]
      · simp [matchSegment, differs, hv]

theorem matchParameterizedRoute_eq (candidate : IndexedDescriptor) (incomingSegments : List Utf16) :
    matchParameterizedRoute candidate incomingSegments = matchRoutePath candidate.segments incomingSegments := by
  rw [matchParameterizedRoute, matchRoutePath, foldlM_matchSegment]

theorem foldlM_matchSegment_literal (params : Params) : ∀ texts incoming : List Utf16, texts.length = incoming.length →
    ((texts.map RoutePathSegment.literal).zip incoming).foldlM matchSegment params = if texts = incoming then some params else none
  | [], [], _ => rfl
  | t :: texts, i :: incoming, h => by
    have ih := foldlM_matchSegment_literal params texts incoming (by simpa using h)
    by_cases ht : t = i
    · simpa [matchSegment, ht] using ih
    · simp [matchSegment, ht]

variable {path : Utf16} {sources : List HandlerSource} {index out : CompiledDescriptorIndex}

theorem segmentsOf_literal (h : (segmentsOf path).all RoutePathSegment.isLiteral) :
    segmentsOf path = (fields slash path).map .literal := by
  refine List.map_congr_left fun text ht => ?_
  have hlit := List.all_eq_true.1 h _ (List.mem_map_of_mem ht)
  cases hr : readSegment text with
  | literal value => rw [readSegment_literal hr]
  | param name =>
    rw [hr] at hlit
    cases hlit

theorem matchRoutePath_literal (h : (segmentsOf path).all RoutePathSegment.isLiteral) (incoming : List Utf16) :
    matchRoutePath (segmentsOf path) incoming = if fields slash path = incoming then some [] else none := by
  rw [segmentsOf_literal h, matchRoutePath, List.length_map]
  by_cases hl : (fields slash path).length = incoming.length
  · rw [if_neg (not_not.2 hl), foldlM_matchSegment_literal _ _ _ hl]
  · rw [if_pos hl, if_neg fun heq => hl (congrArg List.length heq)]

theorem matchesRouteVersion_eq (d : HandlerDescriptor) {version : Option Utf16} (h : version ≠ some []) :
    matchesRouteVersion d version = decide (declaredVersion d = version) := by
  unfold matchesRouteVersion declaredVersion
  split
  case h_1 hv => simp [hv, eq_comm]
  case h_2 hv => simp [hv, Option.filter, eq_comm]
  case h_3 hv => simp [hv]
  case h_4 => exact absurd rfl h
  case h_5 hv => simp [hv]

theorem requestVersion_ne (mapping : HandlerMapping) (request : FrameworkRequest) : mapping.requestVersion request ≠ some [] := by
  unfold HandlerMapping.requestVersion resolveRequestVersion
  split
  · simp
  · intro h
    have := List.find?_some h
    simp at this

/-! ## The descriptors -/

theorem applyVersionPrefix_normalized (h : normalizeRoutePath path = path) (version : Option Utf16) :
    normalizeRoutePath (applyVersionPrefix path version) = applyVersionPrefix path version := by
  unfold applyVersionPrefix joinPaths
  split <;> simp [h]

theorem buildDescriptorList_normalized {versioning : ResolvedVersioning}
    {descriptors : List HandlerDescriptor} (h : buildDescriptorList sources versioning = .ok descriptors) :
    ∀ d ∈ descriptors, normalizeRoutePath d.route.path = d.route.path := by
  obtain ⟨lists, hlists, h⟩ := bind_eq_ok.1 h
  obtain ⟨_, h⟩ := seq_eq_ok.1 h
  cases h
  intro d hd
  obtain ⟨list, hlist, hd⟩ := List.mem_flatten.1 hd
  obtain ⟨source, _, hsource⟩ := mem_of_mapM_eq_ok hlists hlist
  obtain ⟨route, _, hroute⟩ := mem_of_mapM_eq_ok hsource hd
  obtain ⟨_, _, hroute⟩ := bind_eq_ok.1 hroute
  cases hroute
  have hjoin (a b : Utf16) : normalizeRoutePath (joinPaths a b) = joinPaths a b := normalizeRoutePath_idem _
  dsimp only
  split
  · exact applyVersionPrefix_normalized (hjoin _ _) _
  · exact hjoin _ _

/-! ## The index -/

def indexed (d : HandlerDescriptor) : IndexedDescriptor where
  descriptor := d
  segments := segmentsOf d.route.path

theorem indexDescriptor_eq_ok {d : HandlerDescriptor} (h : indexDescriptor index d = .ok out) :
    (∀ method path, out.static (method, path) = index.static (method, path) ++
      [d].filter fun d => isLiteral d && d.route.method.name = method && d.route.path = path) ∧
    ∀ method count, out.param (method, count) = index.param (method, count) ++
      ([d].filter fun d => !isLiteral d && d.route.method.name = method && (segmentsOf d.route.path).length = count).map indexed := by
  obtain ⟨segments, hsegments, h⟩ := bind_eq_ok.1 h
  obtain rfl := parseRoutePath_eq_ok hsegments
  change (if isLiteral d then _ else _) = _ at h
  by_cases hl : isLiteral d
  · rw [if_pos hl] at h
    cases h
    refine ⟨fun method path => ?_, fun method count => ?_⟩
    · by_cases hk : d.route.method.name = method ∧ d.route.path = path
      · simp [push, hl, hk]
      · simp [push, hl, hk]
    · simp [hl]
  · rw [if_neg hl] at h
    cases h
    refine ⟨fun method path => ?_, fun method count => ?_⟩
    · simp [hl]
    · by_cases hk : d.route.method.name = method ∧ (segmentsOf d.route.path).length = count
      · simp [push, hl, hk, indexed]
      · simp [push, hl, hk]

theorem foldlM_indexDescriptor {ds : List HandlerDescriptor}
    (h : ds.foldlM indexDescriptor index = .ok out) :
    (∀ method path, out.static (method, path) = index.static (method, path) ++
      ds.filter fun d => isLiteral d && d.route.method.name = method && d.route.path = path) ∧
    ∀ method count, out.param (method, count) = index.param (method, count) ++
      (ds.filter fun d => !isLiteral d && d.route.method.name = method && (segmentsOf d.route.path).length = count).map indexed := by
  induction ds generalizing index with
  | nil => cases h; simp
  | cons d ds ih =>
    rw [List.foldlM_cons] at h
    obtain ⟨next, hnext, h⟩ := bind_eq_ok.1 h
    obtain ⟨hstatic, hparam⟩ := indexDescriptor_eq_ok hnext
    obtain ⟨ihs, ihp⟩ := ih h
    refine ⟨fun method path => ?_, fun method count => ?_⟩
    · rw [ihs, hstatic, List.append_assoc, ← List.filter_append, List.singleton_append]
    · rw [ihp, hparam, List.append_assoc, ← List.map_append, ← List.filter_append, List.singleton_append]

/-! ## The searches -/

/-- The version check of the code, with its early return under URI versioning. -/
def HandlerMapping.current (mapping : HandlerMapping) (request : FrameworkRequest) (d : HandlerDescriptor) : Bool :=
  mapping.versioning.type = .uri || matchesRouteVersion d (mapping.requestVersion request)

section Searches
variable (mapping : HandlerMapping) (request : FrameworkRequest)

theorem scanStatic_eq (ds : List HandlerDescriptor) (kept : Option HandlerMatch) :
    scanStatic (mapping.requestVersion request) mapping.versioning ds kept =
      ((ds.find? (mapping.current request)).map fun d => { descriptor := d, params := [] }).or
        (kept.or ((ds.find? isUnversioned).map fun d => { descriptor := d, params := [] })) := by
  induction ds generalizing kept with
  | nil => simp [scanStatic]
  | cons d ds ih =>
    rw [scanStatic, List.find?_cons, List.find?_cons]
    split_ifs with huri hversion hkept
    · simp [HandlerMapping.current, huri]
    · simp [HandlerMapping.current, hversion]
    · simp [HandlerMapping.current, huri, hversion, ih, isUnversioned, hkept.1, hkept.2]
    · have hcurrent : mapping.current request d = false := by simp [HandlerMapping.current, huri, hversion]
      rw [hcurrent, ih]
      cases kept with
      | some kept => rfl
      | none => rw [show isUnversioned d = false from decide_eq_false fun h => hkept ⟨h, rfl⟩]

def fits (segments : List Utf16) (c : IndexedDescriptor) : Bool := (matchParameterizedRoute c segments).isSome

def found (segments : List Utf16) (c : IndexedDescriptor) : HandlerMatch where
  descriptor := c.descriptor
  params := (matchParameterizedRoute c segments).getD []

theorem scanParameterized_eq (segments : List Utf16) (cs : List IndexedDescriptor) (kept : Option HandlerMatch)
    (hkept : mapping.versioning.type = .uri → kept = none) :
    scanParameterized segments (mapping.requestVersion request) mapping.versioning cs kept =
      ((cs.find? fun c => fits segments c && mapping.current request c.descriptor).map (found segments)).or
        (kept.or ((cs.find? fun c => fits segments c && isUnversioned c.descriptor).map (found segments))) := by
  induction cs generalizing kept with
  | nil =>
    rw [scanParameterized]
    split_ifs with huri
    · simp
    · simp [hkept (not_not.1 huri)]
  | cons c cs ih =>
    rw [scanParameterized, List.find?_cons, List.find?_cons]
    cases hmatch : matchParameterizedRoute c segments with
    | none =>
      have hfits : fits segments c = false := by simp [fits, hmatch]
      simp [hfits, ih kept hkept]
    | some params =>
      have hfits : fits segments c = true := by simp [fits, hmatch]
      have hfound : found segments c = { descriptor := c.descriptor, params := params } := by simp [found, hmatch]
      dsimp only
      rw [← hfound, hfits]
      split_ifs with huri hversion hnone
      · simp [HandlerMapping.current, huri]
      · simp [HandlerMapping.current, hversion]
      · have hcurrent : mapping.current request c.descriptor = false := by simp [HandlerMapping.current, huri, hversion]
        simp [hcurrent, ih _ fun h => absurd h huri, isUnversioned, hnone.1, hnone.2]
      · have hcurrent : mapping.current request c.descriptor = false := by simp [HandlerMapping.current, huri, hversion]
        rw [hcurrent, ih kept hkept]
        cases kept with
        | some kept => rfl
        | none =>
          rw [show isUnversioned c.descriptor = false from decide_eq_false fun h => hnone ⟨h, rfl⟩]
          rfl

end Searches

/-! ## The stages -/

namespace Query
variable (q : Query)

/-- One search of the code: a bucket of literal or parameterised routes, of
the concrete method or of `ALL`, for a current or an unversioned route. -/
def stage (literal fallback all : Bool) (d : HandlerDescriptor) : Bool :=
  (isLiteral d == literal) && (bif all then isAll d else q.isConcrete d) && (q.params d).isSome &&
    bif fallback then isUnversioned d else q.isCurrent d

def stages : List (HandlerDescriptor → Bool) :=
  [q.stage true false false, q.stage true false true, q.stage true true false, q.stage true true true,
    q.stage false false false, q.stage false false true, q.stage false true false, q.stage false true true]

theorem stageOf_eq (d : HandlerDescriptor) : stageOf q.stages d = q.rank d := by
  rw [rank, admits, precedence, stageOf, stages]
  simp only [stage, List.findIdx_cons, List.findIdx_nil]
  generalize isLiteral d = literal, q.isConcrete d = concrete, (q.params d).isSome = fits, q.isCurrent d = current,
    isAll d = all, isUnversioned d = unversioned
  revert literal concrete fits current all unversioned
  decide

end Query

theorem name_eq_all {m : HttpMethod} : m.name = HttpMethod.all.name ↔ m = .all := by
  cases m <;> decide

section Assembly
variable {casing : Casing} {sources : List HandlerSource} {options : Option VersioningOptions} {mapping : HandlerMapping}

theorem createHandlerMapping_eq_ok (h : createHandlerMapping casing sources options = .ok mapping) :
    (∀ d ∈ mapping.descriptors, normalizeRoutePath d.route.path = d.route.path) ∧
      buildDescriptorIndex mapping.descriptors = .ok mapping.descriptorIndex := by
  obtain ⟨descriptors, hdescriptors, h⟩ := bind_eq_ok.1 h
  obtain ⟨index, hindex, h⟩ := bind_eq_ok.1 h
  cases h
  exact ⟨buildDescriptorList_normalized hdescriptors, hindex⟩

theorem current_eq (request : FrameworkRequest) (d : HandlerDescriptor) :
    mapping.current request d = (mapping.query casing request).isCurrent d := by
  rw [HandlerMapping.current, matchesRouteVersion_eq d (requestVersion_ne mapping request)]
  rfl

theorem literal_path_eq (request : FrameworkRequest) {d : HandlerDescriptor} (hd : normalizeRoutePath d.route.path = d.route.path)
    (hl : isLiteral d) :
    decide (d.route.path = normalizeRoutePath request.path) = ((mapping.query casing request).params d).isSome := by
  have hpath : (d.route.path = normalizeRoutePath request.path) ↔ fields slash d.route.path = fields slash request.path := by
    rw [← normalizeRoutePath_eq_iff, hd]
  rw [Query.params, matchRoutePath_literal hl]
  change _ = (if fields slash d.route.path = fields slash request.path then some [] else none : Option Params).isSome
  by_cases hf : fields slash d.route.path = fields slash request.path
  · rw [if_pos hf, decide_eq_true (hpath.2 hf), Option.isSome_some]
  · rw [if_neg hf, decide_eq_false (mt hpath.1 hf), Option.isSome_none]

def Query.key (q : Query) (all : Bool) : Utf16 := bif all then HttpMethod.all.name else q.method

theorem Query.key_eq (q : Query) (all : Bool) (d : HandlerDescriptor) :
    decide (d.route.method.name = q.key all) = bif all then isAll d else q.isConcrete d := by
  cases all with
  | true => exact decide_eq_decide.2 name_eq_all
  | false => rfl

theorem version_eq (request : FrameworkRequest) (fallback : Bool) (d : HandlerDescriptor) :
    (bif fallback then isUnversioned else mapping.current request) d =
      bif fallback then isUnversioned d else (mapping.query casing request).isCurrent d := by
  cases fallback with
  | true => rfl
  | false => exact current_eq request d

theorem find?_static (h : createHandlerMapping casing sources options = .ok mapping) (request : FrameworkRequest)
    (fallback all : Bool) :
    (mapping.descriptorIndex.static ((mapping.query casing request).key all, normalizeRoutePath request.path)).find?
        (bif fallback then isUnversioned else mapping.current request) =
      mapping.descriptors.find? ((mapping.query casing request).stage true fallback all) := by
  obtain ⟨hnormal, hindex⟩ := createHandlerMapping_eq_ok h
  rw [(foldlM_indexDescriptor hindex).1, List.nil_append, List.find?_filter]
  refine List.find?_congr fun d hd => ?_
  rw [Query.stage, Query.key_eq, @version_eq casing _ request fallback d, Bool.decide_and, Bool.decide_eq_true,
    Bool.decide_eq_true]
  cases hl : isLiteral d with
  | false => rfl
  | true =>
    rw [@literal_path_eq casing _ request _ (hnormal d hd) hl, Bool.true_and, beq_self_eq_true, Bool.true_and,
      Bool.and_assoc]

theorem fits_indexed (q : Query) (d : HandlerDescriptor) :
    (decide ((segmentsOf d.route.path).length = q.segments.length) && fits q.segments (indexed d)) = (q.params d).isSome := by
  rw [fits, matchParameterizedRoute_eq, Query.params]
  by_cases hlength : (segmentsOf d.route.path).length = q.segments.length
  · rw [decide_eq_true hlength, Bool.true_and]
    rfl
  · have hnone : matchRoutePath (segmentsOf d.route.path) q.segments = none := if_pos hlength
    rw [decide_eq_false hlength, hnone]
    rfl

theorem find?_param (h : createHandlerMapping casing sources options = .ok mapping) (request : FrameworkRequest)
    (fallback all : Bool) :
    ((mapping.descriptorIndex.param ((mapping.query casing request).key all, (fields slash request.path).length)).find? fun c =>
        fits (fields slash request.path) c && (bif fallback then isUnversioned else mapping.current request) c.descriptor).map
        (found (fields slash request.path)) =
      (mapping.descriptors.find? ((mapping.query casing request).stage false fallback all)).map (mapping.query casing request).result := by
  obtain ⟨_, hindex⟩ := createHandlerMapping_eq_ok h
  rw [(foldlM_indexDescriptor hindex).2, List.nil_append, List.find?_map, List.find?_filter, Option.map_map]
  have hfound : found (fields slash request.path) ∘ indexed = (mapping.query casing request).result := by
    funext d
    simp [found, indexed, matchParameterizedRoute_eq, Query.result, Query.params, HandlerMapping.query]
  rw [hfound]
  congr 1
  refine List.find?_congr fun d _ => ?_
  have hfits := fits_indexed (mapping.query casing request) d
  rw [Query.stage, Query.key_eq, ← hfits, Function.comp_apply, ← @version_eq casing _ request fallback d,
    Bool.decide_and, Bool.decide_eq_true, Bool.decide_eq_true]
  cases isLiteral d with
  | true => rfl
  | false =>
    simp only [Bool.not_false, Bool.true_and, Bool.and_assoc, beq_self_eq_true]
    rfl

theorem map_result_literal (q : Query) (ds : List HandlerDescriptor) (fallback all : Bool) :
    (ds.find? (q.stage true fallback all)).map (fun d => ({ descriptor := d, params := [] } : HandlerMatch)) =
      (ds.find? (q.stage true fallback all)).map q.result := by
  refine Option.map_congr fun d hd => ?_
  have hstage := List.find?_some hd
  rw [Query.stage, Bool.and_eq_true, Bool.and_eq_true, Bool.and_eq_true, beq_iff_eq] at hstage
  rw [Query.result, Query.params, matchRoutePath_literal hstage.1.1.1]
  split <;> rfl

theorem matchRequest_eq_scans (request : FrameworkRequest) :
    mapping.matchRequest casing request =
      (findStaticMatch [mapping.descriptorIndex.static ((mapping.query casing request).key false, normalizeRoutePath request.path),
          mapping.descriptorIndex.static ((mapping.query casing request).key true, normalizeRoutePath request.path)]
        (mapping.requestVersion request) mapping.versioning).or
      (scanParameterized (fields slash request.path) (mapping.requestVersion request) mapping.versioning
        (mapping.descriptorIndex.param ((mapping.query casing request).key false, (fields slash request.path).length) ++
          mapping.descriptorIndex.param ((mapping.query casing request).key true, (fields slash request.path).length)) none) := by
  rw [← fields_normalizeRoutePath request.path]
  unfold HandlerMapping.matchRequest
  dsimp only
  cases hfirst : findStaticMatch _ _ _ <;> simp [Query.key, HandlerMapping.query, hfirst]

theorem matchRequest_eq_stages (h : createHandlerMapping casing sources options = .ok mapping) (request : FrameworkRequest) :
    mapping.matchRequest casing request =
      (((mapping.query casing request).stages.findSome? fun p => mapping.descriptors.find? p).map
        (mapping.query casing request).result) := by
  have hstatic (all) := find?_static h request false all
  have hstaticFallback (all) := find?_static h request true all
  have hparam (all) := find?_param h request false all
  have hparamFallback (all) := find?_param h request true all
  have hliteral := map_result_literal (mapping.query casing request) mapping.descriptors
  simp only [cond_false, cond_true] at hstatic hstaticFallback hparam hparamFallback
  rw [matchRequest_eq_scans, findStaticMatch, scanStatic_eq, scanParameterized_eq _ _ _ _ _ fun _ => rfl]
  simp only [List.flatten_cons, List.flatten_nil, List.append_nil, List.find?_append, Option.map_or, Option.none_or,
    hstatic, hstaticFallback, hparam, hparamFallback, hliteral, Query.stages, findSome?_cons_or, List.findSome?_nil,
    Option.or_none, Option.or_assoc, Option.map_or]

end Assembly

/-! ## The refinement -/

theorem matchRequest_eq_linearMatch {casing : Casing} {options : Option VersioningOptions} {mapping : HandlerMapping}
    (h : createHandlerMapping casing sources options = .ok mapping) (request : FrameworkRequest) :
    mapping.matchRequest casing request = (mapping.query casing request).linearMatch mapping.descriptors := by
  have hrank : stageOf (mapping.query casing request).stages = (mapping.query casing request).rank :=
    funext (Query.stageOf_eq _)
  rw [matchRequest_eq_stages h, findSome?_stages, hrank]
  rfl

/-- Matching through the index returns what the scan over all descriptors
returns, and nothing exactly when no descriptor admits the request. -/
theorem match_equals_linear_match (casing : Casing) (sources : List HandlerSource) (options : Option VersioningOptions)
    (mapping : HandlerMapping) (h : createHandlerMapping casing sources options = .ok mapping) (request : FrameworkRequest) :
    mapping.matchRequest casing request = (mapping.query casing request).linearMatch mapping.descriptors ∧
      (mapping.matchRequest casing request = none ↔ ∀ d ∈ mapping.descriptors, ¬(mapping.query casing request).admits d) := by
  have hmatch := matchRequest_eq_linearMatch h request
  refine ⟨hmatch, ?_⟩
  rw [hmatch, Query.linearMatch, Option.map_eq_none_iff, best_eq_none]
  exact forall₂_congr fun d _ => by rw [← Query.rank_lt_iff, Nat.not_lt]

/-- The case conversions of texts in ASCII. -/
def asciiCasing : Casing where
  toUpperCase text := text.map fun u => if 97 ≤ u ∧ u ≤ 122 then u - 32 else u
  toLowerCase text := text.map fun u => if 65 ≤ u ∧ u ≤ 90 then u + 32 else u
  sameIgnoringCase u v := (if 65 ≤ u ∧ u ≤ 90 then u + 32 else u) = if 65 ≤ v ∧ v ≤ 90 then v + 32 else v

/-- A controller under a base path, with its routes in order. -/
def controllerAt (basePath : String) (routes : List (String × HttpMethod × String)) : HandlerSource where
  controllerToken := {
    id := 0
    metadata := some { basePath := units basePath, version := none }
    properties := routes.map fun route =>
      (units route.1, some { method := route.2.1, path := units route.2.2, version := none }) }

def usersController : HandlerSource :=
  controllerAt "/users" [("one", .get, ":id"), ("any", .all, "/me"), ("me", .get, "me/")]

theorem match_equals_linear_match_users : ∃ mapping, createHandlerMapping asciiCasing [usersController] none = .ok mapping ∧
    mapping.matchRequest asciiCasing { method := units "get", path := units "//users/me/", headers := [] } =
      (mapping.query asciiCasing { method := units "get", path := units "//users/me/", headers := [] }).linearMatch
        mapping.descriptors := by
  have haccepted : (createHandlerMapping asciiCasing [usersController] none).isOk := by decide
  cases h : createHandlerMapping asciiCasing [usersController] none with
  | error e =>
    rw [h] at haccepted
    cases haccepted
  | ok mapping => exact ⟨mapping, rfl, (match_equals_linear_match _ _ _ mapping h _).1⟩

example : (createHandlerMapping asciiCasing [usersController] none).toOption.map (fun mapping =>
    (mapping.matchRequest asciiCasing { method := units "get", path := units "//users/me/", headers := [] }).map
      (·.descriptor.methodName)) = some (some (units "me")) := by decide

end Fluo.Http.Mapping
