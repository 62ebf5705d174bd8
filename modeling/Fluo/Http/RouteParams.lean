import Fluo.Http.LinearMatch
import Fluo.Lib.OrderedMap
/-!
# The params of a route

What a matched route binds: the text of each parameter segment is put into one plain object under
the parameter's name, where `__proto__` is no property and a repeated name is overwritten.
-/

namespace Fluo.Http.Mapping
open Fluo.Lib

def underscoreProto : Utf16 := units "__proto__"

/-- The route pattern with its parameters replaced, if all of them are own properties. -/
def substitute (params : Params) : List RoutePathSegment → Option (List Utf16)
  | [] => some []
  | .literal value :: rest => (substitute params rest).map (value :: ·)
  | .param name :: rest => do return (← OrderedMap.get params name) :: (← substitute params rest)

/-- The name of a parameter segment, as `extractRoutePathParams` collects it. -/
def RoutePathSegment.paramName : RoutePathSegment → List Utf16
  | .param name => [name]
  | .literal _ => []

/-- Substituting gives the normalised path back, and the own keys are the declared parameters. -/
def RoundTrips (d : HandlerDescriptor) (request : FrameworkRequest) (params : Params) : Prop :=
  (∃ segments, parseRoutePath d.route.path none = .ok segments ∧
    (substitute params segments).map (fun texts => slash :: [slash].intercalate texts) = some (normalizeRoutePath request.path)) ∧
  ∀ name, name ∈ params.map Prod.fst ↔ name ∈ d.metadata.pathParams

/-- No segment binds `__proto__`, and those that bind one name stand for one text. -/
structure Separate (segments : List RoutePathSegment) (incoming : List Utf16) : Prop where
  named : .param underscoreProto ∉ segments
  agree {name x y} : (.param name, x) ∈ segments.zip incoming → (.param name, y) ∈ segments.zip incoming → x = y

/-! ## Assigning -/

variable {key name value : Utf16} {incoming : List Utf16} {segments : List RoutePathSegment} {options : Option VersioningOptions}
    {sources : List HandlerSource}

theorem mem_keys_assign {params : Params} :
    key ∈ (assign params name value).map Prod.fst ↔ (key = name ∧ name ≠ underscoreProto) ∨ key ∈ params.map Prod.fst := by
  unfold assign underscoreProto
  by_cases hproto : name = units "__proto__"
  · simp [hproto]
  · rw [if_neg hproto]
    by_cases hmem : name ∈ params.map Prod.fst
    · have hkeys : (params.map fun entry => if entry.1 = name then (name, value) else entry).map Prod.fst = params.map Prod.fst := by
        rw [List.map_map]
        refine List.map_congr_left fun entry _ => ?_
        by_cases hname : entry.1 = name <;> simp [hname]
      rw [if_pos hmem, hkeys]
      refine ⟨.inr, fun h => h.elim (fun hkey => ?_) id⟩
      rw [hkey.1]
      exact hmem
    · rw [if_neg hmem]
      simp [hproto, or_comm]

theorem get_assign_of_ne (params : Params) (hne : key ≠ name) (value : Utf16) :
    OrderedMap.get (assign params name value) key = OrderedMap.get params key := by
  unfold assign
  split_ifs with hproto hmem
  · rfl
  · clear hmem
    induction params with
    | nil => rfl
    | cons entry params ih =>
      obtain ⟨first, found⟩ := entry
      rw [List.map_cons, OrderedMap.get_cons first, ← ih]
      by_cases hfirst : first = name
      · rw [if_pos hfirst, OrderedMap.get_cons, if_neg (Ne.symm hne), if_neg (hfirst ▸ Ne.symm hne)]
      · rw [if_neg hfirst, OrderedMap.get_cons]
  · rw [← OrderedMap.set_of_notMem hmem, OrderedMap.get_set_of_ne _ hne]

theorem get_assign_self (params : Params) (h : name ≠ underscoreProto) (value : Utf16) :
    OrderedMap.get (assign params name value) name = some value := by
  unfold assign
  rw [if_neg (show name ≠ units "__proto__" from h)]
  split_ifs with hmem
  · induction params with
    | nil => cases hmem
    | cons entry params ih =>
      obtain ⟨first, found⟩ := entry
      rw [List.map_cons]
      by_cases hfirst : first = name
      · rw [if_pos hfirst, OrderedMap.get_cons, if_pos rfl]
      · have hrest : name ∈ params.map Prod.fst := (List.mem_cons.1 hmem).resolve_left (Ne.symm hfirst)
        rw [if_neg hfirst, OrderedMap.get_cons, if_neg hfirst, ih hrest]
  · rw [← OrderedMap.set_of_notMem hmem, OrderedMap.get_set_self]

/-! ## Binding all segments -/

variable {params : Params} {pairs : List (RoutePathSegment × Utf16)}

theorem mem_keys_foldl_bindParams : key ∈ (pairs.foldl bindParams params).map Prod.fst ↔
    ((∃ pair ∈ pairs, pair.1 = .param key) ∧ key ≠ underscoreProto) ∨ key ∈ params.map Prod.fst := by
  induction pairs generalizing params with
  | nil => simp
  | cons pair pairs ih =>
    obtain ⟨segment, incoming⟩ := pair
    rw [List.foldl_cons, ih]
    cases segment with
    | literal value => simp [bindParams]
    | param name =>
      simp only [bindParams, mem_keys_assign, List.exists_mem_cons_iff, RoutePathSegment.param.injEq]
      grind

theorem get_foldl_bindParams (hname : name ≠ underscoreProto)
    (hagree : ∀ x, (.param name, x) ∈ pairs → x = value) (h : OrderedMap.get params name = some value ∨ (.param name, value) ∈ pairs) :
    OrderedMap.get (pairs.foldl bindParams params) name = some value := by
  induction pairs generalizing params with
  | nil => exact h.resolve_right List.not_mem_nil
  | cons pair pairs ih =>
    have hrest x (hx : (.param name, x) ∈ pairs) : x = value := hagree x (List.mem_cons_of_mem _ hx)
    obtain ⟨segment, incoming⟩ := pair
    rw [List.foldl_cons]
    apply ih hrest
    by_cases hsegment : segment = .param name
    · subst hsegment
      have hvalue : incoming = value := hagree incoming List.mem_cons_self
      subst hvalue
      exact .inl (get_assign_self params hname incoming)
    · rcases h with h | h
      · left
        cases segment with
        | literal text => exact h
        | param other =>
          have hother : name ≠ other := fun heq => hsegment (congrArg _ heq.symm)
          exact (get_assign_of_ne params hother incoming).trans h
      · rcases List.mem_cons.1 h with heq | h
        · exact absurd (congrArg Prod.fst heq).symm hsegment
        · exact .inr h

theorem mem_of_get_foldl_bindParams (hparams : OrderedMap.get params name = none)
    (h : OrderedMap.get (pairs.foldl bindParams params) name = some value) : (.param name, value) ∈ pairs := by
  induction pairs using List.reverseRecOn with
  | nil => rw [List.foldl_nil, hparams] at h; cases h
  | append_singleton pairs pair ih =>
    obtain ⟨segment, incoming⟩ := pair
    rw [List.foldl_concat] at h
    cases segment with
    | literal text => exact List.mem_append_left _ (ih h)
    | param other =>
      by_cases hother : name = other
      · subst hother
        by_cases hproto : name = underscoreProto
        · have hsame : assign (pairs.foldl bindParams params) name incoming = pairs.foldl bindParams params := if_pos hproto
          simp only [bindParams, hsame] at h
          exact List.mem_append_left _ (ih h)
        · rw [bindParams, get_assign_self _ hproto, Option.some.injEq] at h
          subst h
          exact List.mem_append_right _ List.mem_cons_self
      · rw [bindParams, get_assign_of_ne _ hother] at h
        exact List.mem_append_left _ (ih h)

/-! ## Substituting -/

theorem substitute_eq_some (hlength : segments.length = incoming.length)
    (hliterals : (segments.zip incoming).any differs = false) :
    substitute params segments = some incoming ↔ ∀ name x, (.param name, x) ∈ segments.zip incoming → OrderedMap.get params name = some x := by
  induction segments generalizing incoming with
  | nil =>
    cases incoming with
    | nil => simp [substitute]
    | cons text incoming => cases hlength
  | cons segment segments ih =>
    cases incoming with
    | nil => cases hlength
    | cons text incoming =>
      rw [List.zip_cons_cons, List.any_cons, Bool.or_eq_false_iff] at hliterals
      have ih := ih (Nat.succ.inj hlength) hliterals.2
      rw [List.zip_cons_cons]
      cases segment with
      | literal value =>
        have hvalue : value = text := by simpa [differs] using hliterals.1
        subst hvalue
        simp [substitute, ih]
      | param name =>
        have hcons : substitute params (.param name :: segments) = some (text :: incoming) ↔
            OrderedMap.get params name = some text ∧ substitute params segments = some incoming := by
          rw [substitute]
          cases OrderedMap.get params name <;> cases substitute params segments <;> simp
        rw [hcons, ih]
        simp only [List.mem_cons, Prod.mk.injEq, RoutePathSegment.param.injEq]
        refine ⟨?_, fun h => ⟨h name text (.inl ⟨rfl, rfl⟩), fun name' x hx => h name' x (.inr hx)⟩⟩
        rintro ⟨hfirst, hrest⟩ name' x (⟨rfl, rfl⟩ | hx)
        · exact hfirst
        · exact hrest name' x hx

theorem fields_path {texts : List Utf16} (h : ∀ text ∈ texts, slash ∉ text ∧ text ≠ []) :
    fields slash (slash :: [slash].intercalate texts) = texts := by
  have hcons : slash :: [slash].intercalate texts = [] ++ slash :: [slash].intercalate texts := rfl
  rw [hcons, fields_append_cons, fields_nil, List.nil_append, fields_intercalate,
    List.flatMap_congr fun text htext => fields_of_notMem (h text htext).1 (h text htext).2, List.flatMap_singleton']

theorem substitute_texts {texts : List Utf16}
    (hliterals : ∀ value, .literal value ∈ segments → slash ∉ value ∧ value ≠ [])
    (hvalues : ∀ name value, OrderedMap.get params name = some value → slash ∉ value ∧ value ≠ []) (h : substitute params segments = some texts) :
    ∀ text ∈ texts, slash ∉ text ∧ text ≠ [] := by
  induction segments generalizing texts with
  | nil =>
    cases h
    simp
  | cons segment segments ih =>
    have hrest value (hvalue : RoutePathSegment.literal value ∈ segments) := hliterals value (List.mem_cons_of_mem _ hvalue)
    cases segment with
    | literal value =>
      obtain ⟨rest, hsome, rfl⟩ := Option.map_eq_some_iff.1 h
      intro text htext
      rcases List.mem_cons.1 htext with rfl | htext
      · exact hliterals _ List.mem_cons_self
      · exact ih hrest hsome text htext
    | param name =>
      obtain ⟨value, hvalue, h⟩ := Option.bind_eq_some_iff.1 h
      obtain ⟨rest, hsome, h⟩ := Option.bind_eq_some_iff.1 h
      cases h
      intro text htext
      rcases List.mem_cons.1 htext with rfl | htext
      · exact hvalues name _ hvalue
      · exact ih hrest hsome text htext

/-! ## The descriptors -/

theorem extractRoutePathParams_eq_ok {path : Utf16} {names : List Utf16} (h : extractRoutePathParams path = .ok names) :
    names = (segmentsOf path).flatMap RoutePathSegment.paramName ∧ ∃ segments, parseRoutePath path none = .ok segments := by
  obtain ⟨segments, hparse, h⟩ := bind_eq_ok.1 h
  cases h
  rw [← parseRoutePath_eq_ok hparse]
  refine ⟨?_, segments, hparse⟩
  exact List.flatMap_congr fun segment _ => by cases segment <;> rfl

theorem createHandlerMapping_pathParams {casing : Casing} {mapping : HandlerMapping}
    (h : createHandlerMapping casing sources options = .ok mapping) {d : HandlerDescriptor} (hd : d ∈ mapping.descriptors) :
    extractRoutePathParams d.route.path = .ok d.metadata.pathParams := by
  obtain ⟨descriptors, hlist, h⟩ := bind_eq_ok.1 h
  obtain ⟨_, _, h⟩ := bind_eq_ok.1 h
  cases h
  obtain ⟨lists, hlists, hlist⟩ := bind_eq_ok.1 hlist
  obtain ⟨_, hlist⟩ := seq_eq_ok.1 hlist
  cases hlist
  obtain ⟨list, hmem, hd⟩ := List.mem_flatten.1 hd
  obtain ⟨source, _, hsource⟩ := mem_of_mapM_eq_ok hlists hmem
  obtain ⟨route, _, hroute⟩ := mem_of_mapM_eq_ok hsource hd
  obtain ⟨names, hnames, hroute⟩ := bind_eq_ok.1 hroute
  cases hroute
  exact hnames

theorem matchRequest_eq_some {casing : Casing} {mapping : HandlerMapping}
    (h : createHandlerMapping casing sources options = .ok mapping) {request : FrameworkRequest} {found : HandlerMatch}
    (hmatch : mapping.matchRequest casing request = some found) :
    found.descriptor ∈ mapping.descriptors ∧ matchRoutePath (segmentsOf found.descriptor.route.path) (fields slash request.path) = some found.params := by
  rw [matchRequest_eq_linearMatch h request] at hmatch
  obtain ⟨d, hbest, rfl⟩ := Option.map_eq_some_iff.1 hmatch
  obtain ⟨hlt, hleads⟩ := best_eq_some.1 hbest
  have hadmits := (Query.rank_lt_iff _ _).1 hlt
  simp only [Query.admits, Bool.and_eq_true] at hadmits
  obtain ⟨params, hparams⟩ := Option.isSome_iff_exists.1 hadmits.1.2
  refine ⟨hleads.mem, ?_⟩
  show matchRoutePath _ _ = some (((mapping.query casing request).params d).getD [])
  rw [hparams]
  exact hparams

theorem matchRoutePath_eq_some (h : matchRoutePath segments incoming = some params) :
    segments.length = incoming.length ∧ (segments.zip incoming).any differs = false ∧ params = (segments.zip incoming).foldl bindParams [] := by
  unfold matchRoutePath at h
  split at h
  · cases h
  · rename_i hlength
    rw [foldlM_matchSegment] at h
    split at h
    · cases h
    · rename_i hliterals
      exact ⟨not_not.1 hlength, by simpa using hliterals, (Option.some.inj h).symm⟩

theorem substitute_eq_some_iff_separate (h : matchRoutePath segments incoming = some params) :
    substitute params segments = some incoming ↔ Separate segments incoming := by
  obtain ⟨hlength, hliterals, rfl⟩ := matchRoutePath_eq_some h
  rw [substitute_eq_some hlength hliterals]
  constructor
  · intro hbound
    have hagree {name x y} (hx : (RoutePathSegment.param name, x) ∈ segments.zip incoming) (hy : (RoutePathSegment.param name, y) ∈ segments.zip incoming) : x = y :=
      Option.some.inj ((hbound name x hx).symm.trans (hbound name y hy))
    refine ⟨fun hproto => ?_, hagree⟩
    obtain ⟨i, hi, hget⟩ := List.getElem_of_mem hproto
    have hpair : (RoutePathSegment.param underscoreProto, incoming[i]) ∈ segments.zip incoming := by
      rw [← hget, ← List.getElem_zip (h := by simpa [hlength] using hlength ▸ hi)]
      exact List.getElem_mem _
    have hkey := OrderedMap.isSome_get.1 (Option.isSome_iff_exists.2 ⟨_, hbound _ _ hpair⟩)
    rw [mem_keys_foldl_bindParams] at hkey
    simp at hkey
  · intro hseparate name x hx
    have hname : name ≠ underscoreProto := by
      rintro rfl
      exact hseparate.named (List.of_mem_zip hx).1
    exact get_foldl_bindParams hname (fun y hy => hseparate.agree hy hx) (.inr hx)

theorem mem_keys_of_matchRoutePath (h : matchRoutePath segments incoming = some params)
    (name : Utf16) : name ∈ params.map Prod.fst ↔ name ∈ segments.flatMap RoutePathSegment.paramName ∧ name ≠ underscoreProto := by
  obtain ⟨hlength, -, rfl⟩ := matchRoutePath_eq_some h
  have hfirst : (segments.zip incoming).map Prod.fst = segments := List.map_fst_zip (Nat.le_of_eq hlength)
  have hpair : (∃ pair ∈ segments.zip incoming, pair.1 = .param name) ↔ .param name ∈ segments := by
    rw [← List.mem_map, hfirst]
  have hnamed : name ∈ segments.flatMap RoutePathSegment.paramName ↔ .param name ∈ segments := by
    rw [List.mem_flatMap]
    refine ⟨fun ⟨segment, hsegment, hname⟩ => ?_, fun hsegment => ⟨_, hsegment, List.mem_singleton_self name⟩⟩
    cases segment with
    | literal value => cases hname
    | param other => rwa [List.mem_singleton.1 hname]
  rw [mem_keys_foldl_bindParams, hpair, hnamed]
  simp

/-- The params of a match give the path back and have the declared names if and only if the route has no parameter
`__proto__`, and the request has one text wherever the route repeats a parameter. -/
theorem params_round_trip_iff (casing : Casing) (sources : List HandlerSource) (options : Option VersioningOptions) (mapping : HandlerMapping)
    (h : createHandlerMapping casing sources options = .ok mapping) (request : FrameworkRequest) (found : HandlerMatch)
    (hmatch : mapping.matchRequest casing request = some found) :
    RoundTrips found.descriptor request found.params ↔ Separate (segmentsOf found.descriptor.route.path) (fields slash request.path) := by
  obtain ⟨hmem, hroute⟩ := matchRequest_eq_some h hmatch
  obtain ⟨hnames, segments, hparse⟩ := extractRoutePathParams_eq_ok (createHandlerMapping_pathParams h hmem)
  have hsegments : segments = segmentsOf found.descriptor.route.path := parseRoutePath_eq_ok hparse
  rw [← substitute_eq_some_iff_separate hroute]
  constructor
  · rintro ⟨⟨segments', hparse', htexts⟩, -⟩
    obtain rfl := parseRoutePath_eq_ok hparse'
    obtain ⟨texts, hsubstitute, hpath⟩ := Option.map_eq_some_iff.1 htexts
    have hliterals value (hvalue : RoutePathSegment.literal value ∈ segmentsOf found.descriptor.route.path) : slash ∉ value ∧ value ≠ [] := by
      obtain ⟨segment, hsegment, hread⟩ := List.mem_map.1 hvalue
      rw [← readSegment_literal hread]
      exact notMem_fields hsegment
    have hvalues name value (hvalue : OrderedMap.get found.params name = some value) : slash ∉ value ∧ value ≠ [] := by
      rw [(matchRoutePath_eq_some hroute).2.2] at hvalue
      exact notMem_fields (List.of_mem_zip (mem_of_get_foldl_bindParams rfl hvalue)).2
    have hfields : texts = fields slash request.path := by
      rw [← fields_path (substitute_texts hliterals hvalues hsubstitute), hpath, fields_normalizeRoutePath]
    rwa [hfields] at hsubstitute
  · intro hsubstitute
    have hseparate := (substitute_eq_some_iff_separate hroute).1 hsubstitute
    refine ⟨⟨segments, hparse, by rw [hsegments, hsubstitute]; rfl⟩, fun name => ?_⟩
    rw [mem_keys_of_matchRoutePath hroute, hnames, and_iff_left_iff_imp]
    rintro hdeclared rfl
    obtain ⟨segment, hsegment, hname⟩ := List.mem_flatMap.1 hdeclared
    cases segment with
    | literal value => cases hname
    | param other =>
      rw [← List.mem_singleton.1 hname] at hsegment
      exact hseparate.named hsegment

/-- A route that repeats a parameter, and one with a parameter `__proto__`. -/
def rangesController : HandlerSource := controllerAt "/" [("range", .get, "range/:n/:n"), ("odd", .get, "odd/:__proto__")]

def getPath (path : String) : FrameworkRequest := { method := units "GET", path := units path, headers := [] }

/-- The path and the declared parameters of the route that is found, and what is bound. -/
def bound (path : String) : Option (Utf16 × List Utf16 × Params) :=
  (createHandlerMapping asciiCasing [rangesController] none).toOption.bind fun mapping =>
    (mapping.matchRequest asciiCasing (getPath path)).map fun found => (found.descriptor.route.path, found.descriptor.metadata.pathParams, found.params)

theorem exists_match {path : String} {result : Utf16 × List Utf16 × Params} (h : bound path = some result) :
    ∃ mapping found, createHandlerMapping asciiCasing [rangesController] none = .ok mapping ∧ mapping.matchRequest asciiCasing (getPath path) = some found ∧
      result = (found.descriptor.route.path, found.descriptor.metadata.pathParams, found.params) := by
  obtain ⟨mapping, hmapping, h⟩ := Option.bind_eq_some_iff.1 h
  obtain ⟨found, hfound, hresult⟩ := Option.map_eq_some_iff.1 h
  refine ⟨mapping, found, ?_, hfound, hresult.symm⟩
  cases hcreate : createHandlerMapping asciiCasing [rangesController] none with
  | error e =>
    rw [hcreate] at hmapping
    cases hmapping
  | ok created =>
    rw [hcreate] at hmapping
    cases hmapping
    rfl

/-- The two texts of the repeated parameter are the same. -/
theorem params_round_trip_iff_same : ∃ mapping found, createHandlerMapping asciiCasing [rangesController] none = .ok mapping ∧
    mapping.matchRequest asciiCasing (getPath "//range/1/1/") = some found ∧ RoundTrips found.descriptor (getPath "//range/1/1/") found.params := by
  have hbound : bound "//range/1/1/" = some (units "/range/:n/:n", [units "n", units "n"], [(units "n", units "1")]) := by decide +kernel
  obtain ⟨mapping, found, hmapping, hfound, hresult⟩ := exists_match hbound
  refine ⟨mapping, found, hmapping, hfound, (params_round_trip_iff asciiCasing _ none mapping hmapping _ found hfound).2 ?_⟩
  rw [← (Prod.mk.inj hresult).1]
  have hzip : (segmentsOf (units "/range/:n/:n")).zip (fields slash (getPath "//range/1/1/").path) =
      [(.literal (units "range"), units "range"), (.param (units "n"), units "1"), (.param (units "n"), units "1")] := by decide +kernel
  refine ⟨by decide +kernel, fun hx hy => ?_⟩
  rw [hzip] at hx hy
  simp only [List.mem_cons, Prod.mk.injEq, reduceCtorEq, false_and, false_or, List.not_mem_nil, or_false, or_self] at hx hy
  rw [hx.2, hy.2]

/-- The second of two texts overwrites the first, and nothing is bound to `__proto__`. -/
theorem params_round_trip_counterexample :
    (∃ mapping found, createHandlerMapping asciiCasing [rangesController] none = .ok mapping ∧
      mapping.matchRequest asciiCasing (getPath "/range/1/2") = some found ∧ ¬RoundTrips found.descriptor (getPath "/range/1/2") found.params) ∧
    ∃ mapping found, createHandlerMapping asciiCasing [rangesController] none = .ok mapping ∧
      mapping.matchRequest asciiCasing (getPath "/odd/x") = some found ∧ ¬RoundTrips found.descriptor (getPath "/odd/x") found.params := by
  have hrange : bound "/range/1/2" = some (units "/range/:n/:n", [units "n", units "n"], [(units "n", units "2")]) := by decide +kernel
  have hodd : bound "/odd/x" = some (units "/odd/:__proto__", [underscoreProto], []) := by decide +kernel
  constructor
  · obtain ⟨mapping, found, hmapping, hfound, hresult⟩ := exists_match hrange
    refine ⟨mapping, found, hmapping, hfound, fun ⟨⟨segments, hparse, hsubstitute⟩, _⟩ => ?_⟩
    simp only [Prod.mk.injEq] at hresult
    obtain ⟨hpath, -, hparams⟩ := hresult
    rw [parseRoutePath_eq_ok hparse, ← hpath, ← hparams] at hsubstitute
    revert hsubstitute
    decide +kernel
  · obtain ⟨mapping, found, hmapping, hfound, hresult⟩ := exists_match hodd
    refine ⟨mapping, found, hmapping, hfound, fun ⟨_, hnames⟩ => ?_⟩
    simp only [Prod.mk.injEq] at hresult
    obtain ⟨-, hdeclared, hparams⟩ := hresult
    have hname := hnames underscoreProto
    rw [← hdeclared, ← hparams] at hname
    simp at hname

end Fluo.Http.Mapping
