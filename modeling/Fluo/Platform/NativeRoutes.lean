import Mathlib.Algebra.Ring.Nat
import Mathlib.Data.List.Infix
import Mathlib.Data.List.Nodup
import Fluo.Http.LinearMatch
import Fluo.Lib.OrderedMap
/-!
# Native routes

What the adapters share that register routes with the router of their host: which routes they register, how the host binds
parameters, and when the descriptor and the parameters that it hands over are those of the handler mapping. How the host decodes
a parameter is a parameter.
-/

namespace Fluo.Platform
open Fluo.Lib Http.Mapping

/-! ## Handing over -/

def isRoutePathNormalizationSensitive (path : Utf16) : Bool :=
  (path.length > 1 && path.getLast? = some slash) || decide ([slash, slash] <:+: path)

def hasNativeRouteParamSeparators (params : Params) : Bool := params.any fun entry => slash ∈ entry.2

/-- The descriptor and the params of a native match, unless the request stays with the shared dispatcher. -/
def handOver (request : FrameworkRequest) (descriptor : HandlerDescriptor) (params : Params) : Option HandlerMatch :=
  if isRoutePathNormalizationSensitive request.path || hasNativeRouteParamSeparators params then none else some { descriptor, params }

/-- An own property, whatever its name. -/
def define (params : Params) (name value : Utf16) : Params :=
  if name ∈ params.map Prod.fst then params.map fun entry => if entry.1 = name then (name, value) else entry else params ++ [(name, value)]

section Binding
variable (bind : Params → Utf16 → Utf16 → Params) (decode : Utf16 → Option Utf16)

def decodeSegment (params : Params) (pair : RoutePathSegment × Utf16) : Option Params :=
  match pair.1 with
  | .param name => (decode pair.2).map (bind params name)
  | .literal _ => some params

/-- The params that the host binds; none where it cannot decode one. -/
def nativeParams (path : Utf16) (incomingSegments : List Utf16) : Option Params :=
  ((segmentsOf path).zip incomingSegments).foldlM (decodeSegment bind decode) []

end Binding

/-- Whether a host takes a segment for a registered one, where it compares literals by `same`. -/
def takes (same : Utf16 → Utf16 → Bool) (pair : RoutePathSegment × Utf16) : Bool :=
  match pair.1 with
  | .literal value => same value pair.2
  | .param _ => true

/-- What the host matches has no empty segments where it is handed over. -/
def routerMatches (same : Utf16 → Utf16 → Bool) (path requestPath : Utf16) : Bool :=
  requestPath.head? = some slash && (segmentsOf path).length = (fields slash requestPath).length &&
    ((segmentsOf path).zip (fields slash requestPath)).all (takes same)

/-! ## Registration -/

/-- The key of a route: `method:path`. -/
def nativeRouteKey (d : HandlerDescriptor) : Utf16 × Utf16 := (d.route.method.name, d.route.path)

/-- `canonicalizeExpressRouteShape` and `createBunRouteShapeKey` -/
def routeShape (path : Utf16) : Utf16 :=
  slash :: [slash].intercalate ((fields slash path).map fun segment => if segment.head? = some colon then [colon] else segment)

def shapeKey (d : HandlerDescriptor) : Utf16 × Utf16 := (d.route.method.name, routeShape d.route.path)

/-- The descriptors with a native method and the same key. -/
def keyGroup (isNativeMethod : HttpMethod → Bool) (descriptors : List HandlerDescriptor) (d : HandlerDescriptor) : List HandlerDescriptor :=
  descriptors.filter fun e => isNativeMethod e.route.method && decide (nativeRouteKey e = nativeRouteKey d)

/-- What `collectVersionSensitiveRouteKeys` collects has the key of the descriptor. -/
def isVersionSensitive (isNativeMethod : HttpMethod → Bool) (descriptors : List HandlerDescriptor) (d : HandlerDescriptor) : Bool :=
  let group := keyGroup isNativeMethod descriptors d
  group.length > 1 || group.any fun e => e.route.version ≠ none

section Candidates
variable (nativeMethods : List HttpMethod)

/-- `isExpressNativeRouteDescriptor` and `isFastifyNativeRouteDescriptor` -/
def isNativeRouteDescriptor (d : HandlerDescriptor) : Bool := d.route.method ≠ .all && d.route.method ∈ nativeMethods && d.route.version = none

/-- What candidates are registered for. -/
def registered (descriptors : List HandlerDescriptor) : List HandlerDescriptor :=
  descriptors.filter fun d => isNativeRouteDescriptor nativeMethods d && !isVersionSensitive (· ∈ nativeMethods) descriptors d

/-- `registerExpressNativeRouteCandidate` and `registerFastifyNativeRouteCandidate` -/
def registerNativeRouteCandidate (candidates : List HandlerDescriptor) (d : HandlerDescriptor) : List HandlerDescriptor :=
  if candidates.any fun c => nativeRouteKey c = nativeRouteKey d then candidates else candidates ++ [d]

/-- The paths of one shape. -/
def shapePaths (descriptors : List HandlerDescriptor) (key : Utf16 × Utf16) : List Utf16 :=
  (((registered nativeMethods descriptors).filter fun d => shapeKey d = key).map (·.route.path)).dedup

/-- The candidates whose shape has one path. -/
def nativeCandidates (descriptors : List HandlerDescriptor) : List HandlerDescriptor :=
  let candidates := (registered nativeMethods descriptors).foldl registerNativeRouteCandidate []
  candidates.filter fun candidate => (shapePaths nativeMethods descriptors (shapeKey candidate)).length = 1

end Candidates

/-- The descriptors of each registered path, by method. -/
abbrev NativeRoutes := OrderedMap Utf16 (OrderedMap Utf16 HandlerDescriptor)

def registerNativeRoute (routes : NativeRoutes) (d : HandlerDescriptor) : NativeRoutes :=
  routes.set d.route.path (((routes.get d.route.path).getD []).set d.route.method.name d)

def registerNativeRoutes (descriptors : List HandlerDescriptor) : NativeRoutes := descriptors.foldl registerNativeRoute []

theorem nodup_keys (isNativeMethod : HttpMethod → Bool) {descriptors : List HandlerDescriptor} {p : HandlerDescriptor → Bool}
    (hp : ∀ d ∈ descriptors, p d = true → isNativeMethod d.route.method = true ∧ isVersionSensitive isNativeMethod descriptors d = false) :
    ((descriptors.filter p).map nativeRouteKey).Nodup := by
  rw [List.nodup_iff_count_le_one]
  intro key
  by_cases hkey : key ∈ (descriptors.filter p).map nativeRouteKey
  · obtain ⟨d, hd, rfl⟩ := List.mem_map.1 hkey
    obtain ⟨hmem, hpd⟩ := List.mem_filter.1 hd
    have hgroup : (keyGroup isNativeMethod descriptors d).length ≤ 1 := by
      have := (hp d hmem hpd).2
      simp only [isVersionSensitive, Bool.or_eq_false_iff, decide_eq_false_iff_not, Nat.not_lt] at this
      exact this.1
    refine Nat.le_trans ?_ hgroup
    rw [List.count, List.countP_map, List.countP_filter, keyGroup, ← List.countP_eq_length_filter]
    refine List.countP_mono_left fun e he hboth => ?_
    simp only [Function.comp_apply, Bool.and_eq_true, beq_iff_eq] at hboth
    simp [(hp e he hboth.2).1, hboth.1]
  · rw [List.count_eq_zero_of_not_mem hkey]
    exact Nat.zero_le 1

section Candidates
variable (nativeMethods : List HttpMethod) (descriptors : List HandlerDescriptor)

/-- The descriptor has a native route of its own. -/
def isNative (d : HandlerDescriptor) : Bool :=
  isNativeRouteDescriptor nativeMethods d && !isVersionSensitive (· ∈ nativeMethods) descriptors d &&
    (shapePaths nativeMethods descriptors (shapeKey d)).length = 1

theorem nodup_registered : ((registered nativeMethods descriptors).map nativeRouteKey).Nodup := by
  refine nodup_keys (· ∈ nativeMethods) fun d _ hd => ?_
  simp only [isNativeRouteDescriptor, Bool.and_eq_true, Bool.not_eq_true'] at hd
  exact ⟨hd.1.1.2, hd.2⟩

theorem foldl_registerNativeRouteCandidate {ds : List HandlerDescriptor} (h : (ds.map nativeRouteKey).Nodup) :
    ds.foldl registerNativeRouteCandidate [] = ds := by
  induction ds using List.reverseRecOn with
  | nil => rfl
  | append_singleton ds d ih =>
    rw [List.map_append, List.nodup_append] at h
    have hnew : ds.any (fun c => nativeRouteKey c = nativeRouteKey d) = false := by
      rw [List.any_eq_false]
      intro c hc
      simpa using h.2.2 _ (List.mem_map_of_mem hc) (nativeRouteKey d) (by simp)
    rw [List.foldl_append, ih h.1, List.foldl_cons, List.foldl_nil, registerNativeRouteCandidate, hnew]
    rfl

theorem nativeCandidates_eq : nativeCandidates nativeMethods descriptors = descriptors.filter (isNative nativeMethods descriptors) := by
  simp only [nativeCandidates]
  rw [foldl_registerNativeRouteCandidate (nodup_registered nativeMethods descriptors), registered, List.filter_filter]
  congr 1
  funext d
  simp only [isNative, Bool.and_comm]

theorem nodup_native : ((descriptors.filter (isNative nativeMethods descriptors)).map nativeRouteKey).Nodup := by
  refine nodup_keys (· ∈ nativeMethods) fun d _ hd => ?_
  simp only [isNative, isNativeRouteDescriptor, Bool.and_eq_true, Bool.not_eq_true'] at hd
  exact ⟨hd.1.1.1.2, hd.1.2⟩

end Candidates

/-! ## The table of routes -/

theorem registerNativeRoutes_concat (ds : List HandlerDescriptor) (d : HandlerDescriptor) :
    registerNativeRoutes (ds ++ [d]) = registerNativeRoute (registerNativeRoutes ds) d := by
  simp [registerNativeRoutes]

theorem keyed_registerNativeRoutes (ds : List HandlerDescriptor) : (registerNativeRoutes ds).Keyed := by
  induction ds using List.reverseRecOn with
  | nil => exact List.nodup_nil
  | append_singleton ds d ih =>
    rw [registerNativeRoutes_concat]
    exact ih.set _ _

theorem get_registerNativeRoutes {ds : List HandlerDescriptor} (h : (ds.map nativeRouteKey).Nodup) (path method : Utf16) (d : HandlerDescriptor) :
    ((registerNativeRoutes ds).get path).bind (·.get method) = some d ↔ d ∈ ds ∧ nativeRouteKey d = (method, path) := by
  induction ds using List.reverseRecOn with
  | nil => simp [registerNativeRoutes, OrderedMap.get]
  | append_singleton ds e ih =>
    rw [List.map_append, List.nodup_append] at h
    have ih := ih h.1
    have hfresh (d : HandlerDescriptor) (hd : d ∈ ds) : nativeRouteKey d ≠ nativeRouteKey e := h.2.2 _ (List.mem_map_of_mem hd) _ (by simp)
    rw [registerNativeRoutes_concat, registerNativeRoute, List.mem_append, List.mem_singleton]
    by_cases hpath : path = e.route.path
    · subst hpath
      by_cases hmethod : method = e.route.method.name
      · subst hmethod
        simp only [OrderedMap.get_set_self, Option.bind_some, Option.some.injEq]
        constructor
        · rintro rfl
          exact ⟨.inr rfl, rfl⟩
        · rintro ⟨hd | rfl, hkey⟩
          · exact absurd hkey (hfresh d hd)
          · rfl
      · rw [OrderedMap.get_set_self, Option.bind_some, OrderedMap.get_set_of_ne _ hmethod]
        have hold : (((registerNativeRoutes ds).get e.route.path).getD []).get method = ((registerNativeRoutes ds).get e.route.path).bind (·.get method) := by
          cases (registerNativeRoutes ds).get e.route.path <;> rfl
        rw [hold, ih]
        refine and_congr_left fun hkey => ⟨.inl, fun hd => hd.resolve_right ?_⟩
        rintro rfl
        exact hmethod (congrArg Prod.fst hkey).symm
    · rw [OrderedMap.get_set_of_ne _ hpath, ih]
      refine and_congr_left fun hkey => ⟨.inl, fun hd => hd.resolve_right ?_⟩
      rintro rfl
      exact hpath (congrArg Prod.snd hkey).symm

theorem pairwise_registerNativeRoutes (ds : List HandlerDescriptor) :
    ((registerNativeRoutes ds).map Prod.fst).Pairwise (fun p q => (ds.map (·.route.path)).idxOf p < (ds.map (·.route.path)).idxOf q) ∧
      ∀ path, path ∈ (registerNativeRoutes ds).map Prod.fst ↔ path ∈ ds.map (·.route.path) := by
  induction ds using List.reverseRecOn with
  | nil => simp [registerNativeRoutes]
  | append_singleton ds d ih =>
    obtain ⟨hpairs, hmem⟩ := ih
    have hstays {p : Utf16} (hp : p ∈ (registerNativeRoutes ds).map Prod.fst) :
        (ds.map (·.route.path) ++ [d.route.path]).idxOf p = (ds.map (·.route.path)).idxOf p := List.idxOf_append_of_mem ((hmem p).1 hp)
    have hbefore : ((registerNativeRoutes ds).map Prod.fst).Pairwise fun p q =>
        (ds.map (·.route.path) ++ [d.route.path]).idxOf p < (ds.map (·.route.path) ++ [d.route.path]).idxOf q :=
      hpairs.imp_of_mem fun hp hq hlt => by rwa [hstays hp, hstays hq]
    rw [registerNativeRoutes_concat, registerNativeRoute, OrderedMap.keys_set, List.map_append, List.map_singleton]
    split
    · next hknown =>
      refine ⟨hbefore, fun path => ?_⟩
      rw [List.mem_append, List.mem_singleton, hmem, iff_self_or]
      rintro rfl
      exact (hmem _).1 hknown
    · next hnew =>
      refine ⟨List.pairwise_append.2 ⟨hbefore, List.pairwise_singleton _ _, ?_⟩, fun path => ?_⟩
      · intro p hp q hq
        rw [List.mem_singleton.1 hq, hstays hp, List.idxOf_append_of_notMem (mt (hmem _).2 hnew)]
        exact Nat.lt_of_lt_of_le (List.idxOf_lt_length_of_mem ((hmem p).1 hp)) (Nat.le_add_right _ _)
      · rw [List.mem_append, List.mem_append, hmem]

/-! ## Precedence -/

/-- When the path of a descriptor was registered. -/
def order (routes : List HandlerDescriptor) (d : HandlerDescriptor) : Nat := (routes.map (·.route.path)).idxOf d.route.path

/-- The kinds of the segments as a binary numeral: of two paths of one length, that is less which has a literal where they first differ. -/
def kinds (path : Utf16) : Nat := (segmentsOf path).foldl (fun n segment => 2 * n + if segment.isLiteral then 0 else 1) 0

/-- How a host ranks a path that prefers literals, where it compares them by `same`. -/
def pathRank (same : Utf16 → Utf16 → Bool) (requestPath path : Utf16) : Nat :=
  if routerMatches same path requestPath then kinds path else 2 ^ (fields slash requestPath).length

/-- A literal where the paths first differ in kind, or else the path that was registered first. -/
def Precedes (routes : List HandlerDescriptor) (d e : HandlerDescriptor) : Prop :=
  kinds d.route.path < kinds e.route.path ∨ kinds d.route.path = kinds e.route.path ∧ order routes d < order routes e

theorem not_precedes {routes : List HandlerDescriptor} {d e : HandlerDescriptor} (h : e.route.path = d.route.path ∨ Precedes routes d e) :
    ¬Precedes routes e d := by
  unfold Precedes order at *
  rcases h with h | h
  · rw [h]
    omega
  · omega

variable {same : Utf16 → Utf16 → Bool}

theorem pathRank_of_matches {requestPath path : Utf16} (h : routerMatches same path requestPath = true) :
    pathRank same requestPath path = kinds path := if_pos h

theorem matches_of_pathRank_lt {requestPath path : Utf16}
    (h : pathRank same requestPath path < 2 ^ (fields slash requestPath).length) : routerMatches same path requestPath = true := by
  by_contra hdiffers
  rw [pathRank, if_neg hdiffers] at h
  exact Nat.lt_irrefl _ h

/-! ## The parameters -/

section Parameters
variable {decode : Utf16 → Option Utf16}

/-- A parameter as the host decodes it. -/
def decoded (decode : Utf16 → Option Utf16) (entry : Utf16 × Utf16) : Utf16 × Utf16 := (entry.1, (decode entry.2).getD entry.2)

def bindWith (bind : Params → Utf16 → Utf16 → Params) (params : Params) (pair : RoutePathSegment × Utf16) : Params :=
  match pair.1 with
  | .param name => bind params name pair.2
  | .literal _ => params

theorem bindWith_assign : bindWith assign = bindParams := by
  funext params pair
  obtain ⟨segment, incoming⟩ := pair
  cases segment <;> rfl

variable {value : Utf16} {params bound : Params} {pairs : List (RoutePathSegment × Utf16)}

theorem define_map_decoded (params : Params) (name : Utf16) {text : Utf16} (h : decode value = some text) :
    define (params.map (decoded decode)) name text = (define params name value).map (decoded decode) := by
  have hkeys : (params.map (decoded decode)).map Prod.fst = params.map Prod.fst := by
    rw [List.map_map]
    rfl
  have hentry : decoded decode (name, value) = (name, text) := by simp [decoded, h]
  unfold define
  rw [hkeys]
  split
  · rw [List.map_map, List.map_map]
    refine List.map_congr_left fun entry _ => ?_
    by_cases hname : entry.1 = name
    · simp [decoded, hname, h]
    · simp [decoded, hname]
  · rw [List.map_append, List.map_singleton, hentry]

theorem assign_eq_define {name : Utf16} (h : name ≠ units "__proto__") : assign params name value = define params name value := by
  unfold assign define
  rw [if_neg h]

theorem assign_map_decoded (params : Params) (name : Utf16) {text : Utf16} (h : decode value = some text) :
    assign (params.map (decoded decode)) name text = (assign params name value).map (decoded decode) := by
  by_cases hname : name = units "__proto__"
  · rw [assign, if_pos hname, assign, if_pos hname]
  · rw [assign_eq_define hname, assign_eq_define hname, define_map_decoded params name h]

theorem foldlM_decodeSegment {bind : Params → Utf16 → Utf16 → Params}
    (hbind : ∀ params name value text, decode value = some text → bind (params.map (decoded decode)) name text = (bind params name value).map (decoded decode))
    (h : pairs.foldlM (decodeSegment bind decode) (params.map (decoded decode)) = some bound) :
    bound = (pairs.foldl (bindWith bind) params).map (decoded decode) := by
  induction pairs generalizing params with
  | nil => exact (Option.some.inj h).symm
  | cons pair pairs ih =>
    rw [List.foldlM_cons] at h
    obtain ⟨next, hnext, h⟩ := Option.bind_eq_some_iff.1 h
    obtain ⟨segment, incoming⟩ := pair
    cases segment with
    | literal value =>
      cases hnext
      exact ih h
    | param name =>
      obtain ⟨text, htext, rfl⟩ := Option.map_eq_some_iff.1 hnext
      rw [hbind params name _ _ htext] at h
      exact ih h

theorem mem_keys_define {name key : Utf16} : key ∈ (define params name value).map Prod.fst ↔ key = name ∨ key ∈ params.map Prod.fst := by
  unfold define
  split
  · next hmem =>
    have hkeys : (params.map fun entry => if entry.1 = name then (name, value) else entry).map Prod.fst = params.map Prod.fst := by
      rw [List.map_map]
      refine List.map_congr_left fun entry _ => ?_
      by_cases hname : entry.1 = name <;> simp [hname]
    rw [hkeys, iff_or_self]
    rintro rfl
    exact hmem
  · simp [or_comm]

theorem proto_notMem_foldl_bindParams (pairs : List (RoutePathSegment × Utf16)) (h : units "__proto__" ∉ params.map Prod.fst) :
    units "__proto__" ∉ (pairs.foldl bindParams params).map Prod.fst := by
  induction pairs generalizing params with
  | nil => exact h
  | cons pair pairs ih =>
    apply ih
    obtain ⟨segment, incoming⟩ := pair
    cases segment with
    | literal value => exact h
    | param name =>
      simp only [bindParams]
      by_cases hname : name = units "__proto__"
      · rwa [assign, if_pos hname]
      · rw [assign_eq_define hname, mem_keys_define, not_or]
        exact ⟨Ne.symm hname, h⟩

theorem proto_mem_foldl_define
    (h : units "__proto__" ∈ params.map Prod.fst ∨ ∃ pair ∈ pairs, pair.1 = .param (units "__proto__")) :
    units "__proto__" ∈ (pairs.foldl (bindWith define) params).map Prod.fst := by
  induction pairs generalizing params with
  | nil => simpa using h
  | cons pair pairs ih =>
    apply ih
    obtain ⟨segment, incoming⟩ := pair
    cases segment with
    | literal value => simpa [bindWith] using h
    | param name =>
      simp only [bindWith, mem_keys_define]
      rcases h with h | ⟨pair, hpair, hproto⟩
      · exact .inl (.inr h)
      · rcases List.mem_cons.1 hpair with rfl | hpair
        · cases hproto
          exact .inl (.inl rfl)
        · exact .inr ⟨pair, hpair, hproto⟩

theorem foldl_define_eq (h : ∀ pair ∈ pairs, pair.1 ≠ .param (units "__proto__")) (params : Params) :
    pairs.foldl (bindWith define) params = pairs.foldl bindParams params := by
  refine List.foldl_ext _ _ _ fun bound pair hpair => ?_
  obtain ⟨segment, incoming⟩ := pair
  cases segment with
  | literal value => rfl
  | param name => exact (assign_eq_define fun hname => h _ hpair (by simp [hname])).symm

theorem assigned_eq_iff (h : pairs.foldlM (decodeSegment assign decode) [] = some bound) :
    pairs.foldl bindParams [] = bound ↔ ∀ entry ∈ pairs.foldl bindParams [], decoded decode entry = entry := by
  have hbound : bound = (pairs.foldl (bindWith assign) []).map (decoded decode) :=
    foldlM_decodeSegment (fun params name _ _ htext => assign_map_decoded params name htext) h
  rw [bindWith_assign] at hbound
  rw [hbound]
  constructor
  · intro heq entry hentry
    exact List.map_inj_left (g := id) |>.1 (heq.symm.trans (List.map_id _).symm) entry hentry
  · intro hplain
    exact ((List.map_inj_left (g := id)).2 hplain |>.trans (List.map_id _)).symm

theorem defined_eq_iff (h : pairs.foldlM (decodeSegment define decode) [] = some bound) :
    pairs.foldl bindParams [] = bound ↔
      (∀ pair ∈ pairs, pair.1 ≠ .param (units "__proto__")) ∧ ∀ entry ∈ pairs.foldl bindParams [], decoded decode entry = entry := by
  have hbound : bound = (pairs.foldl (bindWith define) []).map (decoded decode) :=
    foldlM_decodeSegment (fun params name _ _ htext => define_map_decoded params name htext) h
  constructor
  · intro heq
    have hnamed : ∀ pair ∈ pairs, pair.1 ≠ .param (units "__proto__") := by
      intro pair hpair hproto
      have hown : units "__proto__" ∈ (pairs.foldl (bindWith define) []).map Prod.fst := proto_mem_foldl_define (.inr ⟨pair, hpair, hproto⟩)
      have hplain : units "__proto__" ∉ (pairs.foldl bindParams []).map Prod.fst := proto_notMem_foldl_bindParams pairs List.not_mem_nil
      apply hplain
      rw [heq, hbound, List.map_map]
      exact hown
    rw [← foldl_define_eq hnamed] at heq ⊢
    rw [hbound] at heq
    exact ⟨hnamed, fun entry hentry => List.map_inj_left (g := id) |>.1 (heq.symm.trans (List.map_id _).symm) entry hentry⟩
  · rintro ⟨hnamed, hplain⟩
    rw [hbound, foldl_define_eq hnamed]
    exact ((List.map_inj_left (g := id)).2 hplain |>.trans (List.map_id _)).symm

end Parameters

/-! ## Parity -/

/-- The descriptor admits the request as it is spelled, none that admits it goes before, and its parameters are bound as they are in the path. -/
structure Agrees (decode : Utf16 → Option Utf16) (q : Query) (descriptors : List HandlerDescriptor) (d : HandlerDescriptor) : Prop where
  admits : q.admits d = true
  leads  : Leads q.rank descriptors d
  plain  : ∀ entry ∈ (q.params d).getD [], decoded decode entry = entry

/-- And none of its parameters is named `__proto__`. -/
structure AgreesOwn (decode : Utf16 → Option Utf16) (q : Query) (descriptors : List HandlerDescriptor) (d : HandlerDescriptor) : Prop
    extends Agrees decode q descriptors d where
  named : ∀ pair ∈ (segmentsOf d.route.path).zip q.segments, pair.1 ≠ .param (units "__proto__")

section Match
variable {casing : Casing} {sources : List HandlerSource} {options : Option VersioningOptions} {mapping : HandlerMapping} {decode : Utf16 → Option Utf16}
variable {request : FrameworkRequest} {d : HandlerDescriptor} {params : Params}

theorem params_of_admits (hadmits : (mapping.query casing request).admits d = true) :
    ((mapping.query casing request).params d).getD [] = ((segmentsOf d.route.path).zip (fields slash request.path)).foldl bindParams [] := by
  simp only [Query.admits, Bool.and_eq_true] at hadmits
  obtain ⟨bound, hbound⟩ := Option.isSome_iff_exists.1 hadmits.1.2
  rw [hbound]
  rw [Query.params, matchRoutePath, foldlM_matchSegment] at hbound
  split at hbound
  · cases hbound
  · split at hbound <;> cases hbound
    rfl

theorem matchRequest_eq_some_iff (h : createHandlerMapping casing sources options = .ok mapping) :
    mapping.matchRequest casing request = some { descriptor := d, params } ↔
      (mapping.query casing request).admits d = true ∧ Leads (mapping.query casing request).rank mapping.descriptors d ∧
        ((segmentsOf d.route.path).zip (fields slash request.path)).foldl bindParams [] = params := by
  rw [matchRequest_eq_linearMatch h request, Query.linearMatch, Option.map_eq_some_iff]
  constructor
  · rintro ⟨e, hbest, hresult⟩
    simp only [Query.result, HandlerMatch.mk.injEq] at hresult
    obtain ⟨rfl, hresult⟩ := hresult
    obtain ⟨hlt, hleads⟩ := best_eq_some.1 hbest
    have hadmits := (Query.rank_lt_iff _ _).1 hlt
    exact ⟨hadmits, hleads, (params_of_admits hadmits).symm.trans hresult⟩
  · rintro ⟨hadmits, hleads, hparams⟩
    refine ⟨d, best_eq_some.2 ⟨(Query.rank_lt_iff _ _).2 hadmits, hleads⟩, ?_⟩
    rw [Query.result, params_of_admits hadmits, hparams]

theorem match_eq_assigned_iff (h : createHandlerMapping casing sources options = .ok mapping)
    (hparams : nativeParams assign decode d.route.path (fields slash request.path) = some params) :
    mapping.matchRequest casing request = some { descriptor := d, params } ↔ Agrees decode (mapping.query casing request) mapping.descriptors d := by
  rw [matchRequest_eq_some_iff h, assigned_eq_iff hparams]
  constructor
  · rintro ⟨hadmits, hleads, hplain⟩
    exact ⟨hadmits, hleads, by rwa [params_of_admits hadmits]⟩
  · rintro ⟨hadmits, hleads, hplain⟩
    rw [params_of_admits hadmits] at hplain
    exact ⟨hadmits, hleads, hplain⟩

theorem match_eq_defined_iff (h : createHandlerMapping casing sources options = .ok mapping)
    (hparams : nativeParams define decode d.route.path (fields slash request.path) = some params) :
    mapping.matchRequest casing request = some { descriptor := d, params } ↔ AgreesOwn decode (mapping.query casing request) mapping.descriptors d := by
  rw [matchRequest_eq_some_iff h, defined_eq_iff hparams]
  constructor
  · rintro ⟨hadmits, hleads, hnamed, hplain⟩
    exact ⟨⟨hadmits, hleads, by rwa [params_of_admits hadmits]⟩, hnamed⟩
  · rintro ⟨⟨hadmits, hleads, hplain⟩, hnamed⟩
    rw [params_of_admits hadmits] at hplain
    exact ⟨hadmits, hleads, hnamed, hplain⟩

end Match

/-! ## Comparing by name -/

/-- `GET` of a user. -/
def getUser (name : String) : FrameworkRequest := { method := units "GET", path := units "/users/" ++ units name, headers := [] }

def methodNames (native : List HandlerDescriptor → Option HandlerMatch) (sources : List HandlerSource) (request : FrameworkRequest) :
    Option (Option Utf16 × Option Utf16) :=
  (createHandlerMapping asciiCasing sources none).toOption.map fun mapping =>
    ((native mapping.descriptors).map (·.descriptor.methodName), (mapping.matchRequest asciiCasing request).map (·.descriptor.methodName))

theorem exists_found {native : List HandlerDescriptor → Option HandlerMatch} {sources : List HandlerSource} {request : FrameworkRequest} {name name' : Utf16}
    (h : methodNames native sources request = some (some name, some name')) :
    ∃ mapping found, createHandlerMapping asciiCasing sources none = .ok mapping ∧ native mapping.descriptors = some found ∧
      (name ≠ name' → mapping.matchRequest asciiCasing request ≠ some found) := by
  obtain ⟨mapping, hmapping, hnames⟩ := Option.map_eq_some_iff.1 h
  obtain ⟨hnative, hmatch⟩ := Prod.mk.inj hnames
  obtain ⟨found, hfound, hname⟩ := Option.map_eq_some_iff.1 hnative
  refine ⟨mapping, found, ?_, hfound, fun hne heq => ?_⟩
  · cases hcreate : createHandlerMapping asciiCasing sources none with
    | error e =>
      rw [hcreate] at hmapping
      cases hmapping
    | ok created =>
      rw [hcreate] at hmapping
      cases hmapping
      rfl
  · rw [heq, Option.map_some, Option.some.injEq, hname] at hmatch
    exact hne hmatch

end Fluo.Platform
