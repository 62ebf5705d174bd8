import Fluo.Http.RouteParams
import Fluo.Lib.Urlencoded
/-!
# Path labels

`http-metrics-middleware.ts`: the path label of a request. The template of a path is
rebuilt from the values of its params, which `match` has bound by position.
-/

namespace Fluo.Metrics
open Fluo.Lib
open Fluo.Http.Mapping

/-! ## The code -/

/-- The units of the characters that octets encode. -/
def unitsOfOctets (octets : List Nat) : Option Utf16 := (decodeUtf8 octets).map fun text => text.flatMap fun c => codeUnits c.toNat

/-- Reads what follows the octets that have been escaped last. -/
def decodeAfter (octets : List Nat) : Utf16 → Option Utf16
  | [] => unitsOfOctets octets
  | [u] => if u = 0x25 then none else (unitsOfOctets octets).map (· ++ [u])
  | [u, v] => if u = 0x25 ∨ v = 0x25 then none else (unitsOfOctets octets).map (· ++ [u, v])
  | u :: v :: w :: rest =>
    if u = 0x25 then do decodeAfter (octets ++ [← escaped u.toNat v.toNat w.toNat]) rest
    else do return (← unitsOfOctets octets) ++ u :: (← decodeAfter [] (v :: w :: rest))

/-- None is the `URIError`. -/
def decodeURIComponent (value : Utf16) : Option Utf16 := decodeAfter [] value

def safeDecodeURIComponent (value : Utf16) : Utf16 := (decodeURIComponent value).getD value

/-- A segment is a value, as it is written or decoded. -/
def denotes (segment paramValue : Utf16) : Bool := segment == paramValue || safeDecodeURIComponent segment == paramValue

/-- The segments with the parameters of their values, each parameter once. `params` are in the order of
`Object.entries`. -/
def normalizeSegments (params : Params) : List Utf16 → List Utf16 → List Utf16
  | _, [] => []
  | usedParamKeys, segment :: rest =>
    match params.find? fun entry => entry.1 ∉ usedParamKeys && denotes segment entry.2 with
    | some (paramKey, _) => (colon :: paramKey) :: normalizeSegments params (paramKey :: usedParamKeys) rest
    | none => segment :: normalizeSegments params usedParamKeys rest

def normalizePathToTemplate (path : Utf16) (params : Params) : Utf16 :=
  slash :: [slash].intercalate (normalizeSegments params [] (fields slash path))

inductive HttpMetricsPathLabelMode
  | raw
  | template

structure HttpMetricsMiddlewareOptions where
  pathLabelMode : HttpMetricsPathLabelMode := .template
  /-- Of the method, the path and the params of a request. -/
  pathLabelNormalizer : Option (Utf16 → Utf16 → Params → Utf16) := none
  unknownPathLabel : Utf16 := units "UNKNOWN"

/-- A template is never empty. -/
def resolvePathLabel (options : HttpMetricsMiddlewareOptions) (method path : Utf16) (params : Params) : Utf16 :=
  match options.pathLabelNormalizer, options.pathLabelMode with
  | some normalizer, _ => if trim (normalizer method path params) = [] then options.unknownPathLabel else trim (normalizer method path params)
  | none, .raw => path
  | none, .template => normalizePathToTemplate path params

/-! ## Which parameter a segment is taken for -/

/-- A route segment with the segment of the path that it matches. -/
abbrev Pair := RoutePathSegment × Utf16

/-- A segment further left has been taken for the parameter. -/
def spent (params : Params) (before : List Pair) (name : Utf16) : Bool :=
  before.any fun pair => pair.1 == .param name && (OrderedMap.get params name).any (denotes pair.2)

/-- The first parameter left whose value the segment is. -/
def taken (params : Params) (before : List Pair) (segment : Utf16) : Option Utf16 :=
  (params.find? fun entry => !spent params before entry.1 && denotes segment entry.2).map Prod.fst

/-- A literal is taken for no parameter, and a parameter for itself, unless the path writes its placeholder out. -/
def Settles (params : Params) (before : List Pair) (pair : Pair) : Prop :=
  match pair.1 with
  | .literal _ => taken params before pair.2 = none
  | .param name => taken params before pair.2 = some name ∨ taken params before pair.2 = none ∧ pair.2 = colon :: name

/-- Every segment of the path settles. -/
def Recoverable (segments : List RoutePathSegment) (incoming : List Utf16) (params : Params) : Prop :=
  ∀ before pair after, segments.zip incoming = before ++ pair :: after → Settles params before pair

/-- The names of the parameters are different properties, and no literal is the value of a parameter to its right. -/
structure Distinguished (segments : List RoutePathSegment) (incoming : List Utf16) : Prop where
  nodup : (segments.flatMap RoutePathSegment.paramName).Nodup
  named : .param underscoreProto ∉ segments
  literals {before after value segment name paramValue} :
    segments.zip incoming = before ++ (.literal value, segment) :: after → (.param name, paramValue) ∈ after → denotes segment paramValue = false

def placeholder : RoutePathSegment → Utf16
  | .literal value => value
  | .param name => colon :: name

/-! ## Recovering the route -/

section Loop
variable {params : Params}

variable {before : List Pair} {usedParamKeys : List Utf16}

theorem find?_spent (hused : ∀ name, name ∈ usedParamKeys ↔ spent params before name = true)
    (segment : Utf16) : (params.find? fun entry => entry.1 ∉ usedParamKeys && denotes segment entry.2) =
      params.find? fun entry => !spent params before entry.1 && denotes segment entry.2 := by
  congr 1
  funext entry
  cases hspent : spent params before entry.1 <;> simp [hused, hspent]

theorem spent_append (before : List Pair) (pair : Pair) (name : Utf16) : spent params (before ++ [pair]) name =
    (spent params before name || (pair.1 == .param name && (OrderedMap.get params name).any (denotes pair.2))) := by
  simp [spent]

theorem taken_eq_some (hkeyed : OrderedMap.Keyed params) {segment name : Utf16} (h : taken params before segment = some name) :
    spent params before name = false ∧ (OrderedMap.get params name).any (denotes segment) = true := by
  obtain ⟨⟨key, value⟩, hfind, rfl⟩ := Option.map_eq_some_iff.1 h
  have hentry := List.find?_some hfind
  rw [Bool.and_eq_true, Bool.not_eq_true'] at hentry
  rw [(OrderedMap.get_eq_some hkeyed).2 (List.mem_of_find?_eq_some hfind)]
  exact hentry

theorem spent_of_taken_eq_none {segment name : Utf16} (h : taken params before segment = none)
    (hdenotes : (OrderedMap.get params name).any (denotes segment) = true) : spent params before name = true := by
  rw [taken, Option.map_eq_none_iff, List.find?_eq_none] at h
  obtain ⟨value, hget, hvalue⟩ := (Option.any_eq_true _ _).1 hdenotes
  have hentry := h _ (OrderedMap.mem_of_get hget)
  simpa [hvalue] using hentry

/-- A literal segment is the text of its pattern, which no placeholder is. -/
def Written (pair : Pair) : Prop :=
  match pair.1 with
  | .literal value => value = pair.2 ∧ value.head? ≠ some colon
  | .param _ => True

/-- What a segment is replaced with, and the parameters that are used then. -/
def outcome (params : Params) (before : List Pair) (pair : Pair) : Utf16 := ((taken params before pair.2).map (colon :: ·)).getD pair.2

def usedThen (params : Params) (before : List Pair) (pair : Pair) (usedParamKeys : List Utf16) : List Utf16 :=
  (taken params before pair.2).toList ++ usedParamKeys

theorem normalizeSegments_cons
    (hused : ∀ name, name ∈ usedParamKeys ↔ spent params before name = true) (pair : Pair) (rest : List Utf16) :
    normalizeSegments params usedParamKeys (pair.2 :: rest) =
      outcome params before pair :: normalizeSegments params (usedThen params before pair usedParamKeys) rest := by
  rw [normalizeSegments, find?_spent hused, outcome, usedThen, taken]
  cases params.find? fun entry => !spent params before entry.1 && denotes pair.2 entry.2 <;> rfl

theorem outcome_eq_iff {pair : Pair} (hwritten : Written pair) :
    outcome params before pair = placeholder pair.1 ↔ Settles params before pair := by
  obtain ⟨segment, text⟩ := pair
  cases segment with
  | literal value =>
    obtain ⟨rfl, hcolon⟩ := hwritten
    simp only [outcome, placeholder, Settles]
    cases taken params before value with
    | none => simp
    | some name =>
      refine ⟨fun h => absurd (by rw [← h]; rfl) hcolon, fun h => by cases h⟩
  | param name =>
    simp only [outcome, placeholder, Settles]
    cases taken params before text <;> simp

theorem mem_usedThen (hkeyed : OrderedMap.Keyed params)
    (hused : ∀ name, name ∈ usedParamKeys ↔ spent params before name = true) {pair : Pair} (hsettles : Settles params before pair) (name : Utf16) :
    name ∈ usedThen params before pair usedParamKeys ↔ spent params (before ++ [pair]) name = true := by
  obtain ⟨segment, text⟩ := pair
  rw [usedThen, List.mem_append, Option.mem_toList, hused, spent_append, Bool.or_eq_true, Bool.and_eq_true, beq_iff_eq]
  cases segment with
  | literal value =>
    have hnone : taken params before text = none := hsettles
    simp [hnone]
  | param other =>
    rw [RoutePathSegment.param.injEq]
    rcases hsettles with hsome | ⟨hnone, -⟩
    · obtain ⟨-, hdenotes⟩ := taken_eq_some hkeyed hsome
      dsimp only at hsome hdenotes ⊢
      rw [hsome, Option.some_inj]
      constructor
      · rintro (rfl | hspent)
        · exact .inr ⟨rfl, hdenotes⟩
        · exact .inl hspent
      · rintro (hspent | ⟨rfl, -⟩)
        · exact .inr hspent
        · exact .inl rfl
    · dsimp only at hnone ⊢
      rw [hnone]
      constructor
      · rintro (h | hspent)
        · cases h
        · exact .inl hspent
      · rintro (hspent | ⟨rfl, hdenotes⟩)
        · exact .inr hspent
        · exact .inr (spent_of_taken_eq_none hnone hdenotes)

theorem forall_split_cons {α : Type} {a : α} {l : List α} {p : List α → α → Prop} :
    (∀ between b rest, a :: l = between ++ b :: rest → p between b) ↔ p [] a ∧ ∀ between b rest, l = between ++ b :: rest → p (a :: between) b := by
  constructor
  · exact fun h => ⟨h [] a l rfl, fun between b rest hl => h (a :: between) b rest (congrArg _ hl)⟩
  · rintro ⟨hfirst, hrest⟩ between b rest hl
    cases between with
    | nil =>
      cases hl
      exact hfirst
    | cons first between =>
      cases hl
      exact hrest between b rest rfl

theorem normalizeSegments_eq_iff (hkeyed : OrderedMap.Keyed params) (before : List Pair) {after : List Pair} (usedParamKeys : List Utf16)
    (hused : ∀ name, name ∈ usedParamKeys ↔ spent params before name = true) (hwritten : ∀ pair ∈ after, Written pair) :
    normalizeSegments params usedParamKeys (after.map Prod.snd) = after.map (placeholder ·.1) ↔
      ∀ between pair rest, after = between ++ pair :: rest → Settles params (before ++ between) pair := by
  induction after generalizing before usedParamKeys with
  | nil => simp [normalizeSegments]
  | cons pair rest ih =>
    obtain ⟨hfirst, hrest⟩ := List.forall_mem_cons.1 hwritten
    rw [List.map_cons, List.map_cons, normalizeSegments_cons hused, List.cons.injEq, outcome_eq_iff hfirst]
    rw [forall_split_cons (p := fun between pair => Settles params (before ++ between) pair), List.append_nil]
    refine and_congr_right fun hsettles => ?_
    simpa only [List.append_assoc, List.singleton_append] using ih _ _ (mem_usedThen hkeyed hused hsettles) hrest

theorem mem_normalizeSegments {segments : List Utf16} {text : Utf16} (h : text ∈ normalizeSegments params usedParamKeys segments) :
    text ∈ segments ∨ ∃ paramKey ∈ params.map Prod.fst, text = colon :: paramKey := by
  induction segments generalizing usedParamKeys with
  | nil => cases h
  | cons segment rest ih =>
    rw [normalizeSegments] at h
    split at h
    case h_1 paramKey paramValue hfind =>
      rcases List.mem_cons.1 h with rfl | h
      · exact .inr ⟨paramKey, List.mem_map.2 ⟨_, List.mem_of_find?_eq_some hfind, rfl⟩, rfl⟩
      · exact (ih h).imp_left (List.mem_cons_of_mem _)
    case h_2 =>
      rcases List.mem_cons.1 h with rfl | h
      · exact .inl List.mem_cons_self
      · exact (ih h).imp_left (List.mem_cons_of_mem _)

end Loop

/-! ## The matcher's params -/

section Match
variable {params : Params}

theorem keyed_assign (h : OrderedMap.Keyed params) (name value : Utf16) : OrderedMap.Keyed (assign params name value) := by
  unfold assign
  split_ifs with hproto hmem
  · exact h
  · have hkeys : (params.map fun entry => if entry.1 = name then (name, value) else entry).map Prod.fst = params.map Prod.fst := by
      rw [List.map_map]
      refine List.map_congr_left fun entry _ => ?_
      by_cases hname : entry.1 = name <;> simp [hname]
    rw [OrderedMap.Keyed, hkeys]
    exact h
  · rw [← OrderedMap.set_of_notMem hmem]
    exact h.set name value

theorem keyed_bindParams (pairs : List Pair) : OrderedMap.Keyed (pairs.foldl bindParams []) := by
  refine List.foldlRecOn pairs _ List.nodup_nil fun params hkeyed pair _ => ?_
  unfold bindParams
  split
  · exact keyed_assign hkeyed _ _
  · exact hkeyed

theorem placeholder_readSegment (segment : Utf16) : placeholder (readSegment segment) = segment := by
  unfold readSegment
  split_ifs with h
  · cases segment with
    | nil => cases h
    | cons u rest =>
      cases h
      rfl
  · rfl

variable {pattern : Utf16}

theorem written_of_match {incoming : List Utf16} (hliterals : ((segmentsOf pattern).zip incoming).any differs = false) :
    ∀ pair ∈ (segmentsOf pattern).zip incoming, Written pair := by
  rintro ⟨segment, text⟩ hpair
  cases segment with
  | param name => trivial
  | literal value =>
    have hsame : differs (.literal value, text) = false := by simpa using List.any_eq_false.1 hliterals _ hpair
    refine ⟨by simpa [differs] using hsame, ?_⟩
    obtain ⟨segment, -, hread⟩ := List.mem_map.1 (List.of_mem_zip hpair).1
    unfold readSegment at hread
    split_ifs at hread with hcolon
    cases hread
    exact hcolon

theorem notMem_paramName {name : Utf16} {incoming : List Utf16}
    (h : name ∈ (((segmentsOf pattern).zip incoming).foldl bindParams []).map Prod.fst) : slash ∉ name := by
  obtain ⟨⟨⟨segment, text⟩, hpair, rfl⟩, -⟩ := (mem_keys_foldl_bindParams.1 h).resolve_right List.not_mem_nil
  obtain ⟨written, hwritten, hread⟩ := List.mem_map.1 (List.of_mem_zip hpair).1
  have hplaceholder := placeholder_readSegment written
  rw [hread] at hplaceholder
  intro hslash
  exact (notMem_fields hwritten).1 (hplaceholder ▸ List.mem_cons_of_mem _ hslash)

theorem normalizePathToTemplate_eq_iff {path : Utf16} (h : matchRoutePath (segmentsOf pattern) (fields slash path) = some params) :
    normalizePathToTemplate path params = normalizeRoutePath pattern ↔ Recoverable (segmentsOf pattern) (fields slash path) params := by
  obtain ⟨hlength, hliterals, rfl⟩ := matchRoutePath_eq_some h
  have hpath : ((segmentsOf pattern).zip (fields slash path)).map Prod.snd = fields slash path := List.map_snd_zip (Nat.le_of_eq hlength.symm)
  have hpattern : ((segmentsOf pattern).zip (fields slash path)).map (placeholder ·.1) = fields slash pattern := by
    have hsegments : ((segmentsOf pattern).zip (fields slash path)).map Prod.fst = segmentsOf pattern := List.map_fst_zip (Nat.le_of_eq hlength)
    rw [← Function.comp_def, ← List.map_map, hsegments, segmentsOf, List.map_map]
    exact (List.map_congr_left fun text _ => placeholder_readSegment text).trans (List.map_id _)
  have hiff := normalizeSegments_eq_iff (keyed_bindParams ((segmentsOf pattern).zip (fields slash path))) [] [] (by simp [spent])
    (written_of_match hliterals)
  rw [hpath, hpattern] at hiff
  have htexts : ∀ text ∈ normalizeSegments (((segmentsOf pattern).zip (fields slash path)).foldl bindParams []) [] (fields slash path),
      slash ∉ text ∧ text ≠ [] := by
    intro text htext
    rcases mem_normalizeSegments htext with hsegment | ⟨name, hname, rfl⟩
    · exact notMem_fields hsegment
    · refine ⟨fun hslash => ?_, List.cons_ne_nil _ _⟩
      exact notMem_paramName hname ((List.mem_cons.1 hslash).resolve_left (by decide))
  refine Iff.trans ⟨fun heq => ?_, fun heq => ?_⟩ hiff
  · have hfields := congrArg (fields slash) heq
    rwa [fields_normalizeRoutePath, normalizePathToTemplate, fields_path htexts] at hfields
  · rw [normalizePathToTemplate, heq, normalizeRoutePath]

end Match

/-! ## Different names -/

section Names
variable {params : Params}

def names (pairs : List Pair) : List Utf16 := pairs.flatMap fun pair => pair.1.paramName

variable {name : Utf16} {pairs before : List Pair}

theorem mem_names : name ∈ names pairs ↔ ∃ paramValue, (.param name, paramValue) ∈ pairs := by
  rw [names, List.mem_flatMap]
  constructor
  · rintro ⟨⟨segment, text⟩, hpair, hname⟩
    cases segment with
    | literal value => cases hname
    | param other =>
      rw [List.mem_singleton.1 hname]
      exact ⟨text, hpair⟩
  · rintro ⟨paramValue, hpair⟩
    exact ⟨_, hpair, List.mem_singleton_self name⟩

theorem denotes_self (segment : Utf16) : denotes segment segment = true := by simp [denotes]

theorem spent_of_mem {paramValue : Utf16} (h : (.param name, paramValue) ∈ before)
    (hget : OrderedMap.get params name = some paramValue) : spent params before name = true := by
  refine List.any_eq_true.2 ⟨_, h, ?_⟩
  simp [hget, denotes_self]

theorem not_spent_of_notMem (h : name ∉ names before) : spent params before name = false := by
  refine List.any_eq_false.2 fun pair hpair hspent => ?_
  rw [Bool.and_eq_true, beq_iff_eq] at hspent
  exact h (mem_names.2 ⟨pair.2, by rw [← hspent.1]; exact hpair⟩)

def binding (pair : Pair) : Option (Utf16 × Utf16) :=
  match pair.1 with
  | .param name => some (name, pair.2)
  | .literal _ => none

theorem binding_eq_some {pair : Pair} {entry : Utf16 × Utf16} : binding pair = some entry ↔ pair = (.param entry.1, entry.2) := by
  obtain ⟨segment, text⟩ := pair
  obtain ⟨name, value⟩ := entry
  cases segment <;> simp [binding]

theorem foldl_bindParams_eq (hnodup : (names pairs).Nodup) (hnamed : underscoreProto ∉ names pairs) :
    pairs.foldl bindParams [] = pairs.filterMap binding := by
  induction pairs using List.reverseRecOn with
  | nil => rfl
  | append_singleton pairs pair ih =>
    rw [names, List.flatMap_append] at hnodup hnamed
    have hbound := ih (List.nodup_append.1 hnodup).1 fun hmem => hnamed (List.mem_append_left _ hmem)
    rw [List.foldl_concat, List.filterMap_append, hbound]
    obtain ⟨segment, text⟩ := pair
    cases segment with
    | literal value => exact (List.append_nil _).symm
    | param name =>
      have hproto : name ≠ underscoreProto := by
        rintro rfl
        exact hnamed (List.mem_append_right _ (List.mem_singleton_self _))
      have hnew : name ∉ (pairs.filterMap binding).map Prod.fst := by
        intro hmem
        obtain ⟨entry, hentry, rfl⟩ := List.mem_map.1 hmem
        obtain ⟨pair, hpair, hbinding⟩ := List.mem_filterMap.1 hentry
        rw [binding_eq_some.1 hbinding] at hpair
        exact (List.nodup_append.1 hnodup).2.2 _ (mem_names.2 ⟨_, hpair⟩) _ (List.mem_singleton_self _) rfl
      have hassign : assign (pairs.filterMap binding) name text = pairs.filterMap binding ++ [(name, text)] := by
        unfold assign
        rw [if_neg (show name ≠ units "__proto__" from hproto), if_neg hnew]
      exact hassign

variable {segments : List RoutePathSegment} {incoming : List Utf16}

theorem names_zip (hlength : segments.length = incoming.length) : names (segments.zip incoming) = segments.flatMap RoutePathSegment.paramName := by
  have hfirst : (segments.zip incoming).map Prod.fst = segments := List.map_fst_zip (Nat.le_of_eq hlength)
  rw [names, ← List.flatMap_map, hfirst]

theorem underscoreProto_notMem_names (h : .param underscoreProto ∉ segments) : underscoreProto ∉ names (segments.zip incoming) := by
  intro hmem
  obtain ⟨paramValue, hpair⟩ := mem_names.1 hmem
  exact h (List.of_mem_zip hpair).1

theorem params_eq (h : matchRoutePath segments incoming = some params) (hnodup : (segments.flatMap RoutePathSegment.paramName).Nodup)
    (hnamed : .param underscoreProto ∉ segments) : params = (segments.zip incoming).filterMap binding := by
  obtain ⟨hlength, -, rfl⟩ := matchRoutePath_eq_some h
  rw [← names_zip hlength] at hnodup
  exact foldl_bindParams_eq hnodup (underscoreProto_notMem_names hnamed)

theorem get_params (h : matchRoutePath segments incoming = some params) (hnodup : (segments.flatMap RoutePathSegment.paramName).Nodup)
    (hnamed : .param underscoreProto ∉ segments) {paramValue : Utf16} (hpair : (.param name, paramValue) ∈ segments.zip incoming) :
    OrderedMap.get params name = some paramValue := by
  have hkeyed : OrderedMap.Keyed params := by
    obtain ⟨-, -, rfl⟩ := matchRoutePath_eq_some h
    exact keyed_bindParams _
  rw [OrderedMap.get_eq_some hkeyed, params_eq h hnodup hnamed]
  exact List.mem_filterMap.2 ⟨_, hpair, rfl⟩

theorem Distinguished.recoverable (h : matchRoutePath segments incoming = some params) (hdistinguished : Distinguished segments incoming) :
    Recoverable segments incoming params := by
  obtain ⟨hnodup, hnamed, hliterals⟩ := hdistinguished
  have hlength := (matchRoutePath_eq_some h).1
  rintro before ⟨segment, text⟩ after hsplit
  have hmem {pair : Pair} (hpair : pair ∈ before ∨ pair ∈ after) : pair ∈ segments.zip incoming := by
    rw [hsplit]
    exact hpair.elim (List.mem_append_left _) fun hafter => List.mem_append_right _ (List.mem_cons_of_mem _ hafter)
  have hbefore {entry : Utf16 × Utf16} (hentry : entry ∈ before.filterMap binding) : spent params before entry.1 = true := by
    obtain ⟨pair, hpair, hbinding⟩ := List.mem_filterMap.1 hentry
    rw [binding_eq_some.1 hbinding] at hpair
    exact spent_of_mem hpair (get_params h hnodup hnamed (hmem (.inl hpair)))
  have hparams := params_eq h hnodup hnamed
  rw [hsplit, List.filterMap_append, List.filterMap_cons] at hparams
  rw [← names_zip hlength, hsplit, names, List.flatMap_append, List.flatMap_cons] at hnodup
  cases segment with
  | literal value =>
    refine Option.map_eq_none_iff.2 (List.find?_eq_none.2 fun entry hentry => ?_)
    rw [hparams] at hentry
    rcases List.mem_append.1 hentry with hentry | hentry
    · simp [hbefore hentry]
    · obtain ⟨pair, hpair, hbinding⟩ := List.mem_filterMap.1 hentry
      rw [binding_eq_some.1 hbinding] at hpair
      simp [hliterals hsplit hpair]
  | param name =>
    left
    have hnew : spent params before name = false := by
      refine not_spent_of_notMem fun hname => ?_
      exact (List.nodup_append.1 hnodup).2.2 _ hname _ (List.mem_append_left _ (List.mem_singleton_self _)) rfl
    refine Option.map_eq_some_iff.2 ⟨(name, text), List.find?_eq_some_iff_append.2 ⟨?_, _, _, hparams, fun entry hentry => ?_⟩, rfl⟩
    · simp [hnew, denotes_self]
    · simp [hbefore hentry]

theorem nodup_names_of_taken (htaken : ∀ {before after name text}, pairs = before ++ (.param name, text) :: after →
      spent params before name = false ∧ (OrderedMap.get params name).any (denotes text) = true) {after : List Pair} (hsplit : pairs = before ++ after) :
    (names before).Nodup ∧ ∀ name ∈ names before, spent params before name = true := by
  induction before using List.reverseRecOn generalizing after with
  | nil => exact ⟨List.nodup_nil, fun _ hname => absurd hname List.not_mem_nil⟩
  | append_singleton before pair ih =>
    rw [List.append_assoc] at hsplit
    obtain ⟨hnodup, hspent⟩ := ih hsplit
    obtain ⟨segment, text⟩ := pair
    have hnames : names (before ++ [(segment, text)]) = names before ++ segment.paramName := by simp [names]
    simp only [hnames, spent_append]
    cases segment with
    | literal value =>
      rw [RoutePathSegment.paramName, List.append_nil]
      exact ⟨hnodup, fun name hname => by rw [hspent name hname, Bool.true_or]⟩
    | param name =>
      obtain ⟨hnew, hdenotes⟩ := htaken hsplit
      have hfresh : name ∉ names before := fun hname => Bool.false_ne_true (hnew.symm.trans (hspent name hname))
      refine ⟨List.nodup_append.2 ⟨hnodup, List.pairwise_singleton _ _, fun other hother last hlast => ?_⟩, fun other hother => ?_⟩
      · rw [List.mem_singleton.1 hlast]
        rintro rfl
        exact hfresh hother
      · rcases List.mem_append.1 hother with hother | hother
        · rw [hspent other hother, Bool.true_or]
        · rw [List.mem_singleton.1 hother, hdenotes]
          simp

theorem Recoverable.distinguished (h : matchRoutePath segments incoming = some params) (hwritten : ∀ segment ∈ incoming, segment.head? ≠ some colon)
    (hrecoverable : Recoverable segments incoming params) : Distinguished segments incoming := by
  have hlength := (matchRoutePath_eq_some h).1
  have hkeyed : OrderedMap.Keyed params := by
    obtain ⟨-, -, rfl⟩ := matchRoutePath_eq_some h
    exact keyed_bindParams _
  have htaken {before after : List Pair} {name text : Utf16} (hsplit : segments.zip incoming = before ++ (.param name, text) :: after) :
      spent params before name = false ∧ (OrderedMap.get params name).any (denotes text) = true := by
    rcases hrecoverable before _ after hsplit with hsome | ⟨-, rfl⟩
    · exact taken_eq_some hkeyed hsome
    · have hmem : (RoutePathSegment.param name, colon :: name) ∈ segments.zip incoming := hsplit ▸ by simp
      exact absurd rfl (hwritten _ (List.of_mem_zip hmem).2)
  have hnodup : (segments.flatMap RoutePathSegment.paramName).Nodup := by
    rw [← names_zip hlength]
    exact (nodup_names_of_taken htaken (List.append_nil _).symm).1
  have hnamed : .param underscoreProto ∉ segments := by
    intro hmem
    have hproto : underscoreProto ∈ names (segments.zip incoming) := by
      rw [names_zip hlength]
      exact List.mem_flatMap.2 ⟨_, hmem, List.mem_singleton_self _⟩
    obtain ⟨paramValue, hpair⟩ := mem_names.1 hproto
    obtain ⟨before, after, hsplit⟩ := List.append_of_mem hpair
    obtain ⟨value, hget, -⟩ := (Option.any_eq_true _ _).1 (htaken hsplit).2
    exact ((mem_keys_of_matchRoutePath h _).1 (OrderedMap.isSome_get.1 (Option.isSome_iff_exists.2 ⟨_, hget⟩))).2 rfl
  refine ⟨hnodup, hnamed, fun {before after value segment name paramValue} hsplit hafter => ?_⟩
  have hpair : (RoutePathSegment.param name, paramValue) ∈ segments.zip incoming :=
    hsplit ▸ List.mem_append_right _ (List.mem_cons_of_mem _ hafter)
  -- A value that the literal denotes would have been spent, so that its parameter would stand to the left as well.
  rw [← Bool.not_eq_true]
  intro hdenotes
  rw [← Option.any_some (p := denotes segment), ← get_params h hnodup hnamed hpair] at hdenotes
  have hspent := spent_of_taken_eq_none (hrecoverable before _ after hsplit) hdenotes
  rw [not_spent_of_notMem] at hspent
  · cases hspent
  · intro hbefore
    rw [← names_zip hlength, hsplit, names, List.flatMap_append, List.flatMap_cons] at hnodup
    exact (List.nodup_append.1 hnodup).2.2 _ hbefore _ (List.mem_append_right _ (mem_names.2 ⟨_, hafter⟩)) rfl

end Names

/-- A template is the route of the params if and only if every segment of the path settles; unless the path writes a
placeholder out, if and only if the names differ and no literal is the value of a parameter to its right. Such
requests have one label if and only if they have one route. -/
theorem pathLabel_eq_iff (pattern path : Utf16) (segments : List RoutePathSegment) (params : Params) (hparse : parseRoutePath pattern none = .ok segments)
    (hmatch : matchRoutePath segments (fields slash path) = some params) :
    (normalizePathToTemplate path params = normalizeRoutePath pattern ↔ Recoverable segments (fields slash path) params) ∧
      ((∀ segment ∈ fields slash path, segment.head? ≠ some colon) →
        (normalizePathToTemplate path params = normalizeRoutePath pattern ↔ Distinguished segments (fields slash path))) ∧
      ∀ pattern' path' segments' params', parseRoutePath pattern' none = .ok segments' → matchRoutePath segments' (fields slash path') = some params' →
        Recoverable segments (fields slash path) params → Recoverable segments' (fields slash path') params' → ∀ method method',
          resolvePathLabel {} method path params = resolvePathLabel {} method' path' params' ↔ normalizeRoutePath pattern = normalizeRoutePath pattern' := by
  have recovers_iff {pattern path segments params} (hparse : parseRoutePath pattern none = .ok segments)
      (hmatch : matchRoutePath segments (fields slash path) = some params) :
      normalizePathToTemplate path params = normalizeRoutePath pattern ↔ Recoverable segments (fields slash path) params := by
    obtain rfl := parseRoutePath_eq_ok hparse
    exact normalizePathToTemplate_eq_iff hmatch
  refine ⟨recovers_iff hparse hmatch, fun hwritten => ?_, ?_⟩
  · rw [recovers_iff hparse hmatch]
    exact ⟨Recoverable.distinguished hmatch hwritten, Distinguished.recoverable hmatch⟩
  · intro pattern' path' segments' params' hparse' hmatch' hrecoverable hrecoverable' method method'
    show normalizePathToTemplate path params = normalizePathToTemplate path' params' ↔ _
    rw [(recovers_iff hparse hmatch).2 hrecoverable, (recovers_iff hparse' hmatch').2 hrecoverable']

/-- The params of a path of a pattern, if it is one. -/
def paramsOf (pattern path : String) : Option Params :=
  (parseRoutePath (units pattern) none).toOption.bind fun segments => matchRoutePath segments (fields slash (units path))

/-- The id of a user is none of the literals. -/
theorem pathLabel_eq_user : paramsOf "/users/:id" "//users/1/" = some [(units "id", units "1")] ∧
    normalizePathToTemplate (units "//users/1/") [(units "id", units "1")] = units "/users/:id" := by
  have hparse : parseRoutePath (units "/users/:id") none = .ok [.literal (units "users"), .param (units "id")] := by rfl
  have hfields : fields slash (units "//users/1/") = [units "users", units "1"] := by decide +kernel
  have hmatch : matchRoutePath [.literal (units "users"), .param (units "id")] (fields slash (units "//users/1/")) = some [(units "id", units "1")] := by
    decide +kernel
  refine ⟨by decide +kernel, ((pathLabel_eq_iff _ _ _ _ hparse hmatch).2.1 (by decide +kernel)).2 ⟨by decide +kernel, by decide +kernel, ?_⟩⟩
  intro before after value segment name paramValue hsplit hafter
  rw [hfields] at hsplit
  cases before with
  | nil =>
    cases hsplit
    cases hafter with
    | head => decide +kernel
    | tail _ hafter => cases hafter
  | cons first before =>
    obtain ⟨-, hrest⟩ := List.cons.inj hsplit
    cases before with
    | nil => cases hrest
    | cons second before =>
      have hlength := congrArg List.length hrest
      simp at hlength

/-- The user called `users` is counted as another route. -/
theorem pathLabel_counterexample : paramsOf "/users/:id" "/users/users" = some [(units "id", units "users")] ∧
    normalizePathToTemplate (units "/users/users") [(units "id", units "users")] ≠ normalizeRoutePath (units "/users/:id") ∧
    paramsOf "/:id/users" "/1/users" = some [(units "id", units "1")] ∧
    normalizePathToTemplate (units "/users/users") [(units "id", units "users")] = normalizePathToTemplate (units "/1/users") [(units "id", units "1")] := by
  decide +kernel

end Fluo.Metrics
