import Mathlib.Algebra.Order.Ring.Rat
import Mathlib.Data.List.Sort
import Fluo.Http.LinearMatch
/-!
# Content negotiation

`dispatch-content-negotiation.ts`: the ranges of an `Accept` header, ordered by quality and then by how specific they are,
and the formatter that is taken for the first of them that matches one. A range of quality zero is dropped before.
-/

namespace Fluo.Http.ContentNegotiation
open Fluo.Lib Fluo.Http.Mapping

/-- What the code uses of the host. -/
structure Host where
  toLowerCase : Utf16 → Utf16
  /-- `Number`, none where that is not finite. -/
  number : Utf16 → Option ℚ

structure AcceptToken where
  mediaRange : Utf16
  quality : ℚ
  specificity : Nat

structure ResponseFormatter where
  mediaType : Utf16
  /-- Stands for `format`. -/
  id : Nat
deriving DecidableEq

structure ContentNegotiationOptions where
  formatters : List ResponseFormatter
  defaultMediaType : Option Utf16 := none

structure ResolvedContentNegotiation where
  defaultFormatter : ResponseFormatter
  formatters : List ResponseFormatter

inductive HttpError
  | notAcceptable (message : String)
deriving DecidableEq

def noAcceptableRepresentation : HttpError := .notAcceptable "No acceptable response representation found."

def comma : UInt16 := ','.toNat.toUInt16

def semicolon : UInt16 := ';'.toNat.toUInt16

def equalsSign : UInt16 := '='.toNat.toUInt16

def star : Utf16 := units "*"

def anyRange : Utf16 := units "*/*"

section Code
variable (host : Host)

def normalizeMediaType (value : Utf16) : Utf16 := host.toLowerCase (trim ((value.splitOn semicolon).headD []))

/-- A property of the headers; other keys that are written differently are other properties. -/
def headerValue (request : FrameworkRequest) (name : String) : HeaderValue :=
  ((request.headers.find? fun entry => entry.1 = units name).map Prod.snd).getD .undefined

def readAcceptHeader (request : FrameworkRequest) : Option Utf16 :=
  let raw := match headerValue request "accept" with
    | .undefined => headerValue request "Accept"
    | raw => raw
  let value := match raw with
    | .undefined => none
    | .one value => some value
    | .many values => some ([comma].intercalate values)
  (value.map trim).filter (· ≠ [])

def parseQuality : Option Utf16 → ℚ
  | none | some [] => 1
  | some (u :: rest) =>
    match host.number (u :: rest) with
    | none => 0
    | some parsed => if parsed < 0 then 0 else if 1 < parsed then 1 else parsed

def getMediaRangeSpecificity (mediaRange : Utf16) : Nat :=
  if mediaRange = anyRange then 0 else if units "/*" <:+ mediaRange then 1 else 2

/-- The quality of the first parameter `q`, and `1` if there is none. -/
def quality : List Utf16 → ℚ
  | [] => 1
  | parameterPart :: rest =>
    match (trim parameterPart).splitOn equalsSign with
    | name :: value => if host.toLowerCase name = units "q" then parseQuality host (value.head?.map trim) else quality rest
    | [] => quality rest

/-- One round of the loop of `parseAcceptHeader`, before ranges of quality zero are dropped. -/
def parseToken (token : Utf16) : Option AcceptToken :=
  match (trim token).splitOn semicolon with
  | [] => none
  | rawMediaRange :: parameterParts =>
    let mediaRange := normalizeMediaType host rawMediaRange
    if mediaRange = [] ∨ slash ∉ mediaRange then none
    else some { mediaRange, quality := quality host parameterParts, specificity := getMediaRangeSpecificity mediaRange }

/-- What the header says, in its order. -/
def acceptRanges (acceptHeader : Utf16) : List AcceptToken := (acceptHeader.splitOn comma).filterMap (parseToken host)

/-- The order of `sort`, which is stable. -/
def comesFirst (left right : AcceptToken) : Bool :=
  if right.quality ≠ left.quality then right.quality < left.quality else right.specificity ≤ left.specificity

def sortTokens (ranges : List AcceptToken) : List AcceptToken := (ranges.filter fun token => 0 < token.quality).insertionSort fun left right => comesFirst left right = true

def parseAcceptHeader (acceptHeader : Utf16) : List AcceptToken := sortTokens (acceptRanges host acceptHeader)

def matchesMediaRange (mediaRange mediaType : Utf16) : Bool :=
  if mediaRange = anyRange then true
  else
    match mediaRange.splitOn slash, mediaType.splitOn slash with
    | rangeType :: rangeSubtype :: _, mediaTypeType :: mediaTypeSubtype :: _ =>
      if rangeType = [] ∨ rangeSubtype = [] ∨ mediaTypeType = [] ∨ mediaTypeSubtype = [] then false
      else if rangeType ≠ star ∧ rangeType ≠ mediaTypeType then false
      else rangeSubtype = star || rangeSubtype = mediaTypeSubtype
    | _, _ => false

/-- The formatters of `resolveContentNegotiation`: the first of each media type. -/
def distinctFormatters (seen : List Utf16) : List ResponseFormatter → List ResponseFormatter
  | [] => []
  | formatter :: rest =>
    let mediaType := normalizeMediaType host formatter.mediaType
    if mediaType = [] ∨ mediaType ∈ seen then distinctFormatters seen rest
    else formatter :: distinctFormatters (mediaType :: seen) rest

def resolveContentNegotiation (options : ContentNegotiationOptions) : Option ResolvedContentNegotiation :=
  match distinctFormatters host [] options.formatters with
  | [] => none
  | first :: rest =>
    let defaultMediaType := normalizeMediaType host (options.defaultMediaType.getD [])
    let defaultFormatter :=
      if defaultMediaType = [] then first
      else ((first :: rest).find? fun formatter => normalizeMediaType host formatter.mediaType = defaultMediaType).getD first
    some { defaultFormatter, formatters := first :: rest }

/-- `produces` is that of the handler's route. -/
def resolveAllowedFormatters (produces : Option (List Utf16)) (contentNegotiation : ResolvedContentNegotiation) : List ResponseFormatter :=
  match produces with
  | none | some [] => contentNegotiation.formatters
  | some (mediaType :: mediaTypes) =>
    let allowed := (mediaType :: mediaTypes).map (normalizeMediaType host)
    contentNegotiation.formatters.filter fun formatter => normalizeMediaType host formatter.mediaType ∈ allowed

def resolveDefaultFormatter (allowedFormatters : List ResponseFormatter) (contentNegotiation : ResolvedContentNegotiation) : ResponseFormatter :=
  let defaultMediaType := normalizeMediaType host contentNegotiation.defaultFormatter.mediaType
  match allowedFormatters.find? fun formatter => normalizeMediaType host formatter.mediaType = defaultMediaType with
  | some formatter => formatter
  | none => allowedFormatters.headD contentNegotiation.defaultFormatter

/-- The loop of `selectResponseFormatter` over the tokens. -/
def selectByTokens (allowedFormatters : List ResponseFormatter) (defaultFormatter : ResponseFormatter) :
    List AcceptToken → Except HttpError ResponseFormatter
  | [] => .error noAcceptableRepresentation
  | token :: rest =>
    if token.mediaRange = anyRange then .ok defaultFormatter
    else
      match allowedFormatters.find? fun formatter => matchesMediaRange token.mediaRange (normalizeMediaType host formatter.mediaType) with
      | some matchedFormatter => .ok matchedFormatter
      | none => selectByTokens allowedFormatters defaultFormatter rest

def selectResponseFormatter (produces : Option (List Utf16)) (request : FrameworkRequest) (contentNegotiation : ResolvedContentNegotiation) :
    Except HttpError ResponseFormatter :=
  let allowedFormatters := resolveAllowedFormatters host produces contentNegotiation
  if allowedFormatters = [] then .error noAcceptableRepresentation
  else
    let defaultFormatter := resolveDefaultFormatter host allowedFormatters contentNegotiation
    match readAcceptHeader request with
    | none => .ok defaultFormatter
    | some acceptHeader =>
      let acceptTokens := parseAcceptHeader host acceptHeader
      if acceptTokens = [] then .error noAcceptableRepresentation else selectByTokens host allowedFormatters defaultFormatter acceptTokens

end Code

/-! ## What negotiation is for -/

section Law
variable (host : Host)

/-- The ranges of a request; without a header, it accepts everything. -/
def rangesOf (request : FrameworkRequest) : List AcceptToken :=
  match readAcceptHeader request with
  | none => [{ mediaRange := anyRange, quality := 1, specificity := 0 }]
  | some acceptHeader => acceptRanges host acceptHeader

/-- The ranges that match a media type and are as specific as any of these. -/
def mostSpecific (ranges : List AcceptToken) (mediaType : Utf16) : List AcceptToken :=
  let matching := ranges.filter fun range => matchesMediaRange range.mediaRange mediaType
  matching.filter fun range => matching.all fun other => other.specificity ≤ range.specificity

/-- The quality of a media type under its most specific range, and zero if there is none. Of two such ranges the better counts. -/
def qualityOf (ranges : List AcceptToken) (mediaType : Utf16) : ℚ := ((mostSpecific ranges mediaType).map AcceptToken.quality).foldl max 0

/-- The media type of a formatter. -/
def typeOf (formatter : ResponseFormatter) : Utf16 := normalizeMediaType host formatter.mediaType

/-- A formatter with a media type, which `produces` allows. -/
structure Eligible (options : ContentNegotiationOptions) (produces : Option (List Utf16)) (formatter : ResponseFormatter) : Prop where
  mem : formatter ∈ options.formatters
  typed : typeOf host formatter ≠ []
  produced : produces.getD [] = [] ∨ typeOf host formatter ∈ (produces.getD []).map (normalizeMediaType host)

/-- A formatter of the best quality is selected, and none if no quality is positive. -/
structure Negotiates (options : ContentNegotiationOptions) (produces : Option (List Utf16)) (ranges : List AcceptToken)
    (selected : Except HttpError ResponseFormatter) : Prop where
  chosen formatter : selected = .ok formatter →
    Eligible host options produces formatter ∧ 0 < qualityOf ranges (typeOf host formatter) ∧
      ∀ other, Eligible host options produces other → qualityOf ranges (typeOf host other) ≤ qualityOf ranges (typeOf host formatter)
  refused : selected = .error noAcceptableRepresentation ↔ ∀ formatter, Eligible host options produces formatter → qualityOf ranges (typeOf host formatter) = 0

/-- Where the first of the ordered ranges that match a media type is, behind all of them if none does. -/
def firstMatch (ranges : List AcceptToken) (mediaType : Utf16) : Nat :=
  (sortTokens ranges).findIdx fun token => matchesMediaRange token.mediaRange mediaType

def IsMatched (ranges : List AcceptToken) (mediaType : Utf16) : Prop :=
  ∃ token ∈ sortTokens ranges, matchesMediaRange token.mediaRange mediaType = true

/-- The order of the ranges goes with the qualities: a media type that is matched has a positive quality, which is no lower than
that of a media type whose first range does not come before its own. -/
structure Ordered (ranges : List AcceptToken) (mediaTypes : Utf16 → Prop) : Prop where
  positive mediaType : mediaTypes mediaType → IsMatched ranges mediaType → 0 < qualityOf ranges mediaType
  decreasing mediaType other : mediaTypes mediaType → mediaTypes other → IsMatched ranges mediaType →
    firstMatch ranges mediaType ≤ firstMatch ranges other → qualityOf ranges other ≤ qualityOf ranges mediaType

/-- No range gives a media type a higher quality than its most specific one. -/
def Consistent (ranges : List AcceptToken) (mediaType : Utf16) : Prop :=
  ∀ range ∈ ranges, matchesMediaRange range.mediaRange mediaType = true → range.quality ≤ qualityOf ranges mediaType

end Law

/-! ## Qualities -/

section Qualities
variable {ranges : List AcceptToken} {mediaType : Utf16}

theorem mem_mostSpecific {range : AcceptToken} (h : range ∈ mostSpecific ranges mediaType) :
    range ∈ ranges ∧ matchesMediaRange range.mediaRange mediaType = true := List.mem_filter.1 (List.mem_filter.1 h).1

theorem le_foldl_max (qualities : List ℚ) (start : ℚ) : start ≤ qualities.foldl max start := by
  induction qualities generalizing start with
  | nil => exact le_rfl
  | cons q qualities ih => exact (le_max_left start q).trans (ih _)

theorem foldl_max_mem (qualities : List ℚ) (start : ℚ) : qualities.foldl max start = start ∨ qualities.foldl max start ∈ qualities := by
  induction qualities generalizing start with
  | nil => exact .inl rfl
  | cons q qualities ih =>
    rw [List.foldl_cons]
    rcases ih (max start q) with h | h
    · rcases max_choice start q with hmax | hmax
      · exact .inl (h.trans hmax)
      · right
        rw [h, hmax]
        exact List.mem_cons_self
    · exact .inr (List.mem_cons_of_mem _ h)

theorem qualityOf_nonneg (ranges : List AcceptToken) (mediaType : Utf16) : 0 ≤ qualityOf ranges mediaType := le_foldl_max _ _

theorem exists_of_qualityOf_pos (h : 0 < qualityOf ranges mediaType) :
    ∃ range ∈ ranges, matchesMediaRange range.mediaRange mediaType = true ∧ range.quality = qualityOf ranges mediaType := by
  rcases foldl_max_mem ((mostSpecific ranges mediaType).map AcceptToken.quality) 0 with hzero | hmem
  · exact absurd hzero (ne_of_gt h)
  · obtain ⟨range, hrange, hquality⟩ := List.mem_map.1 hmem
    obtain ⟨hin, hmatches⟩ := mem_mostSpecific hrange
    exact ⟨range, hin, hmatches, hquality⟩

theorem mem_sortTokens {range : AcceptToken} : range ∈ sortTokens ranges ↔ range ∈ ranges ∧ 0 < range.quality := by
  simp [sortTokens]

theorem qualityOf_eq_zero (h : ¬IsMatched ranges mediaType) : qualityOf ranges mediaType = 0 := by
  refine le_antisymm (not_lt.1 fun hpos => ?_) (qualityOf_nonneg _ _)
  obtain ⟨range, hrange, hmatches, hquality⟩ := exists_of_qualityOf_pos hpos
  exact h ⟨range, mem_sortTokens.2 ⟨hrange, hquality.symm ▸ hpos⟩, hmatches⟩

end Qualities

/-! ## The loop -/

section Loop
variable {host : Host} {allowed : List ResponseFormatter} {fallback formatter : ResponseFormatter} {tokens : List AcceptToken}

@[simp] theorem matchesMediaRange_any (mediaType : Utf16) : matchesMediaRange anyRange mediaType = true := if_pos rfl

theorem selectByTokens_eq_ok (hfallback : fallback ∈ allowed) (h : selectByTokens host allowed fallback tokens = .ok formatter) :
    formatter ∈ allowed ∧ (∃ token ∈ tokens, matchesMediaRange token.mediaRange (typeOf host formatter) = true) ∧
    ∀ other ∈ allowed, tokens.findIdx (fun token => matchesMediaRange token.mediaRange (typeOf host formatter)) ≤
      tokens.findIdx fun token => matchesMediaRange token.mediaRange (typeOf host other) := by
  induction tokens with
  | nil => cases h
  | cons token tokens ih =>
    rw [selectByTokens] at h
    have hfirst (hmatches : matchesMediaRange token.mediaRange (typeOf host formatter) = true) (hmem : formatter ∈ allowed) :
        formatter ∈ allowed ∧ (∃ t ∈ token :: tokens, matchesMediaRange t.mediaRange (typeOf host formatter) = true) ∧
        ∀ other ∈ allowed, (token :: tokens).findIdx (fun t => matchesMediaRange t.mediaRange (typeOf host formatter)) ≤
          (token :: tokens).findIdx fun t => matchesMediaRange t.mediaRange (typeOf host other) := by
      refine ⟨hmem, ⟨token, List.mem_cons_self, hmatches⟩, fun other _ => ?_⟩
      rw [List.findIdx_cons, hmatches]
      exact Nat.zero_le _
    split at h
    · rename_i hany
      cases h
      exact hfirst (by rw [hany, matchesMediaRange_any]) hfallback
    · split at h
      · rename_i found hfind
        cases h
        have hmatches := List.find?_some hfind
        exact hfirst hmatches (List.mem_of_find?_eq_some hfind)
      · rename_i hnone
        obtain ⟨hmem, ⟨t, ht, hmatches⟩, hbefore⟩ := ih h
        have hskip other (hother : other ∈ allowed) : matchesMediaRange token.mediaRange (typeOf host other) = false := by
          simpa [typeOf] using List.find?_eq_none.1 hnone other hother
        refine ⟨hmem, ⟨t, List.mem_cons_of_mem _ ht, hmatches⟩, fun other hother => ?_⟩
        rw [List.findIdx_cons, List.findIdx_cons, hskip formatter hmem, hskip other hother]
        exact Nat.succ_le_succ (hbefore other hother)

theorem selectByTokens_eq_error {e : HttpError} (h : selectByTokens host allowed fallback tokens = .error e) :
    e = noAcceptableRepresentation ∧ ∀ other ∈ allowed, ∀ token ∈ tokens, matchesMediaRange token.mediaRange (typeOf host other) = false := by
  induction tokens with
  | nil =>
    cases h
    exact ⟨rfl, by simp⟩
  | cons token tokens ih =>
    rw [selectByTokens] at h
    split at h
    · cases h
    · split at h
      · cases h
      · rename_i hnone
        obtain ⟨he, hrest⟩ := ih h
        refine ⟨he, fun other hother t ht => ?_⟩
        rcases List.mem_cons.1 ht with rfl | ht
        · simpa [typeOf] using List.find?_eq_none.1 hnone other hother
        · exact hrest other hother t ht

theorem selectByTokens_head {rest : List ResponseFormatter}
    (hmatched : ∃ token ∈ tokens, matchesMediaRange token.mediaRange (typeOf host formatter) = true)
    (hbefore : ∀ other ∈ rest, tokens.findIdx (fun token => matchesMediaRange token.mediaRange (typeOf host formatter)) ≤
      tokens.findIdx fun token => matchesMediaRange token.mediaRange (typeOf host other)) :
    selectByTokens host (formatter :: rest) formatter tokens = .ok formatter := by
  induction tokens with
  | nil => simp at hmatched
  | cons token tokens ih =>
    rw [selectByTokens]
    split
    · rfl
    · rw [List.find?_cons]
      cases hmatches : matchesMediaRange token.mediaRange (typeOf host formatter) with
      | true =>
        have hthis : matchesMediaRange token.mediaRange (normalizeMediaType host formatter.mediaType) = true := hmatches
        rw [hthis]
      | false =>
        have hthis : matchesMediaRange token.mediaRange (normalizeMediaType host formatter.mediaType) = false := hmatches
        have hskip other (hother : other ∈ rest) : matchesMediaRange token.mediaRange (typeOf host other) = false := by
          have hle := hbefore other hother
          rw [List.findIdx_cons, List.findIdx_cons, hmatches] at hle
          cases hother' : matchesMediaRange token.mediaRange (typeOf host other) with
          | false => rfl
          | true => simp [hother'] at hle
        have hnone : rest.find? (fun formatter => matchesMediaRange token.mediaRange (normalizeMediaType host formatter.mediaType)) = none :=
          List.find?_eq_none.2 fun other hother => by simpa [typeOf] using hskip other hother
        rw [hthis, hnone]
        simp only
        refine ih ?_ fun other hother => ?_
        · obtain ⟨t, ht, htm⟩ := hmatched
          rcases List.mem_cons.1 ht with rfl | ht
          · rw [hmatches] at htm
            cases htm
          · exact ⟨t, ht, htm⟩
        · have hle := hbefore other hother
          rw [List.findIdx_cons, List.findIdx_cons, hmatches, hskip other hother] at hle
          simpa using hle

theorem selectResponseFormatter_eq (produces : Option (List Utf16)) (request : FrameworkRequest) (contentNegotiation : ResolvedContentNegotiation) :
    selectResponseFormatter host produces request contentNegotiation =
      let allowed := resolveAllowedFormatters host produces contentNegotiation
      if allowed = [] then .error noAcceptableRepresentation
      else selectByTokens host allowed (resolveDefaultFormatter host allowed contentNegotiation) (sortTokens (rangesOf host request)) := by
  dsimp only [selectResponseFormatter]
  split
  · rfl
  · rw [rangesOf]
    cases readAcceptHeader request with
    | none => simp [sortTokens, selectByTokens]
    | some acceptHeader =>
      show (if parseAcceptHeader host acceptHeader = [] then _ else _) = selectByTokens _ _ _ (parseAcceptHeader host acceptHeader)
      by_cases hnil : parseAcceptHeader host acceptHeader = []
      · rw [if_pos hnil, hnil, selectByTokens]
      · rw [if_neg hnil]

end Loop

/-! ## The formatters -/

section Formatters
variable {host : Host} {options : ContentNegotiationOptions} {produces : Option (List Utf16)} {resolved : ResolvedContentNegotiation}
  {formatter : ResponseFormatter}

variable {formatters : List ResponseFormatter}

theorem mem_distinctFormatters {seen : List Utf16} (h : formatter ∈ distinctFormatters host seen formatters) :
    formatter ∈ formatters ∧ typeOf host formatter ≠ [] := by
  induction formatters generalizing seen with
  | nil => cases h
  | cons first rest ih =>
    rw [distinctFormatters] at h
    split at h
    · exact (ih h).imp_left (List.mem_cons_of_mem _)
    · rename_i hnew
      rcases List.mem_cons.1 h with rfl | h
      · exact ⟨List.mem_cons_self, fun hnil => hnew (.inl hnil)⟩
      · exact (ih h).imp_left (List.mem_cons_of_mem _)

theorem exists_distinctFormatters {seen : List Utf16} (h : formatter ∈ formatters)
    (htyped : typeOf host formatter ≠ []) (hseen : typeOf host formatter ∉ seen) :
    ∃ first ∈ distinctFormatters host seen formatters, typeOf host first = typeOf host formatter := by
  induction formatters generalizing seen with
  | nil => cases h
  | cons first rest ih =>
    rw [distinctFormatters]
    split
    · rename_i hold
      rcases List.mem_cons.1 h with rfl | h
      · exact absurd hold (not_or.2 ⟨htyped, hseen⟩)
      · exact ih h hseen
    · by_cases hsame : typeOf host first = typeOf host formatter
      · exact ⟨first, List.mem_cons_self, hsame⟩
      · rcases List.mem_cons.1 h with rfl | h
        · exact absurd rfl hsame
        · obtain ⟨found, hfound, htype⟩ := @ih (typeOf host first :: seen) h
            (fun hmem => (List.mem_cons.1 hmem).elim (fun heq => hsame heq.symm) hseen)
          exact ⟨found, List.mem_cons_of_mem _ hfound, htype⟩

theorem resolveContentNegotiation_eq_some (h : resolveContentNegotiation host options = some resolved) :
    resolved.formatters = distinctFormatters host [] options.formatters := by
  unfold resolveContentNegotiation at h
  split at h
  · cases h
  · rename_i heq
    cases h
    exact heq.symm

theorem mem_resolveAllowedFormatters : formatter ∈ resolveAllowedFormatters host produces resolved ↔
    formatter ∈ resolved.formatters ∧ (produces.getD [] = [] ∨ typeOf host formatter ∈ (produces.getD []).map (normalizeMediaType host)) := by
  unfold resolveAllowedFormatters
  split
  · simp
  · simp
  · rw [List.mem_filter, decide_eq_true_eq]
    simp [typeOf]

theorem eligible_of_allowed (h : resolveContentNegotiation host options = some resolved) (hmem : formatter ∈ resolveAllowedFormatters host produces resolved) :
    Eligible host options produces formatter := by
  rw [mem_resolveAllowedFormatters, resolveContentNegotiation_eq_some h] at hmem
  obtain ⟨hin, htyped⟩ := mem_distinctFormatters hmem.1
  exact ⟨hin, htyped, hmem.2⟩

theorem exists_allowed_of_eligible (h : resolveContentNegotiation host options = some resolved) (heligible : Eligible host options produces formatter) :
    ∃ allowed ∈ resolveAllowedFormatters host produces resolved, typeOf host allowed = typeOf host formatter := by
  obtain ⟨found, hfound, htype⟩ := exists_distinctFormatters heligible.mem heligible.typed List.not_mem_nil
  refine ⟨found, mem_resolveAllowedFormatters.2 ⟨?_, ?_⟩, htype⟩
  · rw [resolveContentNegotiation_eq_some h]
    exact hfound
  · rw [htype]
    exact heligible.produced

variable (host resolved) in
theorem resolveDefaultFormatter_mem {allowed : List ResponseFormatter} (h : allowed ≠ []) : resolveDefaultFormatter host allowed resolved ∈ allowed := by
  unfold resolveDefaultFormatter
  dsimp only
  split
  · rename_i hfind
    exact List.mem_of_find?_eq_some hfind
  · cases allowed with
    | nil => exact absurd rfl h
    | cons first rest => exact List.mem_cons_self

theorem negotiates_of_ordered {request : FrameworkRequest} (h : resolveContentNegotiation host options = some resolved)
    (hordered : Ordered (rangesOf host request) fun mediaType => ∃ formatter, Eligible host options produces formatter ∧ typeOf host formatter = mediaType) :
    Negotiates host options produces (rangesOf host request) (selectResponseFormatter host produces request resolved) := by
  rw [selectResponseFormatter_eq]
  dsimp only
  have hrepresented other (hother : Eligible host options produces other) := exists_allowed_of_eligible h hother
  by_cases hnil : resolveAllowedFormatters host produces resolved = []
  · rw [if_pos hnil]
    refine ⟨fun _ hok => by simp at hok, iff_of_true rfl fun other hother => ?_⟩
    obtain ⟨found, hfound, -⟩ := hrepresented other hother
    rw [hnil] at hfound
    cases hfound
  · rw [if_neg hnil]
    have hfallback := resolveDefaultFormatter_mem host resolved hnil
    cases hselected : selectByTokens host (resolveAllowedFormatters host produces resolved)
        (resolveDefaultFormatter host (resolveAllowedFormatters host produces resolved) resolved) (sortTokens (rangesOf host request)) with
    | ok chosen =>
      obtain ⟨hmem, hmatched, hbefore⟩ := selectByTokens_eq_ok hfallback hselected
      have heligible := eligible_of_allowed h hmem
      have hpositive := hordered.positive _ ⟨chosen, heligible, rfl⟩ hmatched
      refine ⟨fun formatter hok => ?_, iff_of_false (fun herror => nomatch herror) fun hall => ?_⟩
      · cases hok
        refine ⟨heligible, hpositive, fun other hother => ?_⟩
        obtain ⟨found, hfound, htype⟩ := hrepresented other hother
        rw [← htype]
        exact hordered.decreasing _ _ ⟨chosen, heligible, rfl⟩ ⟨other, hother, htype.symm⟩ hmatched (hbefore found hfound)
      · exact absurd (hall chosen heligible) (ne_of_gt hpositive)
    | error e =>
      obtain ⟨rfl, hnone⟩ := selectByTokens_eq_error hselected
      refine ⟨fun _ hok => by simp at hok, iff_of_true rfl fun other hother => ?_⟩
      obtain ⟨found, hfound, htype⟩ := hrepresented other hother
      rw [← htype]
      refine qualityOf_eq_zero fun ⟨token, htoken, hmatches⟩ => ?_
      rw [hnone found hfound token htoken] at hmatches
      cases hmatches

end Formatters

/-! ## The law and the order -/

section Order
variable {host : Host} {ranges : List AcceptToken}

end Order

/-! ## Selection -/

section Selection
variable {host : Host} {formatter other : ResponseFormatter}

/-- The options with these formatters, the first of them as the default. -/
def optionsOf (formatter : ResponseFormatter) (rest : List ResponseFormatter) : ContentNegotiationOptions where
  formatters := formatter :: rest
  defaultMediaType := some formatter.mediaType

theorem resolve_single (h : typeOf host formatter ≠ []) :
    resolveContentNegotiation host (optionsOf formatter []) = some { defaultFormatter := formatter, formatters := [formatter] } := by
  have hnil : normalizeMediaType host formatter.mediaType ≠ [] := h
  simp [resolveContentNegotiation, distinctFormatters, optionsOf, hnil]

theorem resolve_pair (h : typeOf host formatter ≠ []) (hother : typeOf host other ≠ []) (hne : typeOf host other ≠ typeOf host formatter) :
    resolveContentNegotiation host (optionsOf formatter [other]) = some { defaultFormatter := formatter, formatters := [formatter, other] } := by
  have hnil : normalizeMediaType host formatter.mediaType ≠ [] := h
  have hnil' : normalizeMediaType host other.mediaType ≠ [] := hother
  have hne' : normalizeMediaType host other.mediaType ≠ normalizeMediaType host formatter.mediaType := hne
  simp [resolveContentNegotiation, distinctFormatters, optionsOf, hnil, hnil', hne']

theorem select_first {request : FrameworkRequest} (rest : List ResponseFormatter)
    (hmatched : IsMatched (rangesOf host request) (typeOf host formatter))
    (hbefore : ∀ other ∈ rest, firstMatch (rangesOf host request) (typeOf host formatter) ≤ firstMatch (rangesOf host request) (typeOf host other)) :
    selectResponseFormatter host none request { defaultFormatter := formatter, formatters := formatter :: rest } = .ok formatter := by
  rw [selectResponseFormatter_eq]
  have hallowed : resolveAllowedFormatters host none { defaultFormatter := formatter, formatters := formatter :: rest } = formatter :: rest := rfl
  have hdefault : resolveDefaultFormatter host (formatter :: rest) { defaultFormatter := formatter, formatters := formatter :: rest } = formatter := by
    simp [resolveDefaultFormatter]
  dsimp only
  rw [hallowed, hdefault, if_neg (List.cons_ne_nil _ _)]
  exact selectByTokens_head hmatched hbefore

end Selection

/-- For every request: whatever options are made of some formatters, and whatever a handler produces, the selected formatter is one
of the best and none is refused that could be taken, if and only if the ranges are in order for these formatters. -/
theorem selectResponseFormatter_negotiates_iff (host : Host) (request : FrameworkRequest) (pool : List ResponseFormatter) :
    (∀ options produces resolved, (∀ formatter ∈ options.formatters, formatter ∈ pool) → resolveContentNegotiation host options = some resolved →
      Negotiates host options produces (rangesOf host request) (selectResponseFormatter host produces request resolved)) ↔
    Ordered (rangesOf host request) fun mediaType => mediaType ≠ [] ∧ ∃ formatter ∈ pool, typeOf host formatter = mediaType := by
  constructor
  · intro h
    constructor
    · rintro _ ⟨htyped, formatter, hpool, rfl⟩ hmatched
      have hnegotiates := h (optionsOf formatter []) none _ (by simpa [optionsOf] using hpool) (resolve_single htyped)
      have hselected := select_first [] hmatched (by simp)
      exact (hnegotiates.chosen formatter hselected).2.1
    · rintro _ _ ⟨htyped, formatter, hpool, rfl⟩ ⟨htyped', other, hpool', rfl⟩ hmatched hle
      by_cases hne : typeOf host other = typeOf host formatter
      · rw [hne]
      · have hnegotiates := h (optionsOf formatter [other]) none _ (by simp [optionsOf, hpool, hpool']) (resolve_pair htyped htyped' hne)
        have hselected := select_first [other] hmatched (by simpa using hle)
        exact (hnegotiates.chosen formatter hselected).2.2 other ⟨by simp [optionsOf], htyped', .inl rfl⟩
  · intro hordered options produces resolved hpool hresolved
    refine negotiates_of_ordered hresolved ⟨?_, ?_⟩
    · rintro _ ⟨formatter, heligible, rfl⟩ hmatched
      exact hordered.positive _ ⟨heligible.typed, formatter, hpool _ heligible.mem, rfl⟩ hmatched
    · rintro _ _ ⟨formatter, heligible, rfl⟩ ⟨other, heligible', rfl⟩ hmatched hle
      exact hordered.decreasing _ _ ⟨heligible.typed, formatter, hpool _ heligible.mem, rfl⟩ ⟨heligible'.typed, other, hpool _ heligible'.mem, rfl⟩ hmatched hle

/-- Texts in ASCII, and the numbers of the examples. -/
def asciiHost : Host where
  toLowerCase := asciiCasing.toLowerCase
  number text := if text = units "0" then some 0 else if text = units "0.1" then some (1 / 10) else if text = units "1" then some 1 else none

def acceptOf (header : String) : FrameworkRequest := { method := units "GET", path := units "/", headers := [(units "accept", .one (units header))] }

def html : ResponseFormatter := { mediaType := units "text/html", id := 1 }

def plain : ResponseFormatter := { mediaType := units "text/plain", id := 2 }

/-- What is excluded is selected by a wider range, and what is disliked before what is preferred. -/
theorem selectResponseFormatter_counterexample :
    (selectResponseFormatter asciiHost none (acceptOf "text/html;q=0, */*") { defaultFormatter := html, formatters := [html] } = .ok html ∧
      ¬Negotiates asciiHost (optionsOf html []) none (rangesOf asciiHost (acceptOf "text/html;q=0, */*"))
        (selectResponseFormatter asciiHost none (acceptOf "text/html;q=0, */*") { defaultFormatter := html, formatters := [html] })) ∧
    ¬Negotiates asciiHost (optionsOf html [plain]) none (rangesOf asciiHost (acceptOf "text/*;q=1, text/html;q=0.1"))
      (selectResponseFormatter asciiHost none (acceptOf "text/*;q=1, text/html;q=0.1") { defaultFormatter := html, formatters := [html, plain] }) := by
  have hexcluded : selectResponseFormatter asciiHost none (acceptOf "text/html;q=0, */*") { defaultFormatter := html, formatters := [html] } = .ok html := by
    decide +kernel
  have hdisliked : selectResponseFormatter asciiHost none (acceptOf "text/*;q=1, text/html;q=0.1") { defaultFormatter := html, formatters := [html, plain] } =
      .ok html := by decide +kernel
  refine ⟨⟨hexcluded, fun h => ?_⟩, fun h => ?_⟩
  · have hpositive := (h.chosen html hexcluded).2.1
    revert hpositive
    decide +kernel
  · have hbest := (h.chosen html hdisliked).2.2 plain ⟨by decide +kernel, by decide +kernel, .inl rfl⟩
    revert hbest
    decide +kernel

end Fluo.Http.ContentNegotiation
