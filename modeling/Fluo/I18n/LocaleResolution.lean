import Fluo.Http.Mapping
import Fluo.I18n.Loaders
import Mathlib.Data.List.Sort
/-!
# Locale resolution

`locale-resolution.ts`: the preferences of an `Accept-Language` header, and the locale that is
selected by them. Entries of quality zero are dropped with the invalid ones. Qualities are counted
in thousandths.
-/

namespace Fluo.I18n
open Fluo.Lib
open Fluo.Http.Mapping (trim HeaderValue)

def hyphen : UInt16 := '-'.toNat.toUInt16

def isLetter (u : UInt16) : Bool := u ∈ units "ABCDEFGHIJKLMNOPQRSTUVWXYZabcdefghijklmnopqrstuvwxyz"

def isDigit (u : UInt16) : Bool := u ∈ units "0123456789"

/-- `LOCALE_PATTERN` -/
def isValidLocale (locale : Utf16) : Bool :=
  match locale.splitOn hyphen with
  | [] => false
  | language :: subtags =>
    (1 ≤ language.length && language.length ≤ 8 && language.all isLetter) &&
      subtags.all fun subtag => 1 ≤ subtag.length && subtag.length ≤ 8 && subtag.all isAlphanumeric

/-- The thousandths that digits behind the point stand for. -/
def thousandths : Utf16 → ℕ → ℕ
  | [], _ => 0
  | digit :: rest, place => (digit.toNat - 0x30) * place + thousandths rest (place / 10)

/-- `ACCEPT_LANGUAGE_QVALUE_PATTERN`, with `Number(value)` where it matches. -/
def qvalue (value : Utf16) : Option ℕ :=
  match value with
  | [] => none
  | whole :: rest =>
    if whole = '0'.toNat.toUInt16 then
      match rest with
      | [] => some 0
      | point :: digits =>
        if point = '.'.toNat.toUInt16 ∧ digits.length ≤ 3 ∧ digits.all isDigit then some (thousandths digits 100) else none
    else if whole = '1'.toNat.toUInt16 then
      match rest with
      | [] => some 1000
      | point :: digits =>
        if point = '.'.toNat.toUInt16 ∧ digits.length ≤ 3 ∧ digits.all (· = '0'.toNat.toUInt16) then some 1000 else none
    else none

/-- `/^q=(.+)$/i` -/
def qualityMatch : Utf16 → Option Utf16
  | name :: equals :: value =>
    if (name = 'q'.toNat.toUInt16 ∨ name = 'Q'.toNat.toUInt16) ∧ equals = '='.toNat.toUInt16 ∧ value ≠ [] then some value else none
  | _ => none

def parseAcceptLanguageQuality : List Utf16 → Option ℕ
  | [] => some 1000
  | [parameter] => (qualityMatch (trim parameter)).bind qvalue
  | _ => none

/-- An entry of the header, with its place among them. -/
structure LanguageRange where
  index : ℕ
  locale : Utf16
  quality : ℕ
deriving DecidableEq

def anyLanguage : Utf16 := units "*"

/-- One turn of the loop of `parseLocalePreferences`, before entries of quality zero are dropped. -/
def parsePart (index : ℕ) (rawPart : Utf16) : Option LanguageRange :=
  match rawPart.splitOn ';'.toNat.toUInt16 with
  | [] => none
  | rawLocale :: parameters =>
    let locale := trim rawLocale
    if locale = [] ∨ (locale ≠ anyLanguage ∧ isValidLocale locale = false) then none
    else (parseAcceptLanguageQuality parameters).map fun quality => ⟨index, locale, quality⟩

def rawHeader : HeaderValue → Option Utf16
  | .undefined => none
  | .one value => some value
  | .many values => some ((units ",").intercalate values)

/-- What the header says, in its order. -/
def languageRanges (header : HeaderValue) : List LanguageRange :=
  match rawHeader header with
  | none => []
  | some raw =>
    if trim raw = [] then []
    else ((raw.splitOn ','.toNat.toUInt16).mapIdx parsePart).filterMap id

/-- The order of `sort`. -/
def LanguageRange.Before (left right : LanguageRange) : Prop :=
  right.quality < left.quality ∨ (right.quality = left.quality ∧ left.index ≤ right.index)

instance : DecidableRel LanguageRange.Before := fun _ _ => inferInstanceAs (Decidable (_ ∨ _))

structure AcceptLanguagePreference where
  locale : Utf16
  quality : ℕ

def sortRanges (ranges : List LanguageRange) : List LanguageRange :=
  (ranges.filter fun range => 0 < range.quality).insertionSort LanguageRange.Before

def parseLocalePreferences (header : HeaderValue) : List AcceptLanguagePreference :=
  (sortRanges (languageRanges header)).map fun range => ⟨range.locale, range.quality⟩

/-! ## Selection -/

inductive WildcardLocalePolicy
  | defaultLocale
  | firstSupportedLocale
  | custom (policy : Utf16 → Option (List Utf16) → Option Utf16)

structure AcceptLanguageLocalePolicyOptions where
  wildcardLocale : Option WildcardLocalePolicy
  normalizeToSupportedLocale : Option Bool

section Select
variable (toLowerCase : Utf16 → Utf16)

def findSupported (supportedLocales : List Utf16) (normalizedLocale : Utf16) : Option Utf16 :=
  supportedLocales.find? fun supportedLocale => toLowerCase supportedLocale = normalizedLocale

def resolveSupportedLocale (locale : Utf16) (supportedLocales : Option (List Utf16)) : Option Utf16 :=
  match supportedLocales with
  | none | some [] => some locale
  | some (first :: rest) => findSupported toLowerCase (first :: rest) (toLowerCase locale)

/-- The loop over the parents of a locale, of so many segments and fewer. -/
def parentMatch (supportedLocales : List Utf16) (localeSegments : List Utf16) : ℕ → Option Utf16
  | 0 => none
  | n + 1 => match findSupported toLowerCase supportedLocales ([hyphen].intercalate (localeSegments.take (n + 1))) with
    | some supportedParent => some supportedParent
    | none => parentMatch supportedLocales localeSegments n

def normalizeSupportedLocale (locale : Utf16) (supportedLocales : Option (List Utf16)) (allowBaseLocaleMatch : Bool) : Option Utf16 :=
  match supportedLocales with
  | none | some [] => some locale
  | some (first :: rest) =>
    match resolveSupportedLocale toLowerCase locale (some (first :: rest)) with
    | some exact => some exact
    | none =>
      if allowBaseLocaleMatch then
        let localeSegments := (toLowerCase locale).splitOn hyphen
        parentMatch toLowerCase (first :: rest) localeSegments (localeSegments.length - 1)
      else none

def resolveWildcardLocale (policy : WildcardLocalePolicy) (defaultLocale : Utf16) (supportedLocales : Option (List Utf16)) : Option Utf16 :=
  match policy with
  | .defaultLocale => normalizeSupportedLocale toLowerCase defaultLocale supportedLocales false
  | .firstSupportedLocale => some ((supportedLocales.bind List.head?).getD defaultLocale)
  | .custom policy => policy defaultLocale supportedLocales

/-- The loop of `selectLocaleFromAcceptLanguagePolicy`: the locale it returns, or whether it saw a wildcard. -/
def selectByPreferences (supportedLocales : Option (List Utf16)) (allowBaseLocaleMatch : Bool) :
    List AcceptLanguagePreference → Bool → Utf16 ⊕ Bool
  | [], hasWildcard => .inr hasWildcard
  | preference :: rest, hasWildcard =>
    if preference.locale = anyLanguage then selectByPreferences supportedLocales allowBaseLocaleMatch rest true
    else match normalizeSupportedLocale toLowerCase preference.locale supportedLocales allowBaseLocaleMatch with
      | some normalizedLocale => .inl normalizedLocale
      | none => selectByPreferences supportedLocales allowBaseLocaleMatch rest hasWildcard

def selectLocaleFromAcceptLanguagePolicy (preferences : List AcceptLanguagePreference) (defaultLocale : Utf16)
    (supportedLocales : Option (List Utf16)) (options : AcceptLanguageLocalePolicyOptions) : Option Utf16 :=
  let allowBaseLocaleMatch := options.normalizeToSupportedLocale.getD true
  match selectByPreferences toLowerCase supportedLocales allowBaseLocaleMatch preferences false with
  | .inl locale => some locale
  | .inr false => none
  | .inr true =>
    match options.wildcardLocale.bind fun policy => resolveWildcardLocale toLowerCase policy defaultLocale supportedLocales with
    | none => none
    | some wildcardLocale =>
      if isValidLocale wildcardLocale then normalizeSupportedLocale toLowerCase wildcardLocale supportedLocales allowBaseLocaleMatch
      else none

end Select

/-! ## What selection is for -/

section Law
variable (toLowerCase : Utf16 → Utf16) (supportedLocales : List Utf16) (allowBaseLocaleMatch : Bool)

/-- The first so many segments of a language range, in lower case. -/
def parentOf (range : Utf16) (segments : ℕ) : Utf16 := [hyphen].intercalate (((toLowerCase range).splitOn hyphen).take segments)

def segmentCount (range : Utf16) : ℕ := ((toLowerCase range).splitOn hyphen).length

/-- The supported locale that a language range matches: the first one that the range spells, or else the first one that its longest
supported parent spells. Without supported locales, a range matches itself. -/
def Matches (range locale : Utf16) : Prop :=
  if supportedLocales = [] then locale = range
  else ∃ segments, 0 < segments ∧ segments ≤ segmentCount toLowerCase range ∧ (allowBaseLocaleMatch ∨ segments = segmentCount toLowerCase range) ∧
    findSupported toLowerCase supportedLocales (parentOf toLowerCase range segments) = some locale ∧
    ∀ more, segments < more → more ≤ segmentCount toLowerCase range →
      ∀ supportedLocale ∈ supportedLocales, toLowerCase supportedLocale ≠ parentOf toLowerCase range more

/-- An entry of positive quality for a language that matches. -/
def LanguageRange.Selects (range : LanguageRange) (locale : Utf16) : Prop :=
  0 < range.quality ∧ range.locale ≠ anyLanguage ∧ Matches toLowerCase supportedLocales allowBaseLocaleMatch range.locale locale

/-- The locale of the policy, where it is a locale, and as it is supported. -/
def WildcardSelects (defaultLocale : Utf16) (configured : Option (List Utf16)) (policy : Option WildcardLocalePolicy) (locale : Utf16) : Prop :=
  ∃ chosen wildcardLocale, policy = some chosen ∧ resolveWildcardLocale toLowerCase chosen defaultLocale configured = some wildcardLocale ∧
    isValidLocale wildcardLocale = true ∧ Matches toLowerCase supportedLocales allowBaseLocaleMatch wildcardLocale locale

end Law

/-- The selected locale is one of the supported ones. It is that of the entry that comes first among those of positive quality that
match, by descending quality and then in the order of the header. Only where none matches, an entry `*` of positive quality selects
by the policy. -/
structure Selection (toLowerCase : Utf16 → Utf16) (ranges : List LanguageRange) (defaultLocale : Utf16) (supportedLocales : Option (List Utf16))
    (options : AcceptLanguageLocalePolicyOptions) (selected : Option Utf16) : Prop where
  spelled locale : supportedLocales.getD [] ≠ [] → selected = some locale → locale ∈ supportedLocales.getD []
  first range locale : range ∈ ranges → range.Selects toLowerCase (supportedLocales.getD []) (options.normalizeToSupportedLocale.getD true) locale →
    (∀ other ∈ ranges, (∃ l, other.Selects toLowerCase (supportedLocales.getD []) (options.normalizeToSupportedLocale.getD true) l) → range.Before other) →
    selected = some locale
  otherwise : (∀ range ∈ ranges, ∀ l, ¬ range.Selects toLowerCase (supportedLocales.getD []) (options.normalizeToSupportedLocale.getD true) l) →
    ∀ locale, selected = some locale ↔ (∃ range ∈ ranges, 0 < range.quality ∧ range.locale = anyLanguage) ∧
      WildcardSelects toLowerCase (supportedLocales.getD []) (options.normalizeToSupportedLocale.getD true) defaultLocale supportedLocales
        options.wildcardLocale locale

/-! ## Matching -/

section Match
variable {toLowerCase : Utf16 → Utf16} {supportedLocales : List Utf16} {allowBaseLocaleMatch : Bool} {range locale : Utf16}

theorem findSupported_eq_none {normalized : Utf16} :
    findSupported toLowerCase supportedLocales normalized = none ↔ ∀ supportedLocale ∈ supportedLocales, toLowerCase supportedLocale ≠ normalized := by
  simp [findSupported]

theorem findSupported_mem {normalized : Utf16} (h : findSupported toLowerCase supportedLocales normalized = some locale) : locale ∈ supportedLocales :=
  List.mem_of_find?_eq_some h

theorem parentMatch_eq_some {n : ℕ} : parentMatch toLowerCase supportedLocales ((toLowerCase range).splitOn hyphen) n = some locale ↔
    ∃ segments, 0 < segments ∧ segments ≤ n ∧ findSupported toLowerCase supportedLocales (parentOf toLowerCase range segments) = some locale ∧
      ∀ more, segments < more → more ≤ n → findSupported toLowerCase supportedLocales (parentOf toLowerCase range more) = none := by
  induction n with
  | zero =>
    rw [parentMatch]
    refine ⟨nofun, fun ⟨segments, hpos, hle, _⟩ => ?_⟩
    omega
  | succ n ih =>
    rw [parentMatch]
    cases hfind : findSupported toLowerCase supportedLocales ([hyphen].intercalate (((toLowerCase range).splitOn hyphen).take (n + 1))) with
    | some found =>
      constructor
      · intro h
        cases h
        refine ⟨n + 1, Nat.succ_pos n, Nat.le_refl _, hfind, fun more hlt hle => ?_⟩
        omega
      · rintro ⟨segments, hpos, hle, hthis, hmore⟩
        rcases Nat.lt_or_ge segments (n + 1) with hlt | hge
        · exact absurd (hfind.symm.trans (hmore (n + 1) hlt (Nat.le_refl _))) nofun
        · obtain rfl : segments = n + 1 := Nat.le_antisymm hle hge
          exact hfind.symm.trans hthis
    | none =>
      dsimp only
      rw [ih]
      constructor
      · rintro ⟨segments, hpos, hle, hthis, hmore⟩
        refine ⟨segments, hpos, Nat.le_succ_of_le hle, hthis, fun more hlt hle' => ?_⟩
        rcases Nat.lt_or_ge more (n + 1) with hless | hge
        · exact hmore more hlt (Nat.lt_succ_iff.1 hless)
        · obtain rfl : more = n + 1 := Nat.le_antisymm hle' hge
          exact hfind
      · rintro ⟨segments, hpos, hle, hthis, hmore⟩
        rcases Nat.lt_or_ge segments (n + 1) with hlt | hge
        · exact ⟨segments, hpos, Nat.lt_succ_iff.1 hlt, hthis, fun more hmore' hle' => hmore more hmore' (Nat.le_succ_of_le hle')⟩
        · obtain rfl : segments = n + 1 := Nat.le_antisymm hle hge
          exact absurd (hfind.symm.trans hthis) nofun

variable (toLowerCase) in
theorem segmentCount_pos (range : Utf16) : 0 < segmentCount toLowerCase range := List.length_pos_of_ne_nil (List.splitOn_ne_nil _ _)

variable (toLowerCase) in
theorem parentOf_segmentCount (range : Utf16) : parentOf toLowerCase range (segmentCount toLowerCase range) = toLowerCase range := by
  rw [parentOf, segmentCount, List.take_length, List.intercalate_splitOn]

theorem normalizeSupportedLocale_eq_some {configured : Option (List Utf16)} :
    normalizeSupportedLocale toLowerCase range configured allowBaseLocaleMatch = some locale ↔
      Matches toLowerCase (configured.getD []) allowBaseLocaleMatch range locale := by
  rcases configured with _ | _ | ⟨first, rest⟩
  · exact ⟨fun h => (Option.some.inj h).symm, fun h => congrArg some (Eq.symm h)⟩
  · exact ⟨fun h => (Option.some.inj h).symm, fun h => congrArg some (Eq.symm h)⟩
  · rw [Option.getD_some, Matches, if_neg (List.cons_ne_nil _ _)]
    obtain ⟨n, hn⟩ := Nat.exists_eq_succ_of_ne_zero (Nat.ne_of_gt (segmentCount_pos toLowerCase range))
    have hwhole : parentOf toLowerCase range (n + 1) = toLowerCase range := by
      rw [← Nat.succ_eq_add_one, ← hn]
      exact parentOf_segmentCount toLowerCase range
    have hloop : normalizeSupportedLocale toLowerCase range (some (first :: rest)) true =
        parentMatch toLowerCase (first :: rest) ((toLowerCase range).splitOn hyphen) (n + 1) := by
      have hlast : ((toLowerCase range).splitOn hyphen).length - 1 = n := by
        rw [show ((toLowerCase range).splitOn hyphen).length = n + 1 from hn, Nat.add_sub_cancel]
      rw [parentMatch, normalizeSupportedLocale, resolveSupportedLocale, if_pos rfl]
      dsimp only
      rw [hlast]
      change _ = match findSupported toLowerCase (first :: rest) (parentOf toLowerCase range (n + 1)) with
        | some supportedParent => some supportedParent
        | none => parentMatch toLowerCase (first :: rest) ((toLowerCase range).splitOn hyphen) n
      rw [hwhole]
    cases allowBaseLocaleMatch with
    | true =>
      rw [hloop, parentMatch_eq_some, hn]
      simp only [findSupported_eq_none, true_or, true_and]
    | false =>
      have hexact : normalizeSupportedLocale toLowerCase range (some (first :: rest)) false =
          findSupported toLowerCase (first :: rest) (parentOf toLowerCase range (n + 1)) := by
        rw [hwhole, normalizeSupportedLocale, resolveSupportedLocale]
        cases findSupported toLowerCase (first :: rest) (toLowerCase range) with
        | some exact => rfl
        | none => rfl
      rw [hexact, hn]
      constructor
      · intro h
        refine ⟨n + 1, Nat.succ_pos n, Nat.le_refl _, .inr rfl, h, fun more hlt hle => ?_⟩
        omega
      · rintro ⟨segments, -, -, hall | rfl, h, -⟩
        · cases hall
        · exact h

end Match

/-! ## The order of the entries -/

theorem before_trans {a b c : LanguageRange} (hab : a.Before b) (hbc : b.Before c) : a.Before c := by
  unfold LanguageRange.Before at *
  omega

theorem before_total (a b : LanguageRange) : a.Before b ∨ b.Before a := by
  unfold LanguageRange.Before
  omega

theorem pairwise_sortRanges (ranges : List LanguageRange) : (sortRanges ranges).Pairwise LanguageRange.Before := by
  have htrans : IsTrans LanguageRange LanguageRange.Before := ⟨fun _ _ _ => before_trans⟩
  have htotal : Std.Total LanguageRange.Before := ⟨before_total⟩
  exact List.pairwise_insertionSort _ _

theorem mem_sortRanges {ranges : List LanguageRange} {range : LanguageRange} : range ∈ sortRanges ranges ↔ range ∈ ranges ∧ 0 < range.quality := by
  simp [sortRanges]

theorem index_parsePart {index : ℕ} {rawPart : Utf16} {range : LanguageRange} (h : parsePart index rawPart = some range) : range.index = index := by
  unfold parsePart at h
  split at h
  · cases h
  · dsimp only at h
    split at h
    · cases h
    · obtain ⟨quality, -, rfl⟩ := Option.map_eq_some_iff.1 h
      rfl

theorem languageRanges_index {header : HeaderValue} {a b : LanguageRange} (ha : a ∈ languageRanges header) (hb : b ∈ languageRanges header)
    (hindex : a.index = b.index) : a = b := by
  have hpart : ∀ range ∈ languageRanges header, ∃ parts : List Utf16, (rawHeader header).map (·.splitOn ','.toNat.toUInt16) = some parts ∧
      ∃ part, parts[range.index]? = some part ∧ parsePart range.index part = some range := by
    intro range hrange
    unfold languageRanges at hrange
    cases hraw : rawHeader header with
    | none => rw [hraw] at hrange; cases hrange
    | some raw =>
      rw [hraw] at hrange
      dsimp only at hrange
      split at hrange
      · cases hrange
      · obtain ⟨parsed, hparsed, rfl⟩ := List.mem_filterMap.1 hrange
        obtain ⟨i, hi⟩ := List.getElem?_of_mem hparsed
        rw [List.getElem?_mapIdx] at hi
        obtain ⟨part, hget, hparse⟩ := Option.map_eq_some_iff.1 hi
        change parsePart i part = some range at hparse
        obtain rfl : range.index = i := index_parsePart hparse
        exact ⟨_, rfl, part, hget, hparse⟩
  obtain ⟨parts, hparts, part, hget, hparse⟩ := hpart a ha
  obtain ⟨parts', hparts', part', hget', hparse'⟩ := hpart b hb
  cases hparts.symm.trans hparts'
  rw [← hindex] at hget' hparse'
  cases hget.symm.trans hget'
  exact Option.some.inj (hparse.symm.trans hparse')

/-! ## The loop -/

section Loop
variable (toLowerCase : Utf16 → Utf16) (configured : Option (List Utf16)) (allowBaseLocaleMatch : Bool)

def selectedBy (locale : Utf16) : Option Utf16 :=
  if locale = anyLanguage then none else normalizeSupportedLocale toLowerCase locale configured allowBaseLocaleMatch

variable {toLowerCase configured allowBaseLocaleMatch}

theorem selectedBy_eq_some {range locale : Utf16} : selectedBy toLowerCase configured allowBaseLocaleMatch range = some locale ↔
    range ≠ anyLanguage ∧ Matches toLowerCase (configured.getD []) allowBaseLocaleMatch range locale := by
  rw [selectedBy]
  split
  · next hany => exact ⟨nofun, fun h => absurd hany h.1⟩
  · next hany => rw [normalizeSupportedLocale_eq_some, and_iff_right hany]

theorem selectByPreferences_eq (preferences : List AcceptLanguagePreference) (hasWildcard : Bool) :
    selectByPreferences toLowerCase configured allowBaseLocaleMatch preferences hasWildcard =
      match preferences.findSome? fun preference => selectedBy toLowerCase configured allowBaseLocaleMatch preference.locale with
      | some locale => .inl locale
      | none => .inr (hasWildcard || preferences.any fun preference => preference.locale = anyLanguage) := by
  induction preferences generalizing hasWildcard with
  | nil => rw [List.findSome?_nil, List.any_nil, Bool.or_false, selectByPreferences]
  | cons preference preferences ih =>
    rw [selectByPreferences, List.findSome?_cons, List.any_cons]
    by_cases hany : preference.locale = anyLanguage
    · rw [if_pos hany, ih, selectedBy, if_pos hany, decide_eq_true hany]
      simp
    · rw [if_neg hany, selectedBy, if_neg hany, decide_eq_false hany]
      cases normalizeSupportedLocale toLowerCase preference.locale configured allowBaseLocaleMatch with
      | some locale => rfl
      | none =>
        dsimp only
        rw [ih, Bool.false_or]

end Loop

/-! ## Selection by a header -/

section Header
variable (toLowerCase : Utf16 → Utf16) (header : HeaderValue) (defaultLocale : Utf16) (supportedLocales : Option (List Utf16))
  (options : AcceptLanguageLocalePolicyOptions)

variable {locale : Utf16}

theorem matches_mem {supported : List Utf16} {allowBaseLocaleMatch : Bool} {range : Utf16} (hne : supported ≠ [])
    (h : Matches toLowerCase supported allowBaseLocaleMatch range locale) : locale ∈ supported := by
  rw [Matches, if_neg hne] at h
  obtain ⟨segments, -, -, -, hfind, -⟩ := h
  exact findSupported_mem hfind

def firstSelected : Option Utf16 :=
  (sortRanges (languageRanges header)).findSome? fun range =>
    selectedBy toLowerCase supportedLocales (options.normalizeToSupportedLocale.getD true) range.locale

theorem selectByPreferences_parse : selectByPreferences toLowerCase supportedLocales (options.normalizeToSupportedLocale.getD true)
    (parseLocalePreferences header) false = match firstSelected toLowerCase header supportedLocales options with
      | some locale => .inl locale
      | none => .inr ((sortRanges (languageRanges header)).any fun range => range.locale = anyLanguage) := by
  rw [selectByPreferences_eq, parseLocalePreferences, List.findSome?_map, List.any_map, Bool.false_or]
  rfl

variable {toLowerCase header defaultLocale supportedLocales options}

theorem select_of_firstSelected (h : firstSelected toLowerCase header supportedLocales options = some locale) :
    selectLocaleFromAcceptLanguagePolicy toLowerCase (parseLocalePreferences header) defaultLocale supportedLocales options = some locale := by
  rw [selectLocaleFromAcceptLanguagePolicy, selectByPreferences_parse, h]

theorem select_of_none (h : firstSelected toLowerCase header supportedLocales options = none) (locale : Utf16) :
    selectLocaleFromAcceptLanguagePolicy toLowerCase (parseLocalePreferences header) defaultLocale supportedLocales options = some locale ↔
      (∃ range ∈ languageRanges header, 0 < range.quality ∧ range.locale = anyLanguage) ∧
        WildcardSelects toLowerCase (supportedLocales.getD []) (options.normalizeToSupportedLocale.getD true) defaultLocale supportedLocales
          options.wildcardLocale locale := by
  have hany : ((sortRanges (languageRanges header)).any fun range => range.locale = anyLanguage) = true ↔
      ∃ range ∈ languageRanges header, 0 < range.quality ∧ range.locale = anyLanguage := by
    simp only [List.any_eq_true, mem_sortRanges, decide_eq_true_eq, and_assoc]
  rw [selectLocaleFromAcceptLanguagePolicy, selectByPreferences_parse, h, ← hany]
  dsimp only
  cases (sortRanges (languageRanges header)).any fun range => range.locale = anyLanguage with
  | false => exact ⟨nofun, fun hboth => absurd hboth.1 nofun⟩
  | true =>
    dsimp only
    rw [eq_self_iff_true, true_and]
    unfold WildcardSelects
    constructor
    · intro hselected
      split at hselected
      · cases hselected
      · next wildcardLocale hpolicy =>
        obtain ⟨policy, hoption, hresolved⟩ := Option.bind_eq_some_iff.1 hpolicy
        split at hselected
        · next hvalid => exact ⟨policy, wildcardLocale, hoption, hresolved, hvalid, normalizeSupportedLocale_eq_some.1 hselected⟩
        · cases hselected
    · rintro ⟨policy, wildcardLocale, hoption, hresolved, hvalid, hmatches⟩
      rw [hoption, Option.bind_some, hresolved]
      dsimp only
      rw [if_pos hvalid]
      exact normalizeSupportedLocale_eq_some.2 hmatches

theorem firstSelected_of_before {range : LanguageRange} (hmem : range ∈ languageRanges header)
    (hselects : range.Selects toLowerCase (supportedLocales.getD []) (options.normalizeToSupportedLocale.getD true) locale)
    (hbefore : ∀ other ∈ languageRanges header,
      (∃ l, other.Selects toLowerCase (supportedLocales.getD []) (options.normalizeToSupportedLocale.getD true) l) → range.Before other) :
    firstSelected toLowerCase header supportedLocales options = some locale := by
  have hselected := selectedBy_eq_some.2 hselects.2
  have hsorted : range ∈ sortRanges (languageRanges header) := mem_sortRanges.2 ⟨hmem, hselects.1⟩
  cases hfirst : firstSelected toLowerCase header supportedLocales options with
  | none => exact absurd (List.findSome?_eq_none_iff.1 hfirst range hsorted) (by rw [hselected]; nofun)
  | some found =>
    obtain ⟨before, first, after, hsplit, hfound, hnone⟩ := List.findSome?_eq_some_iff.1 hfirst
    have hfirstMem : first ∈ sortRanges (languageRanges header) := by rw [hsplit]; simp
    obtain ⟨hin, hpositive⟩ := mem_sortRanges.1 hfirstMem
    have hle : range.Before first := hbefore first hin ⟨found, hpositive, selectedBy_eq_some.1 hfound⟩
    have hge : first.Before range := by
      rw [hsplit] at hsorted
      rcases List.mem_append.1 hsorted with hearly | hlate
      · exact absurd (hnone range hearly) (by rw [hselected]; nofun)
      · have hpairwise := pairwise_sortRanges (languageRanges header)
        rw [hsplit] at hpairwise
        rcases List.mem_cons.1 hlate with rfl | hlate
        · exact hle
        · exact (List.pairwise_cons.1 (List.pairwise_append.1 hpairwise).2.1).1 range hlate
    have hindex : first.index = range.index := by
      unfold LanguageRange.Before at hle hge
      omega
    obtain rfl := languageRanges_index hin hmem hindex
    exact hfound.symm.trans hselected

variable (toLowerCase header defaultLocale supportedLocales options)

/-- The preferences of a header select as the entries of the header say. -/
theorem selectLocaleFromAcceptLanguagePolicy_selection : Selection toLowerCase (languageRanges header) defaultLocale supportedLocales options
    (selectLocaleFromAcceptLanguagePolicy toLowerCase (parseLocalePreferences header) defaultLocale supportedLocales options) := by
  refine ⟨fun locale hne hselected => ?_, fun range locale hmem hselects hbefore => ?_, fun hnone locale => ?_⟩
  · cases hfirst : firstSelected toLowerCase header supportedLocales options with
    | some found =>
      rw [select_of_firstSelected hfirst] at hselected
      cases hselected
      obtain ⟨range, -, hfound⟩ := List.exists_of_findSome?_eq_some hfirst
      exact matches_mem toLowerCase hne (selectedBy_eq_some.1 hfound).2
    | none =>
      obtain ⟨-, policy, wildcardLocale, -, -, -, hmatches⟩ := (select_of_none hfirst locale).1 hselected
      exact matches_mem toLowerCase hne hmatches
  · exact select_of_firstSelected (firstSelected_of_before hmem hselects hbefore)
  · refine select_of_none (List.findSome?_eq_none_iff.2 fun range hrange => ?_) locale
    obtain ⟨hmem, hpositive⟩ := mem_sortRanges.1 hrange
    cases hselected : selectedBy toLowerCase supportedLocales (options.normalizeToSupportedLocale.getD true) range.locale with
    | none => rfl
    | some found => exact absurd ⟨hpositive, selectedBy_eq_some.1 hselected⟩ (hnone range hmem found)

end Header

/-- The letters of the alphabet in lower case. -/
private def lower (locale : Utf16) : Utf16 := locale.map fun u => if 0x41 ≤ u ∧ u ≤ 0x5A then u + 0x20 else u

/-- A range of quality zero leaves its locale to be selected as the parent of another, and without supported locales what is
selected is as the header spells it. -/
theorem selectLocaleFromAcceptLanguagePolicy_excluded :
    selectLocaleFromAcceptLanguagePolicy lower (parseLocalePreferences (.one (units "en-US, en;q=0"))) (units "de") (some [units "en"]) ⟨none, none⟩ =
      some (units "en") ∧
    ⟨1, units "en", 0⟩ ∈ languageRanges (.one (units "en-US, en;q=0")) ∧
    selectLocaleFromAcceptLanguagePolicy lower (parseLocalePreferences (.one (units "EN"))) (units "de") (some []) ⟨none, none⟩ =
      some (units "EN") := by
  decide +kernel

end Fluo.I18n
