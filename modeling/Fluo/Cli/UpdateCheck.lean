import Mathlib.Data.List.DropRight
import Fluo.Lib.JsNumber
import Fluo.Lib.SemVer
/-!
# The update check

`update-check.ts`: whether a version of the registry is newer than the one that runs.
-/

namespace Fluo.Cli.UpdateCheck
open Fluo.Lib Fluo.Lib.SemVer

/-! ## The code -/

/-- `WhiteSpace` and `LineTerminator`. -/
def isWhiteSpace (c : Char) : Bool :=
  c.toNat ∈ [0x9, 0xA, 0xB, 0xC, 0xD, 0x20, 0xA0, 0x1680, 0x2028, 0x2029, 0x202F, 0x205F, 0x3000, 0xFEFF] || (0x2000 ≤ c.toNat && c.toNat ≤ 0x200A)

def trim (text : Text) : Text := (text.dropWhile isWhiteSpace).rdropWhile isWhiteSpace

structure ParsedSemver where
  major : JsNumber
  minor : JsNumber
  patch : JsNumber
  prerelease : List Text

/-- `Number.parseInt(digits, 10)` of what `\d+` matches. -/
def parseInt (digits : Text) : JsNumber := .ofNat (Nat.ofDigitChars 10 digits 0)

/-- `[0-9A-Za-z.-]` -/
def isPartChar (c : Char) : Bool := isIdentifierChar c || c == '.'

/-- `(\d+)`: the longest run of digits, since no digit can follow it in the pattern. -/
def matchDigits (text : Text) : Option (Text × Text) :=
  if text.takeWhile Char.isDigit = [] then none else some (text.takeWhile Char.isDigit, text.dropWhile Char.isDigit)

def matchDot : Text → Option Text
  | '.' :: rest => some rest
  | _ => none

/-- `(?:-([0-9A-Za-z.-]+))?` -/
def matchPrerelease : Text → Text × Text
  | '-' :: rest => if rest.takeWhile isPartChar = [] then ([], '-' :: rest) else (rest.takeWhile isPartChar, rest.dropWhile isPartChar)
  | text => ([], text)

/-- `(?:\+[0-9A-Za-z.-]+)?$` -/
def matchesBuild : Text → Bool
  | [] => true
  | '+' :: rest => rest ≠ [] && rest.all isPartChar
  | _ => false

/-- `v?` -/
def skipV : Text → Text
  | 'v' :: rest => rest
  | text => text

def parseSemver (version : Text) : Option ParsedSemver := do
  let (major, rest) ← matchDigits (skipV (trim version))
  let (minor, rest) ← matchDigits (← matchDot rest)
  let (patch, rest) ← matchDigits (← matchDot rest)
  let (prerelease, rest) := matchPrerelease rest
  if matchesBuild rest then
    some ⟨parseInt major, parseInt minor, parseInt patch, if prerelease = [] then [] else prerelease.splitOn '.'⟩
  else none

def compareNumericPart (left right : JsNumber) : ℤ := if right.lt left then 1 else if left.lt right then -1 else 0

/-- `/^\d+$/` -/
def isNumeric (text : Text) : Bool := text ≠ [] && text.all Char.isDigit

/-- Identifiers are of ASCII, where the order of the units is that of the characters. -/
def comparePrereleaseIdentifier : Option Text → Option Text → ℤ
  | none, none => 0
  | none, some _ => -1
  | some _, none => 1
  | some left, some right =>
    match isNumeric left, isNumeric right with
    | true, true => compareNumericPart (parseInt left) (parseInt right)
    | true, false => -1
    | false, true => 1
    | false, false => if right < left then 1 else if left < right then -1 else 0

/-- The first comparison that is not 0. -/
def comparePrereleases (left right : List Text) : ℤ :=
  (((List.range (max left.length right.length)).map fun index => comparePrereleaseIdentifier left[index]? right[index]?).find? (· ≠ 0)).getD 0

def compareSemver (left right : ParsedSemver) : ℤ :=
  let major := compareNumericPart left.major right.major
  if major ≠ 0 then major else
  let minor := compareNumericPart left.minor right.minor
  if minor ≠ 0 then minor else
  let patch := compareNumericPart left.patch right.patch
  if patch ≠ 0 then patch else
  if left.prerelease = [] ∧ right.prerelease = [] then 0
  else if left.prerelease = [] then 1
  else if right.prerelease = [] then -1
  else comparePrereleases left.prerelease right.prerelease

def isNewerVersion (latestVersion currentVersion : Text) : Bool :=
  match parseSemver latestVersion, parseSemver currentVersion with
  | some latest, some current => 0 < compareSemver latest current
  | _, _ => false

/-! ## Reading a version -/

section Parse

theorem takeWhile_append {p : Char → Bool} {run rest : Text} (hrun : ∀ c ∈ run, p c = true) (hrest : ∀ c ∈ rest.head?, p c = false) :
    (run ++ rest).takeWhile p = run ∧ (run ++ rest).dropWhile p = rest := by
  rw [List.takeWhile_append_of_pos hrun, List.dropWhile_append_of_pos hrun]
  cases rest with
  | nil => simp
  | cons c rest =>
    have hfirst : p c = false := hrest c rfl
    simp [hfirst]

variable {c : Char} {identifiers : List Text}

theorem isDigit_of_mem {n : Nat} (h : c ∈ Nat.toDigits 10 n) : c.isDigit = true := Nat.isDigit_of_mem_toDigits (by decide) (by decide) h

theorem parseInt_toDigits (n : Nat) : parseInt (Nat.toDigits 10 n) = .ofNat n := by
  rw [parseInt, Nat.ofDigitChars_toDigits (by decide) (by decide)]

theorem matchDigits_append {rest : Text} (n : Nat) (hrest : ∀ c ∈ rest.head?, c.isDigit = false) :
    matchDigits (Nat.toDigits 10 n ++ rest) = some (Nat.toDigits 10 n, rest) := by
  obtain ⟨htake, hdrop⟩ := takeWhile_append (fun _ hc => isDigit_of_mem hc) hrest
  rw [matchDigits, htake, hdrop, if_neg Nat.toDigits_ne_nil]

theorem isIdentifierChar_of_isDigit (h : c.isDigit = true) : isIdentifierChar c = true := by
  simp [isIdentifierChar, Char.isAlphanum, h]

theorem Identifier.text_chars (identifier : Identifier) : identifier.text ≠ [] ∧ ∀ c ∈ identifier.text, isIdentifierChar c = true := by
  cases identifier with
  | numeric value => exact ⟨Nat.toDigits_ne_nil, fun c hc => isIdentifierChar_of_isDigit (isDigit_of_mem hc)⟩
  | alphanumeric word other => exact ⟨word.nonempty, word.chars⟩

structure Parts (identifiers : List Text) : Prop where
  nonempty : ∀ text ∈ identifiers, text ≠ []
  chars : ∀ text ∈ identifiers, ∀ c ∈ text, isIdentifierChar c = true

theorem parts_prerelease (version : Version) : Parts (version.prerelease.map Identifier.text) := by
  constructor <;> intro text htext <;> obtain ⟨identifier, -, rfl⟩ := List.mem_map.1 htext
  · exact (Identifier.text_chars identifier).1
  · exact (Identifier.text_chars identifier).2

theorem parts_build (version : Version) : Parts (version.build.map Word.text) := by
  constructor <;> intro text htext <;> obtain ⟨word, -, rfl⟩ := List.mem_map.1 htext
  · exact word.nonempty
  · exact word.chars

namespace Parts
variable {identifiers : List Text}

theorem intercalate_chars (h : Parts identifiers) : ∀ c ∈ ['.'].intercalate identifiers, isPartChar c = true := by
  intro c hc
  rw [isPartChar, Bool.or_eq_true]
  induction identifiers with
  | nil => cases hc
  | cons text rest ih =>
    have hrest : Parts rest := ⟨fun text htext => h.nonempty text (List.mem_cons_of_mem _ htext), fun text htext => h.chars text (List.mem_cons_of_mem _ htext)⟩
    cases rest with
    | nil =>
      rw [List.intercalate_singleton] at hc
      exact .inl (h.chars text List.mem_cons_self c hc)
    | cons next rest =>
      rw [List.intercalate_cons_cons, List.append_assoc, List.mem_append, List.mem_append, List.mem_singleton] at hc
      rcases hc with hc | rfl | hc
      · exact .inl (h.chars text List.mem_cons_self c hc)
      · exact .inr rfl
      · exact ih hrest hc

theorem intercalate_ne_nil (h : Parts identifiers) (hne : identifiers ≠ []) : ['.'].intercalate identifiers ≠ [] := by
  cases identifiers with
  | nil => exact absurd rfl hne
  | cons text rest =>
    have hfirst := h.nonempty text List.mem_cons_self
    cases rest with
    | nil => rwa [List.intercalate_singleton]
    | cons next rest =>
      rw [List.intercalate_cons_cons]
      simp

theorem splitOn_intercalate (h : Parts identifiers) (hne : identifiers ≠ []) : (['.'].intercalate identifiers).splitOn '.' = identifiers := by
  refine List.splitOn_intercalate '.' (fun text htext hdot => ?_) hne
  exact absurd (h.chars text htext '.' hdot) (by decide)

end Parts

theorem head?_partText {mark : Char} (h : c ∈ (partText mark identifiers).head?) : c = mark := by
  unfold partText at h
  split_ifs at h with hnil
  · cases h
  · exact (Option.some.inj h).symm

theorem matchesBuild_partText (h : Parts identifiers) : matchesBuild (partText '+' identifiers) = true := by
  unfold partText
  split_ifs with hnil
  · rfl
  · rw [matchesBuild, Bool.and_eq_true, List.all_eq_true]
    exact ⟨decide_eq_true (h.intercalate_ne_nil hnil), h.intercalate_chars⟩

theorem matchPrerelease_partText {build : List Text} (h : Parts identifiers) :
    matchPrerelease (partText '-' identifiers ++ partText '+' build) = (['.'].intercalate identifiers, partText '+' build) := by
  by_cases hnil : identifiers = []
  · subst hnil
    show matchPrerelease (partText '+' build) = _
    unfold partText
    split_ifs <;> rfl
  · have hpart : partText '-' identifiers = '-' :: ['.'].intercalate identifiers := if_neg hnil
    have hafter c (hc : c ∈ (partText '+' build).head?) : isPartChar c = false := by
      rw [head?_partText hc]
      rfl
    obtain ⟨htake, hdrop⟩ := takeWhile_append h.intercalate_chars hafter
    rw [hpart, List.cons_append, matchPrerelease, htake, hdrop, if_neg (h.intercalate_ne_nil hnil)]

theorem partText_chars {mark : Char} (h : Parts identifiers) :
    ∀ c ∈ partText mark identifiers, isPartChar c = true ∨ c = mark := by
  unfold partText
  split_ifs with hnil
  · exact fun _ hc => absurd hc List.not_mem_nil
  · intro c hc
    exact (List.mem_cons.1 hc).symm.imp_left (h.intercalate_chars c)

theorem text_chars (version : Version) : ∀ c ∈ version.text, isPartChar c = true ∨ c = '+' := by
  intro c hc
  have hdigits {n : Nat} (hc : c ∈ Nat.toDigits 10 n) : isPartChar c = true := by
    rw [isPartChar, isIdentifierChar_of_isDigit (isDigit_of_mem hc), Bool.true_or]
  simp only [Version.text, List.mem_append, List.mem_cons] at hc
  rcases hc with hc | rfl | hc | rfl | hc | hc | hc
  · exact .inl (hdigits hc)
  · exact .inl rfl
  · exact .inl (hdigits hc)
  · exact .inl rfl
  · exact .inl (hdigits hc)
  · rcases partText_chars (parts_prerelease version) c hc with hc | rfl
    · exact .inl hc
    · exact .inl rfl
  · exact partText_chars (parts_build version) c hc

theorem isWhiteSpace_eq_false (h : isPartChar c = true ∨ c = '+') : isWhiteSpace c = false := by
  have hrange : 43 ≤ c.toNat ∧ c.toNat ≤ 122 := by
    rcases h with h | rfl
    · have halpha : c.isAlpha = (c.isUpper || c.isLower) := rfl
      simp only [isPartChar, isIdentifierChar, Char.isAlphanum, halpha, Bool.or_eq_true, beq_iff_eq] at h
      rcases h with (((h | h) | h) | rfl) | rfl
      · replace h := of_decide_eq_true (p := c.val ≥ 'A'.val ∧ c.val ≤ 'Z'.val) h
        simp only [ge_iff_le, UInt32.le_iff_toNat_le] at h
        exact ⟨Nat.le_trans (by decide) h.1, Nat.le_trans h.2 (by decide)⟩
      · have hlower : c.isLower = (decide (c.val ≥ 'a'.val) && decide (c.val ≤ 'z'.val)) := rfl
        simp only [hlower, Bool.and_eq_true, decide_eq_true_eq, ge_iff_le, UInt32.le_iff_toNat_le] at h
        exact ⟨Nat.le_trans (by decide) h.1, Nat.le_trans h.2 (by decide)⟩
      · rw [Char.isDigit_iff_toNat] at h
        exact ⟨Nat.le_trans (by decide) h.1, Nat.le_trans h.2 (by decide)⟩
      · decide
      · decide
    · decide
  rw [isWhiteSpace, Bool.or_eq_false_iff]
  constructor
  · simp only [List.mem_cons, List.not_mem_nil, or_false, decide_eq_false_iff_not]
    omega
  · simp only [Bool.and_eq_false_iff, decide_eq_false_iff_not]
    omega

theorem trim_text (version : Version) : trim version.text = version.text := by
  have hvisible c (hc : c ∈ version.text) : isWhiteSpace c = false := isWhiteSpace_eq_false (text_chars version c hc)
  have hdrop {text : Text} (h : ∀ c ∈ text, isWhiteSpace c = false) : text.dropWhile isWhiteSpace = text := by
    cases text with
    | nil => rfl
    | cons c rest => simp [h c List.mem_cons_self]
  rw [trim, hdrop hvisible, List.rdropWhile, hdrop, List.reverse_reverse]
  exact fun c hc => hvisible c (List.mem_reverse.1 hc)

def parsed (version : Version) : ParsedSemver :=
  ⟨.ofNat version.major, .ofNat version.minor, .ofNat version.patch, version.prerelease.map Identifier.text⟩

theorem parseSemver_text (version : Version) : parseSemver version.text = some (parsed version) := by
  have hskip : skipV version.text = version.text := by
    obtain ⟨c, digits, hdigits⟩ := List.exists_cons_of_ne_nil (Nat.toDigits_ne_nil (n := version.major) (b := 10))
    have hdigit : c.isDigit = true := isDigit_of_mem (n := version.major) (hdigits ▸ List.mem_cons_self)
    have hcons : ∃ rest, version.text = c :: rest := by
      rw [Version.text, hdigits]
      exact ⟨_, rfl⟩
    obtain ⟨rest, hrest⟩ := hcons
    rw [hrest]
    unfold skipV
    split
    case h_1 hv =>
      cases hv
      cases hdigit
    case h_2 => rfl
  have hparts : ∀ c ∈ (partText '-' (version.prerelease.map Identifier.text) ++ partText '+' (version.build.map Word.text)).head?, c.isDigit = false := by
    intro c hc
    rw [List.head?_append, Option.mem_def, Option.or_eq_some_iff] at hc
    rcases hc with hc | ⟨-, hc⟩ <;> rw [head?_partText hc] <;> rfl
  have hdot {rest : Text} : ∀ c ∈ ('.' :: rest).head?, c.isDigit = false := fun c hc => by rw [← Option.some.inj hc]; rfl
  rw [parseSemver, trim_text, hskip, Version.text, matchDigits_append _ hdot]
  simp only [Option.bind_eq_bind, Option.bind_some, matchDot, matchDigits_append _ hdot, matchDigits_append _ hparts,
    matchPrerelease_partText (parts_prerelease version), matchesBuild_partText (parts_build version), if_pos, parseInt_toDigits, parsed]
  congr 2
  by_cases hnil : version.prerelease.map Identifier.text = []
  · rw [hnil]
    rfl
  · rw [if_neg ((parts_prerelease version).intercalate_ne_nil hnil), (parts_prerelease version).splitOn_intercalate hnil]

end Parse

/-! ## Comparing versions -/

section Compare

theorem reports_numericPart {m n : Nat} (hm : m < 2 ^ 53) (hn : n < 2 ^ 53) : Reports (compareNumericPart (.ofNat m) (.ofNat n)) m n := by
  rw [compareNumericPart, JsNumber.ofNat_of_lt hm, JsNumber.ofNat_of_lt hn]
  simp only [JsNumber.lt_finite, decide_eq_true_eq, Nat.cast_lt]
  exact Reports.of_compare m n

def Held (identifier : Identifier) : Prop := ∀ value, identifier = .numeric value → value < 2 ^ 53

theorem isNumeric_toDigits (n : Nat) : isNumeric (Nat.toDigits 10 n) = true := by
  rw [isNumeric, Bool.and_eq_true, List.all_eq_true]
  exact ⟨decide_eq_true Nat.toDigits_ne_nil, fun c hc => isDigit_of_mem hc⟩

theorem isNumeric_eq_false {text : Text} (other : ∃ c ∈ text, c.isDigit = false) : isNumeric text = false := by
  obtain ⟨c, hc, hdigit⟩ := other
  rw [isNumeric, Bool.and_eq_false_iff]
  exact .inr (List.all_eq_false.2 ⟨c, hc, by simp [hdigit]⟩)

theorem reports_identifier {left right : Identifier} (hleft : Held left) (hright : Held right) :
    Reports (comparePrereleaseIdentifier (some left.text) (some right.text)) left.key right.key := by
  cases left with
  | numeric m =>
    cases right with
    | numeric n =>
      simp only [comparePrereleaseIdentifier, Identifier.text, isNumeric_toDigits, parseInt_toDigits]
      exact (reports_numericPart (hleft m rfl) (hright n rfl)).map (f := Sum.inlₗ) Sum.Lex.inl_strictMono
    | alphanumeric word other =>
      simp only [comparePrereleaseIdentifier, Identifier.text, isNumeric_toDigits, isNumeric_eq_false other]
      exact .inr (.inr ⟨rfl, Sum.Lex.inl_lt_inr _ _⟩)
  | alphanumeric word other =>
    cases right with
    | numeric n =>
      simp only [comparePrereleaseIdentifier, Identifier.text, isNumeric_toDigits, isNumeric_eq_false other]
      exact .inl ⟨rfl, Sum.Lex.inl_lt_inr _ _⟩
    | alphanumeric word' other' =>
      simp only [comparePrereleaseIdentifier, Identifier.text, isNumeric_eq_false other, isNumeric_eq_false other']
      exact (Reports.of_compare word.text word'.text).map (f := Sum.inrₗ) Sum.Lex.inr_strictMono

theorem comparePrereleases_cons (left right : Text) (lefts rights : List Text) : comparePrereleases (left :: lefts) (right :: rights) =
    if comparePrereleaseIdentifier (some left) (some right) ≠ 0 then comparePrereleaseIdentifier (some left) (some right)
    else comparePrereleases lefts rights := by
  have hrange : List.range (max (left :: lefts).length (right :: rights).length) = 0 :: (List.range (max lefts.length rights.length)).map Nat.succ := by
    rw [List.length_cons, List.length_cons, Nat.add_max_add_right, List.range_succ_eq_map]
  rw [comparePrereleases, hrange, List.map_cons, List.map_map, List.find?_cons]
  by_cases hzero : comparePrereleaseIdentifier (some left) (some right) = 0
  · simp [hzero, comparePrereleases, Function.comp_def]
  · simp [hzero]

theorem comparePrereleases_nil (text : Text) (rest : List Text) :
    comparePrereleases [] (text :: rest) = -1 ∧ comparePrereleases (text :: rest) [] = 1 := by
  have hrange : List.range (rest.length + 1) = 0 :: (List.range rest.length).map Nat.succ := List.range_succ_eq_map
  constructor
  · rw [comparePrereleases, List.length_nil, List.length_cons, Nat.zero_max, hrange]
    rfl
  · rw [comparePrereleases, List.length_nil, List.length_cons, Nat.max_zero, hrange]
    rfl

theorem reports_prereleases {left right : List Identifier} (hleft : ∀ identifier ∈ left, Held identifier) (hright : ∀ identifier ∈ right, Held identifier) :
    Reports (comparePrereleases (left.map Identifier.text) (right.map Identifier.text)) (left.map Identifier.key) (right.map Identifier.key) := by
  induction left generalizing right with
  | nil =>
    cases right with
    | nil => exact .inr (.inl ⟨rfl, rfl⟩)
    | cons identifier right => exact .inr (.inr ⟨(comparePrereleases_nil _ _).1, List.nil_lt_cons _ _⟩)
  | cons identifier left ih =>
    cases right with
    | nil => exact .inl ⟨(comparePrereleases_nil _ _).2, List.nil_lt_cons _ _⟩
    | cons identifier' right =>
      obtain ⟨hfirst, hrest⟩ := List.forall_mem_cons.1 hleft
      obtain ⟨hfirst', hrest'⟩ := List.forall_mem_cons.1 hright
      rw [List.map_cons, List.map_cons, List.map_cons, List.map_cons, comparePrereleases_cons]
      exact (reports_identifier hfirst hfirst').cons (ih hrest hrest')

variable {v w : Version}

/-- The numbers of a version are all numbers of the language. -/
def Small (version : Version) : Prop := ∀ value ∈ version.numbers, value < 2 ^ 53

theorem Small.held (h : Small v) : ∀ identifier ∈ v.prerelease, Held identifier := by
  rintro identifier hmem value rfl
  refine h value (List.mem_cons_of_mem _ (List.mem_cons_of_mem _ (List.mem_cons_of_mem _ ?_)))
  exact List.mem_filterMap.2 ⟨_, hmem, rfl⟩

theorem reports_prerelease (hv : Small v) (hw : Small w) :
    Reports (if (parsed v).prerelease = [] ∧ (parsed w).prerelease = [] then 0 else if (parsed v).prerelease = [] then 1
      else if (parsed w).prerelease = [] then -1 else comparePrereleases (parsed v).prerelease (parsed w).prerelease)
      (prereleaseKey v.prerelease) (prereleaseKey w.prerelease) := by
  have hlists := (reports_prereleases hv.held hw.held).map WithTop.coe_strictMono
  unfold prereleaseKey
  simp only [parsed, List.map_eq_nil_iff]
  by_cases hnil : v.prerelease = [] <;> by_cases hnil' : w.prerelease = []
  · simp only [hnil, hnil', and_self, if_true]
    exact .inr (.inl ⟨rfl, rfl⟩)
  · simp only [hnil, hnil', and_false, if_false, if_true]
    exact .inl ⟨rfl, WithTop.coe_lt_top _⟩
  · simp only [hnil, hnil', false_and, if_false, if_true]
    exact .inr (.inr ⟨rfl, WithTop.coe_lt_top _⟩)
  · simpa only [hnil, hnil', false_and, if_false] using hlists

theorem reports_semver (hv : Small v) (hw : Small w) : Reports (compareSemver (parsed v) (parsed w)) v.key w.key := by
  have hpart {m n : Nat} (hm : m ∈ v.numbers) (hn : n ∈ w.numbers) := reports_numericPart (hv m hm) (hw n hn)
  refine (hpart (by simp [Version.numbers]) (by simp [Version.numbers])).lex fun _ => ?_
  refine (hpart (by simp [Version.numbers]) (by simp [Version.numbers])).lex fun _ => ?_
  exact (hpart (by simp [Version.numbers]) (by simp [Version.numbers])).lex fun _ => reports_prerelease hv hw

theorem isNewerVersion_iff (hv : Small v) (hw : Small w) : isNewerVersion v.text w.text = true ↔ Precedes w v := by
  rw [isNewerVersion, parseSemver_text, parseSemver_text]
  show decide _ = true ↔ _
  rw [decide_eq_true_eq]
  exact (reports_semver hv hw).pos_iff

end Compare

/-- A version is newer if and only if it has the higher precedence, so that versions with equal precedence are
interchangeable. -/
theorem isNewerVersion_strictWeakOrder :
    (∀ v w : {version : Version // Small version}, isNewerVersion v.1.text w.1.text = true ↔ Precedes w.1 v.1) ∧
      IsStrictWeakOrder {version : Version // Small version} fun v w => isNewerVersion v.1.text w.1.text = true := by
  have hiff (v w : {version : Version // Small version}) : isNewerVersion v.1.text w.1.text = true ↔ Precedes w.1 v.1 := isNewerVersion_iff v.2 w.2
  refine ⟨hiff, ?_⟩
  have hkey : (fun v w : {version : Version // Small version} => isNewerVersion v.1.text w.1.text = true) = Order.Preimage (fun v => v.1.key) (· > ·) := by
    funext v w
    exact propext (hiff v w)
  have horder {α : Type} [LinearOrder α] : IsStrictWeakOrder α (· > ·) := isStrictWeakOrder_of_isOrderConnected
  rw [hkey]
  exact Order.Preimage.instIsStrictWeakOrder

example : isNewerVersion "1.0.0-alpha.10".toList "v1.0.0-alpha.9+build".toList = true := by decide +kernel

/-- From 2^53 on two integers are one number. -/
example : isNewerVersion "1.0.0-9007199254740993".toList "1.0.0-9007199254740992".toList = false := by decide +kernel

end Fluo.Cli.UpdateCheck
