import Fluo.Jwt.Verifier
import Fluo.Lib.OrderedMap
import Fluo.Lib.Urlencoded
/-!
# JSON texts

`JSON.stringify` and `JSON.parse`. How a number is printed and read is a parameter. Strings
are of scalar values: an escape of half a surrogate pair is read as a replacement character.
A value of which the numbers are read back is read back itself.
-/

namespace Fluo.Jwt.JsonText

open Lib (Text OrderedMap hexValue)
open Verifier (Json)

variable {N : Type}

/-! ## Values -/

/-- What `JSON.stringify` is given. A function and a symbol are like `undefined`, and a value that has a `toJSON` is what that returns. -/
inductive Value (N : Type)
  | undefined
  | null
  | bool (b : Bool)
  | num (n : N)
  | str (s : String)
  | arr (items : List (Value N))
  | obj (fields : List (String × Value N))

-- What JSON can say of a value: nothing of `undefined`, which is left out of an object and is `null` in an array.
mutual
def Value.toJson (number : N → Json N) : Value N → Option (Json N)
  | .undefined => none
  | .null => some .null
  | .bool b => some (.bool b)
  | .num n => some (number n)
  | .str s => some (.str s)
  | .arr items => some (.arr (toItems number items))
  | .obj fields => some (.obj (toFields number fields))
def toItems (number : N → Json N) : List (Value N) → List (Json N)
  | [] => []
  | item :: rest => (item.toJson number).getD .null :: toItems number rest
def toFields (number : N → Json N) : List (String × Value N) → List (String × Json N)
  | [] => []
  | (name, value) :: rest =>
    match value.toJson number with
    | none => toFields number rest
    | some json => (name, json) :: toFields number rest
end

/-- No object has a name twice. -/
inductive Value.Proper : Value N → Prop
  | undefined : Value.Proper .undefined
  | null : Value.Proper .null
  | bool (b : Bool) : Value.Proper (.bool b)
  | num (n : N) : Value.Proper (.num n)
  | str (s : String) : Value.Proper (.str s)
  | arr {items : List (Value N)} : (∀ item ∈ items, Value.Proper item) → Value.Proper (.arr items)
  | obj {fields : List (String × Value N)} : OrderedMap.Keyed fields → (∀ field ∈ fields, Value.Proper field.2) → Value.Proper (.obj fields)

/-! ## Writing -/

/-- How numbers are printed, and what a number literal stands for. -/
structure Numerals (N : Type) where
  print : N → Text
  read : Text → Option N

def isNumberChar (c : Char) : Bool := c.isDigit || c = '-' || c = '+' || c = '.' || c = 'e' || c = 'E'

/-- The number is read back. -/
structure Numerals.Exact (nm : Numerals N) (n : N) : Prop where
  ne_nil : nm.print n ≠ []
  chars : ∀ c ∈ nm.print n, isNumberChar c = true
  read : nm.read (nm.print n) = some n

def shortEscapes : List (Char × Char) :=
  [('"', '"'), ('\\', '\\'), ('\x08', 'b'), ('\x0c', 'f'), ('\n', 'n'), ('\r', 'r'), ('\t', 't')]

def hexDigit (n : Nat) : Char := if n < 10 then Char.ofNat (0x30 + n) else Char.ofNat (0x57 + n)

def escapeChar (c : Char) : Text :=
  match shortEscapes.lookup c with
  | some letter => ['\\', letter]
  | none => if c.toNat < 0x20 then ['\\', 'u', '0', '0', hexDigit (c.toNat / 0x10), hexDigit (c.toNat % 0x10)] else [c]

def quote (s : String) : Text := '"' :: s.toList.flatMap escapeChar ++ ['"']

mutual
def stringify (nm : Numerals N) : Json N → Text
  | .null => "null".toList
  | .bool b => (if b then "true" else "false").toList
  | .num n => nm.print n
  | .str s => quote s
  | .arr items => '[' :: [','].intercalate (stringifyItems nm items) ++ [']']
  | .obj fields => '{' :: [','].intercalate (stringifyFields nm fields) ++ ['}']
def stringifyItems (nm : Numerals N) : List (Json N) → List Text
  | [] => []
  | item :: rest => stringify nm item :: stringifyItems nm rest
def stringifyFields (nm : Numerals N) : List (String × Json N) → List Text
  | [] => []
  | (name, value) :: rest => (quote name ++ ':' :: stringify nm value) :: stringifyFields nm rest
end

/-! ## Reading -/

def isSpace (c : Char) : Bool := c = ' ' || c = '\t' || c = '\n' || c = '\r'

def skipSpace (text : Text) : Text := text.dropWhile isSpace

/-- What is left after the punctuation mark. -/
def expect (mark : Char) (text : Text) : Option Text :=
  match skipSpace text with
  | [] => none
  | c :: rest => if c = mark then some rest else none

def hex4 : Text → Option (Nat × Text)
  | a :: b :: c :: d :: rest => do
    let a ← hexValue a.toNat
    let b ← hexValue b.toNat
    let c ← hexValue c.toNat
    let d ← hexValue d.toNat
    return (a * 0x1000 + b * 0x100 + c * 0x10 + d, rest)
  | _ => none

/-- The second half of a surrogate pair. -/
def lowSurrogate : Text → Option (Nat × Text)
  | '\\' :: 'u' :: rest => (hex4 rest).filter fun (unit, _) => 0xDC00 ≤ unit && unit < 0xE000
  | _ => none

def readUnicode (text : Text) : Option (Char × Text) := do
  let (unit, rest) ← hex4 text
  if unit < 0xD800 || 0xE000 ≤ unit then return (Char.ofNat unit, rest)
  else match if unit < 0xDC00 then lowSurrogate rest else none with
    | some (low, rest) => return (Char.ofNat (0x10000 + (unit - 0xD800) * 0x400 + (low - 0xDC00)), rest)
    | none => return (Lib.Utf8.replacement, rest)

/-- What stands after a backslash. -/
def readEscape : Text → Option (Char × Text)
  | [] => none
  | letter :: rest =>
    if letter = 'u' then readUnicode rest
    else if letter = '/' then some ('/', rest)
    else ((shortEscapes.map Prod.swap).lookup letter).map fun c => (c, rest)

/-- A string after its opening quotation mark. -/
def parseString : Nat → Text → Option (Text × Text)
  | _, [] => none
  | 0, _ => none
  | fuel + 1, c :: rest =>
    if c = '"' then some ([], rest)
    else if c = '\\' then do
      let (c, rest) ← readEscape rest
      let (s, rest) ← parseString fuel rest
      return (c :: s, rest)
    else if c.toNat < 0x20 then none
    else do
      let (s, rest) ← parseString fuel rest
      return (c :: s, rest)

/-- The name of a field, with the colon. -/
def parseName (fuel : Nat) (text : Text) : Option (String × Text) := do
  let rest ← expect '"' text
  let (name, rest) ← parseString fuel rest
  let rest ← expect ':' rest
  return (String.ofList name, rest)

def literal (word : String) (value : Json N) (text : Text) : Option (Json N × Text) :=
  (word.toList.isPrefixOf? text).map fun rest => (value, rest)

def parseNumber (nm : Numerals N) (text : Text) : Option (Json N × Text) :=
  (nm.read (text.takeWhile isNumberChar)).map fun n => (.num n, text.dropWhile isNumberChar)

def parseScalar (nm : Numerals N) (text : Text) : Option (Json N × Text) :=
  literal "null" .null text <|> literal "true" (.bool true) text <|> literal "false" (.bool false) text <|> parseNumber nm text

mutual
def parseValue (nm : Numerals N) : Nat → Text → Option (Json N × Text)
  | 0, _ => none
  | fuel + 1, text =>
    match skipSpace text with
    | [] => none
    | c :: rest =>
      if c = '"' then (parseString fuel rest).map fun (s, rest) => (.str (String.ofList s), rest)
      else if c = '[' then
        match expect ']' rest with
        | some rest => some (.arr [], rest)
        | none => (parseItems nm fuel rest).map fun (items, rest) => (.arr items, rest)
      else if c = '{' then
        match expect '}' rest with
        | some rest => some (.obj [], rest)
        | none => (parseFields nm fuel [] rest).map fun (fields, rest) => (.obj fields, rest)
      else parseScalar nm (c :: rest)
def parseItems (nm : Numerals N) : Nat → Text → Option (List (Json N) × Text)
  | 0, _ => none
  | fuel + 1, text => do
    let (item, rest) ← parseValue nm fuel text
    match expect ',' rest with
    | some rest => do
      let (items, rest) ← parseItems nm fuel rest
      return (item :: items, rest)
    | none => do
      let rest ← expect ']' rest
      return ([item], rest)
def parseFields (nm : Numerals N) : Nat → OrderedMap String (Json N) → Text → Option (OrderedMap String (Json N) × Text)
  | 0, _, _ => none
  | fuel + 1, fields, text => do
    let (name, rest) ← parseName fuel text
    let (value, rest) ← parseValue nm fuel rest
    match expect ',' rest with
    | some rest => parseFields nm fuel (fields.set name value) rest
    | none => do
      let rest ← expect '}' rest
      return (fields.set name value, rest)
end

/-- `JSON.parse`; none is the `SyntaxError`. -/
def parse (nm : Numerals N) (text : Text) : Option (Json N) := do
  let (value, rest) ← parseValue nm (text.length + 1) text
  if skipSpace rest = [] then return value else none

/-! ## Punctuation -/

variable {nm : Numerals N}

attribute [local simp] stringify stringifyItems stringifyFields parseString parseValue in
theorem skipSpace_cons {c : Char} (h : isSpace c = false) (rest : Text) : skipSpace (c :: rest) = c :: rest := by simp [skipSpace, h]

theorem expect_self {c : Char} (h : isSpace c = false) (rest : Text) : expect c (c :: rest) = some rest := by
  simp [expect, skipSpace_cons h]

theorem expect_ne {c mark : Char} (h : isSpace c = false) (hne : c ≠ mark) (rest : Text) : expect mark (c :: rest) = none := by
  simp [expect, skipSpace_cons h, hne]

/-! ## Strings -/

theorem readEscape_short {c letter : Char} (h : shortEscapes.lookup c = some letter) (rest : Text) :
    readEscape (letter :: rest) = some (c, rest) := by
  obtain ⟨before, after, hsplit, -⟩ := List.lookup_eq_some_iff.1 h
  have hmem : (c, letter) ∈ shortEscapes := by simp [hsplit]
  have hall : ∀ pair ∈ shortEscapes, pair.2 ≠ 'u' ∧ pair.2 ≠ '/' ∧ (shortEscapes.map Prod.swap).lookup pair.2 = some pair.1 := by decide
  obtain ⟨hu, hslash, hlookup⟩ := hall _ hmem
  rw [readEscape, if_neg hu, if_neg hslash, hlookup]
  rfl

theorem hexValue_hexDigit {n : Nat} (h : n < 0x10) : hexValue (hexDigit n).toNat = some n := by
  have hall : ∀ m < 0x10, hexValue (hexDigit m).toNat = some m := by decide
  exact hall n h

theorem readEscape_control {c : Char} (h : c.toNat < 0x20) (rest : Text) :
    readEscape ('u' :: '0' :: '0' :: hexDigit (c.toNat / 0x10) :: hexDigit (c.toNat % 0x10) :: rest) = some (c, rest) := by
  have hzero : hexValue 48 = some 0 := rfl
  have hhigh := hexValue_hexDigit (n := c.toNat / 0x10) (by omega)
  have hlow := hexValue_hexDigit (n := c.toNat % 0x10) (by omega)
  have hunit : c.toNat / 0x10 * 0x10 + c.toNat % 0x10 = c.toNat := by omega
  have hhex : hex4 ('0' :: '0' :: hexDigit (c.toNat / 0x10) :: hexDigit (c.toNat % 0x10) :: rest) = some (c.toNat, rest) := by
    simp only [hex4, Char.reduceToNat, hzero, hhigh, hlow, Option.bind_eq_bind, Option.bind_some, Option.pure_def]
    simp only [Nat.zero_mul, Nat.zero_add, hunit]
  rw [readEscape, if_pos rfl, readUnicode, hhex]
  simp [show c.toNat < 0xD800 by omega, Char.ofNat_toNat]

theorem parseString_escapeChar (fuel : Nat) (c : Char) (rest : Text) :
    parseString (fuel + 1) (escapeChar c ++ rest) = (parseString fuel rest).map fun read => (c :: read.1, read.2) := by
  rw [escapeChar]
  split
  next letter h =>
    rw [List.cons_append, List.cons_append, List.nil_append, parseString, if_neg (by decide), if_pos rfl, readEscape_short h]
    simp only [Option.bind_eq_bind, Option.bind_some]
    cases parseString fuel rest <;> rfl
  next h =>
    have hshort : c ≠ '"' ∧ c ≠ '\\' := by
      constructor
      · rintro rfl
        cases h
      · rintro rfl
        cases h
    split
    next hcontrol =>
      simp only [List.cons_append, List.nil_append]
      rw [parseString, if_neg (by decide), if_pos rfl, readEscape_control hcontrol]
      simp only [Option.bind_eq_bind, Option.bind_some]
      cases parseString fuel rest <;> rfl
    next hcontrol =>
      rw [List.cons_append, List.nil_append, parseString, if_neg hshort.1, if_neg hshort.2, if_neg hcontrol]
      cases parseString fuel rest <;> rfl

theorem parseString_flatMap {s : Text} {fuel : Nat} (h : s.length < fuel) (rest : Text) :
    parseString fuel (s.flatMap escapeChar ++ '"' :: rest) = some (s, rest) := by
  induction s generalizing fuel with
  | nil =>
    obtain ⟨less, rfl⟩ := Nat.exists_eq_add_of_lt h
    simp [parseString]
  | cons c s ih =>
    obtain ⟨less, rfl⟩ : ∃ less, fuel = less + 1 := ⟨fuel - 1, by omega⟩
    rw [List.flatMap_cons, List.append_assoc, parseString_escapeChar, ih (by simpa using h)]
    rfl

theorem length_le_flatMap (s : Text) : s.length ≤ (s.flatMap escapeChar).length := by
  induction s with
  | nil => simp
  | cons c s ih =>
    have hne : 1 ≤ (escapeChar c).length := by
      rw [escapeChar]
      split
      · simp
      · split <;> simp
    rw [List.flatMap_cons, List.length_append, List.length_cons]
    omega

theorem quote_append (s : String) (rest : Text) : quote s ++ rest = '"' :: (s.toList.flatMap escapeChar ++ '"' :: rest) := by simp [quote]

theorem length_quote (s : String) : s.toList.length + 2 ≤ (quote s).length := by
  have hle := length_le_flatMap s.toList
  rw [quote, List.length_append, List.length_cons, List.length_singleton]
  omega

/-! ## Scalars -/

/-- The numbers are read back, and no object has a name twice. -/
inductive Proper (nm : Numerals N) : Json N → Prop
  | null : Proper nm .null
  | bool (b : Bool) : Proper nm (.bool b)
  | num {n : N} : nm.Exact n → Proper nm (.num n)
  | str (s : String) : Proper nm (.str s)
  | arr {items : List (Json N)} : (∀ item ∈ items, Proper nm item) → Proper nm (.arr items)
  | obj {fields : List (String × Json N)} : OrderedMap.Keyed fields → (∀ field ∈ fields, Proper nm field.2) → Proper nm (.obj fields)

def Ends (rest : Text) : Prop := ∀ c ∈ rest.head?, isNumberChar c = false

theorem ends_cons {c : Char} (h : isNumberChar c = false) (rest : Text) : Ends (c :: rest) := by simpa [Ends] using h

def Reads (nm : Numerals N) (value : Json N) : Prop :=
  ∀ fuel rest, (stringify nm value).length ≤ fuel → Ends rest → parseValue nm fuel (stringify nm value ++ rest) = some (value, rest)

theorem dropWhile_append {p : Char → Bool} {s rest : Text} (hs : ∀ c ∈ s, p c = true) (hrest : ∀ c ∈ rest.head?, p c = false) :
    (s ++ rest).takeWhile p = s ∧ (s ++ rest).dropWhile p = rest := by
  induction s with
  | nil => cases rest <;> simp_all
  | cons c s ih =>
    rw [List.forall_mem_cons] at hs
    simp [hs.1, ih hs.2]

theorem parseNumber_print {n : N} (h : nm.Exact n) {rest : Text} (hends : Ends rest) :
    parseNumber nm (nm.print n ++ rest) = some (.num n, rest) := by
  obtain ⟨htake, hdrop⟩ := dropWhile_append h.chars hends
  rw [parseNumber, htake, hdrop, h.read]
  rfl

theorem isNumberChar_spec {c : Char} (h : isNumberChar c = true) :
    isSpace c = false ∧ c ≠ '"' ∧ c ≠ '[' ∧ c ≠ '{' ∧ c ≠ ']' ∧ c ≠ 'n' ∧ c ≠ 't' ∧ c ≠ 'f' := by
  have hspace : isSpace c = false := by
    cases hc : isSpace c
    · rfl
    · simp only [isSpace, Bool.or_eq_true, decide_eq_true_eq] at hc
      rcases hc with ((rfl | rfl) | rfl) | rfl <;> cases h
  refine ⟨hspace, ?_, ?_, ?_, ?_, ?_, ?_, ?_⟩ <;> rintro rfl <;> cases h

theorem reads_num {n : N} (h : nm.Exact n) : Reads nm (.num n) := by
  intro fuel rest hfuel hends
  obtain ⟨c, digits, hprint⟩ := List.exists_cons_of_ne_nil h.ne_nil
  obtain ⟨hspace, hquote, harr, hobj, -, hn, ht, hf⟩ := isNumberChar_spec (h.chars c (by simp [hprint]))
  rw [stringify, hprint, List.length_cons] at hfuel
  obtain ⟨less, rfl⟩ : ∃ less, fuel = less + 1 := ⟨fuel - 1, by omega⟩
  have hnumber := parseNumber_print h hends
  rw [stringify, parseValue, hprint, List.cons_append, skipSpace_cons hspace]
  rw [hprint, List.cons_append] at hnumber
  simp [hquote, harr, hobj, parseScalar, literal, List.isPrefixOf?, Ne.symm hn, Ne.symm ht, Ne.symm hf, hnumber]

theorem reads_str (s : String) : Reads nm (.str s) := by
  intro fuel rest hfuel _
  have hlength := length_quote s
  rw [stringify] at hfuel
  obtain ⟨less, rfl⟩ : ∃ less, fuel = less + 1 := ⟨fuel - 1, by omega⟩
  rw [stringify, parseValue, quote_append, skipSpace_cons rfl]
  simp [parseString_flatMap (show s.toList.length < less by omega)]

/-! ## Arrays and objects -/

theorem stringifyItems_eq (items : List (Json N)) : stringifyItems nm items = items.map (stringify nm) := by
  induction items with
  | nil => rw [stringifyItems, List.map_nil]
  | cons item rest ih => rw [stringifyItems, List.map_cons, ih]

def stringifyField (nm : Numerals N) (field : String × Json N) : Text := quote field.1 ++ ':' :: stringify nm field.2

theorem stringifyFields_eq (fields : List (String × Json N)) : stringifyFields nm fields = fields.map (stringifyField nm) := by
  induction fields with
  | nil => rw [stringifyFields, List.map_nil]
  | cons field rest ih => rw [stringifyFields, List.map_cons, ih, stringifyField]

theorem stringify_head {value : Json N} (h : Proper nm value) :
    ∃ c rest, stringify nm value = c :: rest ∧ isSpace c = false ∧ c ≠ ']' := by
  cases h with
  | null => exact ⟨'n', ['u', 'l', 'l'], by rw [stringify]; rfl, rfl, by decide⟩
  | bool b => cases b <;> exact ⟨_, _, by rw [stringify]; rfl, rfl, by decide⟩
  | @num n hn =>
    obtain ⟨c, digits, hprint⟩ := List.exists_cons_of_ne_nil hn.ne_nil
    obtain ⟨hspace, -, -, -, hne, -⟩ := isNumberChar_spec (hn.chars c (by simp [hprint]))
    exact ⟨c, digits, by rw [stringify, hprint], hspace, hne⟩
  | str s => exact ⟨'"', _, by rw [stringify, quote]; rfl, rfl, by decide⟩
  | arr => exact ⟨'[', _, by rw [stringify]; rfl, rfl, by decide⟩
  | obj => exact ⟨'{', _, by rw [stringify]; rfl, rfl, by decide⟩

theorem parseValue_bracket {rest : Text} (h : expect ']' rest = none) (fuel : Nat) :
    parseValue nm (fuel + 1) ('[' :: rest) = (parseItems nm fuel rest).map fun read => (.arr read.1, read.2) := by
  simp [parseValue, skipSpace_cons, isSpace, h]

theorem parseValue_brace {rest : Text} (h : expect '}' rest = none) (fuel : Nat) :
    parseValue nm (fuel + 1) ('{' :: rest) = (parseFields nm fuel [] rest).map fun read => (.obj read.1, read.2) := by
  simp [parseValue, skipSpace_cons, isSpace, h]

theorem parseItems_stringify {items : List (Json N)} (h : ∀ item ∈ items, Reads nm item) (hne : items ≠ []) {fuel : Nat}
    (hfuel : ([','].intercalate (items.map (stringify nm))).length < fuel) (rest : Text) :
    parseItems nm fuel ([','].intercalate (items.map (stringify nm)) ++ ']' :: rest) = some (items, rest) := by
  induction items generalizing fuel with
  | nil => exact absurd rfl hne
  | cons item more ih =>
    obtain ⟨less, rfl⟩ : ∃ less, fuel = less + 1 := ⟨fuel - 1, by omega⟩
    rw [List.forall_mem_cons] at h
    by_cases hmore : more = []
    · subst hmore
      rw [List.map_singleton, List.intercalate_singleton] at hfuel ⊢
      have hitem := h.1 less (']' :: rest) (by omega) (ends_cons rfl rest)
      simp [parseItems, hitem, expect_ne, expect_self, isSpace]
    · rw [List.map_cons, List.intercalate_cons_of_ne_nil (by simpa using hmore)] at hfuel ⊢
      simp only [List.length_append, List.length_singleton] at hfuel
      have hitem := h.1 less (',' :: ([','].intercalate (more.map (stringify nm)) ++ ']' :: rest)) (by omega) (ends_cons rfl _)
      have hrest := ih h.2 hmore (show _ < less by omega)
      simp [parseItems, hitem, expect_self, isSpace, hrest]

theorem reads_arr {items : List (Json N)} (hproper : ∀ item ∈ items, Proper nm item) (h : ∀ item ∈ items, Reads nm item) :
    Reads nm (.arr items) := by
  intro fuel rest hfuel _
  rw [stringify, stringifyItems_eq] at hfuel ⊢
  simp only [List.cons_append, List.append_assoc, List.nil_append, List.length_cons, List.length_append, List.length_nil] at hfuel ⊢
  obtain ⟨less, rfl⟩ : ∃ less, fuel = less + 1 := ⟨fuel - 1, by omega⟩
  by_cases hne : items = []
  · subst hne
    simp [parseValue, skipSpace_cons, expect_self, isSpace]
  · -- the first item is not the end of the array
    have hitems := parseItems_stringify h hne (show _ < less by omega) rest
    obtain ⟨item, more, rfl⟩ := List.exists_cons_of_ne_nil hne
    obtain ⟨c, text, hhead, hspace, hend⟩ := stringify_head (hproper item List.mem_cons_self)
    have hopen : expect ']' ([','].intercalate ((item :: more).map (stringify nm)) ++ ']' :: rest) = none := by
      cases more <;> simp [hhead, expect_ne hspace hend]
    rw [parseValue_bracket hopen, hitems]
    rfl

theorem parseName_quote (name : String) {fuel : Nat} (h : name.toList.length < fuel) (rest : Text) :
    parseName fuel (quote name ++ ':' :: rest) = some (name, rest) := by
  rw [quote_append, parseName, expect_self rfl]
  simp [parseString_flatMap h, expect_self, isSpace]

theorem notMem_of_keyed {done more : OrderedMap String (Json N)} {name : String} {value : Json N}
    (h : OrderedMap.Keyed (done ++ (name, value) :: more)) : name ∉ done.map Prod.fst := by
  rw [OrderedMap.Keyed, List.map_append, List.map_cons, List.nodup_append] at h
  exact fun hmem => h.2.2 _ hmem _ List.mem_cons_self rfl

theorem parseFields_stringify {fields done : OrderedMap String (Json N)} (h : ∀ field ∈ fields, Reads nm field.2) (hne : fields ≠ [])
    (hkeyed : OrderedMap.Keyed (done ++ fields)) {fuel : Nat}
    (hfuel : ([','].intercalate (fields.map (stringifyField nm))).length < fuel) (rest : Text) :
    parseFields nm fuel done ([','].intercalate (fields.map (stringifyField nm)) ++ '}' :: rest) = some (done ++ fields, rest) := by
  induction fields generalizing fuel done with
  | nil => exact absurd rfl hne
  | cons field more ih =>
    obtain ⟨less, rfl⟩ : ∃ less, fuel = less + 1 := ⟨fuel - 1, by omega⟩
    obtain ⟨name, value⟩ := field
    rw [List.forall_mem_cons] at h
    have hset : done.set name value = done ++ [(name, value)] := OrderedMap.set_of_notMem (notMem_of_keyed hkeyed) value
    have hlength := length_quote name
    by_cases hmore : more = []
    · subst hmore
      rw [List.map_singleton, List.intercalate_singleton, stringifyField] at hfuel ⊢
      simp only [List.length_append, List.length_cons] at hfuel
      have hvalue := h.1 less ('}' :: rest) (by dsimp only; omega) (ends_cons rfl rest)
      simp [parseFields, parseName_quote name (show _ < less by omega), hvalue, expect_ne, expect_self, isSpace, hset]
    · rw [List.map_cons, List.intercalate_cons_of_ne_nil (by simpa using hmore), stringifyField] at hfuel ⊢
      simp only [List.length_append, List.length_cons] at hfuel
      have hvalue := h.1 less (',' :: ([','].intercalate (more.map (stringifyField nm)) ++ '}' :: rest)) (by dsimp only; omega) (ends_cons rfl _)
      have hkeyed' : OrderedMap.Keyed ((done ++ [(name, value)]) ++ more) := by simpa using hkeyed
      have hrest := ih h.2 hmore hkeyed' (show _ < less by omega)
      simp [parseFields, parseName_quote name (show _ < less by omega), hvalue, expect_self, isSpace, hset, hrest]

theorem reads_obj {fields : List (String × Json N)} (hkeyed : OrderedMap.Keyed fields) (h : ∀ field ∈ fields, Reads nm field.2) :
    Reads nm (.obj fields) := by
  intro fuel rest hfuel _
  rw [stringify, stringifyFields_eq] at hfuel ⊢
  simp only [List.cons_append, List.append_assoc, List.nil_append, List.length_cons, List.length_append, List.length_nil] at hfuel ⊢
  obtain ⟨less, rfl⟩ : ∃ less, fuel = less + 1 := ⟨fuel - 1, by omega⟩
  by_cases hne : fields = []
  · subst hne
    simp [parseValue, skipSpace_cons, expect_self, isSpace]
  · -- the first name is not the end of the object
    have hstart : OrderedMap.Keyed ([] ++ fields) := hkeyed
    have hfields := parseFields_stringify h hne hstart (show _ < less by omega) rest
    obtain ⟨field, more, rfl⟩ := List.exists_cons_of_ne_nil hne
    have hopen : expect '}' ([','].intercalate ((field :: more).map (stringifyField nm)) ++ '}' :: rest) = none := by
      cases more <;> simp [stringifyField, quote, expect_ne, isSpace]
    rw [parseValue_brace hopen, hfields]
    rfl

theorem reads_of_proper {value : Json N} (h : Proper nm value) : Reads nm value := by
  induction h with
  | null =>
    intro fuel rest hfuel _
    obtain ⟨less, rfl⟩ : ∃ less, fuel = less + 1 := ⟨fuel - 1, by simp [stringify] at hfuel; omega⟩
    simp [stringify, parseValue, skipSpace_cons, isSpace, parseScalar, literal, List.isPrefixOf?]
  | bool b =>
    intro fuel rest hfuel _
    obtain ⟨less, rfl⟩ : ∃ less, fuel = less + 1 := ⟨fuel - 1, by cases b <;> simp [stringify] at hfuel <;> omega⟩
    cases b <;> simp [stringify, parseValue, skipSpace_cons, isSpace, parseScalar, literal, List.isPrefixOf?]
  | num hexact => exact reads_num hexact
  | str s => exact reads_str s
  | arr hproper ih => exact reads_arr hproper ih
  | obj hkeyed _ ih => exact reads_obj hkeyed ih

theorem parse_stringify {value : Json N} (h : Proper nm value) : parse nm (stringify nm value) = some value := by
  have hread := reads_of_proper h _ [] (Nat.le_succ _) (by simp [Ends])
  rw [List.append_nil] at hread
  rw [parse, hread]
  rfl

/-! ## What is written -/

theorem toItems_eq (number : N → Json N) (items : List (Value N)) :
    toItems number items = items.map fun item => (item.toJson number).getD .null := by
  induction items with
  | nil => rw [toItems, List.map_nil]
  | cons item rest ih => rw [toItems, List.map_cons, ih]

theorem toFields_eq (number : N → Json N) (fields : List (String × Value N)) :
    toFields number fields = fields.filterMap fun field => (field.2.toJson number).map fun json => (field.1, json) := by
  induction fields with
  | nil => rw [toFields, List.filterMap_nil]
  | cons field rest ih =>
    rw [toFields, List.filterMap_cons, ih]
    cases field.2.toJson number <;> rfl

theorem keys_toFields (number : N → Json N) (fields : List (String × Value N)) :
    ((toFields number fields).map Prod.fst).Sublist (fields.map Prod.fst) := by
  induction fields with
  | nil => simp [toFields]
  | cons field rest ih =>
    rw [toFields]
    split
    · exact ih.cons _
    · exact ih.cons_cons _

theorem proper_toJson {number : N → Json N} (hnumber : ∀ n, Proper nm (number n)) {value : Value N} (h : value.Proper) :
    ∀ json, value.toJson number = some json → Proper nm json := by
  induction h with
  | undefined =>
    intro json hjson
    simp [Value.toJson] at hjson
  | null =>
    intro json hjson
    simp only [Value.toJson, Option.some.injEq] at hjson
    exact hjson ▸ .null
  | bool b =>
    intro json hjson
    simp only [Value.toJson, Option.some.injEq] at hjson
    exact hjson ▸ .bool b
  | num n =>
    intro json hjson
    simp only [Value.toJson, Option.some.injEq] at hjson
    exact hjson ▸ hnumber n
  | str s =>
    intro json hjson
    simp only [Value.toJson, Option.some.injEq] at hjson
    exact hjson ▸ .str s
  | @arr items _ ih =>
    intro json hjson
    simp only [Value.toJson, Option.some.injEq, toItems_eq] at hjson
    subst hjson
    refine .arr fun item hitem => ?_
    obtain ⟨value, hvalue, rfl⟩ := List.mem_map.1 hitem
    cases hjson : value.toJson number with
    | none => exact .null
    | some json => exact ih value hvalue json hjson
  | @obj fields hkeyed _ ih =>
    intro json hjson
    simp only [Value.toJson, Option.some.injEq] at hjson
    subst hjson
    refine .obj (hkeyed.sublist (keys_toFields number fields)) fun field hfield => ?_
    rw [toFields_eq] at hfield
    obtain ⟨entry, hentry, hmap⟩ := List.mem_filterMap.1 hfield
    obtain ⟨json, hjson, rfl⟩ := Option.map_eq_some_iff.1 hmap
    exact ih entry hentry json hjson

end Fluo.Jwt.JsonText
