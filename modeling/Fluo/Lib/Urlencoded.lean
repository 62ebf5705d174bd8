import Fluo.Lib.Utf8
/-!
# Form-urlencoded texts

How `application/x-www-form-urlencoded` texts are parsed: split at `&` and the first
`=`, with `+` for a space and octets escaped. A text that `decodeURIComponent` decodes
is decoded in the same way.
-/

namespace Fluo.Lib

/-- The digit of an octet. -/
def hexValue (b : Nat) : Option Nat :=
  if 0x30 ≤ b ∧ b ≤ 0x39 then some (b - 0x30)
  else if 0x41 ≤ b ∧ b ≤ 0x46 then some (b - 0x37)
  else if 0x61 ≤ b ∧ b ≤ 0x66 then some (b - 0x57)
  else none

/-- The octet that three octets escape. -/
def escaped (a b c : Nat) : Option Nat := do
  if a = 0x25 then return (← hexValue b) * 0x10 + (← hexValue c) else none

def percentDecode : List Nat → List Nat
  | [] => []
  | [a] => [a]
  | [a, b] => [a, b]
  | a :: b :: c :: rest =>
    match escaped a b c with
    | some octet => octet :: percentDecode rest
    | none => a :: percentDecode (b :: c :: rest)

/-- Every percent sign is one of an escaped octet. -/
def isWellEscaped : List Nat → Bool
  | [] => true
  | [a] => a ≠ 0x25
  | [a, b] => a ≠ 0x25 && b ≠ 0x25
  | a :: b :: c :: rest =>
    if a = 0x25 then (escaped a b c).isSome && isWellEscaped rest else isWellEscaped (b :: c :: rest)

/-- The text of which the octets are the encoding. -/
def decodeUtf8 (octets : List Nat) : Option Text :=
  if Utf8.encode (Utf8.decode octets) = octets then some (Utf8.decode octets) else none

/-- None is the `URIError`. -/
def decodeURIComponent (text : Text) : Option Text :=
  if isWellEscaped (Utf8.encode text) then decodeUtf8 (percentDecode (Utf8.encode text)) else none

def plusToSpace (text : Text) : Text := text.map fun c => if c = '+' then ' ' else c

namespace Urlencoded

/-- A name or a value. -/
def component (text : Text) : Text := Utf8.decode (percentDecode (Utf8.encode (plusToSpace text)))

def rawName (entry : Text) : Text := entry.takeWhile (· ≠ '=')

def rawValue (entry : Text) : Text := (entry.dropWhile (· ≠ '=')).drop 1

def parse (text : Text) : List (Text × Text) := (fields '&' text).map fun entry => (component (rawName entry), component (rawValue entry))

/-- The entries of `new URLSearchParams(init)`. -/
def searchParams (init : Text) : List (Text × Text) := parse (if init.head? = some '?' then init.tail else init)

theorem component_of_decodeURIComponent {text decoded : Text} (h : decodeURIComponent (plusToSpace text) = some decoded) :
    component text = decoded := by
  unfold decodeURIComponent decodeUtf8 at h
  split at h
  · split at h
    · exact Option.some.inj h
    · cases h
  · cases h

theorem percentDecode_cons {b : Nat} (h : b ≠ 0x25) (rest : List Nat) : percentDecode (b :: rest) = b :: percentDecode rest := by
  have hescaped (c d : Nat) : escaped b c d = none := if_neg h
  match rest with
  | [] => rfl
  | [c] => rfl
  | c :: d :: rest => rw [percentDecode, hescaped]

theorem component_cons_question (text : Text) : component ('?' :: text) = '?' :: component text := by
  have hencode : Utf8.encode (plusToSpace ('?' :: text)) = 0x3F :: Utf8.encode (plusToSpace text) := rfl
  rw [component, hencode, percentDecode_cons (by decide)]
  rfl

theorem parse_entry {entry : Text} (h : '&' ∉ entry) (hne : entry ≠ []) :
    parse entry = [(component (rawName entry), component (rawValue entry))] := by
  rw [parse, fields_of_notMem h hne]
  rfl

end Urlencoded
end Fluo.Lib
