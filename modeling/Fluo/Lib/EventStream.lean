import Mathlib.Data.List.Basic
/-!
# Event streams

The parser of the `text/event-stream` format: lines that end in CR LF, LF or CR, of which one with
a colon is a field and its value, an empty one dispatches the event that the fields since the last
one describe, and one that begins with a colon is a comment.
-/

namespace Fluo.Lib.EventStream

abbrev Text := List Char

/-- The lines that have ended, behind a line that has begun. -/
def linesFrom : Text → Text → List Text
  | _, [] => []
  | line, '\r' :: '\n' :: rest => line :: linesFrom [] rest
  | line, '\r' :: rest => line :: linesFrom [] rest
  | line, '\n' :: rest => line :: linesFrom [] rest
  | line, c :: rest => linesFrom (line ++ [c]) rest

/-- An event that was dispatched. An empty type is that of a message. -/
structure Event where
  type : Text
  data : Text
  lastEventId : Text

structure Parser where
  data : Text
  type : Text
  lastEventId : Text
  reconnectionTime : Option Nat
  events : List Event

def Parser.init : Parser := ⟨[], [], [], none, []⟩

def isDigits (value : Text) : Bool := value ≠ [] && value.all Char.isDigit

def Parser.field (parser : Parser) (name value : Text) : Parser :=
  if name = "event".toList then { parser with type := value }
  else if name = "data".toList then { parser with data := parser.data ++ value ++ ['\n'] }
  else if name = "id".toList then
    if '\x00' ∈ value then parser else { parser with lastEventId := value }
  else if name = "retry".toList then
    if isDigits value then { parser with reconnectionTime := some (Nat.ofDigitChars 10 value 0) } else parser
  else parser

/-- The last end of line of the data is not part of it. An event with no data is not dispatched. -/
def Parser.dispatch (parser : Parser) : Parser :=
  if parser.data = [] then { parser with type := [] }
  else
    let data := if parser.data.getLast? = some '\n' then parser.data.dropLast else parser.data
    { parser with data := [], type := [], events := parser.events ++ [⟨parser.type, data, parser.lastEventId⟩] }

/-- One space behind the colon is not part of the value. -/
def valueOf : Text → Text
  | ' ' :: value => value
  | value => value

def Parser.line (parser : Parser) (line : Text) : Parser :=
  match line with
  | [] => parser.dispatch
  | ':' :: _ => parser
  | line =>
    let name := line.takeWhile (· ≠ ':')
    match line.dropWhile (· ≠ ':') with
    | _ :: value => parser.field name (valueOf value)
    | [] => parser.field name []

/-- A byte order mark at the start is not part of the stream. What is behind the last end of line is discarded. -/
def parse (text : Text) : Parser :=
  (linesFrom [] (match text with
    | '\uFEFF' :: rest => rest
    | text => text)).foldl Parser.line .init

/-! ## Reading what is written line by line -/

section Field

variable (parser : Parser) (value : Text)

theorem Parser.field_event : parser.field "event".toList value = { parser with type := value } := rfl

theorem Parser.field_id : parser.field "id".toList value = if '\x00' ∈ value then parser else { parser with lastEventId := value } := rfl

theorem Parser.field_retry (n : Nat) : parser.field "retry".toList (Nat.toDigits 10 n) = { parser with reconnectionTime := some n } := by
  have hdigits : isDigits (Nat.toDigits 10 n) = true := by
    rw [isDigits, Bool.and_eq_true, List.all_eq_true]
    exact ⟨decide_eq_true Nat.toDigits_ne_nil, fun c hc => Nat.isDigit_of_mem_toDigits (by decide) (by decide) hc⟩
  have hname : parser.field "retry".toList (Nat.toDigits 10 n) = if isDigits (Nat.toDigits 10 n) then
    { parser with reconnectionTime := some (Nat.ofDigitChars 10 (Nat.toDigits 10 n) 0) } else parser := rfl
  rw [hname, if_pos hdigits, Nat.ofDigitChars_toDigits (by decide) (by decide)]

end Field

def IsLine (line : Text) : Prop := '\n' ∉ line ∧ '\r' ∉ line

theorem linesFrom_append {line : Text} (h : IsLine line) (begun rest : Text) :
    linesFrom begun (line ++ '\n' :: rest) = (begun ++ line) :: linesFrom [] rest := by
  induction line generalizing begun with
  | nil => rw [List.nil_append, List.append_nil, linesFrom]
  | cons c line ih =>
    have hn : c ≠ '\n' := fun he => h.1 (he ▸ List.mem_cons_self)
    have hr : c ≠ '\r' := fun he => h.2 (he ▸ List.mem_cons_self)
    have hline : IsLine line := ⟨fun hmem => h.1 (List.mem_cons_of_mem _ hmem), fun hmem => h.2 (List.mem_cons_of_mem _ hmem)⟩
    rw [List.cons_append, linesFrom, ih hline, List.append_assoc, List.singleton_append]
    all_goals simp_all

theorem linesFrom_flatMap {lines : List Text} (h : ∀ line ∈ lines, IsLine line) (rest : Text) :
    linesFrom [] (lines.flatMap (· ++ ['\n']) ++ rest) = lines ++ linesFrom [] rest := by
  induction lines with
  | nil => rfl
  | cons line lines ih =>
    rw [List.flatMap_cons, List.append_assoc, List.append_assoc, List.singleton_append,
      linesFrom_append (h line List.mem_cons_self), ih fun line hmem => h line (List.mem_cons_of_mem _ hmem)]
    rfl

theorem Parser.line_field (name : Text) (hname : name ≠ []) (hcolon : ':' ∉ name) (parser : Parser) (value : Text) :
    parser.line (name ++ ':' :: ' ' :: value) = parser.field name value := by
  have hall : ∀ c ∈ name, decide (c ≠ ':') = true := fun c hc => decide_eq_true fun he => hcolon (he ▸ hc)
  have htake : (name ++ ':' :: ' ' :: value).takeWhile (· ≠ ':') = name := by
    rw [List.takeWhile_append_of_pos hall]
    simp
  have hdrop : (name ++ ':' :: ' ' :: value).dropWhile (· ≠ ':') = ':' :: ' ' :: value := by
    rw [List.dropWhile_append_of_pos hall]
    simp
  cases name with
  | nil => exact absurd rfl hname
  | cons c name =>
    have hc : c ≠ ':' := fun he => hcolon (he ▸ List.mem_cons_self)
    rw [List.cons_append] at htake hdrop ⊢
    rw [Parser.line]
    · rw [htake, hdrop]
      rfl
    · intro h
      cases h
    · intro rest h
      exact hc (List.cons.inj h).1

theorem foldl_data (lines : List Text) (parser : Parser) :
    (lines.map ("data: ".toList ++ ·)).foldl Parser.line parser =
      { parser with data := parser.data ++ lines.flatMap (· ++ ['\n']) } := by
  induction lines generalizing parser with
  | nil => simp
  | cons line lines ih =>
    have hline : parser.line ("data: ".toList ++ line) = { parser with data := parser.data ++ line ++ ['\n'] } :=
      Parser.line_field "data".toList (by decide) (by decide) parser line
    rw [List.map_cons, List.foldl_cons, hline, ih, List.flatMap_cons]
    simp only [List.append_assoc]

end Fluo.Lib.EventStream
