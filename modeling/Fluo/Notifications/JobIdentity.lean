import Fluo.Lib.Fnv
import Fluo.Lib.JsNumber
import Fluo.Lib.Uri
/-!
# Job ids of notifications

The id under which a notification is queued: the one the caller gave, or else one made of the channel and
of a 32-bit hash over a canonical text of the request.
-/

namespace Fluo.Notifications
open Fluo.Lib

/-! ## Values -/

/-- What an object holds beside its own enumerable entries. -/
inductive Internals
  | plain
  | date (time : Option Int)
  /-- A map, a set or an instance of another class, with its state. -/
  | other (state : Nat)

inductive Value
  | undefined
  | null
  | bool (value : Bool)
  | number (value : JsNumber)
  | bigint (value : Int)
  | string (text : Utf16)
  /-- A function or a symbol, of which `String` makes the text. -/
  | named (identity : Nat) (text : Utf16)
  | array (items : List Value)
  | object (internals : Internals) (entries : List (Utf16 × Value))
  /-- An object that cannot be walked to its end: a cycle, or a getter that throws. -/
  | unreadable (identity : Nat)

mutual

/-- Values are structurally equal up to the order of the entries of objects. -/
inductive Value.Same : Value → Value → Prop
  | refl (value : Value) : value.Same value
  | array {items items' : List Value} : SameItems items items' → (Value.array items).Same (.array items')
  | object {internals : Internals} {entries entries' reordered : List (Utf16 × Value)} : SameEntries entries entries' →
      entries'.Perm reordered → (Value.object internals entries).Same (.object internals reordered)

inductive SameItems : List Value → List Value → Prop
  | nil : SameItems [] []
  | cons {value value' : Value} {items items' : List Value} : value.Same value' → SameItems items items' → SameItems (value :: items) (value' :: items')

inductive SameEntries : List (Utf16 × Value) → List (Utf16 × Value) → Prop
  | nil : SameEntries [] []
  | cons {key : Utf16} {value value' : Value} {entries entries' : List (Utf16 × Value)} : value.Same value' → SameEntries entries entries' →
      SameEntries ((key, value) :: entries) ((key, value') :: entries')

end

structure NotificationDispatchRequest where
  channel : Utf16
  id : Option Utf16
  payload : Value
  /-- The other entries of the request. -/
  rest : List (Utf16 × Value)

namespace NotificationDispatchRequest

def toValue (notification : NotificationDispatchRequest) : Value :=
  .object .plain ((units "channel", .string notification.channel) ::
    ((notification.id.map fun id => (units "id", Value.string id)).toList ++ (units "payload", notification.payload) :: notification.rest))

structure Same (notification notification' : NotificationDispatchRequest) : Prop where
  channel : notification.channel = notification'.channel
  id : notification.id = notification'.id
  payload : notification.payload.Same notification'.payload
  rest : (Value.object .plain notification.rest).Same (.object .plain notification'.rest)

end NotificationDispatchRequest

/-! ## The canonical text -/

def lowerHexDigit (n : Nat) : UInt16 := (if n < 10 then 0x30 + n else 0x57 + n).toUInt16

def unicodeEscape (unit : UInt16) : Utf16 :=
  units "\\u" ++ [lowerHexDigit (unit.toNat / 0x1000), lowerHexDigit (unit.toNat / 0x100 % 0x10), lowerHexDigit (unit.toNat / 0x10 % 0x10), lowerHexDigit (unit.toNat % 0x10)]

def escapeUnit (unit : UInt16) : Utf16 :=
  if unit = 0x08 then units "\\b"
  else if unit = 0x09 then units "\\t"
  else if unit = 0x0a then units "\\n"
  else if unit = 0x0c then units "\\f"
  else if unit = 0x0d then units "\\r"
  else if unit = 0x22 then units "\\\""
  else if unit = 0x5c then units "\\\\"
  else if unit < 0x20 ∨ isHighSurrogate unit ∨ isLowSurrogate unit then unicodeEscape unit
  else [unit]

/-- A surrogate pair stands for itself. -/
def escapeUnits : Utf16 → Utf16
  | [] => []
  | [unit] => escapeUnit unit
  | unit :: next :: rest =>
    if isHighSurrogate unit && isLowSurrogate next then unit :: next :: escapeUnits rest else escapeUnit unit ++ escapeUnits (next :: rest)

/-- `JSON.stringify` of a string. -/
def quote (text : Utf16) : Utf16 := units "\"" ++ escapeUnits text ++ units "\""

/-- What the canonical text takes from the runtime: how a finite number is printed, and how two keys compare. -/
structure Printing where
  numberText : ℚ → Utf16
  localeCompare : Utf16 → Utf16 → Ordering

/-- `toSorted` with the keys compared by `localeCompare`. -/
def Printing.sorted (printing : Printing) (entries : List (Utf16 × Utf16)) : List (Utf16 × Utf16) :=
  entries.insertionSort fun left right => printing.localeCompare left.1 right.1 ≠ .gt

section stableStringify
variable (printing : Printing)

mutual

/-- Nothing where it throws. The entries are printed before they are sorted, which reads only their keys. -/
def stableStringify : Value → Option Utf16
  | .undefined => some (units "undefined")
  | .null => some (units "null")
  | .bool value => some (units (if value then "true" else "false"))
  | .number (.finite value) => some (printing.numberText value)
  | .number _ => some (units "null")
  | .bigint _ => none
  | .string text => some (quote text)
  | .named _ text => some text
  | .array items => (stringifyItems items).map fun texts => units "[" ++ (units ",").intercalate texts ++ units "]"
  | .object _ entries => (stringifyEntries entries).map fun texts =>
      units "\x7b" ++ (units ",").intercalate ((printing.sorted texts).map fun entry => quote entry.1 ++ units ":" ++ entry.2) ++ units "\x7d"
  | .unreadable _ => none

def stringifyItems : List Value → Option (List Utf16)
  | [] => some []
  | item :: items => do
    let text ← stableStringify item
    let texts ← stringifyItems items
    return text :: texts

def stringifyEntries : List (Utf16 × Value) → Option (List (Utf16 × Utf16))
  | [] => some []
  | (_, .undefined) :: entries => stringifyEntries entries
  | (key, value) :: entries => do
    let text ← stableStringify value
    let texts ← stringifyEntries entries
    return (key, text) :: texts

end

def base36 (hash : UInt32) : Utf16 :=
  let digits := (Nat.toDigits 36 hash.toNat).map fun digit => digit.toNat.toUInt16
  List.replicate (7 - digits.length) 0x30 ++ digits

def stableNotificationHash (notification : NotificationDispatchRequest) : Option Utf16 :=
  (stableStringify printing notification.toValue).map fun text => base36 (fnv1a text)

def createQueueJobId (notification : NotificationDispatchRequest) : Option Utf16 :=
  match notification.id with
  | some (unit :: id) => some (unit :: id)
  | _ => (stableNotificationHash printing notification).map fun hash => units "notification:" ++ notification.channel ++ units ":" ++ hash

end stableStringify

/-! ## Requests that have an id -/

mutual

/-- No bigint and no unreadable object is in the value. -/
def Value.Readable : Value → Prop
  | .bigint _ | .unreadable _ => False
  | .array items => ReadableItems items
  | .object _ entries => ReadableEntries entries
  | .undefined | .null | .bool _ | .number _ | .string _ | .named _ _ => True

def ReadableItems : List Value → Prop
  | [] => True
  | item :: items => item.Readable ∧ ReadableItems items

def ReadableEntries : List (Utf16 × Value) → Prop
  | [] => True
  | (_, value) :: entries => value.Readable ∧ ReadableEntries entries

end

theorem stringifyEntries_cons (printing : Printing) (key : Utf16) {value : Value} (entries : List (Utf16 × Value)) (h : value ≠ .undefined) :
    stringifyEntries printing ((key, value) :: entries) = do
      let text ← stableStringify printing value
      let texts ← stringifyEntries printing entries
      return (key, text) :: texts := by
  cases value with
  | undefined => exact absurd rfl h
  | _ => rw [stringifyEntries]; nofun

mutual

theorem isSome_stableStringify (printing : Printing) : ∀ value : Value, (stableStringify printing value).isSome = true ↔ value.Readable
  | .undefined | .null | .bool _ | .string _ | .named _ _ | .number (.finite _) | .number .nan | .number (.infinity _) => by
    simp [stableStringify, Value.Readable]
  | .bigint _ | .unreadable _ => by simp [stableStringify, Value.Readable]
  | .array items => by
    rw [stableStringify, Value.Readable, Option.isSome_map]
    exact isSome_stringifyItems printing items
  | .object _ entries => by
    rw [stableStringify, Value.Readable, Option.isSome_map]
    exact isSome_stringifyEntries printing entries

theorem isSome_stringifyItems (printing : Printing) : ∀ items : List Value, (stringifyItems printing items).isSome = true ↔ ReadableItems items
  | [] => by simp [stringifyItems, ReadableItems]
  | item :: items => by
    rw [stringifyItems, ReadableItems, ← isSome_stableStringify printing item, ← isSome_stringifyItems printing items]
    cases stableStringify printing item <;> cases stringifyItems printing items <;> simp

theorem isSome_stringifyEntries (printing : Printing) :
    ∀ entries : List (Utf16 × Value), (stringifyEntries printing entries).isSome = true ↔ ReadableEntries entries
  | [] => by simp [stringifyEntries, ReadableEntries]
  | (key, value) :: entries => by
    have hvalue := isSome_stableStringify printing value
    have hentries := isSome_stringifyEntries printing entries
    rw [ReadableEntries, ← hvalue, ← hentries]
    by_cases hundefined : value = .undefined
    · rw [hundefined, stringifyEntries, stableStringify]
      simp
    · rw [stringifyEntries_cons printing key entries hundefined]
      cases stableStringify printing value <;> cases stringifyEntries printing entries <;> simp

end

/-- The request brings its id, or one can be derived from it. -/
def NotificationDispatchRequest.Identifiable (notification : NotificationDispatchRequest) : Prop :=
  (∃ unit id, notification.id = some (unit :: id)) ∨ notification.toValue.Readable

theorem isSome_createQueueJobId (printing : Printing) (notification : NotificationDispatchRequest) :
    (createQueueJobId printing notification).isSome = true ↔ notification.Identifiable := by
  unfold createQueueJobId NotificationDispatchRequest.Identifiable
  split
  next unit id hid => exact iff_of_true rfl (.inl ⟨unit, id, hid⟩)
  next hid =>
    rw [Option.isSome_map, stableNotificationHash, Option.isSome_map, isSome_stableStringify]
    exact ⟨.inr, fun h => h.resolve_left fun ⟨unit, id, hgiven⟩ => hid unit id hgiven⟩

/-! ## Collisions -/

def textPayload (text : Utf16) : Value := .object .plain [(units "text", .string text)]

/-- The requests among which one is found for every hash. -/
def textNotification (channel text : Utf16) : NotificationDispatchRequest := ⟨channel, none, textPayload text, []⟩

theorem sameEntries_singleton {entries : List (Utf16 × Value)} {key text : Utf16} (h : SameEntries entries [(key, .string text)]) :
    entries = [(key, .string text)] := by
  cases h with
  | cons hvalue hrest =>
    cases hrest
    cases hvalue
    rfl

theorem same_textPayload {value : Value} {text : Utf16} (h : value.Same (textPayload text)) : value = textPayload text := by
  cases h with
  | refl => rfl
  | object hentries hperm =>
    rw [List.perm_singleton.1 hperm] at hentries
    rw [sameEntries_singleton hentries, textPayload]

theorem escapeUnit_printable {unit : UInt16} (h : Printable unit) : escapeUnit unit = [unit] := by
  obtain ⟨hlow, hhigh, hquote, hsolidus⟩ := h
  have hlt : unit.toNat < 0x7f := hhigh
  have hge : 0x20 ≤ unit.toNat := hlow
  have hne : ∀ control : UInt16, control.toNat < 0x20 → unit ≠ control := by
    rintro control hcontrol rfl
    omega
  have hsurrogate : isHighSurrogate unit = false ∧ isLowSurrogate unit = false := by
    simp only [isHighSurrogate, isLowSurrogate, Bool.and_eq_false_iff, decide_eq_false_iff_not]
    omega
  have hcontrol : ¬ unit < 0x20 := by
    rw [UInt16.lt_iff_toNat_lt]
    exact Nat.not_lt.2 hge
  rw [escapeUnit, if_neg (hne _ (by decide)), if_neg (hne _ (by decide)), if_neg (hne _ (by decide)), if_neg (hne _ (by decide)),
    if_neg (hne _ (by decide)), if_neg hquote, if_neg hsolidus, if_neg]
  simp [hcontrol, hsurrogate]

theorem escapeUnits_printable {text : Utf16} (h : ∀ unit ∈ text, Printable unit) : escapeUnits text = text := by
  fun_induction escapeUnits text with
  | case1 => rfl
  | case2 unit => exact escapeUnit_printable (h unit List.mem_cons_self)
  | case3 unit next rest hpair ih =>
    rw [ih fun unit hmem => h unit (List.mem_cons_of_mem _ (List.mem_cons_of_mem _ hmem))]
  | case4 unit next rest hpair ih =>
    rw [ih fun unit hmem => h unit (List.mem_cons_of_mem _ hmem), escapeUnit_printable (h unit List.mem_cons_self), List.singleton_append]

variable (printing : Printing)

theorem sorted_pair (left right : Utf16 × Utf16) : printing.sorted [left, right] =
    if printing.localeCompare left.1 right.1 ≠ .gt then [left, right] else [right, left] := by
  simp only [Printing.sorted, List.insertionSort_cons, List.insertionSort_nil, List.orderedInsert]

theorem stableStringify_textPayload {text : Utf16} (h : ∀ unit ∈ text, Printable unit) :
    stableStringify printing (textPayload text) = some (units "\x7b\"text\":\"" ++ text ++ units "\"\x7d") := by
  have hkey : quote (units "text") = units "\"text\"" := by decide
  simp only [textPayload, stableStringify, stringifyEntries, Option.pure_def, Option.bind_eq_bind, Option.bind_some, Option.map_some,
    Printing.sorted, List.insertionSort_cons, List.insertionSort_nil, List.orderedInsert, List.map_cons, List.map_nil, hkey]
  have hopening : units "\x7b\"text\":\"" = units "\x7b" ++ (units "\"text\"" ++ units ":" ++ units "\"") := by decide
  have hclosing : units "\"\x7d" = units "\"" ++ units "\x7d" := by decide
  rw [quote, escapeUnits_printable h, hopening, hclosing, List.intercalate, List.intersperse_singleton, List.flatten_singleton]
  simp only [List.append_assoc]

theorem stableStringify_textNotification (channel : Utf16) : ∃ before after : Utf16, ∀ text : Utf16, (∀ unit ∈ text, Printable unit) →
    stableStringify printing (textNotification channel text).toValue = some (before ++ text ++ after) := by
  have hentries : ∀ text : Utf16, (∀ unit ∈ text, Printable unit) → stableStringify printing (textNotification channel text).toValue =
      some (units "\x7b" ++ (units ",").intercalate ((printing.sorted [(units "channel", quote channel),
        (units "payload", units "\x7b\"text\":\"" ++ text ++ units "\"\x7d")]).map fun entry => quote entry.1 ++ units ":" ++ entry.2) ++ units "\x7d") := by
    intro text h
    have hpayload := stableStringify_textPayload printing h
    simp only [textPayload] at hpayload
    simp only [textNotification, textPayload, NotificationDispatchRequest.toValue, Option.map_none, Option.toList_none, List.nil_append]
    rw [stableStringify]
    simp only [stringifyEntries]
    rw [hpayload]
    simp [stableStringify]
  by_cases hfirst : printing.localeCompare (units "channel") (units "payload") ≠ .gt
  · refine ⟨units "\x7b" ++ quote (units "channel") ++ units ":" ++ quote channel ++ units "," ++ quote (units "payload") ++ units ":" ++
      units "\x7b\"text\":\"", units "\"\x7d" ++ units "\x7d", fun text h => ?_⟩
    rw [hentries text h, sorted_pair, if_pos hfirst]
    simp [List.intercalate]
  · refine ⟨units "\x7b" ++ quote (units "payload") ++ units ":" ++ units "\x7b\"text\":\"",
      units "\"\x7d" ++ units "," ++ quote (units "channel") ++ units ":" ++ quote channel ++ units "\x7d", fun text h => ?_⟩
    rw [hentries text h, sorted_pair, if_neg hfirst]
    simp [List.intercalate]

theorem exists_text (channel : Utf16) (first : UInt16) (hfirst : Printable first) (hash : UInt32) : ∃ text : Utf16,
    stableNotificationHash printing (textNotification channel (first :: text)) = some (base36 hash) := by
  obtain ⟨before, after, htext⟩ := stableStringify_textNotification printing channel
  obtain ⟨goal, hgoal⟩ := foldl_fnvMix_surjective after hash
  obtain ⟨text, hprintable, hsteered⟩ := steered (fnvMix (fnv1a before) first) goal
  refine ⟨text, ?_⟩
  rw [stableNotificationHash, htext (first :: text) (List.forall_mem_cons.2 ⟨hfirst, hprintable⟩), Option.map_some]
  rw [fnv1a, List.foldl_append, List.foldl_append, List.foldl_cons]
  rw [show List.foldl fnvMix 0x811c9dc5 before = fnv1a before from rfl, hsteered]
  exact congrArg (fun reached => some (base36 reached)) hgoal

theorem createQueueJobId_derived {notification : NotificationDispatchRequest} (hid : notification.id = none ∨ notification.id = some []) :
    createQueueJobId printing notification =
      (stableNotificationHash printing notification).map fun hash => units "notification:" ++ notification.channel ++ units ":" ++ hash := by
  unfold createQueueJobId
  rcases hid with hid | hid <;> rw [hid]

/-- Whole numbers, and keys of lower-case letters. -/
private def asciiPrinting : Printing where
  numberText value := units (toString value.num)
  localeCompare left right := compare (left.map UInt16.toNat) (right.map UInt16.toNat)

/-- A reminder that is due at a time. -/
private def reminder (time : Int) : NotificationDispatchRequest :=
  ⟨units "email", none, .object .plain [(units "due", .object (.date (some time)) [])], [(units "subject", .string (units "Reminder"))]⟩

end Fluo.Notifications
