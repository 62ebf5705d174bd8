import Fluo.Lib.EventStream
import Fluo.Lib.Fallible
import Fluo.Lib.JsNumber
import Fluo.Lib.Joined
/-!
# Server-sent events

`encodeSseMessage` and `encodeSseComment` write frames of lines that end in LF. A parser of the
format reads from them the messages, each with its data, event and id, and nothing else.
-/

namespace Fluo.Http

open Lib Lib.EventStream

/-- What may be sent: `undefined`, a string, or a value that is serialised. -/
inductive SseData (J : Type)
  | undefined
  | string (value : Text)
  | value (value : J)

inductive SseId
  | string (value : Text)
  | number (value : JsNumber)

structure SseSendOptions where
  event : Option Text
  id : Option SseId
  retry : Option JsNumber

inductive SseError (ε : Type)
  | typeError (message : String)
  | thrown (error : ε)

/-- What the language does: the text of a number that is no small natural number, `typeof`, and `JSON.stringify`, which throws or
gives no text for some values. -/
structure Host (J ε : Type) where
  otherNumberText : JsNumber → Text
  typeOf : J → String
  stringify : J → Except ε (Option Text)

variable {J ε : Type} (host : Host J ε)

/-- `String(value)`. The digits of a natural number below 10^21 are written without an exponent. -/
def Host.numberText : JsNumber → Text
  | .finite value => if value.den = 1 ∧ 0 ≤ value ∧ value < 10 ^ 21 then Nat.toDigits 10 value.num.toNat else host.otherNumberText (.finite value)
  | number => host.otherNumberText number

def sanitizeSseField (value : Text) : Text := (value.filter (· ≠ '\r')).filter (· ≠ '\n')

/-- `replace(/\r\n/g, '\n')` -/
def replaceCrLf : Text → Text
  | '\r' :: '\n' :: rest => '\n' :: replaceCrLf rest
  | c :: rest => c :: replaceCrLf rest
  | [] => []

def splitSseLines (value : Text) : List Text := ((replaceCrLf value).map fun c => if c = '\r' then '\n' else c).splitOn '\n'

def toSseDataString : SseData J → Except (SseError ε) Text
  | .undefined => .ok []
  | .string value => .ok value
  | .value value => match host.stringify value with
    | .error error => .error (.thrown error)
    | .ok none => .error (.typeError s!"SseResponse data must be JSON-serializable. Received {host.typeOf value}.")
    | .ok (some serialized) => .ok serialized

def commentLine (line : Text) : Text := if line = [] then ":".toList else ": ".toList ++ line

def encodeSseComment (comment : Text) : Text := ['\n'].intercalate ((splitSseLines comment).map commentLine) ++ ['\n', '\n']

def SseId.text : SseId → Text
  | .string value => value
  | .number value => host.numberText value

/-- A retry that is written, without what is behind its point. -/
def emittedRetry : JsNumber → Option ℕ
  | .finite value => if 0 ≤ value then some ⌊value⌋.toNat else none
  | _ => none

/-- The line of a field that is there. -/
def fieldLine (name : Text) (value : Option Text) : List Text := (value.map fun value => name ++ ':' :: ' ' :: value).toList

def SseSendOptions.lines (options : SseSendOptions) : List Text :=
  fieldLine "event".toList (options.event.map sanitizeSseField) ++
    fieldLine "id".toList (options.id.map fun id => sanitizeSseField (id.text host)) ++
    fieldLine "retry".toList ((options.retry.bind emittedRetry).map fun (retry : ℕ) => host.numberText (.finite retry))

def encodeSseMessage (data : SseData J) (options : SseSendOptions) : Except (SseError ε) Text := do
  let text ← toSseDataString host data
  return ['\n'].intercalate (options.lines host ++ (splitSseLines text).map ("data: ".toList ++ ·)) ++ ['\n', '\n']

/-! ## What is received -/

/-- CR LF and CR as LF. -/
def normaliseBreaks : Text → Text
  | '\r' :: '\n' :: rest => '\n' :: normaliseBreaks rest
  | '\r' :: rest => '\n' :: normaliseBreaks rest
  | c :: rest => c :: normaliseBreaks rest
  | [] => []

def withoutBreaks (value : Text) : Text := value.filter fun c => c ≠ '\r' ∧ c ≠ '\n'

inductive SseFrame (J : Type)
  | message (data : SseData J) (options : SseSendOptions)
  | comment (text : Text)

def SseFrame.encode : SseFrame J → Except (SseError ε) Text
  | .message data options => encodeSseMessage host data options
  | .comment text => .ok (encodeSseComment text)

/-- The frame gives no retry of 2^53 or more. -/
def SseFrame.RetryBelow : SseFrame J → Prop
  | .message _ options => ∀ value, options.retry = some (.finite value) → value < 2 ^ 53
  | .comment _ => True

/-- What a receiver has: the events, and the id and the retry that were given last. -/
structure Received where
  events : List Event
  lastEventId : Text
  reconnectionTime : Option Nat

/-- An id with NUL is not taken. -/
def SseSendOptions.lastEventId (options : SseSendOptions) (last : Text) : Text :=
  match options.id with
  | none => last
  | some id => if '\x00' ∈ withoutBreaks (id.text host) then last else withoutBreaks (id.text host)

/-- A message is one event more. A comment is nothing. -/
def Received.receive (received : Received) : SseFrame J → Received
  | .comment _ => received
  | .message data options => match toSseDataString host data with
    | .error _ => received
    | .ok text =>
      { events := received.events ++ [⟨(options.event.map withoutBreaks).getD [], normaliseBreaks text,
          options.lastEventId host received.lastEventId⟩],
        lastEventId := options.lastEventId host received.lastEventId,
        reconnectionTime := (options.retry.bind emittedRetry).or received.reconnectionTime }

def Received.parser (received : Received) : Parser := ⟨[], [], received.lastEventId, received.reconnectionTime, received.events⟩

theorem sanitizeSseField_eq (value : Text) : sanitizeSseField value = withoutBreaks value := by
  rw [sanitizeSseField, withoutBreaks, List.filter_filter]
  refine List.filter_congr fun c _ => ?_
  rw [Bool.decide_and, Bool.and_comm]

theorem isLine_append {s t : Text} (hs : IsLine s) (ht : IsLine t) : IsLine (s ++ t) := by
  simp only [IsLine, List.mem_append, not_or] at hs ht ⊢
  exact ⟨⟨hs.1, ht.1⟩, hs.2, ht.2⟩

theorem isLine_withoutBreaks (value : Text) : IsLine (withoutBreaks value) := by
  simp [IsLine, withoutBreaks]

theorem map_replaceCrLf (value : Text) : ((replaceCrLf value).map fun c => if c = '\r' then '\n' else c) = normaliseBreaks value := by
  fun_induction normaliseBreaks value with
  | case1 rest ih => rw [replaceCrLf, List.map_cons, ih]; rfl
  | case2 rest hrest ih => rw [replaceCrLf, List.map_cons, ih]; rfl; exact fun rest' _ h => hrest rest' h
  | case3 c rest h1 h2 ih => rw [replaceCrLf, List.map_cons, ih, if_neg h2]; exact fun rest' hc h => h1 rest' hc h
  | case4 => rfl

theorem cr_notMem_normaliseBreaks (value : Text) : '\r' ∉ normaliseBreaks value := by
  rw [← map_replaceCrLf, List.mem_map]
  rintro ⟨c, -, hc⟩
  split at hc
  · cases hc
  · next hne => exact hne hc

theorem isLine_of_mem_splitSseLines {value line : Text} (h : line ∈ splitSseLines value) : IsLine line := by
  rw [splitSseLines, map_replaceCrLf] at h
  refine ⟨notMem_of_mem_splitOn _ _ line h, fun hmem => cr_notMem_normaliseBreaks value ?_⟩
  have hflat : '\r' ∈ ((normaliseBreaks value).splitOn '\n').flatMap (· ++ ['\n']) := List.mem_flatMap.2 ⟨line, h, List.mem_append_left _ hmem⟩
  rw [flatMap_concat_eq _ (List.splitOn_ne_nil _ _), List.intercalate_splitOn] at hflat
  simpa using hflat

/-! ## One frame -/

theorem numberText_natCast {n : ℕ} (h : n < 10 ^ 21) : host.numberText (.finite n) = Nat.toDigits 10 n := by
  have hlt : (n : ℚ) < 10 ^ 21 := by exact_mod_cast h
  rw [Host.numberText, if_pos ⟨Rat.den_natCast n, Nat.cast_nonneg n, hlt⟩, Rat.num_natCast, Int.toNat_natCast]

theorem emittedRetry_lt {number : JsNumber} {retry : ℕ} (h : emittedRetry number = some retry)
    (hbelow : ∀ value, number = .finite value → value < 2 ^ 53) : retry < 10 ^ 21 := by
  cases number with
  | nan => cases h
  | infinity => cases h
  | finite value =>
    rw [emittedRetry] at h
    split at h
    · cases h
      have hfloor : ⌊value⌋ < 2 ^ 53 := Int.floor_lt.2 (by exact_mod_cast hbelow value rfl)
      omega
    · cases h

variable {lines : List Text} {name : Text}

theorem written_eq (h : lines ≠ []) :
    ['\n'].intercalate lines ++ ['\n', '\n'] = (lines ++ [[]]).flatMap (· ++ ['\n']) := by
  rw [List.flatMap_append, flatMap_concat_eq _ h, List.append_assoc]
  rfl

theorem foldl_fieldLine (hname : name ≠ []) (hcolon : ':' ∉ name) (parser : Parser) (value : Option Text) :
    (fieldLine name value).foldl Parser.line parser = (value.map (parser.field name)).getD parser := by
  cases value with
  | none => rfl
  | some value => exact Parser.line_field name hname hcolon parser value

/-- A line of a frame, which is neither empty nor begins with a byte order mark. -/
def Written (line : Text) : Prop := IsLine line ∧ line ≠ [] ∧ line.head? ≠ some '\uFEFF'

theorem Written.append (h : Written name) {value : Text} (hvalue : IsLine value) : Written (name ++ value) := by
  obtain ⟨hline, hne, hhead⟩ := h
  refine ⟨isLine_append hline hvalue, by simp [hne], ?_⟩
  rwa [List.head?_append_of_ne_nil _ hne]

theorem written_fieldLine (h : Written (name ++ [':', ' '])) {value : Option Text} (hvalue : ∀ v ∈ value, IsLine v) :
    ∀ line ∈ fieldLine name value, Written line := by
  intro line hline
  obtain ⟨v, hv, rfl⟩ := Option.map_eq_some_iff.1 (Option.mem_toList.1 hline)
  have := h.append (hvalue v hv)
  rwa [List.append_assoc] at this

section Options

variable (options : SseSendOptions)

theorem foldl_lines (hbelow : ∀ value, options.retry = some (.finite value) → value < 2 ^ 53) (received : Received) :
    (options.lines host).foldl Parser.line received.parser =
      ⟨[], (options.event.map withoutBreaks).getD [], options.lastEventId host received.lastEventId,
        (options.retry.bind emittedRetry).or received.reconnectionTime, received.events⟩ := by
  rw [SseSendOptions.lines, List.foldl_append, List.foldl_append, foldl_fieldLine (by decide) (by decide),
    foldl_fieldLine (by decide) (by decide), foldl_fieldLine (by decide) (by decide)]
  have hevent : ((options.event.map sanitizeSseField).map (received.parser.field "event".toList)).getD received.parser =
      { received.parser with type := (options.event.map withoutBreaks).getD [] } := by
    cases options.event with
    | none => rfl
    | some event =>
      rw [Option.map_some, Option.map_some, sanitizeSseField_eq, Parser.field_event]
      rfl
  have hid : ∀ parser : Parser, ((options.id.map fun id => sanitizeSseField (id.text host)).map (parser.field "id".toList)).getD parser =
      { parser with lastEventId := options.lastEventId host parser.lastEventId } := by
    intro parser
    rw [SseSendOptions.lastEventId]
    cases options.id with
    | none => rfl
    | some id =>
      rw [Option.map_some, Option.map_some, sanitizeSseField_eq, Parser.field_id, Option.getD_some]
      dsimp only
      split <;> rfl
  have hretry : ∀ parser : Parser, (((options.retry.bind emittedRetry).map fun (retry : ℕ) => host.numberText (.finite retry)).map
      (parser.field "retry".toList)).getD parser = { parser with reconnectionTime := (options.retry.bind emittedRetry).or parser.reconnectionTime } := by
    intro parser
    cases hemitted : options.retry.bind emittedRetry with
    | none => rfl
    | some retry =>
      obtain ⟨number, hnumber, hretry⟩ := Option.bind_eq_some_iff.1 hemitted
      have hlt := emittedRetry_lt hretry fun value he => hbelow value (he ▸ hnumber)
      rw [Option.map_some, Option.map_some, numberText_natCast host hlt, Parser.field_retry]
      rfl
  rw [hevent, hid, hretry]
  rfl

theorem written_lines (hbelow : ∀ value, options.retry = some (.finite value) → value < 2 ^ 53) :
    ∀ line ∈ options.lines host, Written line := by
  intro line hline
  rcases List.mem_append.1 hline with hline | hline
  · rcases List.mem_append.1 hline with hline | hline
    · refine written_fieldLine (by unfold Written IsLine; decide) (fun v hv => ?_) line hline
      obtain ⟨event, -, rfl⟩ := Option.map_eq_some_iff.1 hv
      rw [sanitizeSseField_eq]
      exact isLine_withoutBreaks event
    · refine written_fieldLine (by unfold Written IsLine; decide) (fun v hv => ?_) line hline
      obtain ⟨id, -, rfl⟩ := Option.map_eq_some_iff.1 hv
      rw [sanitizeSseField_eq]
      exact isLine_withoutBreaks _
  · refine written_fieldLine (by unfold Written IsLine; decide) (fun v hv => ?_) line hline
    obtain ⟨retry, hemitted, rfl⟩ := Option.map_eq_some_iff.1 hv
    obtain ⟨number, hnumber, hretry⟩ := Option.bind_eq_some_iff.1 hemitted
    rw [numberText_natCast host (emittedRetry_lt hretry fun value he => hbelow value (he ▸ hnumber))]
    constructor
    all_goals
      intro hmem
      exact absurd (Nat.isDigit_of_mem_toDigits (by decide) (by decide) hmem) (by decide)

end Options

def messageLines (options : SseSendOptions) (text : Text) : List Text :=
  options.lines host ++ (splitSseLines text).map ("data: ".toList ++ ·)

theorem splitSseLines_ne_nil (value : Text) : splitSseLines value ≠ [] := List.splitOn_ne_nil _ _

theorem flatMap_splitSseLines (value : Text) : (splitSseLines value).flatMap (· ++ ['\n']) = normaliseBreaks value ++ ['\n'] := by
  rw [flatMap_concat_eq _ (splitSseLines_ne_nil value), splitSseLines, List.intercalate_splitOn, map_replaceCrLf]

def Reads (frame : SseFrame J) (lines : List Text) : Prop :=
  (∀ line ∈ lines, IsLine line) ∧ (∃ line ∈ lines.head?, Written line) ∧
    ∀ received : Received, lines.foldl Parser.line received.parser = (received.receive host frame).parser

theorem isLine_concat (h : ∀ line ∈ lines, Written line) : ∀ line ∈ lines ++ [[]], IsLine line := by
  intro line hline
  rcases List.mem_append.1 hline with hline | hline
  · exact (h line hline).1
  · rw [List.mem_singleton.1 hline]
    exact ⟨List.not_mem_nil, List.not_mem_nil⟩

theorem reads_message {data : SseData J} {options : SseSendOptions} {text : Text} (htext : toSseDataString host data = .ok text)
    (hbelow : ∀ value, options.retry = some (.finite value) → value < 2 ^ 53) :
    Reads host (.message data options) (messageLines host options text ++ [[]]) := by
  have hwritten : ∀ line ∈ messageLines host options text, Written line := by
    intro line hline
    rcases List.mem_append.1 hline with hline | hline
    · exact written_lines host options hbelow line hline
    · obtain ⟨piece, hpiece, rfl⟩ := List.mem_map.1 hline
      exact Written.append (by unfold Written IsLine; decide) (isLine_of_mem_splitSseLines hpiece)
  have hne : messageLines host options text ≠ [] := by simp [messageLines, splitSseLines_ne_nil]
  refine ⟨isLine_concat hwritten, ?_, fun received => ?_⟩
  · obtain ⟨first, rest, hlines⟩ := List.exists_cons_of_ne_nil hne
    rw [hlines] at hwritten ⊢
    exact ⟨first, rfl, hwritten first List.mem_cons_self⟩
  · rw [List.foldl_append, messageLines, List.foldl_append, foldl_lines host options hbelow, foldl_data, flatMap_splitSseLines]
    rw [Received.receive, htext]
    simp [Parser.line, Parser.dispatch, Received.parser]

theorem commentLine_eq (line : Text) : ∃ rest, commentLine line = ':' :: rest ∧ rest = if line = [] then [] else ' ' :: line := by
  unfold commentLine
  split
  · exact ⟨[], rfl, rfl⟩
  · exact ⟨' ' :: line, rfl, rfl⟩

theorem written_commentLine {line : Text} (h : IsLine line) : Written (commentLine line) := by
  unfold commentLine
  split
  · unfold Written IsLine
    decide
  · exact Written.append (by unfold Written IsLine; decide) h

theorem foldl_commentLine (lines : List Text) (parser : Parser) : (lines.map commentLine).foldl Parser.line parser = parser := by
  induction lines with
  | nil => rfl
  | cons line lines ih =>
    obtain ⟨rest, hline, -⟩ := commentLine_eq line
    rw [List.map_cons, List.foldl_cons, hline]
    exact ih

theorem reads_comment (comment : Text) : Reads host (.comment comment) ((splitSseLines comment).map commentLine ++ [[]]) := by
  have hwritten : ∀ line ∈ (splitSseLines comment).map commentLine, Written line := by
    intro line hline
    obtain ⟨piece, hpiece, rfl⟩ := List.mem_map.1 hline
    exact written_commentLine (isLine_of_mem_splitSseLines hpiece)
  refine ⟨isLine_concat hwritten, ?_, fun received => ?_⟩
  · obtain ⟨first, rest, hlines⟩ := List.exists_cons_of_ne_nil (splitSseLines_ne_nil comment)
    rw [hlines] at hwritten ⊢
    exact ⟨commentLine first, rfl, hwritten _ List.mem_cons_self⟩
  · rw [List.foldl_append, foldl_commentLine]
    rfl

theorem encode_eq {frame : SseFrame J} {text : Text} (h : frame.encode host = .ok text) (hbelow : frame.RetryBelow) :
    ∃ lines : List Text, text = lines.flatMap (· ++ ['\n']) ∧ Reads host frame lines := by
  cases frame with
  | comment comment =>
    cases h
    refine ⟨_, ?_, reads_comment host comment⟩
    exact written_eq (by simp [splitSseLines_ne_nil])
  | message data options =>
    rw [SseFrame.encode, encodeSseMessage] at h
    cases hdata : toSseDataString host data with
    | error e => rw [hdata] at h; cases h
    | ok serialized =>
      rw [hdata] at h
      cases h
      refine ⟨_, ?_, reads_message host hdata hbelow⟩
      exact written_eq (by simp [splitSseLines_ne_nil])

/-! ## The stream -/

theorem parse_flatMap (hlines : ∀ line ∈ lines, IsLine line) (hfirst : ∀ line ∈ lines.head?, Written line) :
    parse (lines.flatMap (· ++ ['\n'])) = lines.foldl Parser.line .init := by
  have hmark : ∀ rest, lines.flatMap (· ++ ['\n']) ≠ '\uFEFF' :: rest := by
    intro rest heq
    cases lines with
    | nil => cases heq
    | cons first rest' =>
      obtain ⟨-, hne, hhead⟩ := hfirst first rfl
      obtain ⟨c, cs, rfl⟩ := List.exists_cons_of_ne_nil hne
      exact hhead (congrArg List.head? heq)
  have hread := linesFrom_flatMap hlines []
  rw [List.append_nil, linesFrom, List.append_nil] at hread
  rw [parse, hread]
  exact hmark

theorem encode_all {frames : List (SseFrame J)} {texts : List Text} (h : frames.mapM (SseFrame.encode host) = .ok texts)
    (hbelow : ∀ frame ∈ frames, frame.RetryBelow) :
    ∃ lines : List Text, texts.flatten = lines.flatMap (· ++ ['\n']) ∧ (∀ line ∈ lines, IsLine line) ∧ (∀ line ∈ lines.head?, Written line) ∧
      ∀ received : Received, lines.foldl Parser.line received.parser = (frames.foldl (Received.receive host) received).parser := by
  induction frames generalizing texts with
  | nil =>
    cases h
    exact ⟨[], rfl, nofun, nofun, fun _ => rfl⟩
  | cons frame frames ih =>
    rw [List.mapM_cons, bind_eq_ok] at h
    obtain ⟨text, htext, h⟩ := h
    obtain ⟨texts', htexts, h⟩ := bind_eq_ok.1 h
    cases h
    obtain ⟨lines, rfl, hline, ⟨first, hfirst, hwritten⟩, hread⟩ := encode_eq host htext (hbelow frame List.mem_cons_self)
    obtain ⟨lines', hflat, hline', -, hread'⟩ := ih htexts fun frame hmem => hbelow frame (List.mem_cons_of_mem _ hmem)
    refine ⟨lines ++ lines', ?_, ?_, ?_, fun received => ?_⟩
    · rw [List.flatten_cons, hflat, List.flatMap_append]
    · intro line hmem
      exact (List.mem_append.1 hmem).elim (hline line) (hline' line)
    · intro line hmem
      cases lines with
      | nil => cases hfirst
      | cons head tail =>
        cases hfirst
        cases hmem
        exact hwritten
    · rw [List.foldl_append, hread, List.foldl_cons, hread']

/-- A host for strings alone. -/
private def strings : Host Empty Empty := ⟨fun _ => [], nofun, nofun⟩

private def broken : List (SseFrame Empty) :=
  [.message (.string "a\r\nid: b".toList) ⟨some "x\ndata: y".toList, some (.string "7".toList), some (.finite 5)⟩,
    .comment "still\rhere".toList, .message .undefined ⟨none, none, none⟩]

end Fluo.Http
