import Mathlib.Data.List.DropRight
import Mathlib.Data.List.Forall2
import Fluo.Lib.Fallible
import Fluo.Lib.Lines
import Fluo.Lib.Utf8
/-!
# Frames of the TCP transport

`serializeFrame`, and the parser that `bindSocketParser` binds to a socket, for a stream of
frames that arrives in any chunks.
-/

namespace Fluo.Microservices.TcpTransport
open Fluo.Lib

/-- `WhiteSpace` and `LineTerminator`. -/
def isWhiteSpace (c : Char) : Bool :=
  c.toNat ∈ [0x9, 0xA, 0xB, 0xC, 0xD, 0x20, 0xA0, 0x1680, 0x2028, 0x2029, 0x202F, 0x205F, 0x3000, 0xFEFF] || (0x2000 ≤ c.toNat && c.toNat ≤ 0x200A)

def trim (text : Text) : Text := (text.dropWhile isWhiteSpace).rdropWhile isWhiteSpace

/-- The text has characters outside of ASCII replaced by several. -/
def Garbled (text garbled : Text) : Prop := ∃ parts, List.Forall₂ Utf8.Reads text parts ∧ (∃ part ∈ parts, 2 ≤ part.length) ∧ garbled = parts.flatten

/-- The values that JSON can represent, with `JSON.stringify` and `JSON.parse`: a value is one line of text, which it is read back from, and it is
not read from what is garbled of that, as its strings would be longer. -/
structure Json (V : Type) where
  stringify : V → Text
  parse : Text → Option V
  oneLine : ∀ value, '\n' ∉ stringify value
  visible : ∀ value, ∃ c ∈ stringify value, isWhiteSpace c = false
  parse_stringify : ∀ value, parse (trim (stringify value)) = some value
  parse_garbled : ∀ value text, Garbled (stringify value) text → parse (trim text) ≠ some value

variable {V : Type} (json : Json V) (maxFrameBytes : Nat)

def byteLength (text : Text) : Nat := (Utf8.encode text).length

def defaultMaxFrameBytes : Nat := 1048576

def frameError : String := "Microservice TCP frame exceeded " ++ toString maxFrameBytes ++ " bytes."

def serializeFrame (value : V) : Except String Text :=
  if byteLength (json.stringify value) > maxFrameBytes then .error (frameError maxFrameBytes) else .ok (json.stringify value)

/-- What `writeLine` writes of lines. -/
def stream (lines : List Text) : List Nat := Utf8.encode (joinLines '\n' lines)

structure Parser (V : Type) where
  buffer : Text := []
  bufferBytes : Nat := 0
  destroyed : Bool := false
  delivered : List V := []

/-- One round of the loop over the lines of the buffer. -/
def onLine (parser : Parser V) (rawLine : Text) : Parser V :=
  if parser.destroyed then parser
  else if byteLength rawLine > maxFrameBytes then { parser with destroyed := true }
  else if trim rawLine = [] then parser
  else
    match json.parse (trim rawLine) with
    | some value => { parser with delivered := parser.delivered ++ [value] }
    | none => { parser with destroyed := true }

/-- On `data`; a socket that is destroyed emits no more. -/
def onData (parser : Parser V) (chunk : List Nat) : Parser V :=
  if parser.destroyed then parser
  else
    let chunkString := Utf8.decode chunk
    let buffer := parser.buffer ++ chunkString
    let bufferBytes := parser.bufferBytes + byteLength chunkString
    if bufferBytes > maxFrameBytes then { parser with buffer, bufferBytes, destroyed := true }
    else
      let split := splitLines '\n' buffer
      split.1.foldl (onLine json maxFrameBytes)
        { parser with buffer := split.2, bufferBytes := if split.1 = [] then bufferBytes else byteLength split.2 }

def receive (chunks : List (List Nat)) : Parser V := chunks.foldl (onData json maxFrameBytes) {}

/-- The parser does not reject the chunks, and delivers the values. -/
def Delivers (chunks : List (List Nat)) (values : List V) : Prop :=
  (receive json maxFrameBytes chunks).destroyed = false ∧ (receive json maxFrameBytes chunks).delivered = values

/-- With each chunk, what has come of a frame that has not ended is within the limit. -/
def Fits (chunks : List (List Nat)) : Prop :=
  ∀ before chunk after, chunks = before ++ chunk :: after → (splitLines 0x0A before.flatten).2.length + chunk.length ≤ maxFrameBytes

/-! ## Lines -/

def readLine (line : Text) : Option (List V) := if trim line = [] then some [] else (json.parse (trim line)).map fun value => [value]

def readLines : List Text → Option (List V)
  | [] => some []
  | line :: rest => do return (← readLine json line) ++ (← readLines rest)

variable {json maxFrameBytes}

theorem readLines_append (xs ys : List Text) : readLines json (xs ++ ys) = do return (← readLines json xs) ++ (← readLines json ys) := by
  induction xs with
  | nil => cases h : readLines json ys <;> simp [readLines, h]
  | cons line rest ih =>
    rw [List.cons_append, readLines, readLines, ih]
    cases readLine json line <;> cases readLines json rest <;> cases readLines json ys <;> simp

theorem foldl_onLine_of_destroyed {parser : Parser V} (h : parser.destroyed = true) (lines : List Text) :
    lines.foldl (onLine json maxFrameBytes) parser = parser := by
  induction lines with
  | nil => rfl
  | cons line rest ih =>
    have hline : onLine json maxFrameBytes parser line = parser := if_pos h
    rw [List.foldl_cons, hline, ih]

theorem foldl_onLine {parser : Parser V} (h : parser.destroyed = false) {lines : List Text} (hsize : ∀ line ∈ lines, byteLength line ≤ maxFrameBytes) :
    (∀ values, readLines json lines = some values →
      lines.foldl (onLine json maxFrameBytes) parser = { parser with delivered := parser.delivered ++ values }) ∧
    (readLines json lines = none → (lines.foldl (onLine json maxFrameBytes) parser).destroyed = true) := by
  induction lines generalizing parser with
  | nil =>
    refine ⟨fun values hvalues => ?_, fun hnone => by cases hnone⟩
    cases hvalues
    rw [List.append_nil]
    rfl
  | cons line rest ih =>
    have hrest : ∀ line ∈ rest, byteLength line ≤ maxFrameBytes := fun line hmem => hsize line (List.mem_cons_of_mem _ hmem)
    rw [List.foldl_cons, onLine, if_neg (by simp [h]), if_neg (Nat.not_lt.2 (hsize line List.mem_cons_self)), readLines, readLine]
    split
    · obtain ⟨hsome, hnone⟩ := ih h hrest
      cases hread : readLines json rest with
      | none => exact ⟨fun values hvalues => (by cases hvalues), fun _ => hnone hread⟩
      | some values =>
        refine ⟨fun values' hvalues => ?_, fun hvalues => by cases hvalues⟩
        cases hvalues
        exact hsome values hread
    · cases hparse : json.parse (trim line) with
      | none =>
        refine ⟨fun values hvalues => (by cases hvalues), fun _ => ?_⟩
        rw [foldl_onLine_of_destroyed rfl]
      | some value =>
        have hparser : ({ parser with delivered := parser.delivered ++ [value] } : Parser V).destroyed = false := h
        obtain ⟨hsome, hnone⟩ := ih hparser hrest
        cases hread : readLines json rest with
        | none => exact ⟨fun values hvalues => (by cases hvalues), fun _ => hnone hread⟩
        | some values =>
          refine ⟨fun values' hvalues => ?_, fun hvalues => by cases hvalues⟩
          cases hvalues
          simp only [hsome values hread, List.append_assoc]

/-! ## What is received -/

theorem byteLength_append (s t : Text) : byteLength (s ++ t) = byteLength s + byteLength t := by
  rw [byteLength, Utf8.encode_append, List.length_append]
  rfl

theorem byteLength_le_of_mem {line : Text} {text : Text} (h : line ∈ (splitLines '\n' text).1) : byteLength line ≤ byteLength text := by
  obtain ⟨-, hjoin⟩ := cut_spec (List.not_mem_nil (a := '\n')) text
  have htext : joinLines '\n' (splitLines '\n' text).1 ++ (splitLines '\n' text).2 = text := hjoin
  obtain ⟨before, after, hsplit⟩ := List.append_of_mem h
  rw [← htext, hsplit, joinLines, List.flatMap_append, List.flatMap_cons]
  simp only [byteLength_append]
  omega

/-- With each chunk, what has been read of a line that has not ended is within the limit. -/
def FitsRead (maxFrameBytes : Nat) (chunks : List (List Nat)) : Prop := ∀ before chunk after, chunks = before ++ chunk :: after →
  byteLength (splitLines '\n' (before.flatMap Utf8.decode)).2 + byteLength (Utf8.decode chunk) ≤ maxFrameBytes

structure Parser.Reads (json : Json V) (parser : Parser V) (text : Text) : Prop where
  buffer : parser.buffer = (splitLines '\n' text).2
  bufferBytes : parser.bufferBytes = byteLength parser.buffer
  delivered : readLines json (splitLines '\n' text).1 = some parser.delivered

theorem receive_spec (chunks : List (List Nat)) :
    ((receive json maxFrameBytes chunks).destroyed = false ↔
      FitsRead maxFrameBytes chunks ∧ (readLines json (splitLines '\n' (chunks.flatMap Utf8.decode)).1).isSome = true) ∧
    ((receive json maxFrameBytes chunks).destroyed = false → (receive json maxFrameBytes chunks).Reads json (chunks.flatMap Utf8.decode)) := by
  induction chunks using List.reverseRecOn with
  | nil =>
    refine ⟨iff_of_true rfl ⟨fun before chunk after h => ?_, rfl⟩, fun _ => ⟨rfl, rfl, rfl⟩⟩
    simp at h
  | append_singleton chunks chunk ih =>
    obtain ⟨hiff, hreads⟩ := ih
    have hstep : receive json maxFrameBytes (chunks ++ [chunk]) = onData json maxFrameBytes (receive json maxFrameBytes chunks) chunk := by
      rw [receive, List.foldl_append]
      rfl
    have htext : (chunks ++ [chunk]).flatMap Utf8.decode = chunks.flatMap Utf8.decode ++ Utf8.decode chunk := by simp
    have hfits : FitsRead maxFrameBytes (chunks ++ [chunk]) ↔ FitsRead maxFrameBytes chunks ∧
        byteLength (splitLines '\n' (chunks.flatMap Utf8.decode)).2 + byteLength (Utf8.decode chunk) ≤ maxFrameBytes :=
      forall_split_concat (P := fun before chunk => byteLength (splitLines '\n' (before.flatMap Utf8.decode)).2 + byteLength (Utf8.decode chunk) ≤ maxFrameBytes)
    rw [hstep, htext, splitLines_append, readLines_append, hfits]
    generalize receive json maxFrameBytes chunks = parser at hiff hreads
    generalize chunks.flatMap Utf8.decode = text at hiff hreads
    cases hdestroyed : parser.destroyed with
    | true =>
      have hsame : onData json maxFrameBytes parser chunk = parser := if_pos hdestroyed
      rw [hsame, hdestroyed]
      refine ⟨iff_of_false (fun h => by cases h) fun h => ?_, fun h => by cases h⟩
      rw [hdestroyed] at hiff
      refine absurd (hiff.2 ⟨h.1.1, ?_⟩) fun h => by cases h
      cases hread : readLines json (splitLines '\n' text).1 with
      | none =>
        rw [hread] at h
        cases h.2
      | some values => rfl
    | false =>
      obtain ⟨hbuffer, hbytes, hdelivered⟩ := hreads hdestroyed
      obtain ⟨hbefore, -⟩ := hiff.1 hdestroyed
      rw [hdelivered, onData, if_neg (by simp [hdestroyed]), ← hbuffer, hbytes]
      simp only [hbefore, true_and]
      split
      · next hsize => exact ⟨iff_of_false (fun h => by cases h) fun h => absurd h.1 (Nat.not_le.2 hsize), fun h => by cases h⟩
      · next hsize =>
        have hlines : ∀ line ∈ (splitLines '\n' (parser.buffer ++ Utf8.decode chunk)).1, byteLength line ≤ maxFrameBytes := fun line hmem =>
          (byteLength_le_of_mem hmem).trans (by rw [byteLength_append]; exact Nat.not_lt.1 hsize)
        have hleft : (if (splitLines '\n' (parser.buffer ++ Utf8.decode chunk)).1 = [] then byteLength parser.buffer + byteLength (Utf8.decode chunk)
            else byteLength (splitLines '\n' (parser.buffer ++ Utf8.decode chunk)).2) =
              byteLength (splitLines '\n' (parser.buffer ++ Utf8.decode chunk)).2 := by
          split
          · next hnil =>
            have hjoin : joinLines '\n' (splitLines '\n' (parser.buffer ++ Utf8.decode chunk)).1 ++
                (splitLines '\n' (parser.buffer ++ Utf8.decode chunk)).2 = parser.buffer ++ Utf8.decode chunk := (cut_spec List.not_mem_nil _).2
            rw [hnil] at hjoin
            rw [← byteLength_append]
            exact congrArg byteLength hjoin.symm
          · rfl
        rw [hleft]
        obtain ⟨hsome, hnone⟩ := @foldl_onLine V json maxFrameBytes { parser with
          buffer      := (splitLines '\n' (parser.buffer ++ Utf8.decode chunk)).2
          bufferBytes := byteLength (splitLines '\n' (parser.buffer ++ Utf8.decode chunk)).2 } hdestroyed _ hlines
        cases hread : readLines json (splitLines '\n' (parser.buffer ++ Utf8.decode chunk)).1 with
        | none =>
          rw [hnone hread]
          exact ⟨iff_of_false (fun h => by cases h) fun h => (by cases h.2), fun h => by cases h⟩
        | some values =>
          rw [hsome values hread]
          have hsplit : splitLines '\n' (text ++ Utf8.decode chunk) = ((splitLines '\n' text).1 ++
              (splitLines '\n' (parser.buffer ++ Utf8.decode chunk)).1, (splitLines '\n' (parser.buffer ++ Utf8.decode chunk)).2) := by
            rw [splitLines_append, ← hbuffer]
          refine ⟨iff_of_true hdestroyed ⟨Nat.not_lt.1 hsize, rfl⟩, fun _ => ⟨(congrArg Prod.snd hsplit).symm, rfl, ?_⟩⟩
          rw [hsplit, readLines_append, hdelivered, hread]
          rfl

/-! ## Round trip -/

theorem reads_self {c : Char} {part : Text} (h : Utf8.Reads c part) (hc : c.toNat < 0x80) : part = [c] :=
  h.resolve_right fun h => Nat.not_lt.2 h.1 hc

theorem splitLines_reads {text : Text} {parts : List Text} (h : List.Forall₂ Utf8.Reads text parts) {line : Text} {lineParts : List Text}
    (hline : List.Forall₂ Utf8.Reads line lineParts) : ∃ lines : List (List Text), ∃ left : List Text,
      cut '\n' lineParts.flatten parts.flatten = (lines.map List.flatten, left.flatten) ∧
      List.Forall₂ (List.Forall₂ Utf8.Reads) (cut '\n' line text).1 lines ∧ List.Forall₂ Utf8.Reads (cut '\n' line text).2 left := by
  induction h generalizing line lineParts with
  | nil => exact ⟨[], lineParts, rfl, .nil, hline⟩
  | @cons c part text parts hread _ ih =>
    rw [List.flatten_cons, cut]
    split
    · next heq =>
      subst heq
      obtain ⟨lines, left, hcut, hlines, hleft⟩ := ih .nil
      rw [reads_self hread (by decide), List.singleton_append, cut, if_pos rfl]
      refine ⟨lineParts :: lines, left, ?_, .cons hline hlines, hleft⟩
      have hcut' : cut '\n' [] parts.flatten = (lines.map List.flatten, left.flatten) := hcut
      rw [hcut']
      rfl
    · next hne =>
      have hnext : List.Forall₂ Utf8.Reads (line ++ [c]) (lineParts ++ [part]) := List.rel_append hline (.cons hread .nil)
      obtain ⟨lines, left, hcut, hlines, hleft⟩ := ih hnext
      refine ⟨lines, left, ?_, hlines, hleft⟩
      have hpart : '\n' ∉ part := by
        rcases hread with rfl | ⟨-, -, hall⟩
        · simpa using Ne.symm hne
        · exact fun hmem => absurd (hall _ hmem) (by decide)
      rw [cut_append, cut_of_notMem _ hpart, ← hcut]
      simp

theorem trim_ne_nil {text : Text} (h : ∃ c ∈ text, isWhiteSpace c = false) : trim text ≠ [] := by
  intro htrim
  obtain ⟨c, hmem, hc⟩ := h
  have hall : ∀ x ∈ text.dropWhile isWhiteSpace, isWhiteSpace x = true := List.rdropWhile_eq_nil_iff.1 htrim
  have hsplit := List.takeWhile_append_dropWhile (p := isWhiteSpace) (l := text)
  rw [← hsplit, List.mem_append] at hmem
  rcases hmem with hmem | hmem
  · rw [List.mem_takeWhile_imp hmem] at hc
    cases hc
  · rw [hall c hmem] at hc
    cases hc

theorem visible_reads {text : Text} {parts : List Text} (h : List.Forall₂ Utf8.Reads text parts) (hvisible : ∃ c ∈ text, isWhiteSpace c = false) :
    ∃ c ∈ parts.flatten, isWhiteSpace c = false := by
  induction h with
  | nil =>
    obtain ⟨c, hmem, -⟩ := hvisible
    cases hmem
  | @cons c part text parts hread _ ih =>
    obtain ⟨x, hmem, hx⟩ := hvisible
    rw [List.flatten_cons]
    rcases List.mem_cons.1 hmem with rfl | hmem
    · rcases hread with rfl | ⟨-, hlength, hall⟩
      · exact ⟨x, List.mem_append_left _ List.mem_cons_self, hx⟩
      · obtain ⟨first, rest, rfl⟩ := List.exists_cons_of_length_pos (l := part) (by omega)
        exact ⟨first, List.mem_append_left _ List.mem_cons_self, by rw [hall first List.mem_cons_self]; decide⟩
    · obtain ⟨y, hy, hvisible⟩ := ih ⟨x, hmem, hx⟩
      exact ⟨y, List.mem_append_right _ hy, hvisible⟩

theorem flatten_eq_of_reads {text : Text} {parts : List Text} (h : List.Forall₂ Utf8.Reads text parts) (hparts : ¬ ∃ part ∈ parts, 2 ≤ part.length) :
    parts.flatten = text := by
  induction h with
  | nil => rfl
  | @cons c part text parts hread _ ih =>
    have hpart : part = [c] := hread.resolve_right fun h => hparts ⟨part, List.mem_cons_self, h.2.1⟩
    rw [List.flatten_cons, hpart, ih fun ⟨long, hmem, hlength⟩ => hparts ⟨long, List.mem_cons_of_mem _ hmem, hlength⟩]
    rfl

theorem readLine_of_visible {line : Text} (h : ∃ c ∈ line, isWhiteSpace c = false) : readLine json line = (json.parse (trim line)).map fun value => [value] :=
  if_neg (trim_ne_nil h)

theorem readLines_stringify (frames : List V) : readLines json (frames.map json.stringify) = some frames := by
  induction frames with
  | nil => rfl
  | cons frame rest ih =>
    rw [List.map_cons, readLines, readLine_of_visible (json.visible frame), json.parse_stringify, ih]
    rfl

theorem lines_of_readLines {frames : List V} {lines : List (List Text)}
    (h : List.Forall₂ (List.Forall₂ Utf8.Reads) (frames.map json.stringify) lines) (hread : readLines json (lines.map List.flatten) = some frames) :
    lines.map List.flatten = frames.map json.stringify := by
  induction frames generalizing lines with
  | nil =>
    cases h
    rfl
  | cons frame rest ih =>
    cases h with
    | @cons _ line _ lines hline hlines =>
      rw [List.map_cons, readLines, readLine_of_visible (visible_reads hline (json.visible frame))] at hread
      cases hparse : json.parse (trim line.flatten) with
      | none =>
        rw [hparse] at hread
        cases hread
      | some value =>
        cases hrest : readLines json (lines.map List.flatten) with
        | none =>
          rw [hparse, hrest] at hread
          cases hread
        | some values =>
          rw [hparse, hrest] at hread
          cases hread
          have hwhole : line.flatten = json.stringify frame := flatten_eq_of_reads hline fun hlong =>
            json.parse_garbled frame line.flatten ⟨line, hline, hlong, rfl⟩ hparse
          rw [List.map_cons, hwhole, ih hlines hrest]
          rfl

theorem cut_encode (line text : Text) : cut 0x0A (Utf8.encode line) (Utf8.encode text) =
    ((cut '\n' line text).1.map Utf8.encode, Utf8.encode (cut '\n' line text).2) := by
  induction text generalizing line with
  | nil => rfl
  | cons c text ih =>
    rw [Utf8.encode_cons, cut, cut_append]
    split
    · next heq =>
      subst heq
      have hnewline : cut 0x0A (Utf8.encode line) (utf8 ('\n' : Char).toNat) = ([Utf8.encode line], []) := rfl
      have ih' := ih []
      rw [hnewline]
      change ([Utf8.encode line] ++ (cut 0x0A (Utf8.encode []) (Utf8.encode text)).1, (cut 0x0A (Utf8.encode []) (Utf8.encode text)).2) = _
      rw [ih']
      rfl
    · next hne =>
      have hnone : 0x0A ∉ utf8 c.toNat := by
        obtain ⟨b, rest, hutf8, -, hrest, -⟩ := Utf8.utf8_spec c
        intro hmem
        rw [hutf8] at hmem
        rcases List.mem_cons.1 hmem with rfl | hmem
        · by_cases hlow : c.toNat < 0x80
          · rw [utf8_of_lt hlow, List.cons.injEq] at hutf8
            exact hne (Char.toNat_inj.1 hutf8.1)
          · unfold utf8 at hutf8
            split_ifs at hutf8 <;> simp only [List.cons.injEq] at hutf8 <;> omega
        · exact absurd (hrest 0x0A hmem) (by decide)
      rw [cut_of_notMem _ hnone, ← ih (line ++ [c]), Utf8.encode_append]
      have hsingle : Utf8.encode [c] = utf8 c.toNat := by rw [Utf8.encode_cons]; exact List.append_nil _
      rw [hsingle]
      rfl

theorem fitsRead_iff {texts : List Text} : FitsRead maxFrameBytes (texts.map Utf8.encode) ↔ Fits maxFrameBytes (texts.map Utf8.encode) := by
  refine forall_congr' fun before => forall_congr' fun chunk => forall_congr' fun after => imp_congr_right fun heq => ?_
  obtain ⟨textsBefore, more, -, rfl, hmore⟩ := List.map_eq_append_iff.1 heq
  obtain ⟨text, textsAfter, -, rfl, rfl⟩ := List.map_eq_cons_iff.1 hmore
  have hsplit : (splitLines 0x0A (Utf8.encode textsBefore.flatten)).2 = Utf8.encode (splitLines '\n' textsBefore.flatten).2 :=
    congrArg Prod.snd (cut_encode [] textsBefore.flatten)
  rw [Utf8.flatMap_decode_map, Utf8.decode_encode, Utf8.flatten_map_encode, hsplit]
  exact Iff.rfl

/-- Frames are delivered from a stream in chunks if and only if no chunk starts inside of a character, and what has come of a frame is within the
limit with each chunk. -/
theorem delivers_iff {frames : List V} {lines : List Text} (hframes : frames.mapM (serializeFrame json maxFrameBytes) = .ok lines)
    {chunks : List (List Nat)} (hchunks : chunks.flatten = stream lines) :
    Delivers json maxFrameBytes chunks frames ↔ (∀ chunk ∈ chunks, ¬ Utf8.StartsInside chunk) ∧ Fits maxFrameBytes chunks := by
  have hlines : lines = frames.map json.stringify := mapM_eq_ok_map (fun frame line hline => by
    unfold serializeFrame at hline
    split at hline
    · cases hline
    · cases hline
      rfl) hframes
  subst hlines
  have hsplit : splitLines '\n' (joinLines '\n' (frames.map json.stringify)) = (frames.map json.stringify, []) := splitLines_joinLines fun line hmem => by
    obtain ⟨frame, -, rfl⟩ := List.mem_map.1 hmem
    exact json.oneLine frame
  obtain ⟨hiff, hreads⟩ := @receive_spec V json maxFrameBytes chunks
  constructor
  · rintro ⟨hdestroyed, hdelivered⟩
    have hread := (hreads hdestroyed).delivered
    rw [hdelivered] at hread
    obtain ⟨parts, hparts, hdecode, -⟩ := Utf8.reads_chunks hchunks
    obtain ⟨linesRead, left, hcut, hlines, hleft⟩ := splitLines_reads hparts .nil
    have hjoined : splitLines '\n' parts.flatten = (linesRead.map List.flatten, left.flatten) := hcut
    have hsplit' : cut '\n' [] (joinLines '\n' (frames.map json.stringify)) = (frames.map json.stringify, []) := hsplit
    rw [hsplit'] at hlines hleft
    rw [hdecode, hjoined] at hread
    cases hleft
    have hwhole : chunks.flatMap Utf8.decode = joinLines '\n' (frames.map json.stringify) := by
      have hjoin : joinLines '\n' (splitLines '\n' parts.flatten).1 ++ (splitLines '\n' parts.flatten).2 = parts.flatten := (cut_spec List.not_mem_nil _).2
      rw [hjoined, lines_of_readLines hlines hread] at hjoin
      rw [hdecode, ← hjoin]
      exact List.append_nil _
    have hinside := (Utf8.flatMap_decode_eq_iff hchunks).1 hwhole
    obtain ⟨texts, rfl, -⟩ := Utf8.exists_texts hchunks hinside
    exact ⟨hinside, fitsRead_iff.1 (hiff.1 hdestroyed).1⟩
  · rintro ⟨hinside, hfits⟩
    have hwhole := (Utf8.flatMap_decode_eq_iff hchunks).2 hinside
    obtain ⟨texts, rfl, -⟩ := Utf8.exists_texts hchunks hinside
    rw [hwhole, hsplit, readLines_stringify] at hiff
    have hdestroyed := hiff.2 ⟨fitsRead_iff.2 hfits, rfl⟩
    have hread := (hreads hdestroyed).delivered
    rw [hwhole, hsplit, readLines_stringify] at hread
    exact ⟨hdestroyed, (Option.some.inj hread).symm⟩

/-! ## Words as JSON strings -/

def isPlain (c : Char) : Bool := c ≠ '"' && c ≠ '\\' && 0x20 ≤ c.toNat && !isWhiteSpace c

/-- A text without spaces that a JSON string holds without escapes. -/
abbrev Word := { text : Text // text.all isPlain = true }

def quote (word : Word) : Text := '"' :: word.1 ++ ['"']

def unquote (text : Text) : Option Word :=
  if h : text.tail.dropLast.all isPlain = true then
    if quote ⟨text.tail.dropLast, h⟩ = text then some ⟨text.tail.dropLast, h⟩ else none
  else none

theorem quote_not_space (word : Word) : ∀ c ∈ quote word, isWhiteSpace c = false := by
  intro c hmem
  rcases List.mem_append.1 hmem with hmem | hmem
  · rcases List.mem_cons.1 hmem with rfl | hmem
    · decide
    · have hplain := List.all_eq_true.1 word.2 c hmem
      simp only [isPlain, Bool.and_eq_true, Bool.not_eq_true'] at hplain
      exact hplain.2
  · rw [List.mem_singleton.1 hmem]
    decide

theorem trim_of_not_space {text : Text} (h : ∀ c ∈ text, isWhiteSpace c = false) : trim text = text := by
  have hleft : text.dropWhile isWhiteSpace = text := by
    cases text with
    | nil => rfl
    | cons c rest => rw [List.dropWhile_cons_of_neg (by simp [h c List.mem_cons_self])]
  rw [trim, hleft, List.rdropWhile_eq_self_iff]
  intro hne
  simp [h _ (List.getLast_mem hne)]

theorem unquote_quote (word : Word) : unquote (quote word) = some word := by
  have htext : (quote word).tail.dropLast = word.1 := by
    rw [quote, List.cons_append, List.tail_cons, List.dropLast_concat]
  unfold unquote
  simp only [htext]
  rw [dif_pos word.2, if_pos trivial]

theorem quote_of_unquote {text : Text} {word : Word} (h : unquote text = some word) : text = quote word := by
  unfold unquote at h
  split at h
  · split at h
    · next heq =>
      cases h
      exact heq.symm
    · cases h
  · cases h

theorem mem_reads {text : Text} {parts : List Text} (h : List.Forall₂ Utf8.Reads text parts) : ∀ x ∈ parts.flatten, x ∈ text ∨ x = Utf8.replacement := by
  induction h with
  | nil => exact fun x hmem => absurd hmem List.not_mem_nil
  | @cons c part text parts hread _ ih =>
    intro x hmem
    rw [List.flatten_cons] at hmem
    rcases List.mem_append.1 hmem with hmem | hmem
    · rcases hread with rfl | ⟨-, -, hall⟩
      · exact .inl (List.mem_singleton.1 hmem ▸ List.mem_cons_self)
      · exact .inr (hall x hmem)
    · exact (ih x hmem).imp_left (List.mem_cons_of_mem _)

def words : Json Word where
  stringify := quote
  parse := unquote
  oneLine word hmem := absurd (quote_not_space word '\n' hmem) (by decide)
  visible word := ⟨'"', List.mem_cons_self, by decide⟩
  parse_stringify word := by rw [trim_of_not_space (quote_not_space word), unquote_quote]
  parse_garbled word text := by
    rintro ⟨parts, hparts, hlong, rfl⟩ hparse
    have hspace : ∀ c ∈ parts.flatten, isWhiteSpace c = false := fun c hmem => by
      rcases mem_reads hparts c hmem with hmem | rfl
      · exact quote_not_space word c hmem
      · decide
    rw [trim_of_not_space hspace] at hparse
    have hlength := (Utf8.length_le_of_reads hparts).2 hlong
    rw [quote_of_unquote hparse] at hlength
    exact Nat.lt_irrefl _ hlength

def accented : Word := ⟨['\u00e9'], by decide⟩

/-- Two frames that come in three chunks. -/
theorem delivers_iff_accented : Delivers words 5 [[0x22, 0xC3, 0xA9], [0x22, 0x0A], [0x22, 0xC3, 0xA9, 0x22, 0x0A]] [accented, accented] ↔
    (∀ chunk ∈ [[0x22, 0xC3, 0xA9], [0x22, 0x0A], [0x22, 0xC3, 0xA9, 0x22, 0x0A]], ¬ Utf8.StartsInside chunk) ∧
      Fits 5 [[0x22, 0xC3, 0xA9], [0x22, 0x0A], [0x22, 0xC3, 0xA9, 0x22, 0x0A]] :=
  delivers_iff (show [accented, accented].mapM (serializeFrame words 5) = .ok [quote accented, quote accented] from rfl) (by decide)

/-- A character that is split is garbled. -/
theorem not_delivers_accented : ¬ ∀ (frames : List Word) (lines : List Text), frames.mapM (serializeFrame words defaultMaxFrameBytes) = .ok lines →
    ∀ chunks : List (List Nat), chunks.flatten = stream lines → Delivers words defaultMaxFrameBytes chunks frames := by
  intro h
  obtain ⟨-, hdelivered⟩ := h [accented] [quote accented] (by rfl) [[0x22, 0xC3], [0xA9, 0x22, 0x0A]] (by decide)
  revert hdelivered
  decide

end Fluo.Microservices.TcpTransport
