import Fluo.Http.RoutePath
import Fluo.Runtime.Query
/-!
# Request bodies

What `materializeBody` makes of a message, in the Node factory and in the web one. Reading JSON and
form data and resolving URLs is the platform's.
-/

namespace Fluo.Runtime.RequestBody
open Fluo.Lib Query

inductive ErrorClass
  | badRequest
  /-- `NodeRequestPayloadTooLargeException` extends it. -/
  | payloadTooLarge
  | typeError
deriving DecidableEq

/-- The platform: `none` is a thrown error. -/
structure Platform (V : Type) where
  parseJson : Text → Option V
  /-- The entries of a body with a content type. -/
  formData : Option Utf16 → List UInt8 → Option (List FormDataEntry)
  /-- `new URL(url, 'http://localhost')` is one. -/
  resolves : Text → Bool

structure FactoryOptions where
  maxBodySize : Nat := 1024 * 1024
  preserveRawBody : Bool := false
  maxFileSize : Nat := 10 * 1024 * 1024
  maxFiles : Nat := 10
  maxTotalSize : Option Nat := none

def FactoryOptions.multipartOptions (options : FactoryOptions) : MultipartOptions :=
  { maxFileSize := options.maxFileSize, maxFiles := options.maxFiles, maxTotalSize := options.maxTotalSize.getD options.maxBodySize }

/-- An HTTP request. The value of its content type is Latin-1. -/
structure Message where
  method : String
  url : Text
  contentType : Option Utf16
  contentLength : Option Nat
  body : Option (List UInt8)
  framed : ∀ n ∈ contentLength, n = (body.getD []).length

/-- The body in the chunks that are read. -/
structure Message.Stream (message : Message) where
  chunks : List (List UInt8)
  whole : chunks.flatten = message.body.getD []
  nonempty : ∀ chunk ∈ chunks, chunk ≠ []

inductive Body (V : Type)
  | undefined
  | text (text : Text)
  | json (value : V)
  | fields (fields : Record)
deriving DecidableEq

structure Materialized (V : Type) where
  body : Body V := .undefined
  rawBody : Option (List UInt8) := none
  files : List UploadedFile := []
deriving DecidableEq

variable {V : Type}

def supportsRequestBody (method : String) : Bool := method ≠ "GET" && method ≠ "HEAD"

def toLowerCase (text : Utf16) : Utf16 :=
  text.map fun u => if 0x41 ≤ u ∧ u ≤ 0x5A ∨ 0xC0 ≤ u ∧ u ≤ 0xDE ∧ u ≠ 0xD7 then u + 0x20 else u

/-- `parseMultipart`, with its limit on what is read. -/
def parseForm (platform : Platform V) (options : MultipartOptions) (contentType : Option Utf16) (bytes : List UInt8) :
    Except ErrorClass (Materialized V) :=
  if bytes.length > options.maxTotalSize then .error .payloadTooLarge
  else
    match platform.formData contentType bytes with
    | none => .error .typeError
    | some entries =>
      match parseMultipart options entries with
      | .error _ => .error .payloadTooLarge
      | .ok result => .ok { body := .fields result.fields, files := result.files }

/-- One round of reading chunks up to a limit. -/
def readChunk (maxBodySize : Nat) (read chunk : List UInt8) : Except ErrorClass (List UInt8) :=
  if read.length + chunk.length > maxBodySize then .error .payloadTooLarge else .ok (read ++ chunk)

def utf8Text (bytes : List UInt8) : Text := Utf8.decode (bytes.map UInt8.toNat)

def parseJsonBody (platform : Platform V) (text : Text) (rawBody : Option (List UInt8)) : Except ErrorClass (Materialized V) :=
  match platform.parseJson text with
  | some value => .ok { body := .json value, rawBody }
  | none => .error .badRequest

/-! ## The Node factory -/

namespace Node

def normalizePrimaryContentType (headerValue : Option Utf16) : Option Utf16 := do
  let normalizedMediaType := toLowerCase (Http.Mapping.trim ((← headerValue).takeWhile (· ≠ ';'.toNat.toUInt16)))
  if normalizedMediaType = [] then none else return normalizedMediaType

def hasNodeRequestBody (message : Message) : Bool := message.contentLength ≠ some 0

def readRequestBody (platform : Platform V) (options : FactoryOptions) (contentType : Option Utf16) (chunks : List (List UInt8)) :
    Except ErrorClass (Materialized V) := do
  let bytes ← chunks.foldlM (readChunk options.maxBodySize) []
  if chunks = [] then return {}
  let rawBody := if options.preserveRawBody then some bytes else none
  if utf8Text bytes = [] then return { rawBody }
  if normalizePrimaryContentType contentType = some (units "application/json") then parseJsonBody platform (utf8Text bytes) rawBody
  else return { body := .text (utf8Text bytes), rawBody }

def materializeBody (platform : Platform V) (options : FactoryOptions) (message : Message) (stream : message.Stream) :
    Except ErrorClass (Materialized V) :=
  if normalizePrimaryContentType message.contentType = some (units "multipart/form-data") then
    if platform.resolves message.url then
      parseForm platform options.multipartOptions message.contentType (if supportsRequestBody message.method then stream.chunks.flatten else [])
    else .error .typeError
  else if hasNodeRequestBody message then readRequestBody platform options message.contentType stream.chunks
  else .ok {}

end Node

/-! ## The web factory -/

namespace Web

def byteOrderMark : Char := Char.ofNat 0xFEFF

/-- `TEXT_DECODER.decode`, which ignores a byte order mark. -/
def textDecoder (bytes : List UInt8) : Text :=
  if (utf8Text bytes).head? = some byteOrderMark then (utf8Text bytes).tail else utf8Text bytes

def isMultipart (contentType : Option Utf16) : Bool := contentType.any fun value => units "multipart/form-data" <:+: value

def isJsonContentType (contentType : Option Utf16) : Bool := contentType.any fun value => units "application/json" <:+: toLowerCase value

def validateWebRequestContentLength (message : Message) (maxBodySize : Nat) : Except ErrorClass Unit :=
  if message.contentLength.any (· > maxBodySize) then .error .payloadTooLarge else .ok ()

def isContentLengthWithinLimit (message : Message) (maxBodySize : Nat) : Bool := message.contentLength.any fun n => 0 < n && n ≤ maxBodySize

def parseWebRequestRawBody (platform : Platform V) (rawBody : List UInt8) (contentType : Option Utf16) (preserveRawBody : Bool) :
    Except ErrorClass (Materialized V) :=
  let preserved := if preserveRawBody then some rawBody else none
  if rawBody.length = 0 then .ok {}
  else if textDecoder rawBody = [] then .ok { rawBody := preserved }
  else if isJsonContentType contentType then parseJsonBody platform (textDecoder rawBody) preserved
  else .ok { body := .text (textDecoder rawBody), rawBody := preserved }

def readByteLimitedStream (chunks : List (List UInt8)) (maxBodySize : Nat) : Except ErrorClass (List UInt8) :=
  chunks.foldlM (readChunk maxBodySize) []

def readWebRequestBody (platform : Platform V) (options : FactoryOptions) (message : Message) (chunks : List (List UInt8))
    (preferNativeJsonBodyReader : Bool) : Except ErrorClass (Materialized V) := do
  validateWebRequestContentLength message options.maxBodySize
  if !options.preserveRawBody && isJsonContentType message.contentType &&
      (preferNativeJsonBodyReader || isContentLengthWithinLimit message options.maxBodySize) then
    if chunks.flatten.length > options.maxBodySize then .error .payloadTooLarge
    else parseWebRequestRawBody platform chunks.flatten message.contentType options.preserveRawBody
  else
    parseWebRequestRawBody platform (← readByteLimitedStream chunks options.maxBodySize) message.contentType options.preserveRawBody

/-- `request.body`: a request has none where its method does not support one. -/
def hasRequestBody (message : Message) : Bool := supportsRequestBody message.method && message.body.isSome

def materializeBody (platform : Platform V) (options : FactoryOptions) (message : Message) (stream : message.Stream)
    (preferNativeJsonBodyReader : Bool) : Except ErrorClass (Materialized V) :=
  if hasRequestBody message then
    if isMultipart message.contentType then parseForm platform options.multipartOptions message.contentType stream.chunks.flatten
    else do
      validateWebRequestContentLength message options.maxBodySize
      readWebRequestBody platform options message stream.chunks preferNativeJsonBodyReader
  else .ok {}

end Web

/-! ## What they read -/

/-- How a factory reads a body. -/
inductive BodyKind
  | form
  | json
  | text
deriving DecidableEq

def Node.kind (contentType : Option Utf16) : BodyKind :=
  if normalizePrimaryContentType contentType = some (units "multipart/form-data") then .form
  else if normalizePrimaryContentType contentType = some (units "application/json") then .json
  else .text

def Web.kind (contentType : Option Utf16) : BodyKind :=
  if isMultipart contentType then .form else if isJsonContentType contentType then .json else .text

def readText (platform : Platform V) (options : FactoryOptions) (kind : BodyKind) (bytes : List UInt8) (text : Text) :
    Except ErrorClass (Materialized V) :=
  if bytes.length > options.maxBodySize then .error .payloadTooLarge
  else if bytes = [] then .ok {}
  else if text = [] then .ok { rawBody := if options.preserveRawBody then some bytes else none }
  else if kind = .json then parseJsonBody platform text (if options.preserveRawBody then some bytes else none)
  else .ok { body := .text text, rawBody := if options.preserveRawBody then some bytes else none }

section Read
variable {platform : Platform V} {options : FactoryOptions} {message : Message} {bytes : List UInt8}

theorem foldlM_readChunk {maxBodySize : Nat} {read : List UInt8} (h : read.length ≤ maxBodySize) (chunks : List (List UInt8)) :
    chunks.foldlM (readChunk maxBodySize) read =
      if (read ++ chunks.flatten).length > maxBodySize then .error .payloadTooLarge else .ok (read ++ chunks.flatten) := by
  induction chunks generalizing read with
  | nil =>
    rw [List.foldlM_nil, List.flatten_nil, List.append_nil, if_neg (Nat.not_lt.2 h)]
    rfl
  | cons chunk rest ih =>
    rw [List.foldlM_cons, List.flatten_cons, ← List.append_assoc]
    by_cases hchunk : read.length + chunk.length > maxBodySize
    · rw [readChunk, if_pos hchunk, if_pos (by simp only [List.length_append]; omega)]
      rfl
    · rw [readChunk, if_neg hchunk, ok_bind, ih (by rw [List.length_append]; omega)]

theorem utf8Text_eq_nil : utf8Text bytes = [] ↔ bytes = [] := by
  refine ⟨fun h => ?_, fun h => by rw [h]; rfl⟩
  by_contra hne
  exact Utf8.decode_ne_nil (by simpa using hne) h

theorem Node.kind_eq_json {contentType : Option Utf16} (h : kind contentType ≠ .form) :
    kind contentType = .json ↔ normalizePrimaryContentType contentType = some (units "application/json") := by
  unfold kind at h ⊢
  split_ifs at h ⊢ with hform hjson
  · exact absurd rfl h
  · exact ⟨fun _ => hjson, fun _ => rfl⟩
  · exact ⟨fun h => (by cases h), fun h => absurd h hjson⟩

theorem Web.kind_eq_json {contentType : Option Utf16} (h : kind contentType ≠ .form) :
    kind contentType = .json ↔ isJsonContentType contentType = true := by
  unfold kind at h ⊢
  split_ifs at h ⊢ with hform hjson
  · exact absurd rfl h
  · exact ⟨fun _ => hjson, fun _ => rfl⟩
  · exact ⟨fun h => (by cases h), fun h => absurd h hjson⟩

theorem Node.kind_eq_form {contentType : Option Utf16} :
    kind contentType = .form ↔ normalizePrimaryContentType contentType = some (units "multipart/form-data") := by
  unfold kind
  split_ifs with hform hjson
  · exact ⟨fun _ => hform, fun _ => rfl⟩
  · exact ⟨fun h => (by cases h), fun h => absurd h hform⟩
  · exact ⟨fun h => (by cases h), fun h => absurd h hform⟩

theorem Web.kind_eq_form {contentType : Option Utf16} : kind contentType = .form ↔ isMultipart contentType = true := by
  unfold kind
  split_ifs with hform hjson
  · exact ⟨fun _ => hform, fun _ => rfl⟩
  · exact ⟨fun h => (by cases h), fun h => absurd h hform⟩
  · exact ⟨fun h => (by cases h), fun h => absurd h hform⟩

theorem chunks_eq_nil (stream : message.Stream) : stream.chunks = [] ↔ message.body.getD [] = [] := by
  rw [← stream.whole, List.flatten_eq_nil_iff]
  refine ⟨fun h => by simp [h], fun h => List.eq_nil_iff_forall_not_mem.2 fun chunk hmem => stream.nonempty chunk hmem (h chunk hmem)⟩

theorem Node.materializeBody_text (stream : message.Stream) (h : kind message.contentType ≠ .form) :
    materializeBody platform options message stream =
      readText platform options (kind message.contentType) (message.body.getD []) (utf8Text (message.body.getD [])) := by
  unfold materializeBody
  rw [if_neg (fun hform => h (kind_eq_form.2 hform))]
  by_cases hzero : message.contentLength = some 0
  · have hnil : message.body.getD [] = [] := List.eq_nil_of_length_eq_zero (message.framed 0 hzero).symm
    rw [if_neg (by simp [hasNodeRequestBody, hzero]), readText, hnil]
    exact (if_neg (Nat.not_lt_zero _)).symm
  · rw [if_pos (by simp [hasNodeRequestBody, hzero]), readRequestBody, foldlM_readChunk (Nat.zero_le _), List.nil_append, stream.whole, readText]
    by_cases hsize : (message.body.getD []).length > options.maxBodySize
    · rw [if_pos hsize, if_pos hsize]
      rfl
    · rw [if_neg hsize, if_neg hsize, ok_bind]
      by_cases hnil : message.body.getD [] = []
      · rw [if_pos ((chunks_eq_nil stream).2 hnil), if_pos hnil]
        rfl
      · rw [if_neg (fun h => hnil ((chunks_eq_nil stream).1 h)), if_neg hnil, if_neg (fun h => hnil (utf8Text_eq_nil.1 h)),
          if_neg (fun h => hnil (utf8Text_eq_nil.1 h))]
        simp only [← kind_eq_json h]
        rfl

theorem Web.materializeBody_text (stream : message.Stream) (prefer : Bool) (hbody : hasRequestBody message = true)
    (h : kind message.contentType ≠ .form) : materializeBody platform options message stream prefer =
      readText platform options (kind message.contentType) (message.body.getD []) (textDecoder (message.body.getD [])) := by
  have hlength : message.contentLength.any (· > options.maxBodySize) = true → (message.body.getD []).length > options.maxBodySize := fun hany => by
    obtain ⟨n, hn, hlt⟩ := (Option.any_eq_true _ _).1 hany
    rw [← message.framed n hn]
    simpa using hlt
  have hparse (hsize : ¬ (message.body.getD []).length > options.maxBodySize) :
      parseWebRequestRawBody platform (message.body.getD []) message.contentType options.preserveRawBody =
        readText platform options (kind message.contentType) (message.body.getD []) (textDecoder (message.body.getD [])) := by
    unfold parseWebRequestRawBody readText
    rw [if_neg hsize]
    simp only [List.length_eq_zero_iff, ← kind_eq_json h]
  unfold materializeBody
  rw [if_pos hbody, if_neg (fun hform => h (kind_eq_form.2 hform)), readWebRequestBody]
  by_cases hsize : (message.body.getD []).length > options.maxBodySize
  · have hread : readText platform options (kind message.contentType) (message.body.getD []) (textDecoder (message.body.getD [])) =
        .error .payloadTooLarge := if_pos hsize
    rw [hread]
    unfold validateWebRequestContentLength
    split
    · rfl
    · rw [ok_bind, ok_bind, stream.whole, if_pos hsize, readByteLimitedStream, foldlM_readChunk (Nat.zero_le _), List.nil_append, stream.whole,
        if_pos hsize]
      split <;> rfl
  · rw [validateWebRequestContentLength, if_neg (fun hany => hsize (hlength hany)), ok_bind, ok_bind, stream.whole, if_neg hsize,
      readByteLimitedStream, foldlM_readChunk (Nat.zero_le _), List.nil_append, stream.whole, if_neg hsize, ok_bind, hparse hsize]
    split <;> rfl

end Read

/-! ## Agreement -/

def hasByteOrderMark (bytes : List UInt8) : Bool := (utf8Text bytes).head? = some Web.byteOrderMark

/-- Bodies that are no forms are read alike: both are refused for their size or empty, or both are JSON or both text, and a byte order mark is
not there or does not matter, since the rest is no JSON. -/
def TextAlike (platform : Platform V) (options : FactoryOptions) (node web : BodyKind) (bytes : List UInt8) : Prop :=
  bytes.length > options.maxBodySize ∨ bytes = [] ∨
    node = web ∧ (hasByteOrderMark bytes = false ∨
      node = .json ∧ Web.textDecoder bytes ≠ [] ∧ platform.parseJson (Web.textDecoder bytes) = none)

/-- A body that the limits of forms refuse. -/
def FormRefused (platform : Platform V) (options : FactoryOptions) (message : Message) (error : ErrorClass) : Prop :=
  parseForm platform options.multipartOptions message.contentType (message.body.getD []) = .error error

/-- The factories read a message alike. -/
def Alike (platform : Platform V) (options : FactoryOptions) (message : Message) : Prop :=
  if Web.hasRequestBody message then
    match Node.kind message.contentType, Web.kind message.contentType with
    | .form, .form => platform.resolves message.url = true ∨ FormRefused platform options message .typeError
    | .form, _ => platform.resolves message.url = true ∧ (message.body.getD []).length > options.maxBodySize ∧
        FormRefused platform options message .payloadTooLarge
    | _, .form => (message.body.getD []).length > options.maxBodySize ∧ FormRefused platform options message .payloadTooLarge
    | node, web => TextAlike platform options node web (message.body.getD [])
  else Node.kind message.contentType ≠ .form ∧ message.body.getD [] = []

section Agree
variable {platform : Platform V} {options : FactoryOptions} {message : Message} {bytes : List UInt8}

theorem parseForm_ne_text (multipart : MultipartOptions) (contentType : Option Utf16) {body : Body V} {rawBody : Option (List UInt8)}
    (h : ∀ fields, body ≠ .fields fields) : parseForm platform multipart contentType bytes ≠ .ok { body, rawBody } := by
  unfold parseForm
  split
  · exact fun heq => by cases heq
  · split
    · exact fun heq => by cases heq
    · split
      · exact fun heq => by cases heq
      · exact fun heq => h _ (congrArg Materialized.body (Except.ok.inj heq)).symm

theorem parseJsonBody_ne {text : Text} {rawBody rawBody' : Option (List UInt8)} {body : Body V} (h : ∀ value, body ≠ .json value) :
    parseJsonBody platform text rawBody ≠ .ok { body, rawBody := rawBody' } := by
  unfold parseJsonBody
  split
  · exact fun heq => h _ (congrArg Materialized.body (Except.ok.inj heq)).symm
  · exact fun heq => by cases heq

theorem readText_cases (kind : BodyKind) (bytes : List UInt8) (text : Text) :
    bytes.length > options.maxBodySize ∧ readText platform options kind bytes text = .error .payloadTooLarge ∨
    readText platform options kind bytes text = .error .badRequest ∨
    ∃ body rawBody, readText platform options kind bytes text = .ok { body, rawBody } ∧ ∀ fields, body ≠ .fields fields := by
  unfold readText parseJsonBody
  split
  · next hsize => exact .inl ⟨hsize, rfl⟩
  · right
    split
    · exact .inr ⟨_, _, rfl, fun _ heq => by cases heq⟩
    · split
      · exact .inr ⟨_, _, rfl, fun _ heq => by cases heq⟩
      · split
        · split
          · exact .inr ⟨_, _, rfl, fun _ heq => by cases heq⟩
          · exact .inl rfl
        · exact .inr ⟨_, _, rfl, fun _ heq => by cases heq⟩

theorem parseForm_eq_readText_iff (multipart : MultipartOptions) (contentType : Option Utf16) (kind : BodyKind) (text : Text) :
    parseForm platform multipart contentType bytes = readText platform options kind bytes text ↔
      bytes.length > options.maxBodySize ∧ parseForm platform multipart contentType bytes = .error .payloadTooLarge := by
  constructor
  · intro heq
    rcases @readText_cases _ platform options kind bytes text with ⟨hsize, hread⟩ | hread | ⟨body, rawBody, hread, hbody⟩
    · exact ⟨hsize, heq.trans hread⟩
    · exfalso
      rw [hread] at heq
      unfold parseForm at heq
      split at heq
      · cases heq
      · split at heq
        · cases heq
        · split at heq <;> cases heq
    · exact absurd (heq.trans hread) (parseForm_ne_text multipart contentType hbody)
  · rintro ⟨hsize, hform⟩
    rw [hform, readText, if_pos hsize]

theorem readText_of_lt (hsize : ¬ bytes.length > options.maxBodySize) (hnil : bytes ≠ []) (kind : BodyKind) {text : Text} (htext : text ≠ []) :
    readText platform options kind bytes text = if kind = .json then parseJsonBody platform text (if options.preserveRawBody then some bytes else none)
      else .ok { body := .text text, rawBody := if options.preserveRawBody then some bytes else none } := by
  rw [readText, if_neg hsize, if_neg hnil, if_neg htext]

theorem readText_eq_iff (hbom : ∀ text, platform.parseJson (Web.byteOrderMark :: text) = none) {node web : BodyKind}
    (hnode : node ≠ .form) (hweb : web ≠ .form) :
    readText platform options node bytes (utf8Text bytes) = readText platform options web bytes (Web.textDecoder bytes) ↔
      TextAlike platform options node web bytes := by
  unfold TextAlike
  by_cases hsize : bytes.length > options.maxBodySize
  · have hread (kind : BodyKind) (text : Text) : readText platform options kind bytes text = .error .payloadTooLarge := if_pos hsize
    rw [hread, hread]
    exact iff_of_true rfl (.inl hsize)
  by_cases hnil : bytes = []
  · have hread (kind : BodyKind) (text : Text) : readText platform options kind bytes text = .ok {} := by
      rw [readText, if_neg hsize, if_pos hnil]
    rw [hread, hread]
    exact iff_of_true rfl (.inr (.inl hnil))
  simp only [hsize, hnil, false_or]
  have htext : utf8Text bytes ≠ [] := fun h => hnil (utf8Text_eq_nil.1 h)
  rw [readText_of_lt hsize hnil node htext]
  cases hmark : hasByteOrderMark bytes with
  | false =>
    have hsame : Web.textDecoder bytes = utf8Text bytes := if_neg (of_decide_eq_false hmark)
    rw [hsame, readText_of_lt hsize hnil web htext]
    simp only [true_or, and_true]
    refine ⟨fun heq => ?_, fun heq => by rw [heq]⟩
    cases node <;> cases web <;> try contradiction
    · rfl
    · exact absurd heq (parseJsonBody_ne fun _ h => by cases h)
    · exact absurd heq.symm (parseJsonBody_ne fun _ h => by cases h)
    · rfl
  | true =>
    obtain ⟨rest, hrest⟩ := List.head?_eq_some_iff.1 (of_decide_eq_true hmark)
    have hdecoded : Web.textDecoder bytes = rest := by
      rw [Web.textDecoder, if_pos (of_decide_eq_true hmark), hrest, List.tail_cons]
    have hjson : parseJsonBody platform (utf8Text bytes) (if options.preserveRawBody then some bytes else none) = .error .badRequest := by
      rw [hrest, parseJsonBody, hbom]
    rw [hdecoded, hjson]
    simp only [Bool.true_eq_false, false_or]
    by_cases hempty : rest = []
    · have hread : readText platform options web bytes rest = .ok { rawBody := if options.preserveRawBody then some bytes else none } := by
        rw [readText, if_neg hsize, if_neg hnil, if_pos hempty]
      rw [hread]
      refine iff_of_false (fun heq => ?_) fun h => h.2.2.1 hempty
      split at heq
      · cases heq
      · exact absurd (congrArg Materialized.body (Except.ok.inj heq)) fun h => by cases h
    · rw [readText_of_lt hsize hnil web hempty]
      cases node <;> cases web <;> try contradiction
      · simp only [if_true, true_and]
        unfold parseJsonBody
        cases hparse : platform.parseJson rest with
        | none => exact iff_of_true rfl ⟨hempty, rfl⟩
        | some value => exact iff_of_false (fun h => by cases h) fun h => by cases h.2
      · exact iff_of_false (fun h => by cases h) fun h => by cases h.1
      · exact iff_of_false (fun heq => parseJsonBody_ne (fun _ h => by cases h) heq.symm) fun h => by cases h.1
      · refine iff_of_false (fun heq => ?_) fun h => by cases h.2.1
        have hbody := congrArg Materialized.body (Except.ok.inj heq)
        rw [hrest] at hbody
        exact absurd (Body.text.inj hbody) (List.cons_ne_self _ _)

theorem Node.materializeBody_form (stream : message.Stream) (h : kind message.contentType = .form) (hmethod : supportsRequestBody message.method = true) :
    materializeBody platform options message stream = if platform.resolves message.url then
      parseForm platform options.multipartOptions message.contentType (message.body.getD []) else .error .typeError := by
  rw [materializeBody, if_pos (kind_eq_form.1 h), if_pos hmethod, stream.whole]

theorem Web.materializeBody_form (stream : message.Stream) (prefer : Bool) (hbody : hasRequestBody message = true)
    (h : kind message.contentType = .form) : materializeBody platform options message stream prefer =
      parseForm platform options.multipartOptions message.contentType (message.body.getD []) := by
  rw [materializeBody, if_pos hbody, if_pos (kind_eq_form.1 h), stream.whole]

theorem agree_of_no_body (node web : message.Stream) (prefer : Bool) (hbody : Web.hasRequestBody message = false) :
    Node.materializeBody platform options message node = Web.materializeBody platform options message web prefer ↔
      Node.kind message.contentType ≠ .form ∧ message.body.getD [] = [] := by
  have hweb : Web.materializeBody platform options message web prefer = .ok {} := if_neg (by rw [hbody]; exact Bool.false_ne_true)
  rw [hweb]
  by_cases hkind : Node.kind message.contentType = .form
  · refine iff_of_false (fun heq => ?_) fun h => h.1 hkind
    rw [Node.materializeBody, if_pos (Node.kind_eq_form.1 hkind)] at heq
    split at heq
    · exact parseForm_ne_text _ _ (fun _ h => by cases h) heq
    · cases heq
  · rw [Node.materializeBody_text node hkind]
    simp only [ne_eq, hkind, not_false_eq_true, true_and]
    constructor
    · intro heq
      by_contra hnil
      by_cases hsize : (message.body.getD []).length > options.maxBodySize
      · rw [readText, if_pos hsize] at heq
        cases heq
      · rw [readText_of_lt hsize hnil _ fun h => hnil (utf8Text_eq_nil.1 h)] at heq
        split at heq
        · exact parseJsonBody_ne (fun _ h => by cases h) heq
        · exact absurd (congrArg Materialized.body (Except.ok.inj heq)) fun h => by cases h
    · intro hnil
      rw [readText, hnil]
      exact if_neg (Nat.not_lt_zero _)

end Agree

/-- A platform that reads one digit as JSON. -/
def oneDigit : Platform Nat where
  parseJson text :=
    match text with
    | [c] => if c.isDigit then some (c.toNat - '0'.toNat) else none
    | _ => none
  formData _ _ := none
  resolves _ := true

theorem oneDigit_bom (text : Text) : oneDigit.parseJson (Web.byteOrderMark :: text) = none := by
  cases text <;> rfl

/-- The digit one, posted under a content type. -/
def postedOne (contentType : String) : Message where
  method := "POST"
  url := "/".toList
  contentType := some (units contentType)
  contentLength := some 1
  body := some [0x31]
  framed := by
    intro n hn
    cases hn
    rfl

def postedOneStream (contentType : String) : (postedOne contentType).Stream where
  chunks := [[0x31]]
  whole := rfl
  nonempty := by
    intro chunk hmem
    rw [List.mem_singleton.1 hmem]
    exact List.cons_ne_nil _ _

end Fluo.Runtime.RequestBody
