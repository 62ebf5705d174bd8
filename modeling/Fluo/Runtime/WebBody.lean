import Fluo.Lib.Runs
/-!
# Reading a request body within a limit

`readByteLimitedStream` of `web.ts` over a stream of chunks: `reader.read` and `reader.cancel` settle one after the
other, and the bytes that were read are copied into one array at the end of the stream.
-/

namespace Fluo.Runtime.WebBody
open Fluo.Lib

/-- A `Uint8Array`. -/
abbrev Bytes := List UInt8

inductive Failure
  /-- `Uint8Array.prototype.set` -/
  | rangeError
  | payloadTooLarge (status : Nat) (message : String)
deriving DecidableEq

def requestBodyLimitMessage : String := "Request body exceeds the size limit."

def payloadTooLargeException (message : String) : Failure := .payloadTooLarge 413 message

/-- `rawBody.set(chunk, offset)` -/
def set (rawBody chunk : Bytes) (offset : Nat) : Except Failure Bytes :=
  if offset + chunk.length ≤ rawBody.length then
    .ok (rawBody.take offset ++ chunk ++ rawBody.drop (offset + chunk.length))
  else .error .rangeError

def concatUint8Arrays (chunks : List Bytes) (totalSize : Nat) : Except Failure Bytes :=
  let rawBody : Bytes := List.replicate totalSize 0
  go rawBody 0 chunks
where
  go (rawBody : Bytes) (offset : Nat) : List Bytes → Except Failure Bytes
    | [] => .ok rawBody
    | chunk :: rest => do go (← set rawBody chunk offset) (offset + chunk.length) rest

/-- A `ReadableStream` with the chunks it has left. -/
structure Stream where
  chunks : List Bytes
  isLocked : Bool := false
  /-- The reason it was cancelled with. -/
  cancelled : Option String := none

inductive Phase
  /-- `await reader.read()` -/
  | reading
  /-- `await reader.cancel(REQUEST_BODY_LIMIT_MESSAGE)` -/
  | cancelling
  | settled (outcome : Except Failure Bytes)
deriving DecidableEq

structure State where
  stream : Stream
  chunks : List Bytes := []
  totalSize : Nat := 0
  phase : Phase := .reading

/-- The call of `readByteLimitedStream`, up to its first `await`. -/
def start (stream : List Bytes) : State := { stream := { chunks := stream, isLocked := true } }

inductive Label
  /-- The pending `read` settles. -/
  | read
  /-- The pending `cancel` settles. -/
  | cancel

def State.releaseLock (s : State) : State := { s with stream := { s.stream with isLocked := false } }

def step (maxBodySize : Nat) (s : State) : Label → Option State
  | .read =>
    match s.phase, s.stream.chunks with
    | .reading, [] => some { s.releaseLock with phase := .settled (concatUint8Arrays s.chunks s.totalSize) }
    | .reading, value :: rest =>
      let s := { s with stream := { s.stream with chunks := rest }, totalSize := s.totalSize + value.length }
      -- `cancel` drops what the stream still holds, before it settles
      if s.totalSize > maxBodySize then
        some { s with
          stream := { s.stream with chunks := [], cancelled := some requestBodyLimitMessage }
          phase := .cancelling }
      else some { s with chunks := s.chunks ++ [value] }
    | _, _ => none
  | .cancel =>
    if s.phase = .cancelling then
      some { s.releaseLock with phase := .settled (.error (payloadTooLargeException requestBodyLimitMessage)) }
    else none

/-- The bytes in the chunks that were pushed. -/
def State.retained (s : State) : Nat := s.chunks.flatten.length

/-! ## The copy -/

theorem set_eq_ok {front back rest chunk : Bytes} {offset : Nat} (hf : front.length = offset) (hb : back.length = chunk.length) :
    set (front ++ (back ++ rest)) chunk offset = .ok (front ++ chunk ++ rest) := by
  have hle : offset + chunk.length ≤ (front ++ (back ++ rest)).length := by
    simp only [List.length_append]
    omega
  rw [set, if_pos hle, ← hf, ← hb]
  simp [List.drop_append, List.drop_eq_nil_of_le]

theorem concatUint8Arrays.go_eq_ok {chunks : List Bytes} (front : Bytes) {back : Bytes} {offset : Nat} (hf : front.length = offset)
    (hb : back.length = chunks.flatten.length) : go (front ++ back) offset chunks = .ok (front ++ chunks.flatten) := by
  induction chunks generalizing front back offset with
  | nil =>
    have hnil : back = [] := by simpa using hb
    simp [go, hnil]
  | cons chunk rest ih =>
    simp only [List.flatten_cons, List.length_append] at hb
    -- the bytes the chunk replaces, and those behind them
    have hsplit : back = back.take chunk.length ++ back.drop chunk.length := (List.take_append_drop _ _).symm
    have htake : (back.take chunk.length).length = chunk.length := by
      rw [List.length_take]
      omega
    have hdrop : (back.drop chunk.length).length = rest.flatten.length := by
      rw [List.length_drop]
      omega
    rw [go, hsplit, set_eq_ok hf htake]
    show go (front ++ chunk ++ back.drop chunk.length) (offset + chunk.length) rest = _
    rw [ih (front ++ chunk) (by simp [hf]) hdrop, List.append_assoc, List.flatten_cons]

theorem concatUint8Arrays_eq_ok {chunks : List Bytes} {totalSize : Nat} (h : totalSize = chunks.flatten.length) :
    concatUint8Arrays chunks totalSize = .ok chunks.flatten :=
  concatUint8Arrays.go_eq_ok [] rfl (by simp [h])

/-! ## Runs -/

variable {maxBodySize : Nat} {stream : List Bytes}

def Inv (maxBodySize : Nat) (stream : List Bytes) (s : State) : Prop :=
  s.retained ≤ maxBodySize ∧
  match s.phase with
  | .reading => s.stream.isLocked = true ∧ s.stream.cancelled = none ∧ s.totalSize = s.retained ∧ s.chunks ++ s.stream.chunks = stream
  | .cancelling => s.stream.isLocked = true ∧ s.stream.cancelled = some requestBodyLimitMessage ∧ maxBodySize < stream.flatten.length
  | .settled outcome => s.stream.isLocked = false ∧
      (outcome = .ok stream.flatten ∧ s.stream.cancelled = none ∧ stream.flatten.length ≤ maxBodySize ∨
        outcome = .error (payloadTooLargeException requestBodyLimitMessage) ∧
          s.stream.cancelled = some requestBodyLimitMessage ∧ maxBodySize < stream.flatten.length)

def State.left (s : State) : Nat :=
  match s.phase with
  | .reading => s.stream.chunks.length + 2
  | .cancelling => 1
  | .settled _ => 0

theorem inv_start : Inv maxBodySize stream (start stream) := by simp [Inv, State.retained, start]

theorem step_read_cons {s : State} {value : Bytes} {rest : List Bytes} (hp : s.phase = .reading) (hc : s.stream.chunks = value :: rest) :
    step maxBodySize s .read = some
      (if s.totalSize + value.length > maxBodySize then
        { s with
          stream := { s.stream with chunks := [], cancelled := some requestBodyLimitMessage }
          totalSize := s.totalSize + value.length
          phase := .cancelling }
      else
        { s with
          stream := { s.stream with chunks := rest }
          totalSize := s.totalSize + value.length
          chunks := s.chunks ++ [value] }) := by
  simp only [step, hp, hc]
  split <;> rfl

theorem inv_step {s s' : State} {label : Label} (hi : Inv maxBodySize stream s) (h : step maxBodySize s label = some s') :
    Inv maxBodySize stream s' := by
  obtain ⟨hretained, hphase⟩ := hi
  cases label with
  | cancel =>
    simp only [step] at h
    split at h
    · rename_i hp
      cases h
      rw [hp] at hphase
      obtain ⟨-, hcancelled, hlt⟩ := hphase
      exact ⟨hretained, rfl, .inr ⟨rfl, hcancelled, hlt⟩⟩
    · cases h
  | read =>
    cases hp : s.phase with
    | cancelling => simp [step, hp] at h
    | settled outcome => simp [step, hp] at h
    | reading =>
      rw [hp] at hphase
      obtain ⟨hlocked, hcancelled, htotal, hstream⟩ := hphase
      cases hc : s.stream.chunks with
      | nil =>
        -- the end of the stream: every chunk of it was pushed
        simp only [step, hp, hc] at h
        cases h
        have hall : s.chunks = stream := by simpa [hc] using hstream
        have hle : stream.flatten.length ≤ maxBodySize := by simpa [State.retained, hall] using hretained
        refine ⟨hretained, rfl, .inl ⟨?_, hcancelled, hle⟩⟩
        rw [concatUint8Arrays_eq_ok htotal, hall]
      | cons value rest =>
        rw [step_read_cons hp hc] at h
        cases h
        rw [hc] at hstream
        have hlength : stream.flatten.length = s.retained + (value.length + rest.flatten.length) := by
          rw [← hstream]
          simp [State.retained]
        split
        · exact ⟨hretained, hlocked, rfl, by omega⟩
        · rename_i hle
          have hnext : (s.chunks ++ [value]).flatten.length = s.retained + value.length := by simp [State.retained]
          refine ⟨?_, ?_⟩
          · show (s.chunks ++ [value]).flatten.length ≤ maxBodySize
            omega
          · simp only [hp, State.retained]
            exact ⟨hlocked, hcancelled, by rw [hnext, htotal], by simpa using hstream⟩

theorem left_step {s s' : State} {label : Label} (h : step maxBodySize s label = some s') : s'.left + 1 ≤ s.left := by
  cases label with
  | cancel =>
    simp only [step] at h
    split at h
    · rename_i hp
      cases h
      simp [State.left, hp]
    · cases h
  | read =>
    cases hp : s.phase with
    | cancelling => simp [step, hp] at h
    | settled outcome => simp [step, hp] at h
    | reading =>
      cases hc : s.stream.chunks with
      | nil =>
        simp only [step, hp, hc] at h
        cases h
        simp [State.left, hp]
      | cons value rest =>
        rw [step_read_cons hp hc] at h
        cases h
        split
        · simp [State.left, hp]
        · simp [State.left, hp, hc]

theorem progress (s : State) : (∃ outcome, s.phase = .settled outcome) ∨ ∃ label s', step maxBodySize s label = some s' := by
  cases hp : s.phase with
  | settled outcome => exact .inl ⟨outcome, rfl⟩
  | cancelling => exact .inr ⟨.cancel, by simp [step, hp]⟩
  | reading =>
    refine .inr ⟨.read, ?_⟩
    cases hc : s.stream.chunks with
    | nil => simp [step, hp, hc]
    | cons value rest => exact ⟨_, step_read_cons hp hc⟩

end Fluo.Runtime.WebBody
