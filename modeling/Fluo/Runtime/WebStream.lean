import Fluo.Lib.Runs
import Fluo.Lib.Slots
/-!
# Streams in web responses

`dispatchWebRequest` for a handler that writes to `response.stream` or returns an async iterable from an `@Sse`
route: `WebResponseStream` over a `ReadableStream`, `writeManagedSseIterable` with its `SseResponse`, and
`toResponse`, with the client that reads the body or cancels it.
-/

namespace Fluo.Runtime.Web
open Fluo.Lib

inductive Listener
  /-- Of the handler. -/
  | user (f : Nat)
  /-- `onAbort` of the `SseResponse` -/
  | sse
  /-- What stops one reading of the iterator. -/
  | stop (turn : Nat)
deriving DecidableEq

/-- A listener that `onClose` was called with, unless it was there. -/
structure Registration where
  listener : Listener
  isRemoved : Bool := false
  calls : Nat := 0
deriving DecidableEq

inductive Readable
  | readable
  /-- `controller.close` was called: the body ends after what is queued. -/
  | closed
  | cancelled
deriving DecidableEq

/-- A `WebResponseStream`; `markedActive` is also the `streamActive` of the response. -/
structure ResponseStream (Chunk : Type) where
  markedActive : Bool := false
  markedClosed : Bool := false
  registrations : List Registration := []
  closeListeners : List Nat := []
  /-- `emitClose` goes through the listeners. -/
  isEmitting : Bool := false
  readable : Readable := .readable
  queue : List Chunk := []
  received : List Chunk := []
  /-- What `write` has returned true for. -/
  written : List Chunk := []

namespace ResponseStream
variable {Chunk : Type}

def activate (s : ResponseStream Chunk) : ResponseStream Chunk := { s with markedActive := true }

def write (s : ResponseStream Chunk) (chunk : Chunk) : ResponseStream Chunk × Bool :=
  let s := s.activate
  if s.markedClosed then (s, false) else ({ s with queue := s.queue ++ [chunk], written := s.written ++ [chunk] }, true)

/-- `controller.close` throws where the stream is not readable, and then no listener is called. -/
def close (s : ResponseStream Chunk) : ResponseStream Chunk :=
  let s := s.activate
  if s.markedClosed then s
  else if s.readable = .readable then { s with markedClosed := true, readable := .closed, isEmitting := !s.closeListeners.isEmpty }
  else { s with markedClosed := true }

/-- The client cancels the body. -/
def cancel (s : ResponseStream Chunk) : ResponseStream Chunk := { s with readable := .cancelled, queue := [] }.close

def isListener (s : ResponseStream Chunk) (listener : Listener) (i : Nat) : Bool := s.registrations[i]?.any (·.listener = listener)

def onClose (s : ResponseStream Chunk) (listener : Listener) : ResponseStream Chunk :=
  if s.markedClosed then { s with registrations := s.registrations ++ [{ listener, calls := 1 }] }
  else if s.closeListeners.any (s.isListener listener) then s
  else { s with registrations := s.registrations ++ [{ listener }], closeListeners := s.closeListeners ++ [s.registrations.length] }

/-- The function that `onClose` has returned. -/
def removeListener (s : ResponseStream Chunk) (listener : Listener) : ResponseStream Chunk :=
  { s with
    registrations := s.registrations.mapIdx fun i r => if i ∈ s.closeListeners ∧ r.listener = listener then { r with isRemoved := true } else r
    closeListeners := s.closeListeners.filter fun i => !s.isListener listener i }

/-- `emitClose` calls its next listener, and no other where that throws. -/
def callListener (s : ResponseStream Chunk) (throws : Bool) : Option (ResponseStream Chunk × Listener) :=
  match s.isEmitting, s.closeListeners with
  | true, i :: rest => s.registrations[i]?.map fun r =>
    ({ s with
      registrations := s.registrations.set i { r with calls := r.calls + 1 }
      closeListeners := rest
      isEmitting := !(throws || rest.isEmpty) }, r.listener)
  | _, _ => none

/-- The client reads the next chunk. -/
def read (s : ResponseStream Chunk) : Option (ResponseStream Chunk) :=
  match s.queue with
  | chunk :: queue => some { s with queue, received := s.received ++ [chunk] }
  | [] => none

end ResponseStream

inductive Phase
  /-- The handler has not settled. -/
  | handling
  /-- `readManagedSseNext` -/
  | reading
  | draining
  /-- The dispatch goes on to its end. -/
  | responding
  | returned
  | rejected
deriving DecidableEq

inductive Body
  | stream
  | plain
deriving DecidableEq

structure State (Chunk : Type) where
  stream : ResponseStream Chunk := {}
  phase : Phase := .handling
  statusCode : Option Nat := none
  signalAborted : Bool := false
  /-- The `SseResponse` of an iterable, and whether it is closed. -/
  sse : Option Bool := none
  turn : Nat := 0
  /-- A close listener has stopped the reading. -/
  stopped : Bool := false
  /-- The body of the native `Response` that was returned. -/
  native : Option Body := none

inductive Label (Chunk : Type)
  /-- The handler writes, or work that it has left running. -/
  | write (chunk : Chunk)
  | flush
  | close
  | onClose (f : Nat)
  | removeListener (f : Nat)
  | setStatus (code : Nat)
  /-- The handler settles, or the request fails before it. -/
  | respond (isIterable : Bool)
  /-- The iterator gives a frame. -/
  | frame (chunk : Chunk)
  | drained
  /-- The iterator is done, or fails. -/
  | done
  /-- The reading was aborted. -/
  | stop
  | callListener (throws : Bool)
  | abort
  /-- `dispatchWebRequest` returns. -/
  | finish
  | read
  | cancel

/-- `isResponseBodyForbidden` -/
def isResponseBodyForbidden (status : Nat) : Bool := status = 204 || status = 205 || status = 304

namespace State
variable {Chunk : Type}

def setStream (s : State Chunk) (stream : ResponseStream Chunk) : State Chunk := { s with stream }

/-- `SseResponse.close` -/
def closeSse (s : State Chunk) : State Chunk :=
  if s.sse = some false then
    let stream := s.stream.removeListener .sse
    { s with sse := some true, stream := if stream.markedClosed then stream else stream.close }
  else s

/-- What a close listener does. -/
def runListener (s : State Chunk) : Listener → State Chunk
  | .user _ => s
  | .sse => s.closeSse
  | .stop turn => if s.turn = turn then { s with stopped := true } else s

/-- `new SseResponse` -/
def createSse (s : State Chunk) : State Chunk :=
  let s := { s with sse := some false, statusCode := s.statusCode <|> some 200, stream := s.stream.activate }
  if s.signalAborted then s.closeSse
  else
    let s := s.setStream (s.stream.onClose .sse)
    if s.stream.markedClosed then s.closeSse else s

/-- The end of `writeManagedSseIterable`. -/
def endManaged (s : State Chunk) : State Chunk := { s.closeSse with phase := .responding }

/-- The head of its loop, to `iterator.next`. -/
def readNext (s : State Chunk) : State Chunk :=
  if s.signalAborted then s.endManaged
  else
    { s with
      phase := .reading
      turn := s.turn + 1
      stopped := s.stream.markedClosed
      stream := if s.stream.markedClosed then s.stream else s.stream.onClose (.stop (s.turn + 1)) }

/-- What has stopped the reading is taken off. -/
def cleanUp (s : State Chunk) : State Chunk := s.setStream (s.stream.removeListener (.stop s.turn))

/-- `SseResponse.send`, and the rest of the loop. -/
def sendFrame (s : State Chunk) (chunk : Chunk) : State Chunk :=
  if s.sse = some true then { s with phase := .draining, stream := s.stream.activate }
  else if s.stream.markedClosed then { s.closeSse with phase := .draining }
  else (s.setStream (s.stream.write chunk).1).readNext

/-- The handler has returned. -/
def respond (s : State Chunk) (isIterable : Bool) : State Chunk :=
  if isIterable && !s.signalAborted then s.createSse.readNext else { s with phase := .responding }

/-- `toResponse` throws where a stream has a status that forbids a body. -/
def finish (s : State Chunk) : State Chunk :=
  if s.stream.markedActive && isResponseBodyForbidden (s.statusCode.getD 200) then { s with phase := .rejected }
  else { s with phase := .returned, native := some (if s.stream.markedActive then .stream else .plain) }

def abort (s : State Chunk) : State Chunk := { s with signalAborted := true }.closeSse

end State

variable {Chunk : Type}

def step (s : State Chunk) : Label Chunk → Option (State Chunk)
  | .write chunk => some (s.setStream (s.stream.write chunk).1)
  | .flush => some (s.setStream s.stream.activate)
  | .close => some (s.setStream s.stream.close)
  | .onClose f => some (s.setStream (s.stream.onClose (.user f)))
  | .removeListener f => some (s.setStream (s.stream.removeListener (.user f)))
  | .setStatus code => some { s with statusCode := some code }
  | .respond isIterable => if s.phase = .handling then some (s.respond isIterable) else none
  | .frame chunk => if s.phase = .reading then some (s.cleanUp.sendFrame chunk) else none
  | .drained => if s.phase = .draining then some s.readNext else none
  | .done => if s.phase = .reading then some s.cleanUp.endManaged else none
  | .stop => if s.phase = .reading ∧ (s.stopped || s.signalAborted) = true then some s.cleanUp.endManaged else none
  | .callListener throws => (s.stream.callListener throws).map fun (stream, listener) => (s.setStream stream).runListener listener
  | .abort => if s.signalAborted then none else some s.abort
  | .finish => if s.phase = .responding then some s.finish else none
  | .read => if s.native = some .stream then s.stream.read.map s.setStream else none
  | .cancel =>
    if s.native = some .stream ∧ (s.stream.readable = .readable ∨ s.stream.readable = .closed ∧ s.stream.queue ≠ []) then
      some (s.setStream s.stream.cancel)
    else none

/-! ## When it streams -/

/-- The iterable is at its end, or the handler has closed the stream. -/
def State.sourceEnded (s : State Chunk) : Bool :=
  if s.sse.isSome then s.phase ≠ .reading && s.phase ≠ .draining else s.stream.readable = .closed

/-- Nothing is written before the response was returned with the stream as its body; the client does not cancel a stream that has close listeners; and no
close listener throws before the last. -/
def Sound (s : State Chunk) : Label Chunk → Bool
  | .write _ => s.stream.markedClosed || s.native = some .stream
  | .frame _ => s.stream.markedClosed || s.sse = some true
  | .cancel => s.stream.markedClosed || s.stream.closeListeners.isEmpty
  | .callListener throws => !throws || s.stream.closeListeners.length ≤ 1
  | _ => true

structure Fine (s : State Chunk) : Prop where
  returned  : s.stream.written ≠ [] → s.sourceEnded = false → s.native ≠ none
  delivered : s.native = some .stream → s.stream.received <+: s.stream.written ∧
    (s.stream.readable ≠ .cancelled → s.stream.received ++ s.stream.queue = s.stream.written)
  plain     : s.native = some .plain → s.stream.written = []
  notified  : s.stream.readable ≠ .readable → s.stream.isEmitting = false → ∀ r ∈ s.stream.registrations, r.isRemoved = false → r.calls = 1
  once      : ∀ r ∈ s.stream.registrations, r.calls ≤ 1
  refused   : s.stream.readable ≠ .readable → ∀ chunk, (s.stream.write chunk).2 = false

/-! ## The stream -/

structure ResponseStream.Ok (s : ResponseStream Chunk) : Prop where
  closed   : s.markedClosed = true ↔ s.readable ≠ .readable
  emitting : s.isEmitting = true → s.markedClosed = true
  idle     : s.markedClosed = true → s.isEmitting = false → s.closeListeners = []
  nodup    : s.closeListeners.Nodup
  bound    : ∀ i ∈ s.closeListeners, i < s.registrations.length
  waiting  : ∀ (i : Nat) r, s.registrations[i]? = some r → i ∈ s.closeListeners → r.calls = 0 ∧ r.isRemoved = false
  over_    : ∀ (i : Nat) r, s.registrations[i]? = some r → i ∉ s.closeListeners → r.calls ≤ 1 ∧ (r.isRemoved = true ∨ r.calls = 1)
  body     : s.readable ≠ .cancelled → s.received ++ s.queue = s.written
  received : s.received <+: s.written
  dropped  : s.readable = .cancelled → s.queue = []

namespace ResponseStream
variable {s : ResponseStream Chunk}

theorem Ok.empty : Ok ({} : ResponseStream Chunk) := ⟨by simp, by simp, by simp, by simp, by simp, by simp, by simp, by simp, by simp, by simp⟩

theorem Ok.activate (h : s.Ok) : s.activate.Ok :=
  ⟨h.closed, h.emitting, h.idle, h.nodup, h.bound, h.waiting, h.over_, h.body, h.received, h.dropped⟩

theorem Ok.write (h : s.Ok) (chunk : Chunk) : (s.write chunk).1.Ok := by
  unfold ResponseStream.write
  dsimp only
  split
  · exact h.activate
  · next hopen =>
    have hlive : s.readable ≠ .cancelled := fun hcancelled => hopen (h.closed.2 (by simp [hcancelled]))
    refine ⟨h.closed, h.emitting, h.idle, h.nodup, h.bound, h.waiting, h.over_, fun _ => ?_, h.received.trans (List.prefix_append _ _),
      fun hcancelled => absurd hcancelled hlive⟩
    simp [ResponseStream.activate, ← h.body hlive]

theorem Ok.close (h : s.Ok) : s.close.Ok := by
  unfold ResponseStream.close
  dsimp only
  split
  · exact h.activate
  · next hopen =>
    have hreadable : s.readable = .readable := by
      by_contra hne
      exact hopen (h.closed.2 hne)
    rw [if_pos (show s.activate.readable = .readable from hreadable)]
    refine ⟨by simp, by simp, fun _ hidle => ?_, h.nodup, h.bound, h.waiting, h.over_, fun _ => h.body (by simp [hreadable]), h.received, by simp⟩
    simpa using hidle

theorem Ok.cancel (h : s.Ok) (hsound : s.markedClosed = true ∨ s.closeListeners = []) : s.cancel.Ok := by
  unfold ResponseStream.cancel ResponseStream.close
  dsimp only [ResponseStream.activate]
  split
  · next hclosed => exact ⟨by simpa using hclosed, h.emitting, h.idle, h.nodup, h.bound, h.waiting, h.over_, by simp, h.received, fun _ => rfl⟩
  · next hopen =>
    have hnone := hsound.resolve_left hopen
    exact ⟨by simp, fun _ => rfl, fun _ _ => hnone, h.nodup, h.bound, h.waiting, h.over_, by simp, h.received, fun _ => rfl⟩

theorem Ok.onClose (h : s.Ok) (listener : Listener) : (s.onClose listener).Ok := by
  have hfresh : s.registrations.length ∉ s.closeListeners := fun hmem => Nat.lt_irrefl _ (h.bound _ hmem)
  have hlt {i : Nat} {r : Registration} (hi : s.registrations[i]? = some r) : i < s.registrations.length := (List.getElem?_eq_some_iff.1 hi).1
  unfold ResponseStream.onClose
  split
  · refine ⟨h.closed, h.emitting, h.idle, h.nodup, fun i hi => ?_, fun i r hi hmem => ?_, fun i r hi hmem => ?_, h.body, h.received, h.dropped⟩
    · have := h.bound i hi
      simp only [List.length_append, List.length_singleton]
      omega
    · rcases getElem?_concat_iff.1 hi with ⟨rfl, rfl⟩ | hi
      · exact absurd hmem hfresh
      · exact h.waiting i r hi hmem
    · rcases getElem?_concat_iff.1 hi with ⟨rfl, rfl⟩ | hi
      · exact ⟨Nat.le_refl 1, .inr rfl⟩
      · exact h.over_ i r hi hmem
  · next hopen =>
    split
    · exact h
    · refine ⟨h.closed, h.emitting, fun hclosed => absurd hclosed hopen, ?_, fun i hi => ?_, fun i r hi hmem => ?_, fun i r hi hmem => ?_, h.body,
        h.received, h.dropped⟩
      · exact List.nodup_append.2 ⟨h.nodup, by simp, fun a ha b hb => by rintro rfl; exact hfresh (List.mem_singleton.1 hb ▸ ha)⟩
      · simp only [List.length_append, List.length_singleton]
        rcases List.mem_append.1 hi with hi | hi
        · have := h.bound i hi
          omega
        · rw [List.mem_singleton.1 hi]
          omega
      · rcases getElem?_concat_iff.1 hi with ⟨rfl, rfl⟩ | hi
        · exact ⟨rfl, rfl⟩
        · have hmem : i ∈ s.closeListeners := by
            rcases List.mem_append.1 hmem with hmem | hmem
            · exact hmem
            · exact absurd (List.mem_singleton.1 hmem) (Nat.ne_of_lt (hlt hi))
          exact h.waiting i r hi hmem
      · rcases getElem?_concat_iff.1 hi with ⟨rfl, rfl⟩ | hi
        · exact absurd (List.mem_append_right _ (List.mem_singleton_self _)) hmem
        · exact h.over_ i r hi fun hmem' => hmem (List.mem_append_left _ hmem')

theorem Ok.removeListener (h : s.Ok) (listener : Listener) : (s.removeListener listener).Ok := by
  have hget {i : Nat} {r : Registration} (hi : (s.removeListener listener).registrations[i]? = some r) : ∃ before, s.registrations[i]? = some before ∧
      r = if i ∈ s.closeListeners ∧ before.listener = listener then { before with isRemoved := true } else before := by
    simp only [ResponseStream.removeListener, List.getElem?_mapIdx, Option.map_eq_some_iff] at hi
    obtain ⟨before, hbefore, rfl⟩ := hi
    exact ⟨before, hbefore, rfl⟩
  have hmem {i : Nat} {r : Registration} (hi : s.registrations[i]? = some r) :
      i ∈ (s.removeListener listener).closeListeners ↔ i ∈ s.closeListeners ∧ r.listener ≠ listener := by
    simp [ResponseStream.removeListener, ResponseStream.isListener, hi]
  refine ⟨h.closed, h.emitting, fun hclosed hidle => ?_, h.nodup.filter _, fun i hi => ?_, fun i r hi hwaiting => ?_, fun i r hi hover => ?_, h.body,
    h.received, h.dropped⟩
  · simp [ResponseStream.removeListener, h.idle hclosed hidle]
  · simpa [ResponseStream.removeListener] using h.bound i (List.mem_filter.1 hi).1
  · obtain ⟨before, hbefore, rfl⟩ := hget hi
    obtain ⟨hwaiting, hother⟩ := (hmem hbefore).1 hwaiting
    rw [if_neg fun hboth => hother hboth.2]
    exact h.waiting i before hbefore hwaiting
  · obtain ⟨before, hbefore, rfl⟩ := hget hi
    by_cases hwaiting : i ∈ s.closeListeners
    · have hlistener : before.listener = listener := by
        by_contra hother
        exact hover ((hmem hbefore).2 ⟨hwaiting, hother⟩)
      rw [if_pos ⟨hwaiting, hlistener⟩]
      exact ⟨by simp [(h.waiting i before hbefore hwaiting).1], .inl rfl⟩
    · rw [if_neg fun hboth => hwaiting hboth.1]
      exact h.over_ i before hbefore hwaiting

theorem Ok.callListener (h : s.Ok) {throws : Bool} (hsound : throws = true → s.closeListeners.length ≤ 1) {s' : ResponseStream Chunk} {listener : Listener}
    (hstep : s.callListener throws = some (s', listener)) : s'.Ok := by
  unfold ResponseStream.callListener at hstep
  split at hstep
  · next i rest hemitting hlisteners =>
    obtain ⟨r, hi, heq⟩ := Option.map_eq_some_iff.1 hstep
    cases heq
    have hnodup : i ∉ rest ∧ rest.Nodup := List.nodup_cons.1 (hlisteners ▸ h.nodup)
    have hin {j : Nat} (hj : j ∈ rest) : j ∈ s.closeListeners := hlisteners ▸ List.mem_cons_of_mem i hj
    refine ⟨h.closed, fun _ => h.emitting hemitting, fun _ hidle => ?_, hnodup.2, fun j hj => ?_, fun j other hj hwaiting => ?_, fun j other hj hover => ?_,
      h.body, h.received, h.dropped⟩
    · -- the listener that throws is the last
      cases rest with
      | nil => rfl
      | cons j rest =>
        have hthrows : throws = true := by simpa using hidle
        have := hsound hthrows
        simp [hlisteners] at this
    · simpa using h.bound j (hin hj)
    · rcases (getElem?_set_iff hi).1 hj with ⟨rfl, rfl⟩ | ⟨-, hj⟩
      · exact absurd hwaiting hnodup.1
      · exact h.waiting j other hj (hin hwaiting)
    · rcases (getElem?_set_iff hi).1 hj with ⟨rfl, rfl⟩ | ⟨hji, hj⟩
      · have hzero := (h.waiting j r hi (hlisteners ▸ List.mem_cons_self)).1
        simp [hzero]
      · apply h.over_ j other hj
        rw [hlisteners, List.mem_cons, not_or]
        exact ⟨hji, hover⟩
  · cases hstep

theorem Ok.read (h : s.Ok) {s' : ResponseStream Chunk} (hstep : s.read = some s') : s'.Ok := by
  unfold ResponseStream.read at hstep
  split at hstep
  · next chunk queue hqueue =>
    cases hstep
    have hlive : s.readable ≠ .cancelled := by
      intro hcancelled
      rw [h.dropped hcancelled] at hqueue
      cases hqueue
    have hbody : (s.received ++ [chunk]) ++ queue = s.written := by simpa [hqueue] using h.body hlive
    exact ⟨h.closed, h.emitting, h.idle, h.nodup, h.bound, h.waiting, h.over_, fun _ => hbody, ⟨queue, hbody⟩, fun hcancelled => absurd hcancelled hlive⟩
  · cases hstep

end ResponseStream

/-! ## The dispatch -/

structure Keeps (s s' : State Chunk) : Prop where
  stream  : s.stream.Ok → s'.stream.Ok
  written : s'.stream.written = s.stream.written
  native  : s'.native = s.native

namespace Keeps
variable {s s' s'' : State Chunk}

theorem rfl : Keeps s s := ⟨id, .refl _, .refl _⟩

theorem trans (h : Keeps s s') (h' : Keeps s' s'') : Keeps s s'' :=
  ⟨h'.stream ∘ h.stream, h'.written.trans h.written, h'.native.trans h.native⟩

theorem close (s : ResponseStream Chunk) : s.close.written = s.written := by
  unfold ResponseStream.close
  dsimp only
  split
  · exact .refl _
  · split <;> exact .refl _

theorem onClose (s : ResponseStream Chunk) (listener : Listener) : (s.onClose listener).written = s.written := by
  unfold ResponseStream.onClose
  split
  · exact .refl _
  · split <;> exact .refl _

theorem closeSse (s : State Chunk) : Keeps s s.closeSse := by
  unfold State.closeSse
  split
  · refine ⟨fun h => ?_, ?_, .refl _⟩
    · dsimp only
      split
      · exact h.removeListener _
      · exact (h.removeListener _).close
    · dsimp only
      split
      · exact .refl _
      · exact close _
  · exact rfl

theorem runListener (s : State Chunk) (listener : Listener) : Keeps s (s.runListener listener) := by
  cases listener with
  | user f => exact rfl
  | sse => exact closeSse s
  | stop turn =>
    unfold State.runListener
    dsimp only
    split
    · exact ⟨id, .refl _, .refl _⟩
    · exact rfl

theorem createSse (s : State Chunk) : Keeps s s.createSse := by
  unfold State.createSse
  dsimp only
  have hstart : Keeps s { s with sse := some false, statusCode := s.statusCode <|> some 200, stream := s.stream.activate } :=
    ⟨fun h => h.activate, .refl _, .refl _⟩
  split
  · exact hstart.trans (closeSse _)
  · have hlisten : Keeps s (State.setStream { s with sse := some false, statusCode := s.statusCode <|> some 200, stream := s.stream.activate }
        (s.stream.activate.onClose .sse)) := ⟨fun h => h.activate.onClose _, onClose _ _, .refl _⟩
    split
    · exact hlisten.trans (closeSse _)
    · exact hlisten

theorem endManaged (s : State Chunk) : Keeps s s.endManaged :=
  ⟨(closeSse s).stream, (closeSse s).written, (closeSse s).native⟩

theorem readNext (s : State Chunk) : Keeps s s.readNext := by
  unfold State.readNext
  split
  · exact endManaged s
  · refine ⟨fun h => ?_, ?_, .refl _⟩
    · dsimp only
      split
      · exact h
      · exact h.onClose _
    · dsimp only
      split
      · exact .refl _
      · exact onClose _ _

theorem cleanUp (s : State Chunk) : Keeps s s.cleanUp := ⟨fun h => h.removeListener _, .refl _, .refl _⟩

theorem sendFrame (s : State Chunk) {chunk : Chunk} (hclosed : s.stream.markedClosed = true ∨ s.sse = some true) : Keeps s (s.sendFrame chunk) := by
  unfold State.sendFrame
  split
  · exact ⟨fun h => h.activate, .refl _, .refl _⟩
  · next hopen =>
    rw [if_pos (hclosed.resolve_right hopen)]
    exact ⟨(closeSse s).stream, (closeSse s).written, (closeSse s).native⟩

end Keeps

structure Ok (s : State Chunk) : Prop where
  stream  : s.stream.Ok
  native  : s.native ≠ none → s.phase = .returned
  written : s.stream.written ≠ [] → s.native = some .stream

variable {s s' : State Chunk}

theorem Ok.empty : Ok ({} : State Chunk) := ⟨.empty, by simp, by simp⟩

theorem Ok.fine (h : Ok s) : Fine s where
  returned hwritten _ hnone := by
    rw [h.written hwritten] at hnone
    cases hnone
  delivered _ := ⟨h.stream.received, h.stream.body⟩
  plain hplain := by
    by_contra hwritten
    rw [h.written hwritten] at hplain
    cases hplain
  notified hclosed hidle r hr hkept := by
    obtain ⟨i, hi⟩ := List.mem_iff_getElem?.1 hr
    have hnone := h.stream.idle (h.stream.closed.2 hclosed) hidle
    exact (h.stream.over_ i r hi (by simp [hnone])).2.resolve_left (by simp [hkept])
  once r hr := by
    obtain ⟨i, hi⟩ := List.mem_iff_getElem?.1 hr
    by_cases hwaiting : i ∈ s.stream.closeListeners
    · have := (h.stream.waiting i r hi hwaiting).1
      omega
    · exact (h.stream.over_ i r hi hwaiting).1
  refused hclosed chunk := by simp [ResponseStream.write, ResponseStream.activate, h.stream.closed.2 hclosed]

theorem Ok.keeps (h : Ok s) (hk : Keeps s s') (hphase : s.native ≠ none → s'.phase = .returned) : Ok s' where
  stream := hk.stream h.stream
  native hnative := hphase (hk.native ▸ hnative)
  written hwritten := hk.native.trans (h.written (hk.written ▸ hwritten))

theorem Ok.native_none (h : Ok s) (hphase : s.phase ≠ .returned) : s.native = none := by
  by_contra hnative
  exact hphase (h.native hnative)

theorem phase_closeSse (s : State Chunk) : s.closeSse.phase = s.phase := by
  unfold State.closeSse
  split <;> rfl

theorem phase_runListener (s : State Chunk) (listener : Listener) : (s.runListener listener).phase = s.phase := by
  cases listener with
  | user f => rfl
  | sse => exact phase_closeSse s
  | stop turn =>
    simp only [State.runListener]
    split <;> rfl

theorem step_ok {l : Label Chunk} (h : Ok s) (hs : Sound s l = true) (hstep : step s l = some s') : Ok s' := by
  have hbefore (hphase : s.phase ≠ .returned) (hk : Keeps s s') : Ok s' :=
    h.keeps hk fun hnative => absurd (h.native_none hphase) hnative
  cases l with
  | write chunk =>
    cases hstep
    refine ⟨h.stream.write chunk, h.native, fun hwritten => ?_⟩
    cases hclosed : s.stream.markedClosed with
    | true => exact h.written (by simpa [State.setStream, ResponseStream.write, ResponseStream.activate, hclosed] using hwritten)
    | false => exact (by simpa [Sound, hclosed] using hs : s.native = some .stream)
  | flush => cases hstep; exact h.keeps ⟨fun h => h.activate, rfl, rfl⟩ h.native
  | close => cases hstep; exact h.keeps ⟨fun h => h.close, Keeps.close _, rfl⟩ h.native
  | onClose f => cases hstep; exact h.keeps ⟨fun h => h.onClose _, Keeps.onClose _ _, rfl⟩ h.native
  | removeListener f => cases hstep; exact h.keeps ⟨fun h => h.removeListener _, rfl, rfl⟩ h.native
  | setStatus code => cases hstep; exact h.keeps ⟨id, rfl, rfl⟩ h.native
  | respond isIterable =>
    simp only [step] at hstep
    split at hstep
    · next hphase =>
      cases hstep
      refine hbefore (by simp [hphase]) ?_
      unfold State.respond
      split
      · exact (Keeps.createSse s).trans (Keeps.readNext _)
      · exact ⟨id, rfl, rfl⟩
    · cases hstep
  | frame chunk =>
    simp only [step] at hstep
    split at hstep
    · next hphase =>
      cases hstep
      refine hbefore (by simp [hphase]) ((Keeps.cleanUp s).trans (Keeps.sendFrame _ ?_))
      exact (by simpa [Sound] using hs : s.stream.markedClosed = true ∨ s.sse = some true)
    · cases hstep
  | drained =>
    simp only [step] at hstep
    split at hstep
    · next hphase => cases hstep; exact hbefore (by simp [hphase]) (Keeps.readNext s)
    · cases hstep
  | done =>
    simp only [step] at hstep
    split at hstep
    · next hphase => cases hstep; exact hbefore (by simp [hphase]) ((Keeps.cleanUp s).trans (Keeps.endManaged _))
    · cases hstep
  | stop =>
    simp only [step] at hstep
    split at hstep
    · next hphase => cases hstep; exact hbefore (by simp [hphase.1]) ((Keeps.cleanUp s).trans (Keeps.endManaged _))
    · cases hstep
  | callListener throws =>
    simp only [step] at hstep
    obtain ⟨⟨stream, listener⟩, hcall, rfl⟩ := Option.map_eq_some_iff.1 hstep
    have hsound : throws = true → s.stream.closeListeners.length ≤ 1 := by
      intro hthrows
      simpa [Sound, hthrows] using hs
    have hwritten : stream.written = s.stream.written := by
      unfold ResponseStream.callListener at hcall
      split at hcall
      · obtain ⟨r, -, heq⟩ := Option.map_eq_some_iff.1 hcall
        cases heq
        rfl
      · cases hcall
    have hcalled : Ok (s.setStream stream) := ⟨h.stream.callListener hsound hcall, h.native, fun hne => h.written (hwritten ▸ hne)⟩
    exact hcalled.keeps (Keeps.runListener _ _) fun hnative => (phase_runListener _ _).trans (hcalled.native hnative)
  | abort =>
    simp only [step] at hstep
    split at hstep <;> cases hstep
    have hclose := Keeps.closeSse { s with signalAborted := true }
    have hk : Keeps s s.abort := ⟨hclose.stream, hclose.written, hclose.native⟩
    exact h.keeps hk fun hnative => (phase_closeSse _).trans (h.native hnative)
  | finish =>
    simp only [step] at hstep
    split at hstep
    · next hphase =>
      cases hstep
      have hnone := h.native_none (by simp [hphase])
      have hempty : s.stream.written = [] := by
        by_contra hwritten
        rw [h.written hwritten] at hnone
        cases hnone
      unfold State.finish
      split
      · exact ⟨h.stream, fun hnative => absurd hnone hnative, fun hwritten => absurd hempty hwritten⟩
      · exact ⟨h.stream, fun _ => rfl, fun hwritten => absurd hempty hwritten⟩
    · cases hstep
  | read =>
    simp only [step] at hstep
    split at hstep
    · next hnative =>
      obtain ⟨stream, hread, rfl⟩ := Option.map_eq_some_iff.1 hstep
      exact ⟨h.stream.read hread, h.native, fun _ => hnative⟩
    · cases hstep
  | cancel =>
    simp only [step] at hstep
    split at hstep
    · next hat =>
      cases hstep
      exact ⟨h.stream.cancel (by simpa [Sound] using hs), h.native, fun _ => hat.1⟩
    · cases hstep

/-- Where nothing is written before the response was returned, no stream with listeners is cancelled, and no listener throws before the last, the body is
streamed as it is written, and every listener is called once. -/
theorem web_streaming {ls : List (Label Chunk)} {s : State Chunk} (h : Run step (fun s l => Sound s l) {} ls s) : Fine s :=
  (h.keeps Ok (fun _ _ _ hs hok hstep => step_ok hok hs hstep) .empty).fine

/-- Work that the handler has left running writes two chunks, of which one is read, and closes. -/
private def leftRunning : List (Label String) :=
  [.flush, .onClose 0, .onClose 1, .respond false, .finish, .write "a", .write "b", .read, .removeListener 1, .close, .callListener false, .read]

theorem web_streaming_leftRunning : Fine (Lib.after step {} leftRunning) :=
  web_streaming (Run.of_passes (p := Sound) (fun _ _ h => h) (show Lib.passes step Sound {} leftRunning = true by decide))

private def iterable : List (Label String) := [.respond true, .frame "a"]

private def cancelled : List (Label String) := [.flush, .onClose 0, .respond false, .finish, .cancel]

/-- A frame of an iterable is written before the response is there, and no listener is told of a body that was cancelled. -/
theorem web_not_streaming : (∃ s, Run step (fun _ _ => True) ({} : State String) iterable s ∧ ¬Fine s) ∧
    ∃ s, Run step (fun _ _ => True) ({} : State String) cancelled s ∧ ¬Fine s := by
  refine ⟨⟨Lib.after step {} iterable, Run.of_passes (p := fun _ _ => true) (fun _ _ _ => trivial) (by decide), fun h => ?_⟩,
    Lib.after step {} cancelled, Run.of_passes (p := fun _ _ => true) (fun _ _ _ => trivial) (by decide), fun h => ?_⟩
  · exact h.returned (by decide) (by decide) (by decide)
  · exact absurd (h.notified (by decide) (by decide) { listener := .user 0 } (by decide) (by decide)) (by decide)

end Fluo.Runtime.Web
