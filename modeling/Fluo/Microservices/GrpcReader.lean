import Fluo.Lib.Runs
/-!
# The gRPC stream reader

The async iterators over gRPC streams: `callServerStream` on the side of the caller and
`grpcReadableToAsyncIterable` on the side of the server. Events of the stream are pushed, `next()` pulls,
and a buffer and the slot of one waiting call stand between them.
-/

namespace Fluo.Microservices
open Fluo.Lib

variable {α ε : Type}

/-- Where the two readers differ. -/
structure GrpcReader where
  /-- The stream is opened by the first `next()`. -/
  opensLazily : Bool
  abortedText : String
  errorText : String

def callServerStream : GrpcReader := ⟨true, "gRPC server stream aborted.", "gRPC server stream error."⟩

def grpcReadableToAsyncIterable : GrpcReader := ⟨false, "gRPC stream aborted.", "gRPC stream error."⟩

inductive ReaderError (ε : Type)
  | emitted (err : ε)
  | message (text : String)

/-- How a call of `next()` settles. -/
inductive NextResult (α ε : Type)
  | value (data : α)
  | done
  | rejected (error : ReaderError ε)

structure ReaderState (α ε : Type) where
  /-- `aborted` of the signal, where there is one. -/
  signal : Option Bool
  started : Bool := false
  cancelled : Bool := false
  /-- The reader listens to the signal. -/
  listening : Bool := false
  buffer : List α := []
  done : Bool := false
  error : Option (ReaderError ε) := none
  /-- The call that waits. -/
  waiting : Option Nat := none
  /-- Calls of `next()` so far; each is named by its number. -/
  calls : Nat := 0
  settled : List (Nat × NextResult α ε) := []
  arrived : List α := []
  /-- An `end` or `error` event has come. -/
  ended : Bool := false

namespace ReaderState

def finish (state : ReaderState α ε) : ReaderState α ε :=
  { state with done := true, listening := false }

/-- The waiting call, if there is one, settles and leaves the slot. -/
def settleWaiting (state : ReaderState α ε) (result : NextResult α ε) : ReaderState α ε :=
  match state.waiting with
  | none => state
  | some call => { state with waiting := none, settled := state.settled ++ [(call, result)] }

def abort (reader : GrpcReader) (state : ReaderState α ε) : ReaderState α ε :=
  { state.finish with error := some (.message reader.abortedText), cancelled := true }

def onData (state : ReaderState α ε) (data : α) : ReaderState α ε :=
  match state.waiting with
  | some _ => { state.settleWaiting (.value data) with arrived := state.arrived ++ [data] }
  | none => { state with buffer := state.buffer ++ [data], arrived := state.arrived ++ [data] }

def onEnd (state : ReaderState α ε) : ReaderState α ε :=
  { state.finish with ended := true }.settleWaiting .done

/-- `err` is `none` where it is no `Error`. -/
def streamError (reader : GrpcReader) (state : ReaderState α ε) (err : Option ε) : ReaderError ε :=
  if state.signal = some true then .message reader.abortedText else (err.map .emitted).getD (.message reader.errorText)

def onError (reader : GrpcReader) (state : ReaderState α ε) (err : Option ε) : ReaderState α ε :=
  { state.finish with error := some (state.streamError reader err), ended := true }.settleWaiting (.rejected (state.streamError reader err))

def onAbort (reader : GrpcReader) (state : ReaderState α ε) : ReaderState α ε :=
  (state.abort reader).settleWaiting (.rejected (.message reader.abortedText))

def startStream (reader : GrpcReader) (state : ReaderState α ε) : ReaderState α ε :=
  if state.started then state
  else match state.signal with
    | none => { state with started := true }
    | some true => { state with started := true }.abort reader
    | some false => { state with started := true, listening := true }

/-- The call settles at once. -/
def answer (state : ReaderState α ε) (result : NextResult α ε) : ReaderState α ε :=
  { state with calls := state.calls + 1, settled := state.settled ++ [(state.calls, result)] }

/-- `next()` once the stream is open. -/
def pull (state : ReaderState α ε) : ReaderState α ε :=
  match state.buffer with
  | data :: buffer => { state with buffer := buffer }.answer (.value data)
  | [] =>
    match state.error with
    | some error => state.answer (.rejected error)
    | none =>
      if state.done then state.answer .done
      -- A call that waits already is put out of the slot.
      else { state with calls := state.calls + 1, waiting := some state.calls }

def next (reader : GrpcReader) (state : ReaderState α ε) : ReaderState α ε :=
  (state.startStream reader).pull

/-- Only an open stream is cancelled. -/
def return_ (state : ReaderState α ε) : ReaderState α ε :=
  { state.finish with cancelled := state.cancelled || state.started }

/-- A reader as its iterable hands it out. -/
def create (reader : GrpcReader) (signal : Option Bool) : ReaderState α ε :=
  if reader.opensLazily then { signal } else startStream reader { signal }

end ReaderState

inductive ReaderLabel (α ε : Type)
  | data (data : α)
  | end_
  | error (err : Option ε)
  | abort
  | next
  | return_

def ReaderState.step (reader : GrpcReader) (state : ReaderState α ε) : ReaderLabel α ε → Option (ReaderState α ε)
  | .data data => if state.started then some (state.onData data) else none
  | .end_ => if state.started then some state.onEnd else none
  | .error err => if state.started then some (state.onError reader err) else none
  | .abort =>
    if state.signal = some false then
      some (if state.listening then { state with signal := some true }.onAbort reader else { state with signal := some true })
    else none
  | .next => some (state.next reader)
  | .return_ => some state.return_

/-! ## The accounts -/

namespace ReaderState

def settledCalls (state : ReaderState α ε) : List Nat := state.settled.map Prod.fst

def held (state : ReaderState α ε) : List Nat := state.settledCalls ++ state.waiting.toList

def delivery : Nat × NextResult α ε → Option (Nat × α)
  | (call, .value data) => some (call, data)
  | _ => none

/-- Which call got which message. -/
def deliveries (state : ReaderState α ε) : List (Nat × α) := state.settled.filterMap delivery

/-- The stream has ended, failed or been aborted. -/
def Over (state : ReaderState α ε) : Prop := state.ended = true ∨ state.signal = some true

section settleWaiting
variable (state : ReaderState α ε) (result : NextResult α ε)

@[simp] theorem settleWaiting_waiting : (state.settleWaiting result).waiting = none := by
  unfold settleWaiting
  split
  · assumption
  · rfl

@[simp] theorem settleWaiting_fields : (state.settleWaiting result).signal = state.signal ∧ (state.settleWaiting result).started = state.started ∧
    (state.settleWaiting result).listening = state.listening ∧ (state.settleWaiting result).buffer = state.buffer ∧
    (state.settleWaiting result).done = state.done ∧ (state.settleWaiting result).calls = state.calls ∧
    (state.settleWaiting result).arrived = state.arrived ∧ (state.settleWaiting result).ended = state.ended := by
  unfold settleWaiting
  split <;> simp

@[simp] theorem held_settleWaiting : (state.settleWaiting result).held = state.held := by
  unfold settleWaiting held settledCalls
  split
  · rfl
  next call hwaiting => simp [hwaiting]

theorem deliveries_settleWaiting (hresult : ∀ call, delivery (call, result) = none) :
    (state.settleWaiting result).deliveries = state.deliveries := by
  unfold settleWaiting deliveries
  split
  · rfl
  · simp [hresult]

end settleWaiting

/-! ## Deliveries -/

structure Delivers (state : ReaderState α ε) : Prop where
  /-- What the calls got and what is buffered are the messages in the order of their arrival. -/
  order : state.deliveries.map Prod.snd ++ state.buffer = state.arrived
  /-- Earlier messages go to earlier calls, and no call gets two. -/
  ascending : (state.deliveries.map Prod.fst ++ state.waiting.toList ++ [state.calls]).Pairwise (· < ·)
  /-- No call waits over a message. -/
  drained : state.waiting ≠ none → state.buffer = []

end ReaderState

theorem pairwise_concat_succ {calls : List Nat} {call : Nat} (h : (calls ++ [call]).Pairwise (· < ·)) :
    (calls ++ [call] ++ [call + 1]).Pairwise (· < ·) := by
  rw [List.pairwise_append]
  refine ⟨h, List.pairwise_singleton _ _, ?_⟩
  intro earlier hearlier next hnext
  obtain rfl := List.mem_singleton.1 hnext
  rcases List.mem_append.1 hearlier with hearlier | hearlier
  · have := (List.pairwise_append.1 h).2.2 earlier hearlier call List.mem_cons_self
    omega
  · obtain rfl := List.mem_singleton.1 hearlier
    omega

namespace ReaderState.Delivers
variable {state : ReaderState α ε}

theorem of_eq (h : state.Delivers) {state' : ReaderState α ε} (hsettled : state'.settled = state.settled)
    (hwaiting : state'.waiting = state.waiting) (hbuffer : state'.buffer = state.buffer) (hcalls : state'.calls = state.calls)
    (harrived : state'.arrived = state.arrived) : state'.Delivers := by
  have hdeliveries : state'.deliveries = state.deliveries := by rw [deliveries, hsettled, deliveries]
  refine ⟨?_, ?_, ?_⟩
  · rw [hdeliveries, hbuffer, harrived]
    exact h.order
  · rw [hdeliveries, hwaiting, hcalls]
    exact h.ascending
  · rw [hwaiting, hbuffer]
    exact h.drained

theorem settleWaiting (h : state.Delivers) {result : NextResult α ε} (hresult : ∀ call, delivery (call, result) = none) :
    (state.settleWaiting result).Delivers := by
  have hfields := state.settleWaiting_fields result
  refine ⟨?_, ?_, fun hwaiting => absurd (settleWaiting_waiting state result) hwaiting⟩
  · rw [deliveries_settleWaiting state result hresult, hfields.2.2.2.1, hfields.2.2.2.2.2.2.1]
    exact h.order
  · rw [deliveries_settleWaiting state result hresult, settleWaiting_waiting, hfields.2.2.2.2.2.1]
    refine h.ascending.sublist ?_
    simp

theorem onData (h : state.Delivers) (data : α) : (state.onData data).Delivers := by
  unfold ReaderState.onData
  split
  next call hwaiting =>
    have hbuffer := h.drained (by simp [hwaiting])
    have horder := h.order
    have hascending := h.ascending
    rw [hbuffer, List.append_nil] at horder
    rw [hwaiting] at hascending
    refine ⟨?_, ?_, fun hne => absurd (settleWaiting_waiting state _) hne⟩
    · simp [deliveries, ReaderState.settleWaiting, hwaiting, delivery, hbuffer, ← horder]
    · simpa [deliveries, ReaderState.settleWaiting, hwaiting, delivery] using hascending
  next hwaiting =>
    refine ⟨?_, h.ascending, fun hne => absurd hwaiting hne⟩
    show state.deliveries.map Prod.snd ++ (state.buffer ++ [data]) = state.arrived ++ [data]
    rw [← List.append_assoc, h.order]

theorem onEnd (h : state.Delivers) : state.onEnd.Delivers := by
  unfold ReaderState.onEnd
  refine settleWaiting ?_ fun _ => rfl
  exact h.of_eq rfl rfl rfl rfl rfl

theorem onError (h : state.Delivers) (reader : GrpcReader) (err : Option ε) : (state.onError reader err).Delivers := by
  unfold ReaderState.onError
  refine settleWaiting ?_ fun _ => rfl
  exact h.of_eq rfl rfl rfl rfl rfl

theorem onAbort (h : state.Delivers) (reader : GrpcReader) : (state.onAbort reader).Delivers := by
  unfold ReaderState.onAbort
  refine settleWaiting ?_ fun _ => rfl
  exact h.of_eq rfl rfl rfl rfl rfl

theorem answer (h : state.Delivers) {result : NextResult α ε} (hresult : ∀ call, delivery (call, result) = none) :
    (state.answer result).Delivers := by
  have hdeliveries : (state.answer result).deliveries = state.deliveries := by simp [ReaderState.answer, deliveries, hresult]
  refine ⟨?_, ?_, h.drained⟩
  · rw [hdeliveries]
    exact h.order
  · rw [hdeliveries]
    refine (pairwise_concat_succ h.ascending).sublist ?_
    exact ((List.sublist_append_left _ _)).append (List.Sublist.refl [state.calls + 1])

theorem startStream (h : state.Delivers) (reader : GrpcReader) : (state.startStream reader).Delivers := by
  unfold ReaderState.startStream
  split
  · exact h
  · split <;> exact h.of_eq rfl rfl rfl rfl rfl

theorem pull (h : state.Delivers) : state.pull.Delivers := by
  unfold ReaderState.pull
  split
  next data buffer hbuffer =>
    have hwaiting : state.waiting = none := by
      by_contra hne
      rw [h.drained hne] at hbuffer
      cases hbuffer
    have horder := h.order
    have hascending := h.ascending
    rw [hbuffer] at horder
    rw [hwaiting, Option.toList_none, List.append_nil] at hascending
    refine ⟨?_, ?_, fun hne => absurd hwaiting hne⟩
    · simpa [deliveries, ReaderState.answer, delivery] using horder
    · simpa [deliveries, ReaderState.answer, delivery, hwaiting] using pairwise_concat_succ hascending
  next hbuffer =>
    split
    · exact h.answer fun _ => rfl
    · split
      · exact h.answer fun _ => rfl
      · refine ⟨h.order, ?_, fun _ => hbuffer⟩
        refine pairwise_concat_succ (h.ascending.sublist ?_)
        exact (List.sublist_append_left _ _).append (List.Sublist.refl [state.calls])

theorem step (h : state.Delivers) {reader : GrpcReader} {label : ReaderLabel α ε} {state' : ReaderState α ε}
    (hstep : state.step reader label = some state') : state'.Delivers := by
  cases label with
  | data data =>
    obtain ⟨-, rfl⟩ := Option.ite_none_right_eq_some.1 hstep |>.imp id Option.some.inj
    exact h.onData data
  | end_ =>
    obtain ⟨-, rfl⟩ := Option.ite_none_right_eq_some.1 hstep |>.imp id Option.some.inj
    exact h.onEnd
  | error err =>
    obtain ⟨-, rfl⟩ := Option.ite_none_right_eq_some.1 hstep |>.imp id Option.some.inj
    exact h.onError reader err
  | abort =>
    obtain ⟨-, rfl⟩ := Option.ite_none_right_eq_some.1 hstep |>.imp id Option.some.inj
    have haborted : Delivers { state with signal := some true } := h.of_eq rfl rfl rfl rfl rfl
    split
    · exact haborted.onAbort reader
    · exact haborted
  | next =>
    cases hstep
    exact (h.startStream reader).pull
  | return_ =>
    cases hstep
    exact h.of_eq rfl rfl rfl rfl rfl

end ReaderState.Delivers

/-! ## Calls that wait -/

namespace ReaderState

/-- `next()` is called on an open reader only when no call waits, and the signal does not abort a call that `return()` left waiting. -/
def OneAtATime (state : ReaderState α ε) : ReaderLabel α ε → Prop
  | .next => state.waiting = none ∨ state.done = true
  | .abort => state.waiting = none ∨ state.done = false
  | _ => True

instance (state : ReaderState α ε) : DecidablePred state.OneAtATime := fun label =>
  match label with
  | .next => inferInstanceAs (Decidable (state.waiting = none ∨ state.done = true))
  | .abort => inferInstanceAs (Decidable (state.waiting = none ∨ state.done = false))
  | .data .. | .end_ | .error .. | .return_ => inferInstanceAs (Decidable True)

structure Books (state : ReaderState α ε) : Prop where
  held : state.held.Perm (List.range state.calls)
  opened : state.waiting ≠ none → state.started = true
  ended : state.ended = true → state.done = true
  aborted : state.signal = some true → state.started = true → state.done = true
  listens : state.signal = some false → state.started = true → state.done = false → state.listening = true

/-- What the stream promises its consumer. -/
structure Sound (state : ReaderState α ε) : Prop where
  order : state.deliveries.map Prod.snd ++ state.buffer = state.arrived
  ascending : (state.deliveries.map Prod.fst).Pairwise (· < ·)
  once : state.settledCalls.Nodup
  /-- Once the stream is over, no call is outstanding. -/
  settles : state.Over → state.waiting = none ∧ state.settledCalls.Perm (List.range state.calls)

end ReaderState

namespace ReaderState.Books
variable {state : ReaderState α ε}

theorem settleWaiting (h : state.Books) (result : NextResult α ε) : (state.settleWaiting result).Books := by
  obtain ⟨hsignal, hstarted, hlistening, -, hdone, hcalls, -, hended⟩ := state.settleWaiting_fields result
  refine ⟨?_, fun hwaiting => absurd (settleWaiting_waiting state result) hwaiting, ?_, ?_, ?_⟩
  · rw [held_settleWaiting, hcalls]
    exact h.held
  · rw [hended, hdone]
    exact h.ended
  · rw [hsignal, hstarted, hdone]
    exact h.aborted
  · rw [hsignal, hstarted, hdone, hlistening]
    exact h.listens

theorem finished (h : state.Books) {state' : ReaderState α ε} (hdone : state'.done = true) (hheld : state'.held = state.held)
    (hcalls : state'.calls = state.calls) (hwaiting : state'.waiting = state.waiting) (hstarted : state.started = true → state'.started = true) :
    state'.Books := by
  refine ⟨?_, ?_, fun _ => hdone, fun _ _ => hdone, fun _ _ hopen => ?_⟩
  · rw [hheld, hcalls]
    exact h.held
  · intro hne
    rw [hwaiting] at hne
    exact hstarted (h.opened hne)
  · rw [hdone] at hopen
    cases hopen

theorem onData (h : state.Books) (data : α) : (state.onData data).Books := by
  unfold ReaderState.onData
  split
  · have hsettled := h.settleWaiting (.value data)
    exact ⟨hsettled.held, hsettled.opened, hsettled.ended, hsettled.aborted, hsettled.listens⟩
  · exact ⟨h.held, h.opened, h.ended, h.aborted, h.listens⟩

theorem onEnd (h : state.Books) : state.onEnd.Books := by
  unfold ReaderState.onEnd
  refine settleWaiting ?_ .done
  exact h.finished rfl rfl rfl rfl id

theorem onError (h : state.Books) (reader : GrpcReader) (err : Option ε) : (state.onError reader err).Books := by
  unfold ReaderState.onError
  refine settleWaiting ?_ _
  exact h.finished rfl rfl rfl rfl id

theorem startStream (h : state.Books) (reader : GrpcReader) : (state.startStream reader).Books := by
  unfold ReaderState.startStream
  split
  · exact h
  · split
    next hsignal => exact ⟨h.held, fun _ => rfl, h.ended, fun habort => absurd (hsignal.symm.trans habort) nofun,
      fun hopen => absurd (hsignal.symm.trans hopen) nofun⟩
    · exact h.finished rfl rfl rfl rfl fun _ => rfl
    next hsignal => exact ⟨h.held, fun _ => rfl, h.ended, fun habort => absurd (hsignal.symm.trans habort) nofun, fun _ _ _ => rfl⟩

theorem answer (h : state.Books) (result : NextResult α ε) : (state.answer result).Books := by
  refine ⟨?_, h.opened, h.ended, h.aborted, h.listens⟩
  have hheld : (state.answer result).held.Perm (state.held ++ [state.calls]) := by
    simp only [ReaderState.held, settledCalls, ReaderState.answer, List.map_append, List.map_cons, List.map_nil, List.append_assoc]
    exact List.perm_append_comm.append_left _
  refine hheld.trans ?_
  show (state.held ++ [state.calls]).Perm (List.range (state.calls + 1))
  rw [List.range_succ]
  exact h.held.append_right _

theorem pull (h : state.Books) (hstarted : state.started = true) (hfree : state.waiting = none ∨ state.done = true) : state.pull.Books := by
  unfold ReaderState.pull
  split
  next data buffer _ =>
    have hrest : Books { state with buffer } := ⟨h.held, h.opened, h.ended, h.aborted, h.listens⟩
    exact hrest.answer (.value data)
  · split
    next error _ => exact h.answer (.rejected error)
    · split
      · exact h.answer .done
      next hopen =>
        have hwaiting := hfree.resolve_right hopen
        refine ⟨?_, fun _ => hstarted, h.ended, h.aborted, h.listens⟩
        have hheld := h.held
        simp only [ReaderState.held, settledCalls, hwaiting, Option.toList_none, List.append_nil] at hheld
        simp only [ReaderState.held, settledCalls, Option.toList_some]
        rw [List.range_succ]
        exact hheld.append_right _

end ReaderState.Books

namespace ReaderState

theorem started_startStream (reader : GrpcReader) (state : ReaderState α ε) : (state.startStream reader).started = true := by
  unfold startStream
  split
  · assumption
  · split <;> rfl

theorem startStream_waiting (reader : GrpcReader) (state : ReaderState α ε) :
    (state.startStream reader).waiting = state.waiting ∧ (state.startStream reader).signal = state.signal ∧
      (state.startStream reader).ended = state.ended ∧ (state.done = true → (state.startStream reader).done = true) := by
  unfold startStream
  split
  · exact ⟨rfl, rfl, rfl, id⟩
  · split <;> simp_all [abort, finish]

/-- The accounts are in order and nobody waits on a stream that is over. -/
def Attended (state : ReaderState α ε) : Prop := state.Books ∧ (state.Over → state.waiting = none)

theorem create_attended (reader : GrpcReader) (signal : Option Bool) : (create reader signal : ReaderState α ε).Attended := by
  have hempty : Books ({ signal } : ReaderState α ε) := ⟨List.Perm.refl _, nofun, nofun, nofun, nofun⟩
  unfold create
  split
  · exact ⟨hempty, fun _ => rfl⟩
  · exact ⟨hempty.startStream reader, fun _ => (startStream_waiting reader _).1⟩

theorem create_delivers (reader : GrpcReader) (signal : Option Bool) : (create reader signal : ReaderState α ε).Delivers := by
  have hempty : Delivers ({ signal } : ReaderState α ε) := ⟨rfl, List.pairwise_singleton _ _, fun _ => rfl⟩
  unfold create
  split
  · exact hempty
  · exact hempty.startStream reader

namespace Attended
variable {state : ReaderState α ε}

theorem onData (h : state.Attended) (data : α) : (state.onData data).Attended := by
  refine ⟨h.1.onData data, fun hover => ?_⟩
  unfold ReaderState.onData at hover ⊢
  split
  · exact settleWaiting_waiting state _
  · assumption

theorem abort (h : state.Attended) (reader : GrpcReader) (hsignal : state.signal = some false) (hfree : state.waiting = none ∨ state.done = false) :
    Attended (if state.listening then { state with signal := some true }.onAbort reader else { state with signal := some true }) := by
  split
  · refine ⟨?_, fun _ => settleWaiting_waiting _ _⟩
    refine Books.settleWaiting ?_ _
    exact h.1.finished rfl rfl rfl rfl id
  next hdeaf =>
    -- Whoever waits on an open reader is heard by the signal's listener.
    have hwaiting : state.waiting = none := by
      by_contra hne
      exact hdeaf (h.1.listens hsignal (h.1.opened hne) (hfree.resolve_left hne))
    refine ⟨⟨h.1.held, h.1.opened, h.1.ended, fun _ hstarted => ?_, nofun⟩, fun _ => hwaiting⟩
    by_contra hopen
    exact hdeaf (h.1.listens hsignal hstarted (Bool.eq_false_of_not_eq_true hopen))

theorem next (h : state.Attended) (reader : GrpcReader) (hfree : state.waiting = none ∨ state.done = true) : (state.next reader).Attended := by
  obtain ⟨hwaiting, hsignal, hended, hdone⟩ := startStream_waiting reader state
  have hopened := h.1.startStream reader
  have hstarted := started_startStream reader state
  refine ⟨hopened.pull hstarted ?_, fun hover => ?_⟩
  · rw [hwaiting]
    exact hfree.imp id hdone
  · have hbefore : (state.startStream reader).Over := by
      unfold ReaderState.next pull answer Over at hover
      repeat' split at hover
      all_goals exact hover
    have hover' : state.Over := by
      unfold Over at hbefore ⊢
      rwa [hended, hsignal] at hbefore
    have hfinished : (state.startStream reader).done = true := hbefore.elim hopened.ended fun haborted => hopened.aborted haborted hstarted
    have hnone := hwaiting.trans (h.2 hover')
    unfold ReaderState.next pull
    split
    · exact hnone
    · split
      · exact hnone
      · exact (if_pos hfinished).symm ▸ hnone

theorem step (h : state.Attended) {reader : GrpcReader} {label : ReaderLabel α ε} {state' : ReaderState α ε} (hone : state.OneAtATime label)
    (hstep : state.step reader label = some state') : state'.Attended := by
  cases label with
  | data data =>
    obtain ⟨-, rfl⟩ := Option.ite_none_right_eq_some.1 hstep |>.imp id Option.some.inj
    exact h.onData data
  | end_ =>
    obtain ⟨-, rfl⟩ := Option.ite_none_right_eq_some.1 hstep |>.imp id Option.some.inj
    exact ⟨h.1.onEnd, fun _ => settleWaiting_waiting _ _⟩
  | error err =>
    obtain ⟨-, rfl⟩ := Option.ite_none_right_eq_some.1 hstep |>.imp id Option.some.inj
    exact ⟨h.1.onError reader err, fun _ => settleWaiting_waiting _ _⟩
  | abort =>
    obtain ⟨hsignal, rfl⟩ := Option.ite_none_right_eq_some.1 hstep |>.imp id Option.some.inj
    exact h.abort reader hsignal hone
  | next =>
    cases hstep
    exact h.next reader hone
  | return_ =>
    cases hstep
    exact ⟨h.1.finished rfl rfl rfl rfl id, h.2⟩

theorem sound (h : state.Attended) (hdelivers : state.Delivers) : state.Sound where
  order := hdelivers.order
  ascending := by
    refine hdelivers.ascending.sublist ?_
    rw [List.append_assoc]
    exact List.sublist_append_left _ _
  once := (List.nodup_append.1 (h.1.held.nodup_iff.2 List.nodup_range)).1
  settles := by
    intro hover
    have hwaiting := h.2 hover
    have hheld := h.1.held
    rw [held, hwaiting, Option.toList_none, List.append_nil] at hheld
    exact ⟨hwaiting, hheld⟩

end Attended
end ReaderState

/-- Whatever the order of events and calls, what the calls got and what is still buffered are the messages in the order of
their arrival. -/
theorem reader_delivers {reader : GrpcReader} {signal : Option Bool} {labels : List (ReaderLabel α ε)} {state : ReaderState α ε}
    (h : Run (ReaderState.step reader) (fun _ _ => True) (.create reader signal) labels state) : state.Delivers :=
  h.keeps ReaderState.Delivers (fun _ _ _ _ hdelivers hstep => hdelivers.step hstep) (ReaderState.create_delivers reader signal)

/-- In a run that calls `next()` while no call waits, every message goes to one call in the order of arrival, and no call is
outstanding once the stream is over. -/
theorem reader_sound {reader : GrpcReader} {signal : Option Bool} {labels : List (ReaderLabel α ε)} {state : ReaderState α ε}
    (h : Run (ReaderState.step reader) ReaderState.OneAtATime (.create reader signal) labels state) : state.Sound := by
  have hattended := h.keeps ReaderState.Attended (fun _ _ _ hone hkept hstep => hkept.step hone hstep) (ReaderState.create_attended reader signal)
  exact hattended.sound (reader_delivers (h.mono fun _ _ _ => trivial))

/-- A call waits, messages come faster than they are asked for, and the call is aborted. -/
private def streaming : List (ReaderLabel Nat Unit) :=
  [.next, .data 1, .data 2, .data 3, .next, .next, .next, .abort, .error none, .next, .return_]

theorem reader_sound_streaming : (after (ReaderState.step callServerStream) (.create callServerStream (some false)) streaming).Sound :=
  reader_sound (Run.of_passes (p := fun state label => decide (state.OneAtATime label)) (fun _ _ h => of_decide_eq_true h)
    (by decide : passes (ReaderState.step callServerStream) (fun state label => decide (state.OneAtATime label))
      (.create callServerStream (some false)) streaming = true))

/-- After two calls and the end of the stream, the reader is over and has settled only the second call. -/
def LosesCall (reader : GrpcReader) : Prop :=
  ∃ state : ReaderState Unit Unit, Run (ReaderState.step reader) (fun _ _ => True) (.create reader none) [.next, .next, .end_] state ∧
    state.Over ∧ state.calls = 2 ∧ state.waiting = none ∧ state.settledCalls = [1] ∧ ¬ state.Sound

theorem losesCall_of {reader : GrpcReader}
    (hrun : passes (ReaderState.step reader) (fun _ _ => true) (.create reader none : ReaderState Unit Unit) [.next, .next, .end_] = true)
    (hlost : let state := after (ReaderState.step reader) (.create reader none : ReaderState Unit Unit) [.next, .next, .end_]
      state.ended = true ∧ state.calls = 2 ∧ state.waiting = none ∧ state.settledCalls = [1]) : LosesCall reader := by
  obtain ⟨hended, hcalls, hwaiting, hsettled⟩ := hlost
  refine ⟨_, Run.of_passes (p := fun _ _ => true) (fun _ _ _ => trivial) hrun, .inl hended, hcalls, hwaiting, hsettled, ?_⟩
  intro hsound
  have hperm := (hsound.settles (.inl hended)).2
  rw [hsettled, hcalls] at hperm
  exact absurd hperm.length_eq (by decide)

/-- The second call takes the slot of the first, which the end of the stream then leaves unsettled. -/
theorem reader_unsound : LosesCall callServerStream ∧ LosesCall grpcReadableToAsyncIterable := by
  constructor
  · exact losesCall_of (by decide) (by decide)
  · exact losesCall_of (by decide) (by decide)

end Fluo.Microservices
