import Mathlib.Data.List.Nodup
import Fluo.Lib.Runs
/-!
# Requests over Kafka

The `send()` calls of a `KafkaMicroserviceTransport`, the handlers that answer
them, and the two topics between them. A message of a topic is read any number of
times and in any order.
-/

namespace Fluo.Microservices.KafkaTransport
open Lib

variable {P : Type}

structure Config (P : Type) where
  requestTimeoutMs : Nat
  /-- What JSON leaves of a payload. -/
  wire : P → P
  undefined : P

structure Request (P : Type) where
  requestId : Nat
  pattern : String
  payload : P

structure Response (P : Type) where
  requestId : Nat
  error : Option String
  payload : P

/-- One call of a handler. It throws an `Error` with a message, or something else. -/
structure Handling (P : Type) where
  request : Request P
  result : Except (Option String) P
  /-- Publishing the payload fails with this message. -/
  fault : Option String

inductive Outcome (P : Type)
  | resolved (value : P)
  /-- With the error of a response. -/
  | rejected (error : String)
  /-- By the transport itself. -/
  | failed (message : String)
  deriving DecidableEq

structure State (P : Type) where
  closing : Bool := false
  listening : Bool := false
  /-- `listenPromise` is there. -/
  subscribing : Bool := false
  /-- Calls of `close` that have not come to their `finally`. -/
  closes : Nat := 0
  /-- The calls of `send`; the place of a call is its `requestId`. -/
  sent : List (String × P) := []
  pending : List Nat := []
  settled : List (Nat × Outcome P) := []
  /-- The requests that wait for their microtask. -/
  undispatched : List Nat := []
  /-- The requests whose `publish` has not settled. -/
  publishing : List Nat := []
  requests : List (Request P) := []
  handled : List (Handling P) := []
  responses : List (Response P) := []

/-- The message of the error response. -/
def Handling.error (h : Handling P) : Option String :=
  match h.result with
  | .error message => some (message.getD "Unhandled microservice error")
  | .ok _ => h.fault

/-- `resolve` or `reject` of the entry, if there is one. -/
def State.settle (s : State P) (requestId : Nat) (outcome : Outcome P) : State P :=
  if requestId ∈ s.pending then { s with pending := s.pending.erase requestId, settled := s.settled ++ [(requestId, outcome)] } else s

/-- An empty error counts as none. -/
def State.handleInboundResponse (s : State P) (message : Response P) : State P :=
  s.settle message.requestId <|
    match message.error with
    | none => .resolved message.payload
    | some error => if error = "" then .resolved message.payload else .rejected error

inductive Label (P : Type)
  | listen
  | subscribed (failed : Bool)
  | send (pattern : String) (payload : P) (isAborted : Bool)
  /-- The microtask of a request; the message may be lost. -/
  | dispatch (requestId : Nat) (written : Bool)
  | published (requestId : Nat) (fault : Option String)
  | timeout (requestId : Nat)
  | abort (requestId : Nat)
  /-- A handler is called for a request; either response may be lost. -/
  | handle (request : Nat) (result : Except (Option String) P) (fault : Option String) (written errorWritten : Bool)
  | respond (response : Nat)
  | close
  | closed

def Handling.responses (c : Config P) (h : Handling P) (written errorWritten : Bool) : List (Response P) :=
  (match h.result with
    | .ok payload => if written then [⟨h.request.requestId, none, c.wire payload⟩] else []
    | .error _ => []) ++
  (match h.error with
    | some error => if errorWritten then [⟨h.request.requestId, some error, c.undefined⟩] else []
    | none => [])

def State.request (s : State P) (pattern : String) (payload : P) : State P :=
  { s with sent := s.sent ++ [(pattern, payload)], pending := s.pending ++ [s.sent.length] }

def State.handleInboundRequest (c : Config P) (s : State P) (h : Handling P) (written errorWritten : Bool) : State P :=
  { s with handled := s.handled ++ [h], responses := s.responses ++ h.responses c written errorWritten }

def step (c : Config P) (s : State P) : Label P → Option (State P)
  | .listen => some { s with closing := false, subscribing := s.subscribing || !s.listening }
  | .subscribed failed => if s.subscribing then some { s with listening := s.listening || !failed, subscribing := false } else none
  | .send pattern payload isAborted =>
    if s.closing || !s.listening then none
    else
      some <|
        if isAborted then (s.request pattern payload).settle s.sent.length (.failed "Kafka request aborted before publish.")
        else { s.request pattern payload with undispatched := s.undispatched ++ [s.sent.length] }
  | .dispatch requestId written =>
    match s.sent[requestId]? with
    | some (pattern, payload) =>
      if requestId ∈ s.undispatched then
        let s := { s with undispatched := s.undispatched.erase requestId }
        if s.closing then some (s.settle requestId (.failed "Kafka microservice transport closed before request dispatch."))
        else
          some { s with
            publishing := s.publishing ++ [requestId]
            requests := if written then s.requests ++ [⟨requestId, pattern, c.wire payload⟩] else s.requests }
      else none
    | none => none
  | .published requestId fault =>
    if requestId ∈ s.publishing then
      let s := { s with publishing := s.publishing.erase requestId }
      some (fault.elim s fun message => s.settle requestId (.failed message))
    else none
  | .timeout requestId =>
    (s.sent[requestId]?).map fun (pattern, _) =>
      s.settle requestId (.failed s!"Kafka request timed out after {c.requestTimeoutMs}ms waiting for pattern \"{pattern}\".")
  | .abort requestId => some (s.settle requestId (.failed "Kafka request aborted."))
  | .handle request result fault written errorWritten =>
    (s.requests[request]?).map fun message => s.handleInboundRequest c ⟨message, result, fault⟩ written errorWritten
  | .respond response => (s.responses[response]?).map s.handleInboundResponse
  | .close => some { s with closing := true, closes := s.closes + 1 }
  | .closed =>
    if 0 < s.closes then
      some { s with
        listening := false
        closes := s.closes - 1
        pending := []
        settled := s.settled ++ s.pending.map fun requestId => (requestId, .failed "Kafka microservice transport closed before response.") }
    else none

/-! ## What a call is settled with -/

variable {c : Config P} {s s' : State P} {requestId : Nat} {outcome : Outcome P}

/-- The request is that of the call. -/
def State.Asks (c : Config P) (s : State P) (request : Request P) : Prop :=
  ∃ payload, s.sent[request.requestId]? = some (request.pattern, payload) ∧ request.payload = c.wire payload

/-- A handler was called for the request and had this error, or returned a payload that is now this. -/
def State.Answered (c : Config P) (s : State P) (requestId : Nat) (answer : Except String P) : Prop :=
  ∃ h ∈ s.handled, h.request.requestId = requestId ∧ s.Asks c h.request ∧
    match answer with
    | .ok value => ∃ payload, h.result = .ok payload ∧ value = c.wire payload
    | .error error => h.error = some error

def State.Justified (c : Config P) (s : State P) (requestId : Nat) : Outcome P → Prop
  | .resolved value => s.Answered c requestId (.ok value) ∨ value = c.undefined ∧ s.Answered c requestId (.error "")
  | .rejected error => error ≠ "" ∧ s.Answered c requestId (.error error)
  | .failed _ => True

structure Correlated (c : Config P) (s : State P) : Prop where
  once : ∀ requestId, s.pending.count requestId + (s.settled.map Prod.fst).count requestId = if requestId < s.sent.length then 1 else 0
  idle : s.listening = false → s.pending = []
  requests : ∀ request ∈ s.requests, s.Asks c request
  responses : ∀ response ∈ s.responses, s.Answered c response.requestId (response.error.elim (.ok response.payload) .error) ∧
    (response.error.isSome → response.payload = c.undefined)
  justified : ∀ entry ∈ s.settled, s.Justified c entry.1 entry.2

/-- The logs that the answers are about have grown. -/
structure Grown (s s' : State P) : Prop where
  sent : s.sent <+: s'.sent
  handled : ∀ h ∈ s.handled, h ∈ s'.handled

theorem State.Asks.grown (hg : Grown s s') {request : Request P} (h : s.Asks c request) : s'.Asks c request := by
  obtain ⟨payload, hsent, heq⟩ := h
  obtain ⟨more, hmore⟩ := hg.sent
  refine ⟨payload, ?_, heq⟩
  rw [← hmore, List.getElem?_append_left (List.getElem?_eq_some_iff.1 hsent).1, hsent]

theorem State.Answered.grown (hg : Grown s s') {answer : Except String P} (h : s.Answered c requestId answer) :
    s'.Answered c requestId answer := by
  obtain ⟨handling, hmem, hid, hasks, hanswer⟩ := h
  exact ⟨handling, hg.handled _ hmem, hid, hasks.grown hg, hanswer⟩

theorem State.Justified.grown (hg : Grown s s') (h : s.Justified c requestId outcome) : s'.Justified c requestId outcome := by
  cases outcome with
  | resolved value => exact h.imp (·.grown hg) (And.imp_right (·.grown hg))
  | rejected error => exact ⟨h.1, h.2.grown hg⟩
  | failed message => trivial

theorem Correlated.settle (h : Correlated c s) (hjustified : s.Justified c requestId outcome) :
    Correlated c (s.settle requestId outcome) := by
  unfold State.settle
  split
  · next hmem =>
    refine ⟨fun id => ?_, fun hidle => ?_, h.requests, h.responses, ?_⟩
    · have honce := h.once id
      simp only [List.map_append, List.map_cons, List.map_nil, List.count_append, List.count_singleton, List.count_erase, beq_iff_eq] at honce ⊢
      by_cases hid : requestId = id
      · subst hid
        have := List.count_pos_iff.2 hmem
        simp only [if_true] at honce ⊢
        omega
      · simp only [if_neg hid] at honce ⊢
        omega
    · have hnone := h.idle hidle
      rw [hnone] at hmem
      cases hmem
    · intro entry hentry
      rcases List.mem_append.1 hentry with hentry | hentry
      · exact h.justified entry hentry
      · cases List.mem_singleton.1 hentry
        exact hjustified
  · exact h

theorem State.Answered.of_handled {h : Handling P} (hmem : h ∈ s.handled) (hasks : s.Asks c h.request) {written errorWritten : Bool}
    {response : Response P} (hresponse : response ∈ h.responses c written errorWritten) :
    s.Answered c response.requestId (response.error.elim (.ok response.payload) .error) ∧
      (response.error.isSome → response.payload = c.undefined) := by
  rcases List.mem_append.1 hresponse with hresponse | hresponse
  · split at hresponse
    · next payload hresult =>
      split at hresponse
      · cases List.mem_singleton.1 hresponse
        exact ⟨⟨h, hmem, rfl, hasks, payload, hresult, rfl⟩, fun hsome => by cases hsome⟩
      · cases hresponse
    · cases hresponse
  · split at hresponse
    · next error herror =>
      split at hresponse
      · cases List.mem_singleton.1 hresponse
        exact ⟨⟨h, hmem, rfl, hasks, herror⟩, fun _ => rfl⟩
      · cases hresponse
    · cases hresponse

theorem Correlated.handleInboundResponse (h : Correlated c s) {message : Response P} (hmem : message ∈ s.responses) :
    Correlated c (s.handleInboundResponse message) := by
  obtain ⟨hanswer, hpayload⟩ := h.responses message hmem
  apply h.settle
  cases herror : message.error with
  | none =>
    rw [herror] at hanswer
    exact .inl hanswer
  | some error =>
    rw [herror] at hanswer hpayload
    dsimp only
    split
    · next hempty =>
      subst hempty
      exact .inr ⟨hpayload rfl, hanswer⟩
    · next hne => exact ⟨hne, hanswer⟩

theorem Correlated.request (h : Correlated c s) (hlistening : s.listening = true) (pattern : String) (payload : P) :
    Correlated c (s.request pattern payload) := by
  have hgrown : Grown s (s.request pattern payload) := ⟨List.prefix_append _ _, fun _ hmem => hmem⟩
  refine ⟨fun requestId => ?_, fun hidle => ?_, fun request hmem => (h.requests request hmem).grown hgrown,
    fun response hmem => (h.responses response hmem).imp_left (·.grown hgrown), fun entry hmem => (h.justified entry hmem).grown hgrown⟩
  · have honce := h.once requestId
    simp only [State.request, List.count_append, List.count_singleton, List.length_append, List.length_singleton, beq_iff_eq] at honce ⊢
    split_ifs at honce ⊢ <;> omega
  · rw [State.request, hlistening] at hidle
    cases hidle

theorem Correlated.handleInboundRequest (h : Correlated c s) {handling : Handling P} (hmem : handling.request ∈ s.requests) (written errorWritten : Bool) :
    Correlated c (s.handleInboundRequest c handling written errorWritten) := by
  have hgrown : Grown s (s.handleInboundRequest c handling written errorWritten) := ⟨List.prefix_rfl, fun _ hmem => List.mem_append_left _ hmem⟩
  refine ⟨h.once, h.idle, h.requests, fun response hresponse => ?_, fun entry hmem => (h.justified entry hmem).grown hgrown⟩
  rcases List.mem_append.1 hresponse with hresponse | hresponse
  · exact (h.responses response hresponse).imp_left (·.grown hgrown)
  · exact State.Answered.of_handled (List.mem_append_right _ (List.mem_singleton_self _)) ((h.requests _ hmem).grown hgrown) hresponse

theorem Correlated.step {l : Label P} (h : Correlated c s) (hs : KafkaTransport.step c s l = some s') : Correlated c s' := by
  cases l with
  | listen =>
    cases hs
    exact ⟨h.once, h.idle, h.requests, h.responses, h.justified⟩
  | subscribed failed =>
    dsimp only [KafkaTransport.step] at hs
    split at hs
    · cases hs
      exact ⟨h.once, fun hidle => h.idle (Bool.or_eq_false_iff.1 hidle).1, h.requests, h.responses, h.justified⟩
    · cases hs
  | send pattern payload isAborted =>
    dsimp only [KafkaTransport.step] at hs
    split at hs
    · cases hs
    · next hopen =>
      simp only [Bool.or_eq_true, Bool.not_eq_true', not_or, Bool.not_eq_false] at hopen
      have hsent := h.request hopen.2 pattern payload
      split at hs
      · cases hs
        exact hsent.settle trivial
      · cases hs
        exact ⟨hsent.once, hsent.idle, hsent.requests, hsent.responses, hsent.justified⟩
  | dispatch requestId written =>
    dsimp only [KafkaTransport.step] at hs
    split at hs
    · next pattern payload hsent =>
      split at hs
      · split at hs
        · cases hs
          exact Correlated.settle ⟨h.once, h.idle, h.requests, h.responses, h.justified⟩ trivial
        · cases hs
          refine ⟨h.once, h.idle, fun request hmem => ?_, h.responses, h.justified⟩
          split at hmem
          · rcases List.mem_append.1 hmem with hmem | hmem
            · exact h.requests request hmem
            · cases List.mem_singleton.1 hmem
              exact ⟨payload, hsent, rfl⟩
          · exact h.requests request hmem
      · cases hs
    · cases hs
  | published requestId fault =>
    dsimp only [KafkaTransport.step] at hs
    split at hs
    · cases hs
      have hsettled : Correlated c { s with publishing := s.publishing.erase requestId } := ⟨h.once, h.idle, h.requests, h.responses, h.justified⟩
      cases fault with
      | none => exact hsettled
      | some message => exact hsettled.settle trivial
    · cases hs
  | timeout requestId =>
    obtain ⟨sent, _, rfl⟩ := Option.map_eq_some_iff.1 hs
    exact h.settle trivial
  | abort requestId =>
    cases hs
    exact h.settle trivial
  | handle request result fault written errorWritten =>
    obtain ⟨message, hmessage, rfl⟩ := Option.map_eq_some_iff.1 hs
    exact h.handleInboundRequest (List.mem_of_getElem? hmessage) written errorWritten
  | respond response =>
    obtain ⟨message, hmessage, rfl⟩ := Option.map_eq_some_iff.1 hs
    exact h.handleInboundResponse (List.mem_of_getElem? hmessage)
  | close =>
    cases hs
    exact ⟨h.once, h.idle, h.requests, h.responses, h.justified⟩
  | closed =>
    dsimp only [KafkaTransport.step] at hs
    split at hs
    · cases hs
      refine ⟨fun requestId => ?_, fun _ => rfl, h.requests, h.responses, fun entry hmem => ?_⟩
      · have honce := h.once requestId
        simp only [List.map_append, List.map_map, Function.comp_def, List.map_id', List.count_append, List.count_nil] at honce ⊢
        omega
      · rcases List.mem_append.1 hmem with hmem | hmem
        · exact h.justified entry hmem
        · obtain ⟨_, _, rfl⟩ := List.mem_map.1 hmem
          trivial
    · cases hs

theorem Correlated.run {labels : List (Label P)} (h : Run (KafkaTransport.step c) (fun _ _ => True) {} labels s) :
    Correlated c s :=
  h.keeps (Correlated c) (fun _ _ _ _ h hs => h.step hs)
    ⟨fun _ => rfl, fun _ => rfl, fun _ h => (by cases h), fun _ h => (by cases h), fun _ h => (by cases h)⟩

/-- Whatever is lost, repeated or late, each call of `send()` is pending or has settled once, and none is pending while the transport does not
listen. -/
theorem sends_settle_once {labels : List (Label P)} (h : Run (step c) (fun _ _ => True) {} labels s) :
    (∀ requestId < s.sent.length, s.pending.count requestId + (s.settled.map Prod.fst).count requestId = 1) ∧
      (s.listening = false → s.pending = []) := by
  have hcorrelated := Correlated.run h
  refine ⟨fun requestId hlt => ?_, hcorrelated.idle⟩
  rw [hcorrelated.once requestId, if_pos hlt]

def numbers : Config Nat := ⟨3000, id, 0⟩

/-- The first request is answered twice, and the transport is closed before the second one is. -/
def answered : List (Label Nat) :=
  [.listen, .subscribed false, .send "sum" 1 false, .dispatch 0 true, .send "sum" 2 false, .handle 0 (.ok 3) none true false, .handle 0 (.error none) none true true,
    .dispatch 1 true, .respond 0, .respond 1, .published 0 none, .close, .closed, .handle 1 (.ok 4) none true false, .respond 2]

theorem sends_settle_once_answered : (after (step numbers) {} answered).pending = [] :=
  (sends_settle_once (Run.of_passes (fun _ _ _ => trivial) (by decide +kernel : passes (step numbers) (fun _ _ => true) {} answered = true))).2
    (by decide +kernel)

/-- A response settles only the call whose request a handler was called for: it resolves with what the handler returned, or with `undefined` for an
empty error, and rejects with any other error. -/
theorem responses_correlate {labels : List (Label P)} (h : Run (step c) (fun _ _ => True) {} labels s) :
    ∀ entry ∈ s.settled, s.Justified c entry.1 entry.2 := (Correlated.run h).justified

theorem responses_correlate_answered : (after (step numbers) {} answered).Justified numbers 0 (.resolved 3) :=
  responses_correlate (Run.of_passes (fun _ _ _ => trivial) (by decide +kernel : passes (step numbers) (fun _ _ => true) {} answered = true)) (0, .resolved 3)
    (by decide +kernel)

end Fluo.Microservices.KafkaTransport
