import Fluo.Lib.Runs
import Fluo.Lib.Slots
/-!
# The client of the MQTT transport

`MqttMicroserviceTransport` that creates its own client, with any number of calls of `listen`, `send`,
`emit` and `close`, each a program of the steps between its awaits.
-/

namespace Fluo.Microservices.MqttTransport
open Fluo.Lib

inductive Topic
  | event
  | message
  | reply
deriving DecidableEq

inductive ListenPhase
  /-- `resolveClient` waits for the module. -/
  | loading
  /-- The first of the topics is being subscribed to. -/
  | subscribing (client : Nat) (topics subscribed : List Topic)
  /-- After a failure, the topics are unsubscribed from. -/
  | unsubscribing (client : Nat) (subscribed : List Topic)
  | settled (ok : Bool)
  /-- What has awaited the promise goes on. -/
  | finished
deriving DecidableEq

/-- A promise of `listen`, that other calls may wait for. -/
structure Listen where
  phase : ListenPhase
  /-- A `close` has settled since it began. -/
  isStale : Bool := false

inductive OperationKind
  | send
  | emit
deriving DecidableEq

inductive OperationPhase
  /-- The turn of a `send` has not come. -/
  | called
  /-- `resolveClient` waits for the module. -/
  | loading
  | publishing
  | done
deriving DecidableEq

/-- A call of `send` or `emit` that was not refused. -/
structure Operation where
  kind : OperationKind
  phase : OperationPhase
  /-- Its promise is pending. -/
  isPending : Bool := true
  isStale : Bool := false

inductive Close
  /-- `listenPromise` is awaited. -/
  | waiting (k : Nat)
  | unsubscribing (client : Nat) (topics : List Topic)
  | ending (client : Nat)
  | settled
deriving DecidableEq

structure State where
  client : Option Nat := none
  /-- The clients that were created: which have ended. -/
  clients : List Bool := []
  closing : Bool := false
  listening : Bool := false
  listenPromise : Option Nat := none
  listens : List Listen := []
  operations : List Operation := []
  closes : List Close := []
  /-- A `close` has settled, and nothing was called since that was not refused. -/
  isClosed : Bool := false

inductive Label
  | listen
  | send
  | emit
  | close
  /-- What a `listen` waits for has settled: the module, with `connect`, or a topic. -/
  | continueListen (k : Nat) (ok : Bool)
  /-- The promise of a `listen` has settled, and what waits for it goes on. -/
  | finishListen (k : Nat)
  /-- The turn of a `send` comes, or what an operation waits for has settled. -/
  | continueOperation (m : Nat) (ok : Bool)
  /-- A response, a timeout or an abort settles a `send`. -/
  | settle (m : Nat)
  /-- What a `close` waits for has settled. -/
  | continueClose (i : Nat)

def topics : List Topic := [.event, .message, .reply]

namespace State

/-- `mqtt.connect` -/
def connect (s : State) : State := { s with client := some s.clients.length, clients := s.clients ++ [false] }

def setListen (s : State) (k : Nat) (l : Listen) : State := { s with listens := s.listens.set k l }

def setOperation (s : State) (m : Nat) (o : Operation) : State := { s with operations := s.operations.set m o }

/-- `listen`, to its first await. -/
def listen (s : State) : State :=
  let s := { s with closing := false, isClosed := false }
  if s.listening || s.listenPromise.isSome then s
  else
    let phase := match s.client with
      | some c => .subscribing c topics []
      | none => .loading
    { s with listenPromise := some s.listens.length, listens := s.listens ++ [{ phase }] }

def continueListen (s : State) (k : Nat) (ok : Bool) : Option State :=
  match s.listens[k]? with
  | some l => match l.phase with
    | .loading =>
      if ok then some (s.connect.setListen k { l with phase := .subscribing s.clients.length topics [] })
      else some (s.setListen k { l with phase := .settled false })
    | .subscribing c (topic :: rest) subscribed =>
      if ok then
        if rest = [] then some ({ s with listening := true }.setListen k { l with phase := .settled true })
        else some (s.setListen k { l with phase := .subscribing c rest (subscribed ++ [topic]) })
      else if subscribed = [] then some (s.setListen k { l with phase := .settled false })
      else some (s.setListen k { l with phase := .unsubscribing c subscribed })
    | .unsubscribing c (_ :: rest) =>
      if rest = [] then some (s.setListen k { l with phase := .settled false }) else some (s.setListen k { l with phase := .unsubscribing c rest })
    | _ => none
  | none => none

/-- A `send` is refused while the transport closes or does not listen. -/
def send (s : State) : State :=
  if s.closing || !s.listening then s
  else { s with isClosed := false, operations := s.operations ++ [{ kind := .send, phase := .called }] }

def emit (s : State) : State :=
  if s.closing then s
  else { s with
    isClosed := false
    operations := s.operations ++ [{ kind := .emit, phase := if s.client.isSome then .publishing else .loading }] }

def continueOperation (s : State) (m : Nat) (ok : Bool) : Option State :=
  match s.operations[m]? with
  | some o => match o.phase with
    | .called =>
      if s.closing then some (s.setOperation m { o with phase := .done, isPending := false })
      else some (s.setOperation m { o with phase := if s.client.isSome then .publishing else .loading })
    | .loading =>
      if ok then some (s.connect.setOperation m { o with phase := .publishing })
      else some (s.setOperation m { o with phase := .done, isPending := false })
    | .publishing => some (s.setOperation m { o with phase := .done, isPending := o.isPending && (ok && o.kind = .send) })
    | .done => none
  | none => none

/-- The `resolve` and `reject` of a pending request. -/
def settle (s : State) (m : Nat) : Option State :=
  match s.operations[m]? with
  | some o => if o.kind = .send then some (s.setOperation m { o with isPending := false }) else none
  | none => none

/-- A `close` settles. -/
def markClosed (s : State) : State :=
  { s with
    isClosed := true
    listens := s.listens.map fun l => { l with isStale := true }
    operations := s.operations.map fun o => { o with isStale := true } }

/-- The `finally` of a `close`, and its end. -/
def finishClose (s : State) : State :=
  markClosed { s with
    listening := false
    client := none
    operations := s.operations.map fun o => { o with isPending := o.isPending && o.kind = .emit } }

/-- Where a `close` goes that need not wait for `listen` any more. -/
def closing_ (s : State) : Close :=
  match s.client with
  | some c => if s.listening then .unsubscribing c topics else .ending c
  | none => .settled

/-- `close`, to its first await. -/
def close (s : State) : State :=
  let s := { s with closing := true }
  match s.listenPromise with
  | some k => { s with closes := s.closes ++ [.waiting k] }
  | none => if s.client.isSome then { s with closes := s.closes ++ [s.closing_] } else { s.finishClose with closes := s.closes ++ [.settled] }

def continueClose (s : State) (i : Nat) : Option State :=
  match s.closes[i]? with
  | some (.unsubscribing c (_ :: rest)) => some { s with closes := s.closes.set i (if rest = [] then .ending c else .unsubscribing c rest) }
  | some (.ending c) =>
    let s := { s with clients := s.clients.set c true }
    some { s.finishClose with closes := s.closes.set i .settled }
  | _ => none

/-- The first call of a `listen` takes its promise off, and every `close` that waits for it goes on, or fails as it has. -/
def finishListen (s : State) (k : Nat) : Option State :=
  match s.listens[k]? with
  | some l => match l.phase with
    | .settled ok =>
      let s := { s with listenPromise := none }.setListen k { l with phase := .finished }
      if .waiting k ∈ s.closes then
        let next := if ok then s.closing_ else .settled
        let closes := s.closes.map fun c => if c = .waiting k then next else c
        if ok && s.client.isSome then some { s with closes }
        else if ok then some { s.finishClose with closes }
        else some { s.markClosed with closes }
      else some s
    | _ => none
  | none => none

end State

def step (s : State) : Label → Option State
  | .listen => some s.listen
  | .send => some s.send
  | .emit => some s.emit
  | .close => some s.close
  | .continueListen k ok => s.continueListen k ok
  | .finishListen k => s.finishListen k
  | .continueOperation m ok => s.continueOperation m ok
  | .settle m => s.settle m
  | .continueClose i => s.continueClose i

/-! ## When it owns its client -/

/-- No module is loaded that a client has been created without, or a `close` has settled without; no `close` fails as its `listen` has while there is a
client; and none ends while there is another client than its own. -/
def Sound (s : State) : Label → Bool
  | .continueListen k ok => s.listens[k]?.all fun l => !(l.phase = .loading && ok) || (s.client.isNone && !l.isStale)
  | .continueOperation m ok => s.operations[m]?.all fun o => !(o.phase = .loading && ok) || (s.client.isNone && !o.isStale)
  | .finishListen k => s.listens[k]?.all fun l => !(l.phase = .settled false && .waiting k ∈ s.closes) || s.client.isNone
  | .continueClose i => match s.closes[i]? with
    | some (.ending c) => s.client.all (· = c)
    | _ => true
  | _ => true

structure Fine (s : State) : Prop where
  /-- One client is connected. -/
  single  : ∀ c c' : Nat, s.clients[c]? = some false → s.clients[c']? = some false → c = c'
  /-- None is, after a `close`. -/
  ended   : s.isClosed = true → (∀ c ∈ s.closes, c = .settled) → ∀ ended ∈ s.clients, ended = true
  settled : s.isClosed = true → ∀ o ∈ s.operations, o.kind = .send → o.isPending = false

/-! ## Invariant -/

def Operation.mayLoad (o : Operation) : Bool := o.phase = .called || o.phase = .loading

structure Closed (s : State) : Prop where
  client     : s.client = none
  listens    : ∀ l ∈ s.listens, l.phase = .loading → l.isStale = true
  operations : ∀ o ∈ s.operations, o.mayLoad = true → o.isStale = true
  settled    : ∀ o ∈ s.operations, o.kind = .send → o.isPending = false

structure Ok (s : State) : Prop where
  /-- Every other client has ended. -/
  current : ∀ c : Nat, s.clients[c]? = some false → s.client = some c
  closed  : s.isClosed = true → Closed s
  pending : ∀ o ∈ s.operations, o.kind = .send → o.isPending = true → s.listening = true
  /-- There is one promise of `listen`, and none has been fulfilled yet. -/
  listens : ∀ (k : Nat) l, s.listens[k]? = some l → l.phase ≠ .finished → s.listenPromise = some k ∧ (l.phase ≠ .settled true → s.listening = false)

variable {s s' : State}

theorem Ok.empty : Ok {} := ⟨by simp, by simp, by simp, by simp⟩

theorem Ok.fine (h : Ok s) : Fine s where
  single c c' hc hc' := by
    have hsame := h.current c hc
    rw [h.current c' hc'] at hsame
    exact (Option.some.inj hsame).symm
  ended hclosed _ ended hended := by
    obtain ⟨c, hc⟩ := List.mem_iff_getElem?.1 hended
    cases ended with
    | true => rfl
    | false =>
      have hclient := h.current c hc
      rw [(h.closed hclosed).client] at hclient
      cases hclient
  settled hclosed := (h.closed hclosed).settled

theorem Ok.connect (h : Ok s) (hnone : s.client = none) (hopen : s.isClosed = false) : Ok s.connect where
  current c hc := by
    rcases getElem?_concat_iff.1 hc with ⟨rfl, -⟩ | hc
    · rfl
    · rw [h.current c hc] at hnone
      cases hnone
  closed hclosed := by
    rw [show s.isClosed = true from hclosed] at hopen
    cases hopen
  pending := h.pending
  listens := h.listens

theorem Ok.setListen (h : Ok s) {k : Nat} {l new : Listen} (hk : s.listens[k]? = some l)
    (hstale : new.phase = .loading → l.phase = .loading ∧ new.isStale = l.isStale) (hfrom : new.phase ≠ .finished → l.phase ≠ .finished)
    (hdone : new.phase ≠ .finished → new.phase ≠ .settled true → s.listening = false) : Ok (s.setListen k new) where
  current := h.current
  closed hclosed := by
    obtain ⟨hclient, hlistens, hoperations, hsettled⟩ := h.closed hclosed
    refine ⟨hclient, forall_mem_set hlistens (fun hloading => ?_) k, hoperations, hsettled⟩
    obtain ⟨hloading, hsame⟩ := hstale hloading
    rw [hsame]
    exact hlistens l (List.mem_of_getElem? hk) hloading
  pending := h.pending
  listens j other hj hother := by
    rcases (getElem?_set_iff hk).1 hj with ⟨rfl, rfl⟩ | ⟨-, hj⟩
    · exact ⟨(h.listens j l hk (hfrom hother)).1, hdone hother⟩
    · exact h.listens j other hj hother

theorem Ok.setOperation (h : Ok s) {m : Nat} {o new : Operation} (hm : s.operations[m]? = some o) (hkind : new.kind = o.kind)
    (hstale : new.mayLoad = true → o.mayLoad = true ∧ new.isStale = o.isStale) (hpending : new.isPending = true → o.isPending = true) :
    Ok (s.setOperation m new) where
  current := h.current
  closed hclosed := by
    obtain ⟨hclient, hlistens, hoperations, hsettled⟩ := h.closed hclosed
    refine ⟨hclient, hlistens, forall_mem_set hoperations (fun hload => ?_) m, forall_mem_set hsettled (fun hsend => ?_) m⟩
    · obtain ⟨hload, hsame⟩ := hstale hload
      rw [hsame]
      exact hoperations o (List.mem_of_getElem? hm) hload
    · by_contra hnot
      have := hsettled o (List.mem_of_getElem? hm) (hkind ▸ hsend)
      rw [hpending (by simpa using hnot)] at this
      cases this
  pending := by
    refine forall_mem_set h.pending (fun hsend hp => ?_) m
    exact h.pending o (List.mem_of_getElem? hm) (hkind ▸ hsend) (hpending hp)
  listens := h.listens

theorem Ok.addOperation (h : Ok s) (new : Operation) (hlistening : new.kind = .send → s.listening = true) :
    Ok { s with isClosed := false, operations := s.operations ++ [new] } where
  current := h.current
  closed hclosed := by cases hclosed
  pending := forall_mem_concat h.pending fun hsend _ => hlistening hsend
  listens := h.listens

theorem Ok.listen (h : Ok s) : Ok s.listen := by
  have hreset : Ok { s with closing := false, isClosed := false } := ⟨h.current, by simp, h.pending, h.listens⟩
  unfold State.listen
  dsimp only
  split
  · exact hreset
  · next hnot =>
    simp only [Bool.or_eq_true, not_or, Bool.not_eq_true, Option.isSome_eq_false_iff, Option.isNone_iff_eq_none] at hnot
    refine ⟨h.current, by simp, h.pending, fun k l hk hl => ?_⟩
    rcases getElem?_concat_iff.1 hk with ⟨rfl, -⟩ | hk
    · exact ⟨rfl, fun _ => hnot.1⟩
    · have := (h.listens k l hk hl).1
      rw [hnot.2] at this
      cases this

theorem Ok.send (h : Ok s) : Ok s.send := by
  unfold State.send
  split
  · exact h
  · next hnot =>
    simp only [Bool.or_eq_true, not_or, Bool.not_eq_true, Bool.not_eq_false'] at hnot
    exact h.addOperation _ fun _ => hnot.2

theorem Ok.emit (h : Ok s) : Ok s.emit := by
  unfold State.emit
  split
  · exact h
  · exact h.addOperation _ (by simp)

theorem Ok.open_of_loading (h : Ok s) {l : Listen} (hl : l ∈ s.listens) (hloading : l.phase = .loading) (hfresh : l.isStale = false) :
    s.isClosed = false := by
  by_contra hclosed
  have := (h.closed (by simpa using hclosed)).listens l hl hloading
  rw [hfresh] at this
  cases this

theorem Ok.continueListen (h : Ok s) {k : Nat} {ok : Bool} (hs : Sound s (.continueListen k ok) = true)
    (hstep : s.continueListen k ok = some s') : Ok s' := by
  unfold State.continueListen at hstep
  split at hstep
  · next l hk =>
    have hpromise := fun hl => h.listens k l hk hl
    split at hstep
    · next hloading =>
      split at hstep
      · next hok =>
        cases hstep
        simp only [Sound, hk, Option.all_some, hloading, hok, decide_true, Bool.and_true, Bool.not_true, Bool.false_or, Bool.and_eq_true,
          Option.isNone_iff_eq_none, Bool.not_eq_true'] at hs
        have hnew := h.connect hs.1 (h.open_of_loading (List.mem_of_getElem? hk) hloading hs.2)
        exact hnew.setListen hk (by simp) (by simp [hloading]) fun _ _ => (hpromise (by simp [hloading])).2 (by simp [hloading])
      · cases hstep
        exact h.setListen hk (by simp) (by simp [hloading]) fun _ _ => (hpromise (by simp [hloading])).2 (by simp [hloading])
    · next c topic rest subscribed hphase =>
      have hidle := (hpromise (by simp [hphase])).2 (by simp [hphase])
      split at hstep
      · split at hstep
        · cases hstep
          have hnew : Ok (s.setListen k { l with phase := .settled true }) := h.setListen hk (by simp) (by simp [hphase]) (by simp)
          refine ⟨hnew.current, fun hclosed => ?_, fun _ _ _ _ => rfl, fun j other hj hother => ?_⟩
          · obtain ⟨hclient, hlistens, hoperations, hsettled⟩ := hnew.closed hclosed
            exact ⟨hclient, hlistens, hoperations, hsettled⟩
          · -- no other promise of `listen` is there
            refine ⟨(hnew.listens j other hj hother).1, fun hne => ?_⟩
            rcases (getElem?_set_iff hk).1 hj with ⟨rfl, rfl⟩ | ⟨hjk, hj⟩
            · exact absurd rfl hne
            · have hsame := (h.listens j other hj hother).1
              rw [(hpromise (by simp [hphase])).1] at hsame
              exact absurd (Option.some.inj hsame).symm hjk
        · cases hstep
          exact h.setListen hk (by simp) (by simp [hphase]) fun _ _ => hidle
      · split at hstep <;> cases hstep
        · exact h.setListen hk (by simp) (by simp [hphase]) fun _ _ => hidle
        · exact h.setListen hk (by simp) (by simp [hphase]) fun _ _ => hidle
    · next c topic rest hphase =>
      have hidle := (hpromise (by simp [hphase])).2 (by simp [hphase])
      split at hstep <;> cases hstep
      · exact h.setListen hk (by simp) (by simp [hphase]) fun _ _ => hidle
      · exact h.setListen hk (by simp) (by simp [hphase]) fun _ _ => hidle
    · cases hstep
  · cases hstep

theorem Ok.continueOperation (h : Ok s) {m : Nat} {ok : Bool} (hs : Sound s (.continueOperation m ok) = true)
    (hstep : s.continueOperation m ok = some s') : Ok s' := by
  unfold State.continueOperation at hstep
  split at hstep
  · next o hm =>
    split at hstep
    · next hcalled =>
      split at hstep <;> cases hstep
      · exact h.setOperation hm rfl (by simp [Operation.mayLoad]) (by simp)
      · exact h.setOperation hm rfl (by simp [Operation.mayLoad, hcalled]) id
    · next hloading =>
      split at hstep
      · next hok =>
        cases hstep
        simp only [Sound, hm, Option.all_some, hloading, hok, decide_true, Bool.and_true, Bool.not_true, Bool.false_or, Bool.and_eq_true,
          Option.isNone_iff_eq_none, Bool.not_eq_true'] at hs
        have hopen : s.isClosed = false := by
          by_contra hclosed
          have := (h.closed (by simpa using hclosed)).operations o (List.mem_of_getElem? hm) (by simp [Operation.mayLoad, hloading])
          rw [hs.2] at this
          cases this
        exact (h.connect hs.1 hopen).setOperation hm rfl (by simp [Operation.mayLoad]) id
      · cases hstep
        exact h.setOperation hm rfl (by simp [Operation.mayLoad]) (by simp)
    · cases hstep
      exact h.setOperation hm rfl (by simp [Operation.mayLoad]) fun hp => by simp only [Bool.and_eq_true] at hp; exact hp.1
    · cases hstep
  · cases hstep

theorem Ok.settle (h : Ok s) {m : Nat} (hstep : s.settle m = some s') : Ok s' := by
  unfold State.settle at hstep
  split at hstep
  · next o hm =>
    split at hstep <;> cases hstep
    exact h.setOperation hm rfl (fun hload => ⟨hload, rfl⟩) (by simp)
  · cases hstep

theorem Ok.setCloses (h : Ok s) (closes : List Close) : Ok { s with closes } :=
  ⟨h.current, fun hclosed => ⟨(h.closed hclosed).client, (h.closed hclosed).listens, (h.closed hclosed).operations, (h.closed hclosed).settled⟩,
    h.pending, h.listens⟩

theorem Ok.markClosed (h : Ok s) (hclient : s.client = none) (hsettled : ∀ o ∈ s.operations, o.kind = .send → o.isPending = false) :
    Ok s.markClosed where
  current := h.current
  closed _ := by
    refine ⟨hclient, fun l hl _ => ?_, fun o ho _ => ?_, fun o ho hsend => ?_⟩
    · obtain ⟨before, -, rfl⟩ := List.mem_map.1 hl
      rfl
    · obtain ⟨before, -, rfl⟩ := List.mem_map.1 ho
      rfl
    · obtain ⟨before, hbefore, rfl⟩ := List.mem_map.1 ho
      exact hsettled before hbefore hsend
  pending o ho hsend hp := by
    obtain ⟨before, hbefore, rfl⟩ := List.mem_map.1 ho
    exact h.pending before hbefore hsend hp
  listens k l hk hl := by
    simp only [State.markClosed, List.getElem?_map, Option.map_eq_some_iff] at hk
    obtain ⟨before, hbefore, rfl⟩ := hk
    exact h.listens k before hbefore hl

theorem Ok.finishClose (h : Ok s) (hended : ∀ c ∈ s.clients, c = true) : Ok s.finishClose := by
  have hsettled : ∀ o ∈ (s.operations.map fun o => { o with isPending := o.isPending && o.kind = OperationKind.emit }), o.kind = .send → o.isPending = false := by
    intro o ho hsend
    obtain ⟨before, -, rfl⟩ := List.mem_map.1 ho
    simp [show before.kind = .send from hsend]
  refine Ok.markClosed ⟨fun c hc => ?_, fun hclosed => ?_, fun o ho hsend hp => ?_, fun k l hk hl => ?_⟩ rfl hsettled
  · cases hended _ (List.mem_of_getElem? hc)
  · obtain ⟨-, hlistens, hoperations, -⟩ := h.closed hclosed
    refine ⟨rfl, hlistens, fun o ho hload => ?_, hsettled⟩
    obtain ⟨before, hbefore, rfl⟩ := List.mem_map.1 ho
    exact hoperations before hbefore hload
  · rw [hsettled o ho hsend] at hp
    cases hp
  · exact ⟨(h.listens k l hk hl).1, fun _ => rfl⟩

theorem Ok.ended (h : Ok s) (hnone : s.client = none) : ∀ c ∈ s.clients, c = true := by
  intro c hc
  obtain ⟨i, hi⟩ := List.mem_iff_getElem?.1 hc
  cases c with
  | true => rfl
  | false =>
    rw [h.current i hi] at hnone
    cases hnone

theorem Ok.close (h : Ok s) : Ok s.close := by
  have hclosing : Ok { s with closing := true } :=
    ⟨h.current, fun hclosed => ⟨(h.closed hclosed).client, (h.closed hclosed).listens, (h.closed hclosed).operations, (h.closed hclosed).settled⟩,
      h.pending, h.listens⟩
  unfold State.close
  dsimp only
  split
  · exact hclosing.setCloses _
  · split
    · exact hclosing.setCloses _
    · next hnone =>
      have hnone : s.client = none := by simpa using hnone
      exact (hclosing.finishClose (hclosing.ended hnone)).setCloses _

theorem Ok.continueClose (h : Ok s) {i : Nat} (hs : Sound s (.continueClose i) = true) (hstep : s.continueClose i = some s') : Ok s' := by
  unfold State.continueClose at hstep
  split at hstep
  · cases hstep
    exact h.setCloses _
  · next c hi =>
    cases hstep
    simp only [Sound, hi] at hs
    have hended : ∀ c' ∈ s.clients.set c true, c' = true := by
      intro ended hmem
      obtain ⟨j, hj⟩ := List.mem_iff_getElem?.1 hmem
      cases ended with
      | true => rfl
      | false =>
        rw [List.getElem?_set] at hj
        split at hj
        · split at hj <;> cases hj
        · next hcj =>
          rw [h.current j hj] at hs
          simp only [Option.all_some, decide_eq_true_eq] at hs
          exact absurd hs.symm hcj
    have hclient : Ok { s with clients := s.clients.set c true } := by
      refine ⟨fun j hj => ?_, fun hclosed => ?_, h.pending, h.listens⟩
      · cases hended _ (List.mem_of_getElem? hj)
      · exact ⟨(h.closed hclosed).client, (h.closed hclosed).listens, (h.closed hclosed).operations, (h.closed hclosed).settled⟩
    exact (hclient.finishClose hended).setCloses _
  · cases hstep

theorem Ok.finishListen (h : Ok s) {k : Nat} (hs : Sound s (.finishListen k) = true) (hstep : s.finishListen k = some s') : Ok s' := by
  unfold State.finishListen at hstep
  split at hstep
  · next l hk =>
    split at hstep
    · next ok hphase =>
      have hpromise := h.listens k l hk (by simp [hphase])
      have hfinished : Ok ({ s with listenPromise := none }.setListen k { l with phase := .finished }) := by
        refine ⟨h.current, fun hclosed => ?_, h.pending, fun j other hj hother => ?_⟩
        · obtain ⟨hclient, hlistens, hoperations, hsettled⟩ := h.closed hclosed
          exact ⟨hclient, forall_mem_set hlistens (by simp) k, hoperations, hsettled⟩
        · rcases (getElem?_set_iff hk).1 hj with ⟨rfl, rfl⟩ | ⟨hjk, hj⟩
          · exact absurd rfl hother
          · have hsame := (h.listens j other hj hother).1
            rw [hpromise.1] at hsame
            exact absurd (Option.some.inj hsame).symm hjk
      dsimp only at hstep
      split at hstep
      · next hwaiting =>
        cases ok with
        | true =>
          simp only [Bool.true_and, if_true] at hstep
          split at hstep <;> cases hstep
          · exact hfinished.setCloses _
          · next hnone => exact (hfinished.finishClose (hfinished.ended (by simpa using hnone))).setCloses _
        | false =>
          simp only [Bool.false_and, Bool.false_eq_true, if_false] at hstep
          cases hstep
          have hwaiting : Close.waiting k ∈ s.closes := hwaiting
          simp only [Sound, hk, Option.all_some, hphase, hwaiting, decide_true, Bool.and_self, Bool.not_true, Bool.false_or,
            Option.isNone_iff_eq_none] at hs
          have hidle := hpromise.2 (by simp [hphase])
          refine (hfinished.markClosed hs fun o ho hsend => ?_).setCloses _
          by_contra hnot
          have := h.pending o ho hsend (by simpa using hnot)
          rw [hidle] at this
          cases this
      · cases hstep
        exact hfinished
    · cases hstep
  · cases hstep

theorem step_ok {l : Label} (h : Ok s) (hs : Sound s l = true) (hstep : step s l = some s') : Ok s' := by
  cases l with
  | listen => cases hstep; exact h.listen
  | send => cases hstep; exact h.send
  | emit => cases hstep; exact h.emit
  | close => cases hstep; exact h.close
  | continueListen k ok => exact h.continueListen hs hstep
  | finishListen k => exact h.finishListen hs hstep
  | continueOperation m ok => exact h.continueOperation hs hstep
  | settle m => exact h.settle hstep
  | continueClose i => exact h.continueClose hs hstep

/-! ## Runs -/

/-- Where no client comes late, and none is left behind by a `close`, the transport has one client at a time, all have ended after `close`, and no `send`
is pending then. -/
theorem client_ownership {ls : List Label} {s : State} (h : Run step (fun s l => Sound s l) {} ls s) : Fine s :=
  (h.keeps Ok (fun _ _ _ hs hok hstep => step_ok hok hs hstep) .empty).fine

private def servedRequest : List Label :=
  [.listen, .continueListen 0 true, .continueListen 0 true, .continueListen 0 true, .continueListen 0 true, .finishListen 0, .send,
    .continueOperation 0 true, .continueOperation 0 true, .close, .continueClose 0, .continueClose 0, .continueClose 0, .continueClose 0]

theorem client_ownership_servedRequest : Fine (Lib.after step {} servedRequest) :=
  client_ownership (Run.of_passes (p := Sound) (fun _ _ h => h) (show Lib.passes step Sound {} servedRequest = true by decide))

private def emittedTwice : List Label := [.emit, .emit, .continueOperation 0 true, .continueOperation 1 true]

private def closedWhileLoading : List Label := [.emit, .close, .continueOperation 0 true, .continueOperation 0 true]

/-- Two calls create a client each, and a client comes after `close`. -/
theorem client_not_owned : (∃ s, Run step (fun _ _ => True) {} emittedTwice s ∧ ¬Fine s) ∧ ∃ s, Run step (fun _ _ => True) {} closedWhileLoading s ∧ ¬Fine s := by
  refine ⟨⟨Lib.after step {} emittedTwice, Run.of_passes (p := fun _ _ => true) (fun _ _ _ => trivial) (by decide), fun h => ?_⟩,
    Lib.after step {} closedWhileLoading, Run.of_passes (p := fun _ _ => true) (fun _ _ _ => trivial) (by decide), fun h => ?_⟩
  · exact absurd (h.single 0 1 (by decide) (by decide)) (by decide)
  · exact absurd (h.ended (by decide) (by decide) false (by decide)) (by decide)

end Fluo.Microservices.MqttTransport
