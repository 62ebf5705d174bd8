import Fluo.SocketIo.Connection
/-!
# Order of the events of a Socket.IO connection

The handlers of one connection, where its events come when the listeners are attached and
the messages before them have been handed over.
-/

namespace Fluo.SocketIo
open Fluo.Lib Fluo.Websockets

variable {Data : Type} {config : Config Data} {s s' : State Data}

/-- The messages that the overflow policy does not drop. -/
def State.kept (s : State Data) : List (Message Data) := s.arrived.filter fun message => message.number ∉ s.dropped

/-- The calls for a message, which are none where the guard rejects it. -/
def calls (config : Config Data) (resolved : List GatewayDescriptor) (message : Message Data) : List (Invocation Data) :=
  if (config.resolveMessageGuardRejection message).isSome then [] else messageInvocations resolved message

def State.keptCalls (config : Config Data) (s : State Data) : List (Invocation Data) := s.kept.flatMap (calls config s.resolved)

def State.disconnectInvocations (s : State Data) : List (Invocation Data) :=
  s.disconnected.toList.flatMap (SocketIo.disconnectInvocations s.resolved)

/-- Nothing is awaited: the next step is an event of the socket. -/
def State.isIdle (config : Config Data) (s : State Data) : Prop :=
  ∀ l, (∃ s', step config s l = some s') → (∃ event payload ack, l = .message event payload ack) ∨ ∃ reason, l = .disconnected reason

/-- The handlers of the messages are called as these have arrived, after the connect handlers
and before the disconnect handlers, and in the end all have been called. -/
structure State.Ordered (config : Config Data) (s : State Data) : Prop where
  phased : Phased (connectInvocations s.resolved) (s.keptCalls config) s.disconnectInvocations s.log
  whole  : s.isIdle config → startedCalls s.log = connectInvocations s.resolved ++ s.keptCalls config ++ s.disconnectInvocations

/-! ## Deliveries -/

namespace Delivery

/-- The calls that are still to be made. -/
def pending (config : Config Data) (resolved : List GatewayDescriptor) (delivery : Delivery Data) : List (Invocation Data) :=
  (match delivery.current with
    | .guarding message => calls config resolved message
    | .running left => left.tail) ++ delivery.rest.flatMap (calls config resolved)

def awaited (delivery : Delivery Data) : List (Invocation Data) :=
  match delivery.current with
  | .guarding _ => []
  | .running left => left.take 1

end Delivery

def State.pendings (config : Config Data) (s : State Data) : List (List (Invocation Data)) := s.deliveries.map (·.pending config s.resolved)

def State.awaited (s : State Data) : List (Invocation Data) := (s.deliveries.map (·.awaited)).flatten

/-- The listeners are attached. -/
def State.isAttached (s : State Data) : Bool :=
  match s.binding with
  | .resolving _ _ => false
  | _ => true

/-- A message comes when all handlers of the messages before it have been called, and the
disconnect when they have settled. -/
def Timely (config : Config Data) (s : State Data) : Label Data → Bool
  | .message _ _ _ => s.isAttached && s.deliveries.all fun delivery => (delivery.pending config s.resolved).isEmpty
  | .disconnected _ => s.isAttached && s.deliveries.all (·.isDone)
  | _ => true

variable {message : Message Data} {resolved : List GatewayDescriptor} {delivery : Delivery Data} {i : Nat}
    {l : List (CallEvent (Invocation Data))} {before behind messages : List (Message Data)} {left : List (Invocation Data)}

theorem messageInvocations_eq_nil (h : hasMatchingHandlers resolved message = false) :
    messageInvocations resolved message = [] := by
  simp only [hasMatchingHandlers, List.any_eq_false] at h
  simp only [messageInvocations, List.flatMap_eq_nil_iff, GatewayDescriptor.invocations, List.map_eq_nil_iff, List.filter_eq_nil_iff]
  intro d hd handler hmem
  have := h d hd
  simp only [List.any_eq_true, not_exists, not_and] at this
  exact absurd (List.mem_filter.1 hmem).2 (this handler (List.mem_filter.1 hmem).1)

theorem pending_handleMessage (resolved : List GatewayDescriptor) (message : Message Data) (rest : List (Message Data)) :
    Delivery.pending config resolved { current := handleMessage resolved message, rest } =
      calls config resolved message ++ rest.flatMap (calls config resolved) := by
  by_cases h : hasMatchingHandlers resolved message
  · simp [Delivery.pending, handleMessage, h]
  · simp [Delivery.pending, handleMessage, h, calls, messageInvocations_eq_nil (Bool.eq_false_iff.2 h)]

theorem awaited_handleMessage (resolved : List GatewayDescriptor) (message : Message Data) (rest : List (Message Data)) :
    Delivery.awaited { current := handleMessage resolved message, rest } = [] := by
  by_cases h : hasMatchingHandlers resolved message <;> simp [Delivery.awaited, handleMessage, h]

theorem Delivery.isDone_iff : delivery.isDone ↔ delivery.current = .running [] ∧ delivery.rest = [] := by
  simp only [Delivery.isDone]
  split <;> simp_all

theorem deliver_eq_none (h : s.deliver config i delivery = none) : delivery.isDone := by
  simp only [State.deliver] at h
  split at h
  · split at h <;> cases h
  · cases h
  · next hc =>
    split at h
    · next hr => exact Delivery.isDone_iff.2 ⟨hc, hr⟩
    · cases h

/-- A delivery that goes on makes the first of its pending calls, or none. -/
inductive Delivers (config : Config Data) (s : State Data) (i : Nat) (delivery : Delivery Data) : State Data → Prop
  | intro (next : Delivery Data) (events log : List (CallEvent (Invocation Data))) (acknowledged : List (Nat × String)) (disconnectCalls : Nat)
      (hlog : log = s.log ++ events)
      (hp : delivery.pending config s.resolved = startedCalls events ++ next.pending config s.resolved)
      (ha : (delivery.awaited ++ startedCalls events).Perm (finishedCalls events ++ next.awaited)) :
      Delivers config s i delivery { s with deliveries := s.deliveries.set i next, log, acknowledged, disconnectCalls }

theorem pending_running (resolved : List GatewayDescriptor) (left : List (Invocation Data)) (rest : List (Message Data)) :
    left ++ rest.flatMap (calls config resolved) = left.take 1 ++ Delivery.pending config resolved { current := .running left, rest } := by
  simp [Delivery.pending, ← List.append_assoc, ← List.drop_one]

theorem deliver_delivers (h : s.deliver config i delivery = some s') : Delivers config s i delivery s' := by
  obtain ⟨current, rest⟩ := delivery
  cases current with
  | guarding message =>
    simp only [State.deliver] at h
    split at h
    · next rejection hr =>
      cases h
      exact .intro { current := .running [], rest } [] _ _ _ (List.append_nil _).symm (by simp [Delivery.pending, calls, hr, startedCalls])
        (.refl _)
    · next hr =>
      cases h
      refine .intro { current := .running (messageInvocations s.resolved message), rest } (started (messageInvocations s.resolved message)) _ _ _
        rfl ?_ (by simp [Delivery.awaited])
      rw [startedCalls_started, ← pending_running]
      simp [Delivery.pending, calls, hr]
  | running left =>
    cases left with
    | nil =>
      cases rest with
      | nil => cases h
      | cons message rest =>
        cases h
        refine .intro { current := handleMessage s.resolved message, rest } [] _ _ _ (List.append_nil _).symm ?_ ?_
        · rw [pending_handleMessage]
          rfl
        · rw [awaited_handleMessage]
          exact .refl _
    | cons invocation left =>
      cases h
      refine .intro { current := .running left, rest } (.finished invocation :: started left) _ _ _ rfl ?_ (by simp [Delivery.awaited])
      rw [startedCalls_finished, startedCalls_started, ← pending_running]
      rfl

/-! ## Stages of the connection -/

structure State.Numbered (s : State Data) : Prop where
  arrived : s.arrived.map (·.number) = List.range s.arrived.length
  dropped : ∀ n ∈ s.dropped, n < s.arrived.length

/-- The connect handlers have not finished, and every event is buffered. -/
structure Waiting (s : State Data) : Prop where
  handlersReady      : s.handlersReady = false
  deliveries         : s.deliveries = []
  disconnecting      : s.disconnecting = none
  bufferedDisconnect : s.bufferedDisconnect = s.disconnected
  kept               : s.kept = s.bufferedMessages

/-- What has been called of the messages, and what is to be called of them. -/
structure Handed (config : Config Data) (s : State Data) (l : List (CallEvent (Invocation Data))) : Prop where
  started  : startedCalls l ++ (s.pendings config).flatten = s.keptCalls config
  finished : (startedCalls l).Perm (finishedCalls l ++ s.awaited)
  apart    : Apart (fun a b => a = [] ∨ b = []) (s.pendings config)

inductive Stage (config : Config Data) (s : State Data) : Prop
  | resolving (left resolved : List GatewayDescriptor) (hb : s.binding = .resolving left resolved) (hw : Waiting s) (ha : s.arrived = [])
      (hd : s.disconnected = none) (hlog : s.log = [])
  | connecting (left : List (Invocation Data)) (hb : s.binding = .connecting left) (hw : Waiting s)
      (hlog : s.log ++ unfinished left = serial (connectInvocations s.resolved))
  /-- Where the disconnect is buffered, the replay is the only delivery. -/
  | ready (l : List (CallEvent (Invocation Data))) (hr : s.handlersReady = true) (hb : s.binding = .replaying ∧ s.deliveries ≠ [] ∨ s.binding = .bound)
      (hd : s.disconnecting = none) (hbd : s.bufferedDisconnect = s.disconnected)
      (hone : s.disconnected ≠ none → s.binding = .replaying ∧ s.deliveries.length = 1)
      (hlog : s.log = serial (connectInvocations s.resolved) ++ l) (hh : Handed config s l)
  | ending (l l' : List (CallEvent (Invocation Data))) (left : List (Invocation Data)) (reason : String) (hr : s.handlersReady = true)
      (hb : s.binding = .replaying ∨ s.binding = .bound) (hd : s.disconnecting = some left) (hbd : s.bufferedDisconnect = none)
      (hdis : s.disconnected = some reason) (hdone : ∀ delivery ∈ s.deliveries, delivery.isDone)
      (hlog : s.log = serial (connectInvocations s.resolved) ++ l ++ l') (hs : startedCalls l = s.keptCalls config)
      (hf : (finishedCalls l).Perm (s.keptCalls config)) (hl : l' ++ unfinished left = serial s.disconnectInvocations)

structure State.Ok (config : Config Data) (s : State Data) : Prop where
  numbered : s.Numbered
  stage    : Stage config s

theorem Delivery.isDone_awaited (h : delivery.isDone) : delivery.awaited = [] := by
  obtain ⟨hc, _⟩ := Delivery.isDone_iff.1 h
  simp [Delivery.awaited, hc]

theorem Delivery.isDone_pending (h : delivery.isDone) (resolved : List GatewayDescriptor) :
    delivery.pending config resolved = [] := by
  obtain ⟨hc, hr⟩ := Delivery.isDone_iff.1 h
  simp [Delivery.pending, hc, hr]

theorem pendings_done (h : ∀ delivery ∈ s.deliveries, delivery.isDone) : (s.pendings config).flatten = [] := by
  rw [List.flatten_eq_nil_iff]
  intro calls hc
  obtain ⟨delivery, hd, rfl⟩ := List.mem_map.1 hc
  exact Delivery.isDone_pending (h delivery hd) _

theorem awaited_done (h : ∀ delivery ∈ s.deliveries, delivery.isDone) : s.awaited = [] := by
  rw [State.awaited, List.flatten_eq_nil_iff]
  intro calls hc
  obtain ⟨delivery, hd, rfl⟩ := List.mem_map.1 hc
  exact Delivery.isDone_awaited (h delivery hd)

theorem Handed.deliver (h : Handed config s l)
    (hi : s.deliveries[i]? = some delivery) (hd : Delivers config s i delivery s') : ∃ events, s'.log = s.log ++ events ∧ Handed config s' (l ++ events) := by
  obtain ⟨next, events, log, acknowledged, disconnectCalls, rfl, hp, ha⟩ := hd
  have hpi : (s.pendings config)[i]? = some (startedCalls events ++ next.pending config s.resolved) := by
    simp [State.pendings, hi, hp]
  have hai : (s.deliveries.map (·.awaited))[i]? = some delivery.awaited := by simp [hi]
  refine ⟨events, rfl, ?_, ?_, ?_⟩
  · have hflat : startedCalls events ++ ((s.pendings config).set i (next.pending config s.resolved)).flatten = (s.pendings config).flatten :=
      h.apart.flatten_set hpi
    show startedCalls (l ++ events) ++ ((s.deliveries.set i next).map (·.pending config s.resolved)).flatten = s.keptCalls config
    rw [startedCalls_append, List.map_set, List.append_assoc]
    exact hflat ▸ h.started
  · show (startedCalls (l ++ events)).Perm (finishedCalls (l ++ events) ++ ((s.deliveries.set i next).map (·.awaited)).flatten)
    rw [List.map_set, startedCalls_append, finishedCalls_append]
    exact perm_exchange h.finished (flatten_set_perm hai next.awaited) ha
  · show Apart _ ((s.deliveries.set i next).map (·.pending config s.resolved))
    rw [List.map_set]
    refine h.apart.set hpi fun j calls hj hc => ?_
    have hor := h.apart i j _ _ (Ne.symm hj) hpi hc
    have hnil : next.pending config s.resolved = [] ∨ calls = [] := hor.imp_left fun he => (List.append_eq_nil_iff.1 he).2
    exact ⟨hnil, hnil.symm⟩

theorem Handed.arrive (h : Handed config s l)
    (ht : ∀ delivery ∈ s.deliveries, delivery.pending config s.resolved = []) (hk : s'.kept = s.kept ++ [message]) (hr : s'.resolved = s.resolved)
    (hd : s'.deliveries = s.deliveries ++ [{ current := handleMessage s.resolved message, rest := [] }]) : Handed config s' l := by
  have hnone : (s.pendings config).flatten = [] := by
    rw [List.flatten_eq_nil_iff]
    intro calls hc
    obtain ⟨delivery, hmem, rfl⟩ := List.mem_map.1 hc
    exact ht delivery hmem
  have hpendings : s'.pendings config = s.pendings config ++ [calls config s.resolved message] := by
    simp [State.pendings, hd, hr, pending_handleMessage]
  have hawaited : s'.awaited = s.awaited := by simp [State.awaited, hd, awaited_handleMessage]
  have hs := h.started
  rw [hnone, List.append_nil] at hs
  refine ⟨?_, ?_, ?_⟩
  · simp [hpendings, hnone, hs, State.keptCalls, hk, hr]
  · rw [hawaited]
    exact h.finished
  · rw [hpendings]
    refine h.apart.concat fun calls hc => ?_
    have hnil : calls = [] := List.flatten_eq_nil_iff.1 hnone calls hc
    exact ⟨.inr hnil, .inl hnil⟩

/-! ## Messages that are kept -/

theorem State.Numbered.lt (h : s.Numbered) (hm : message ∈ s.arrived) : message.number < s.arrived.length := by
  have hnumber := List.mem_map_of_mem (f := (·.number)) hm
  simpa [h.arrived] using hnumber

theorem State.Numbered.drop (h : s.Numbered) (hk : s.kept = before ++ messages ++ behind) :
    (s.drop messages).Numbered := by
  refine ⟨h.arrived, fun n hn => ?_⟩
  rcases List.mem_append.1 hn with hn | hn
  · exact h.dropped n hn
  · obtain ⟨message, hmem, rfl⟩ := List.mem_map.1 hn
    have hkept : message ∈ s.kept := by simp [hk, hmem]
    exact h.lt (List.mem_filter.1 hkept).1

theorem State.Numbered.arrive (h : s.Numbered) (hm : message.number = s.arrived.length) : (s.arrive message).Numbered := by
  refine ⟨by simp [State.arrive, h.arrived, hm, List.range_succ], fun n hn => ?_⟩
  have := h.dropped n hn
  simp only [State.arrive, List.length_append, List.length_singleton]
  omega

theorem kept_arrive (h : s.Numbered) (hm : message.number = s.arrived.length) :
    (s.arrive message).kept = s.kept ++ [message] := by
  have hnot : message.number ∉ s.dropped := fun hd => Nat.lt_irrefl _ (hm ▸ h.dropped _ hd)
  have hlast : [message].filter (fun message => message.number ∉ s.dropped) = [message] := by simp [hnot]
  rw [← hlast]
  exact List.filter_append ..

theorem kept_drop (h : s.Numbered) (hk : s.kept = before ++ messages ++ behind) :
    (s.drop messages).kept = before ++ behind := by
  have hnodup : (s.kept.map (·.number)).Nodup := by
    have hr : (s.arrived.map (·.number)).Nodup := h.arrived ▸ List.nodup_range
    exact hr.sublist (List.filter_sublist.map _)
  have hfilter : (s.drop messages).kept = s.kept.filter fun message => message.number ∉ messages.map (·.number) := by
    simp only [State.kept, State.drop, List.filter_filter]
    congr 1
    funext message
    simp only [List.mem_append, not_or, Bool.decide_and]
    simp [Bool.and_comm]
  rw [hk] at hnodup hfilter
  exact hfilter.trans (filter_key_notMem hnodup)

/-! ## Steps -/

theorem ok_resolve {left : List GatewayDescriptor} (h : s.Ok config) (hb : s.binding = .resolving left resolved) (ok : Bool) :
    (s.resolve left resolved ok).Ok config := by
  have hn := h.numbered
  cases h.stage with
  | resolving left' resolved' hb' hw ha hd hlog =>
    cases left with
    | nil =>
      refine ⟨⟨hn.arrived, hn.dropped⟩, .connecting (connectInvocations resolved) rfl ⟨hw.1, hw.2, hw.3, hw.4, hw.5⟩ ?_⟩
      show s.log ++ started (connectInvocations resolved) ++ unfinished (connectInvocations resolved) = serial (connectInvocations resolved)
      rw [hlog, List.nil_append, started_append_unfinished]
    | cons descriptor left => exact ⟨⟨hn.arrived, hn.dropped⟩, .resolving left _ rfl ⟨hw.1, hw.2, hw.3, hw.4, hw.5⟩ ha hd hlog⟩
  | connecting left' hb' => rw [hb'] at hb; cases hb
  | ready l hr hb' => rcases hb' with ⟨hb', _⟩ | hb' <;> rw [hb'] at hb <;> cases hb
  | ending l l' left' reason hr hb' => rcases hb' with hb' | hb' <;> rw [hb'] at hb <;> cases hb

theorem ok_connect (h : s.Ok config) (hb : s.binding = .connecting left) : (s.connect left).Ok config := by
  have hn := h.numbered
  cases h.stage with
  | resolving left' resolved' hb' => rw [hb'] at hb; cases hb
  | connecting left' hb' hw hlog =>
    rw [hb'] at hb
    cases hb
    cases left with
    | nil =>
      refine ⟨⟨hn.arrived, hn.dropped⟩, .ready [] rfl (.inl ⟨rfl, by simp [State.connect]⟩) hw.disconnecting hw.bufferedDisconnect
        (fun _ => ⟨rfl, by simp [State.connect, hw.deliveries]⟩) (by simpa [State.connect] using hlog) ?_⟩
      have hone : s.deliveries ++ [replay s.bufferedMessages] = [replay s.bufferedMessages] := by rw [hw.deliveries, List.nil_append]
      refine ⟨?_, ?_, ?_⟩
      · show [] ++ ((s.deliveries ++ [replay s.bufferedMessages]).map (·.pending config s.resolved)).flatten = s.kept.flatMap (calls config s.resolved)
        rw [hone, hw.kept]
        simp [Delivery.pending, replay]
      · show List.Perm [] ([] ++ ((s.deliveries ++ [replay s.bufferedMessages]).map (·.awaited)).flatten)
        rw [hone]
        exact .refl _
      · show Apart _ ((s.deliveries ++ [replay s.bufferedMessages]).map (·.pending config s.resolved))
        rw [hone]
        exact Apart.nil.concat (by simp)
    | cons invocation left =>
      refine ⟨⟨hn.arrived, hn.dropped⟩, .connecting left rfl ⟨hw.1, hw.2, hw.3, hw.4, hw.5⟩ ?_⟩
      show s.log ++ (.finished invocation :: started left) ++ unfinished left = serial (connectInvocations s.resolved)
      simpa [unfinished_cons] using hlog
  | ready l hr hb' => rcases hb' with ⟨hb', _⟩ | hb' <;> rw [hb'] at hb <;> cases hb
  | ending l l' left' reason hr hb' => rcases hb' with hb' | hb' <;> rw [hb'] at hb <;> cases hb

theorem ok_deliver (h : s.Ok config) (hi : s.deliveries[i]? = some delivery)
    (hs : s.deliver config i delivery = some s') : s'.Ok config := by
  have hn := h.numbered
  have hd := deliver_delivers hs
  cases h.stage with
  | resolving left resolved hb hw => simp [hw.deliveries] at hi
  | connecting left hb hw => simp [hw.deliveries] at hi
  | ready l hr hb hdis hbd hone hlog hh =>
    obtain ⟨events, hlog', hh'⟩ := hh.deliver hi hd
    obtain ⟨next, _, log, acknowledged, disconnectCalls, rfl, _, _⟩ := hd
    refine ⟨⟨hn.arrived, hn.dropped⟩, .ready (l ++ events) hr ?_ hdis hbd ?_ ?_ hh'⟩
    · exact hb.imp_left fun hb => ⟨hb.1, by simpa using hb.2⟩
    · exact fun hne => ⟨(hone hne).1, by simpa using (hone hne).2⟩
    · rw [hlog', hlog, List.append_assoc]
  | ending l l' left reason hr hb hdis hbd hdc hdone =>
    obtain ⟨hc, hrest⟩ := Delivery.isDone_iff.1 (hdone delivery (List.mem_of_getElem? hi))
    simp [State.deliver, hc, hrest] at hs

theorem ok_disconnect (h : s.Ok config) (hd : s.disconnecting = some left) (hs : s.disconnect left = some s') :
    s'.Ok config := by
  have hn := h.numbered
  cases h.stage with
  | resolving left' resolved hb hw => rw [hw.disconnecting] at hd; cases hd
  | connecting left' hb hw => rw [hw.disconnecting] at hd; cases hd
  | ready l hr hb hdis => rw [hdis] at hd; cases hd
  | ending l l' left' reason hr hb hdis hbd hdc hdone hlog hcalls hf hl =>
    rw [hdis] at hd
    cases hd
    cases left with
    | nil => cases hs
    | cons invocation left =>
      cases hs
      refine ⟨⟨hn.arrived, hn.dropped⟩, .ending l (l' ++ .finished invocation :: started left) left reason hr hb rfl hbd hdc hdone ?_ hcalls hf ?_⟩
      · show s.log ++ (.finished invocation :: started left) = _
        rw [hlog, List.append_assoc]
        rfl
      · show l' ++ (.finished invocation :: started left) ++ unfinished left = serial s.disconnectInvocations
        simpa [unfinished_cons] using hl

theorem ok_handleDisconnect {reason : String} (hn : s.Numbered) (hr : s.handlersReady = true)
    (hb : s.binding = .replaying ∨ s.binding = .bound) (hbd : s.bufferedDisconnect = none) (hdc : s.disconnected = some reason)
    (hdone : ∀ delivery ∈ s.deliveries, delivery.isDone) (hlog : s.log = serial (connectInvocations s.resolved) ++ l) (hh : Handed config s l) :
    (s.handleDisconnect reason).Ok config := by
  have hcalls := hh.started
  rw [pendings_done hdone, List.append_nil] at hcalls
  have hf := hh.finished
  rw [awaited_done hdone, List.append_nil, hcalls] at hf
  refine ⟨⟨hn.arrived, hn.dropped⟩, .ending l (started (SocketIo.disconnectInvocations s.resolved reason)) _ reason hr hb rfl hbd hdc hdone ?_ hcalls
    hf.symm ?_⟩
  · show s.log ++ started (SocketIo.disconnectInvocations s.resolved reason) = _
    rw [hlog]
    rfl
  · show started (SocketIo.disconnectInvocations s.resolved reason) ++ unfinished (SocketIo.disconnectInvocations s.resolved reason) =
      serial s.disconnectInvocations
    rw [started_append_unfinished]
    simp [State.disconnectInvocations, hdc]

theorem ok_finish (h : s.Ok config) (hb : s.binding = .replaying) (hhead : s.deliveries.head?.all (·.isDone)) : s.finish.Ok config := by
  have hn := h.numbered
  cases h.stage with
  | resolving left resolved hb' => rw [hb'] at hb; cases hb
  | connecting left hb' => rw [hb'] at hb; cases hb
  | ready l hr hb' hdis hbd hone hlog hh =>
    cases hbuf : s.bufferedDisconnect with
    | none =>
      have heq : s.finish = { s with binding := .bound, bufferedMessages := [] } := by simp [State.finish, hbuf]
      have hdc : s.disconnected = none := hbd.symm.trans hbuf
      rw [heq]
      exact ⟨⟨hn.arrived, hn.dropped⟩, .ready l hr (.inr rfl) hdis hbd (fun hne => absurd hdc hne) hlog ⟨hh.started, hh.finished, hh.apart⟩⟩
    | some reason =>
      have heq : s.finish = { s with binding := .bound, bufferedMessages := [], bufferedDisconnect := none }.handleDisconnect reason := by
        simp [State.finish, hbuf]
      have hdc : s.disconnected = some reason := hbd.symm.trans hbuf
      obtain ⟨replay, hreplay⟩ := List.length_eq_one_iff.1 (hone (by simp [hdc])).2
      have hdone : ∀ delivery ∈ s.deliveries, delivery.isDone := by simpa [hreplay] using hhead
      rw [heq]
      exact ok_handleDisconnect ⟨hn.arrived, hn.dropped⟩ hr (.inr rfl) rfl hdc hdone hlog ⟨hh.started, hh.finished, hh.apart⟩
  | ending l l' left reason hr hb' hdis hbd hdc hdone hlog hcalls hf hl =>
    have heq : s.finish = { s with binding := .bound, bufferedMessages := [] } := by simp [State.finish, hbd]
    rw [heq]
    exact ⟨⟨hn.arrived, hn.dropped⟩, .ending l l' left reason hr (.inr rfl) hdis hbd hdc hdone hlog hcalls hf hl⟩

theorem ok_close {reason : String} (h : s.Ok config) (ht : Timely config s (.disconnected reason)) (hdc : s.disconnected = none) :
    (s.close reason).Ok config := by
  have hn := h.numbered
  simp only [Timely, Bool.and_eq_true, List.all_eq_true] at ht
  cases h.stage with
  | resolving left resolved hb => simp [State.isAttached, hb] at ht
  | connecting left hb hw hlog =>
    have heq : s.close reason = { s with disconnected := some reason, bufferedDisconnect := some reason } := by
      simp [State.close, hb, hw.handlersReady]
    rw [heq]
    exact ⟨⟨hn.arrived, hn.dropped⟩, .connecting left hb ⟨hw.1, hw.2, hw.3, rfl, hw.5⟩ hlog⟩
  | ready l hr hb hdis hbd hone hlog hh =>
    have heq : s.close reason = { s with disconnected := some reason }.handleDisconnect reason := by
      rcases hb with ⟨hb, _⟩ | hb <;> simp [State.close, hb, hr]
    rw [heq]
    exact ok_handleDisconnect ⟨hn.arrived, hn.dropped⟩ hr (hb.imp_left And.left) (hbd.trans hdc) rfl ht.2 hlog ⟨hh.started, hh.finished, hh.apart⟩
  | ending l l' left reason' hr hb hdis hbd hdc' => rw [hdc] at hdc'; cases hdc'

theorem buffer_kept (hn : s.Numbered) (hk : s.kept = s.bufferedMessages ++ [message]) :
    (s.buffer config message).Numbered ∧ (s.buffer config message).kept = (s.buffer config message).bufferedMessages ∧
      ∃ bufferedMessages dropped disconnectCalls, s.buffer config message = { s with bufferedMessages, dropped, disconnectCalls } := by
  simp only [State.buffer]
  split
  · split
    · have hk' : s.kept = [] ++ (s.bufferedMessages ++ [message]) ++ [] := by simp [hk]
      exact ⟨⟨hn.arrived, (hn.drop hk').dropped⟩, kept_drop hn hk', _, _, _, rfl⟩
    · have hk' : s.kept = s.bufferedMessages ++ [message] ++ [] := by simp [hk]
      exact ⟨hn.drop hk', (kept_drop hn hk').trans (List.append_nil _), _, _, _, rfl⟩
    · have hk' : s.kept = [] ++ s.bufferedMessages.take 1 ++ (s.bufferedMessages.tail ++ [message]) := by
        rw [hk, ← List.drop_one, List.nil_append, ← List.append_assoc, List.take_append_drop]
      have hdrop := kept_drop hn hk'
      exact ⟨⟨hn.arrived, (hn.drop hk').dropped⟩, hdrop, _, _, _, rfl⟩
  · exact ⟨⟨hn.arrived, hn.dropped⟩, hk, _, _, _, rfl⟩

theorem ok_message {event : String} {payload : Data} {ack : Bool} (h : s.Ok config) (ht : Timely config s (.message event payload ack))
    (hdc : s.disconnected = none) : (s.message config event payload ack).Ok config := by
  have hn := h.numbered
  simp only [Timely, Bool.and_eq_true, List.all_eq_true, List.isEmpty_iff] at ht
  simp only [State.message]
  generalize hm : ({ number := s.arrived.length, event, payload, hasAcknowledgement := ack } : Message Data) = message
  have hnumber : message.number = s.arrived.length := by rw [← hm]
  have hn' := hn.arrive hnumber
  have hk := kept_arrive hn hnumber
  cases h.stage with
  | resolving left resolved hb => simp [State.isAttached, hb] at ht
  | connecting left hb hw hlog =>
    simp only [hb, hw.handlersReady, Bool.false_eq_true, if_false]
    obtain ⟨hn'', hk', _, _, _, heq⟩ := buffer_kept hn' (hk.trans (by rw [hw.kept]; rfl))
    refine ⟨hn'', .connecting left (by rw [heq]; exact hb) ⟨?_, ?_, ?_, ?_, hk'⟩ ?_⟩
    · rw [heq]; exact hw.handlersReady
    · rw [heq]; exact hw.deliveries
    · rw [heq]; exact hw.disconnecting
    · rw [heq]; exact hw.bufferedDisconnect
    · rw [heq]; exact hlog
  | ready l hr hb hdis hbd hone hlog hh =>
    have hready : ((s.arrive message).handle message).Ok config := by
      refine ⟨⟨hn'.arrived, hn'.dropped⟩, .ready l hr ?_ hdis hbd (fun hne => absurd hdc hne) hlog (hh.arrive ht.2 hk rfl rfl)⟩
      exact hb.imp_left fun hb => ⟨hb.1, by simp [State.handle]⟩
    rcases hb with ⟨hb, _⟩ | hb <;> simpa [hb, hr] using hready
  | ending l l' left reason' hr hb hdis hbd hdc' => rw [hdc] at hdc'; cases hdc'

theorem ok_step {l : Label Data} (h : s.Ok config) (ht : Timely config s l) (hs : step config s l = some s') : s'.Ok config := by
  cases l with
  | resolve ok =>
    simp only [step] at hs
    split at hs
    · next hb =>
      cases hs
      exact ok_resolve h hb ok
    · cases hs
  | connect =>
    simp only [step] at hs
    split at hs
    · next hb =>
      cases hs
      exact ok_connect h hb
    · cases hs
  | deliver i =>
    obtain ⟨delivery, hi, hs⟩ := Option.bind_eq_some_iff.1 hs
    exact ok_deliver h hi hs
  | finish =>
    simp only [step] at hs
    split at hs
    · next hb =>
      split at hs
      · next hhead =>
        cases hs
        exact ok_finish h hb hhead
      · cases hs
    · cases hs
  | disconnect =>
    obtain ⟨left, hd, hs⟩ := Option.bind_eq_some_iff.1 hs
    exact ok_disconnect h hd hs
  | message event payload ack =>
    simp only [step] at hs
    split at hs
    · cases hs
    · next hdc =>
      cases hs
      exact ok_message h ht (by simpa using hdc)
  | disconnected reason =>
    simp only [step] at hs
    split at hs
    · cases hs
    · next hdc =>
      cases hs
      exact ok_close h ht (by simpa using hdc)

theorem ok_create : (createConnection config).Ok config :=
  ⟨⟨rfl, by simp [createConnection]⟩, .resolving _ _ rfl ⟨rfl, rfl, rfl, rfl, rfl⟩ rfl rfl rfl⟩

/-! ## Order -/

theorem State.Ok.phased (h : s.Ok config) : Phased (connectInvocations s.resolved) (s.keptCalls config) s.disconnectInvocations s.log := by
  cases h.stage with
  | resolving left resolved hb hw ha hd hlog => exact .first (hlog ▸ List.nil_prefix)
  | connecting left hb hw hlog => exact .first ⟨_, hlog⟩
  | ready l hr hb hd hbd hone hlog hh => exact .second l hlog ⟨_, hh.started⟩
  | ending l l' left reason hr hb hd hbd hdis hdone hlog hs hf hl => exact .third l l' hlog hs hf ⟨_, hl⟩

theorem State.isIdle.not_step (h : s.isIdle config) {l : Label Data}
    (hl : (∀ event payload ack, l ≠ .message event payload ack) ∧ ∀ reason, l ≠ .disconnected reason) : step config s l = none := by
  by_contra hne
  obtain ⟨s', hs⟩ := Option.ne_none_iff_exists'.1 hne
  rcases h l ⟨s', hs⟩ with ⟨event, payload, ack, he⟩ | ⟨reason, he⟩
  · exact hl.1 event payload ack he
  · exact hl.2 reason he

theorem State.Ok.whole (h : s.Ok config) (hi : s.isIdle config) :
    startedCalls s.log = connectInvocations s.resolved ++ s.keptCalls config ++ s.disconnectInvocations := by
  have hdeliver (i : Nat) (delivery : Delivery Data) (hd : s.deliveries[i]? = some delivery) : delivery.isDone := by
    have hnone := hi.not_step (l := .deliver i) (by simp)
    simp only [step, hd, Option.bind_some] at hnone
    exact deliver_eq_none hnone
  cases h.stage with
  | resolving left resolved hb =>
    have := hi.not_step (l := .resolve true) (by simp)
    simp [step, hb] at this
  | connecting left hb =>
    have := hi.not_step (l := .connect) (by simp)
    simp [step, hb] at this
  | ready l hr hb hd hbd hone hlog hh =>
    have hdone : ∀ delivery ∈ s.deliveries, delivery.isDone := fun delivery hmem => by
      obtain ⟨i, hget⟩ := List.mem_iff_getElem?.1 hmem
      exact hdeliver i delivery hget
    have hcalls := hh.started
    rw [pendings_done hdone, List.append_nil] at hcalls
    have hdis : s.disconnected = none := by
      by_contra hne
      have hfinish := hi.not_step (l := .finish) (by simp)
      have hhead : s.deliveries.head?.all (·.isDone) := by
        cases hd : s.deliveries with
        | nil => rfl
        | cons delivery deliveries => exact hdone delivery (by simp [hd])
      simp [step, (hone hne).1, hhead] at hfinish
    simp [hlog, hcalls, State.disconnectInvocations, hdis]
  | ending l l' left reason hr hb hd hbd hdis hdone hlog hs hf hl =>
    have hnone := hi.not_step (l := .disconnect) (by simp)
    cases left with
    | nil =>
      rw [unfinished_nil, List.append_nil] at hl
      simp [hlog, hs, hl]
    | cons invocation left => simp [step, hd, State.disconnect] at hnone

/-- Where the messages and the disconnect come in time, the handlers of the messages are called
as these have come, between those of the connection and those of the disconnect. -/
theorem socket_ordered {ls : List (Label Data)} (h : Run (step config) (fun s l => Timely config s l) (createConnection config) ls s) :
    s.Ordered config := by
  have hok : s.Ok config := h.keeps (fun s => s.Ok config) (fun _ _ _ ht hi hs => ok_step hi ht hs) ok_create
  exact ⟨hok.phased, hok.whole⟩

private def chat : GatewayDescriptor where
  targetName := "ChatGateway"
  handlers   := [{ type := .connect, methodName := "open" }, { type := .message, methodName := "receive" }, { type := .disconnect, methodName := "leave" }]

private def chatConfig : Config Nat where
  descriptors                  := [chat]
  resolveMessageGuardRejection := fun message => if message.payload = 0 then some {} else none

private def connected : List (Label Nat) := [.resolve true, .resolve true, .message "say" 1 false, .message "say" 0 true, .connect, .connect]

/-- One buffered message is handled and the other one rejected, then a third message comes, and then the end. -/
private def buffered : List (Label Nat) :=
  connected ++ [.deliver 0, .deliver 0, .deliver 0, .deliver 0, .message "say" 2 false, .deliver 0, .finish, .deliver 1, .deliver 1,
    .disconnected "transport close", .disconnect]

theorem buffered_ordered : ∃ s, State.Ordered chatConfig s ∧ s.log.length = 8 :=
  ⟨_, socket_ordered (Run.of_passes (p := Timely chatConfig) (fun _ _ h => h) (show Lib.passes _ _ _ buffered = true by decide)), by decide⟩

/-- A message that comes while the buffered ones are replayed is handled before the last of these. -/
theorem replay_overtaken : ∃ (config : Config Nat) (ls : List (Label Nat)) (s : State Nat),
    Run (step config) (fun _ _ => True) (createConnection config) ls s ∧ ¬ s.Ordered config := by
  refine ⟨chatConfig, [.resolve true, .resolve true, .message "say" 1 false, .message "say" 2 false, .connect, .connect, .deliver 0, .deliver 0,
    .message "say" 3 false, .deliver 1], _, Run.of_passes (p := fun _ _ => true) (fun _ _ _ => trivial) (by decide), fun h => ?_⟩
  have hp := h.phased.startedCalls_isPrefix
  revert hp
  decide

end Fluo.SocketIo
