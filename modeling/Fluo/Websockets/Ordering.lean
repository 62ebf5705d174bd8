import Fluo.Websockets.Connection
/-!
# Order of the events of a connection

The handlers of one connection, called one after another: those of the connection, those of
each message that is kept, in the order of arrival, and those of the disconnect.
-/

namespace Fluo.Websockets
open Fluo.Lib

variable {Data : Type} {config : ConnectionConfig Data} {s s' : ConnectionState Data}

/-- The messages that are neither refused for their size nor dropped by the overflow policy. -/
def ConnectionState.kept (config : ConnectionConfig Data) (s : ConnectionState Data) : List (Message Data) :=
  s.arrived.filter fun message => !config.isOversized message.data && message.number ∉ s.dropped

/-- The calls for the connection and for some of its messages. -/
def ConnectionState.calls (config : ConnectionConfig Data) (s : ConnectionState Data) (messages : List (Message Data)) : List (Invocation Data) :=
  connectInvocations s.resolved ++ messages.flatMap (messageInvocations config s.resolved)

/-- The calls for the disconnect, where there is one. -/
def ConnectionState.disconnectCalls (s : ConnectionState Data) : List (Invocation Data) :=
  s.closed.toList.flatMap (disconnectInvocations s.resolved)

/-- Nothing is awaited: the next step is an event of the socket. -/
def ConnectionState.isIdle (config : ConnectionConfig Data) (s : ConnectionState Data) : Prop :=
  ∀ l, (∃ s', connectionStep config s l = some s') → (∃ data, l = .message data) ∨ ∃ event, l = .close event

structure ConnectionState.Ordered (config : ConnectionConfig Data) (s : ConnectionState Data) : Prop where
  isPrefix : s.log <+: serial (s.calls config (s.kept config) ++ s.disconnectCalls)
  isWhole  : s.isIdle config → s.log = serial (s.calls config (s.kept config) ++ s.disconnectCalls)

/-! ## Messages that are kept -/

structure ConnectionState.Numbered (s : ConnectionState Data) : Prop where
  arrived : s.arrived.map (·.number) = List.range s.arrived.length
  dropped : ∀ n ∈ s.dropped, n < s.arrived.length

variable {message : Message Data} {data : Data} {before behind messages : List (Message Data)} {left : List (Invocation Data)}

theorem ConnectionState.Numbered.lt (h : s.Numbered) (hm : message ∈ s.arrived) : message.number < s.arrived.length := by
  have := List.mem_map_of_mem (f := (·.number)) hm
  simpa [h.arrived] using this

theorem kept_arrive (h : s.Numbered) (hs : config.isOversized data = false) :
    (s.arrive data).kept config = s.kept config ++ [s.arrival data] := by
  have hnot : s.arrived.length ∉ s.dropped := fun hd => Nat.lt_irrefl _ (h.dropped _ hd)
  have hlast : [s.arrival data].filter (fun message => !config.isOversized message.data && message.number ∉ s.dropped) = [s.arrival data] := by
    simp [ConnectionState.arrival, hs, hnot]
  rw [← hlast]
  exact List.filter_append ..

theorem kept_oversized (hs : config.isOversized data) : (s.arrive data).kept config = s.kept config := by
  have hlast : [s.arrival data].filter (fun message => !config.isOversized message.data && message.number ∉ s.dropped) = [] := by
    simp [ConnectionState.arrival, hs]
  rw [← List.append_nil (s.kept config), ← hlast]
  exact List.filter_append ..

theorem kept_drop (h : s.Numbered) (hk : s.kept config = before ++ messages ++ behind) :
    (s.drop messages).kept config = before ++ behind := by
  have hnodup : ((s.kept config).map (·.number)).Nodup := by
    have hr : (s.arrived.map (·.number)).Nodup := h.arrived ▸ List.nodup_range
    exact hr.sublist (List.filter_sublist.map _)
  have hfilter : (s.drop messages).kept config = (s.kept config).filter fun message => message.number ∉ messages.map (·.number) := by
    simp only [ConnectionState.kept, ConnectionState.drop, List.filter_filter]
    congr 1
    funext message
    simp only [List.mem_append, not_or, Bool.decide_and]
    simp [Bool.and_comm, Bool.and_left_comm, Bool.and_assoc]
  rw [hk] at hnodup hfilter
  exact hfilter.trans (filter_key_notMem hnodup)

/-! ## Dispatch of the messages -/

def Sends (s s' : ConnectionState Data) : Prop :=
  ∃ queuedMessages draining closing dropped log, s' = { s with queuedMessages, draining, closing, dropped, log }

theorem Sends.trans {s'' : ConnectionState Data} (h : Sends s s') (h' : Sends s' s'') : Sends s s'' := by
  obtain ⟨_, _, _, _, _, rfl⟩ := h
  obtain ⟨q, d, c, x, l, rfl⟩ := h'
  exact ⟨q, d, c, x, l, rfl⟩

/-- The log is that of the messages dispatched so far, up to the handler in progress. -/
structure Drained (config : ConnectionConfig Data) (s : ConnectionState Data) (dispatched : List (Message Data)) : Prop where
  idle : s.draining = none → s.queuedMessages.toList = []
  log  : s.log ++ unfinished (s.draining.getD []) = serial (s.calls config dispatched)

def Taken (config : ConnectionConfig Data) (s : ConnectionState Data) (messages : List (Message Data)) : Prop :=
  ∃ dispatched, Drained config s dispatched ∧ dispatched ++ s.queuedMessages.toList = messages

theorem calls_concat (s : ConnectionState Data) (messages : List (Message Data)) (message : Message Data) :
    s.calls config (messages ++ [message]) = s.calls config messages ++ messageInvocations config s.resolved message := by
  simp [ConnectionState.calls, List.flatMap_append]

theorem nextMessage_taken {dispatched : List (Message Data)} (hlog : s.log = serial (s.calls config dispatched)) :
    Taken config (s.nextMessage config) (dispatched ++ s.queuedMessages.toList) ∧ Sends s (s.nextMessage config) ∧
      (s.nextMessage config).dropped = s.dropped := by
  simp only [ConnectionState.nextMessage]
  split
  · next message queue hshift =>
    refine ⟨⟨dispatched ++ [message], ⟨by simp [ConnectionState.logAll], ?_⟩, ?_⟩, ⟨_, _, _, _, _, rfl⟩, rfl⟩
    · show s.log ++ started (messageInvocations config s.resolved message) ++ unfinished (messageInvocations config s.resolved message) =
        serial (s.calls config (dispatched ++ [message]))
      rw [calls_concat, serial_append, List.append_assoc, started_append_unfinished, hlog]
    · show dispatched ++ [message] ++ queue.toList = _
      rw [ArrayQueue.shift_eq_some hshift, List.append_assoc]
      rfl
  · next hshift =>
    refine ⟨⟨dispatched, ⟨fun _ => rfl, ?_⟩, ?_⟩, ⟨_, _, _, _, _, rfl⟩, rfl⟩
    · show s.log ++ unfinished [] = serial (s.calls config dispatched)
      simpa using hlog
    · rw [ArrayQueue.shift_eq_none hshift]
      rfl

theorem drain_taken (h : Taken config s messages) (hd : s.draining = some left) :
    Taken config (s.drain config left) messages ∧ Sends s (s.drain config left) ∧ (s.drain config left).dropped = s.dropped := by
  obtain ⟨dispatched, ⟨hidle, hlog⟩, rfl⟩ := h
  rw [hd] at hlog
  cases left with
  | nil => exact nextMessage_taken (by simpa using hlog)
  | cons invocation left =>
    refine ⟨⟨dispatched, ⟨by simp [ConnectionState.drain, ConnectionState.logAll], ?_⟩, rfl⟩, ⟨_, _, _, _, _, rfl⟩, rfl⟩
    show s.log ++ (.finished invocation :: started left) ++ unfinished left = serial (s.calls config dispatched)
    simpa [unfinished_cons] using hlog

theorem push_taken (message : Message Data) (h : Taken config s messages) :
    Taken config (s.push config message) (messages ++ [message]) ∧ Sends s (s.push config message) ∧ (s.push config message).dropped = s.dropped := by
  obtain ⟨dispatched, ⟨hidle, hlog⟩, rfl⟩ := h
  simp only [ConnectionState.push]
  split
  · next left hd =>
    refine ⟨⟨dispatched, ⟨?_, hlog⟩, ?_⟩, ⟨_, _, _, _, _, rfl⟩, rfl⟩
    · intro hnone
      rw [hnone] at hd
      cases hd
    · show dispatched ++ (s.queuedMessages.push message).toList = _
      rw [ArrayQueue.toList_push, List.append_assoc]
  · next hd =>
    have hlog : s.log = serial (s.calls config dispatched) := by
      rw [show s.draining = none from hd] at hlog
      simpa using hlog
    have hq := hidle hd
    obtain ⟨ht, hs, hdrop⟩ := nextMessage_taken (s := { s with queuedMessages := s.queuedMessages.push message }) hlog
    refine ⟨?_, Sends.trans ⟨_, _, _, _, _, rfl⟩ hs, hdrop⟩
    simpa [hq] using ht

theorem ConnectionState.Numbered.drop (h : s.Numbered)
    (hk : s.kept config = before ++ messages ++ behind) : (s.drop messages).Numbered := by
  refine ⟨h.arrived, fun n hn => ?_⟩
  rcases List.mem_append.1 hn with hn | hn
  · exact h.dropped n hn
  · obtain ⟨message, hmem, rfl⟩ := List.mem_map.1 hn
    have hkept : message ∈ s.kept config := by simp [hk, hmem]
    exact h.lt (List.mem_filter.1 hkept).1

theorem Sends.kept (h : Sends s s') (hd : s'.dropped = s.dropped) : s'.kept config = s.kept config := by
  obtain ⟨_, _, _, _, _, rfl⟩ := h
  simp only at hd
  rw [hd]
  rfl

theorem Sends.numbered (h : Sends s s') (hd : s'.dropped = s.dropped) (hn : s.Numbered) : s'.Numbered := by
  obtain ⟨_, _, _, _, _, rfl⟩ := h
  exact ⟨hn.arrived, hd ▸ hn.dropped⟩

/-- `message` is taken, with or without a loss, before the messages `behind`. -/
def Enqueued (config : ConnectionConfig Data) (s s' : ConnectionState Data) (behind : List (Message Data)) : Prop :=
  s'.Numbered ∧ Sends s s' ∧ ∃ messages, Taken config s' messages ∧ s'.kept config = messages ++ behind

theorem push_enqueued (hn : s.Numbered) (h : Taken config s messages)
    (hk : s.kept config = messages ++ message :: behind) : Enqueued config s (s.push config message) behind := by
  obtain ⟨ht, hs, hd⟩ := push_taken message h
  refine ⟨hs.numbered hd hn, hs, messages ++ [message], ht, ?_⟩
  rw [hs.kept hd, hk, List.append_assoc]
  rfl

theorem enqueueMessageDispatch_enqueued (hn : s.Numbered)
    (h : Taken config s messages) (hk : s.kept config = messages ++ message :: behind) :
    Enqueued config s (s.enqueueMessageDispatch config message) behind := by
  simp only [ConnectionState.enqueueMessageDispatch]
  split
  · obtain ⟨dispatched, ⟨hidle, hlog⟩, rfl⟩ := h
    split
    · have hk' : s.kept config = dispatched ++ (s.queuedMessages.toList ++ [message]) ++ behind := by simp [hk]
      have hn' := hn.drop hk'
      exact ⟨⟨hn'.arrived, hn'.dropped⟩, ⟨_, _, _, _, _, rfl⟩, dispatched, ⟨dispatched, ⟨fun _ => rfl, hlog⟩, by simp⟩, kept_drop hn hk'⟩
    · have hk' : s.kept config = dispatched ++ s.queuedMessages.toList.take 1 ++ (s.queuedMessages.toList.tail ++ message :: behind) := by
        rw [hk, ← List.drop_one, List.append_assoc, List.append_assoc, ← List.append_assoc (s.queuedMessages.toList.take 1),
          List.take_append_drop]
      have hn' : s.dropOldest.Numbered := ⟨(hn.drop hk').arrived, (hn.drop hk').dropped⟩
      have ht : Taken config s.dropOldest (dispatched ++ s.queuedMessages.toList.tail) := by
        refine ⟨dispatched, ⟨fun hd => ?_, hlog⟩, by simp [ConnectionState.dropOldest]⟩
        simp [ConnectionState.dropOldest, hidle hd]
      have hk'' : s.dropOldest.kept config = dispatched ++ s.queuedMessages.toList.tail ++ message :: behind := by
        rw [List.append_assoc]
        exact kept_drop hn hk'
      obtain ⟨hn'', hs, htaken⟩ := push_enqueued hn' ht hk''
      exact ⟨hn'', Sends.trans ⟨_, _, _, _, _, rfl⟩ hs, htaken⟩
    · have hk' : s.kept config = dispatched ++ s.queuedMessages.toList ++ [message] ++ behind := by simp [hk]
      exact ⟨hn.drop hk', ⟨_, _, _, _, _, rfl⟩, _, ⟨dispatched, ⟨hidle, hlog⟩, rfl⟩, kept_drop hn hk'⟩
  · exact push_enqueued hn h hk

theorem foldl_enqueued {taken : List (Message Data)} (hn : s.Numbered) (h : Taken config s taken) (hk : s.kept config = taken ++ messages) :
    Enqueued config s (messages.foldl (fun s message => s.enqueueMessageDispatch config message) s) [] := by
  induction messages generalizing s taken with
  | nil => exact ⟨hn, ⟨_, _, _, _, _, rfl⟩, taken, h, hk⟩
  | cons message messages ih =>
    obtain ⟨hn', hs, taken', ht, hk'⟩ := enqueueMessageDispatch_enqueued hn h hk
    obtain ⟨hn'', hs', htaken⟩ := ih hn' ht hk'
    exact ⟨hn'', hs.trans hs', htaken⟩

/-! ## Stages of the connection -/

/-- The connect handlers have not finished, and every event is buffered. -/
structure Waiting (s : ConnectionState Data) : Prop where
  handlersReady      : s.handlersReady = false
  draining           : s.draining = none
  queuedMessages     : s.queuedMessages.toList = []
  disconnecting      : s.disconnecting = .none
  bufferedDisconnect : s.bufferedDisconnect = s.closed

inductive Stage (config : ConnectionConfig Data) (s : ConnectionState Data) : Prop
  | resolving (left resolved : List GatewayDescriptor) (hb : s.binding = .resolving left resolved) (hw : Waiting s)
      (hk : s.kept config = s.bufferedMessages.toList) (hlog : s.log = [])
  | connecting (left : List (Invocation Data)) (hb : s.binding = .connecting left) (hw : Waiting s)
      (hk : s.kept config = s.bufferedMessages.toList)
      (hlog : s.log ++ unfinished left = serial (connectInvocations s.resolved))
  | ready (hb : s.binding = .bound) (hr : s.handlersReady = true) (ht : Taken config s (s.kept config))
      (hd : s.disconnecting = s.closed.elim .none .queued)
  | ending (left : List (Invocation Data)) (event : DisconnectEvent) (hb : s.binding = .bound) (hr : s.handlersReady = true)
      (hd : s.disconnecting = .running left) (hc : s.closed = some event) (hn : s.draining = none)
      (hlog : s.log ++ unfinished left = serial (s.calls config (s.kept config) ++ s.disconnectCalls))

structure ConnectionState.Ok (config : ConnectionConfig Data) (s : ConnectionState Data) : Prop where
  numbered : s.Numbered
  stage    : Stage config s

theorem ok_resolve {left resolved : List GatewayDescriptor} (h : s.Ok config) (hb : s.binding = .resolving left resolved) (ok : Bool) :
    (s.resolve config left resolved ok).Ok config := by
  have hn := h.numbered
  cases h.stage with
  | resolving left' resolved' hb' hw hk hlog =>
    refine ⟨?_, ?_⟩
    · cases left <;> exact ⟨hn.arrived, hn.dropped⟩
    · cases left with
      | nil =>
        refine .connecting (connectInvocations resolved) rfl ⟨hw.1, hw.2, hw.3, hw.4, hw.5⟩ hk ?_
        show s.log ++ started (connectInvocations resolved) ++ unfinished (connectInvocations resolved) = serial (connectInvocations resolved)
        rw [hlog, List.nil_append, started_append_unfinished]
      | cons descriptor left => exact .resolving left _ rfl ⟨hw.1, hw.2, hw.3, hw.4, hw.5⟩ hk hlog
  | connecting left' hb' => rw [hb'] at hb; cases hb
  | ready hb' => rw [hb'] at hb; cases hb
  | ending left' event hb' => rw [hb'] at hb; cases hb

theorem ok_finalize (hn : s.Numbered) (hw : Waiting s) (hk : s.kept config = s.bufferedMessages.toList)
    (hlog : s.log = serial (connectInvocations s.resolved)) :
    (s.finalizeConnectionBinding config).Ok config := by
  have ht : Taken config s.makeReady [] :=
    ⟨[], ⟨fun _ => hw.queuedMessages, by simpa [ConnectionState.makeReady, ConnectionState.calls, hw.draining] using hlog⟩, hw.queuedMessages⟩
  have hn' : s.makeReady.Numbered := ⟨hn.arrived, hn.dropped⟩
  have hbuffered : s.makeReady.kept config = [] ++ s.bufferedMessages.toList := hk
  obtain ⟨hn'', hs, messages, ⟨dispatched, ⟨hidle, hlog'⟩, rfl⟩, hk'⟩ := foldl_enqueued hn' ht hbuffered
  obtain ⟨_, _, _, _, _, heq⟩ := hs
  rw [List.append_nil] at hk'
  simp only [ConnectionState.finalizeConnectionBinding]
  generalize s.bufferedMessages.toList.foldl _ s.makeReady = s₁ at *
  refine ⟨⟨hn''.arrived, hn''.dropped⟩, .ready (by rw [heq]; rfl) (by rw [heq]; rfl) ⟨dispatched, ⟨hidle, hlog'⟩, hk'.symm⟩ ?_⟩
  show s₁.bufferedDisconnect.elim s₁.disconnecting Disconnecting.queued = s₁.closed.elim .none .queued
  rw [heq]
  show s.bufferedDisconnect.elim s.disconnecting Disconnecting.queued = s.closed.elim .none .queued
  rw [hw.bufferedDisconnect, hw.disconnecting]

theorem ok_connect (h : s.Ok config) (hb : s.binding = .connecting left) : (s.connect config left).Ok config := by
  have hn := h.numbered
  cases h.stage with
  | resolving left' resolved' hb' => rw [hb'] at hb; cases hb
  | connecting left' hb' hw hk hlog =>
    rw [hb'] at hb
    cases hb
    cases left with
    | nil => exact ok_finalize hn hw hk (by simpa using hlog)
    | cons invocation left =>
      refine ⟨⟨hn.arrived, hn.dropped⟩, .connecting left rfl ⟨hw.1, hw.2, hw.3, hw.4, hw.5⟩ hk ?_⟩
      show s.log ++ (.finished invocation :: started left) ++ unfinished left = serial (connectInvocations s.resolved)
      simpa [unfinished_cons] using hlog
  | ready hb' => rw [hb'] at hb; cases hb
  | ending left' event hb' => rw [hb'] at hb; cases hb

theorem ok_drain (h : s.Ok config) (hd : s.draining = some left) : (s.drain config left).Ok config := by
  cases h.stage with
  | resolving left' resolved' hb' hw => rw [hw.draining] at hd; cases hd
  | connecting left' hb' hw => rw [hw.draining] at hd; cases hd
  | ready hb hr ht hdis =>
    obtain ⟨ht', hs, hdrop⟩ := drain_taken ht hd
    refine ⟨hs.numbered hdrop h.numbered, ?_⟩
    rw [← hs.kept hdrop] at ht'
    obtain ⟨_, _, _, _, _, heq⟩ := hs
    exact .ready (by rw [heq]; exact hb) (by rw [heq]; exact hr) ht' (by rw [heq]; exact hdis)
  | ending left' event hb hr hdis hc hn => rw [hn] at hd; cases hd

theorem ok_disconnect (h : s.Ok config) (hs : s.disconnect = some s') : s'.Ok config := by
  have hn := h.numbered
  have none_of (hd : s.disconnecting = .none) : False := by simp [ConnectionState.disconnect, hd] at hs
  cases h.stage with
  | resolving left' resolved' hb' hw => exact (none_of hw.disconnecting).elim
  | connecting left' hb' hw => exact (none_of hw.disconnecting).elim
  | ready hb hr ht hdis =>
    cases hc : s.closed with
    | none => exact (none_of (by rw [hdis, hc]; rfl)).elim
    | some event =>
      rw [hc] at hdis
      cases hd : s.draining with
      | some left => simp [ConnectionState.disconnect, hdis, hd] at hs
      | none =>
        obtain ⟨dispatched, ⟨hidle, hlog⟩, hkept⟩ := ht
        simp only [hidle hd, List.append_nil] at hkept
        simp only [ConnectionState.disconnect, hdis, hd, Option.elim_some, Option.isSome_none, Bool.false_eq_true, if_false,
          Option.some.injEq] at hs
        subst hs
        refine ⟨⟨hn.arrived, hn.dropped⟩, .ending _ event hb hr rfl hc rfl ?_⟩
        show s.log ++ started (disconnectInvocations s.resolved event) ++ unfinished (disconnectInvocations s.resolved event) =
          serial (s.calls config (s.kept config) ++ s.disconnectCalls)
        rw [List.append_assoc, started_append_unfinished, serial_append, ← hkept]
        simpa [hd, ConnectionState.disconnectCalls, hc] using hlog
  | ending left event hb hr hdis hc hnone hlog =>
    cases left with
    | nil => simp [ConnectionState.disconnect, hdis] at hs
    | cons invocation left =>
      simp only [ConnectionState.disconnect, hdis, Option.some.injEq] at hs
      subst hs
      refine ⟨⟨hn.arrived, hn.dropped⟩, .ending left event hb hr rfl hc hnone ?_⟩
      show s.log ++ (.finished invocation :: started left) ++ unfinished left = serial (s.calls config (s.kept config) ++ s.disconnectCalls)
      simpa [unfinished_cons] using hlog

theorem buffer_kept (hn : s.Numbered) (hw : Waiting s) (hk : s.kept config = s.bufferedMessages.toList ++ [message]) :
    (s.bufferIncomingMessage config message).Numbered ∧ Waiting (s.bufferIncomingMessage config message) ∧
      (s.bufferIncomingMessage config message).kept config = (s.bufferIncomingMessage config message).bufferedMessages.toList := by
  simp only [ConnectionState.bufferIncomingMessage]
  split
  · refine ⟨⟨hn.arrived, hn.dropped⟩, ⟨hw.1, hw.2, hw.3, hw.4, hw.5⟩, ?_⟩
    show s.kept config = (s.bufferedMessages.push message).toList
    rw [hk, ArrayQueue.toList_push]
  · split
    · have hk' : s.kept config = [] ++ (s.bufferedMessages.toList ++ [message]) ++ [] := by simp [hk]
      exact ⟨⟨hn.arrived, (hn.drop hk').dropped⟩, ⟨hw.1, hw.2, hw.3, hw.4, hw.5⟩, kept_drop hn hk'⟩
    · have hk' : s.kept config = s.bufferedMessages.toList ++ [message] ++ [] := by simp [hk]
      exact ⟨hn.drop hk', ⟨hw.1, hw.2, hw.3, hw.4, hw.5⟩, (kept_drop hn hk').trans (List.append_nil _)⟩
    · have hk' : s.kept config = [] ++ s.bufferedMessages.toList.take 1 ++ (s.bufferedMessages.toList.tail ++ [message]) := by
        rw [hk, ← List.drop_one, List.nil_append, ← List.append_assoc, List.take_append_drop]
      refine ⟨⟨hn.arrived, (hn.drop hk').dropped⟩, ⟨hw.1, hw.2, hw.3, hw.4, hw.5⟩, ?_⟩
      show (s.drop (s.bufferedMessages.toList.take 1)).kept config = (s.bufferedMessages.dropOldest.push message).toList
      rw [kept_drop hn hk', ArrayQueue.toList_push, ArrayQueue.toList_dropOldest]
      rfl

theorem ok_close (event : DisconnectEvent) (h : s.Ok config) (hc : s.closed = none) : (s.close event).Ok config := by
  have hn := h.numbered
  have hwaiting (hw : Waiting s) : s.close event = { s with closed := some event, bufferedDisconnect := some event } := by
    simp [ConnectionState.close, hw.handlersReady]
  cases h.stage with
  | resolving left resolved hb hw hk hlog =>
    rw [hwaiting hw]
    exact ⟨⟨hn.arrived, hn.dropped⟩, .resolving left resolved hb ⟨hw.1, hw.2, hw.3, hw.4, rfl⟩ hk hlog⟩
  | connecting left hb hw hk hlog =>
    rw [hwaiting hw]
    exact ⟨⟨hn.arrived, hn.dropped⟩, .connecting left hb ⟨hw.1, hw.2, hw.3, hw.4, rfl⟩ hk hlog⟩
  | ready hb hr ht hd =>
    obtain ⟨dispatched, ⟨hidle, hlog⟩, hkept⟩ := ht
    have heq : s.close event = { s with closed := some event, disconnecting := .queued event } := by simp [ConnectionState.close, hr]
    rw [heq]
    exact ⟨⟨hn.arrived, hn.dropped⟩, .ready hb hr ⟨dispatched, ⟨hidle, hlog⟩, hkept⟩ rfl⟩
  | ending left event' hb hr hd hc' => rw [hc] at hc'; cases hc'

theorem bufferIncomingMessage_eq (config : ConnectionConfig Data) (s : ConnectionState Data) (message : Message Data) :
    (s.bufferIncomingMessage config message).binding = s.binding ∧ (s.bufferIncomingMessage config message).resolved = s.resolved ∧
      (s.bufferIncomingMessage config message).log = s.log := by
  simp only [ConnectionState.bufferIncomingMessage]
  split
  · exact ⟨rfl, rfl, rfl⟩
  · split <;> exact ⟨rfl, rfl, rfl⟩

theorem ConnectionState.Numbered.arrive (h : s.Numbered) (data : Data) : (s.arrive data).Numbered := by
  refine ⟨by simp [ConnectionState.arrive, ConnectionState.arrival, h.arrived, List.range_succ], fun n hn => ?_⟩
  have := h.dropped n hn
  simp only [ConnectionState.arrive, List.length_append, List.length_singleton]
  omega

theorem ok_oversized {closing : List SocketClose} (h : s.Ok config) (hs : config.isOversized data) :
    ({ s.arrive data with closing } : ConnectionState Data).Ok config := by
  have hn := h.numbered.arrive data
  have hkept : (s.arrive data).kept config = s.kept config := kept_oversized hs
  refine ⟨⟨hn.arrived, hn.dropped⟩, ?_⟩
  cases h.stage with
  | resolving left resolved hb hw hk hlog => exact .resolving left resolved hb ⟨hw.1, hw.2, hw.3, hw.4, hw.5⟩ (hkept.trans hk) hlog
  | connecting left hb hw hk hlog => exact .connecting left hb ⟨hw.1, hw.2, hw.3, hw.4, hw.5⟩ (hkept.trans hk) hlog
  | ready hb hr ht hd =>
    obtain ⟨dispatched, ⟨hidle, hlog⟩, ht⟩ := ht
    exact .ready hb hr ⟨dispatched, ⟨hidle, hlog⟩, ht.trans hkept.symm⟩ hd
  | ending left event hb hr hd hc hnone hlog =>
    refine .ending left event hb hr hd hc hnone ?_
    show s.log ++ unfinished left = serial (s.calls config ((s.arrive data).kept config) ++ s.disconnectCalls)
    rw [hkept]
    exact hlog

theorem ok_message (data : Data) (h : s.Ok config) (hc : s.closed = none) : (s.message config data).Ok config := by
  have hn := h.numbered.arrive data
  simp only [ConnectionState.message]
  split
  · next hs => exact ok_oversized h hs
  · next hs =>
    have hkept : (s.arrive data).kept config = s.kept config ++ [s.arrival data] := kept_arrive h.numbered (by simpa using hs)
    cases h.stage with
    | resolving left resolved hb hw hk hlog =>
      rw [if_neg (by simp [hw.handlersReady])]
      obtain ⟨hbinding, _, hlog'⟩ := bufferIncomingMessage_eq config (s.arrive data) (s.arrival data)
      obtain ⟨hn', hw', hk'⟩ := buffer_kept hn ⟨hw.1, hw.2, hw.3, hw.4, hw.5⟩ (hkept.trans (by rw [hk]; rfl))
      exact ⟨hn', .resolving left resolved (hbinding.trans hb) hw' hk' (hlog'.trans hlog)⟩
    | connecting left hb hw hk hlog =>
      rw [if_neg (by simp [hw.handlersReady])]
      obtain ⟨hbinding, hresolved, hlog'⟩ := bufferIncomingMessage_eq config (s.arrive data) (s.arrival data)
      obtain ⟨hn', hw', hk'⟩ := buffer_kept hn ⟨hw.1, hw.2, hw.3, hw.4, hw.5⟩ (hkept.trans (by rw [hk]; rfl))
      refine ⟨hn', .connecting left (hbinding.trans hb) hw' hk' ?_⟩
      rw [hresolved, hlog']
      exact hlog
    | ready hb hr ht hd =>
      rw [if_pos hr]
      obtain ⟨dispatched, ⟨hidle, hlog⟩, htaken⟩ := ht
      have ht' : Taken config (s.arrive data) (s.kept config) := ⟨dispatched, ⟨hidle, hlog⟩, htaken⟩
      obtain ⟨hn', ⟨_, _, _, _, _, heq⟩, messages, ht'', hk'⟩ := enqueueMessageDispatch_enqueued hn ht' hkept
      rw [List.append_nil] at hk'
      rw [← hk'] at ht''
      exact ⟨hn', .ready (by rw [heq]; exact hb) (by rw [heq]; exact hr) ht'' (by rw [heq]; exact hd)⟩
    | ending left event hb hr hd hc' => rw [hc] at hc'; cases hc'

theorem ok_step {l : ConnectionLabel Data} (h : s.Ok config) (hs : connectionStep config s l = some s') : s'.Ok config := by
  cases l with
  | resolve ok =>
    simp only [connectionStep] at hs
    split at hs
    · next hb =>
      cases hs
      exact ok_resolve h hb ok
    · cases hs
  | connect =>
    simp only [connectionStep] at hs
    split at hs
    · next hb =>
      cases hs
      exact ok_connect h hb
    · cases hs
  | drain =>
    obtain ⟨left, hd, rfl⟩ := Option.map_eq_some_iff.1 hs
    exact ok_drain h hd
  | disconnect => exact ok_disconnect h hs
  | message data =>
    simp only [connectionStep] at hs
    split at hs
    · cases hs
    · next hc =>
      cases hs
      exact ok_message data h (by simpa using hc)
  | close event =>
    simp only [connectionStep] at hs
    split at hs
    · cases hs
    · next hc =>
      cases hs
      exact ok_close event h (by simpa using hc)

theorem ok_create : (createConnectionHandlerState config).Ok config :=
  ⟨⟨rfl, by simp [createConnectionHandlerState]⟩, .resolving _ _ rfl ⟨rfl, rfl, rfl, rfl, rfl⟩ rfl rfl⟩

/-! ## Order -/

theorem ConnectionState.isIdle.not_step (h : s.isIdle config) {l : ConnectionLabel Data}
    (hl : (∀ data, l ≠ .message data) ∧ ∀ event, l ≠ .close event) : connectionStep config s l = none := by
  by_contra hne
  obtain ⟨s', hs⟩ := Option.ne_none_iff_exists'.1 hne
  rcases h l ⟨s', hs⟩ with ⟨data, he⟩ | ⟨event, he⟩
  · exact hl.1 data he
  · exact hl.2 event he

theorem ConnectionState.Ok.isPrefix (h : s.Ok config) : s.log <+: serial (s.calls config (s.kept config) ++ s.disconnectCalls) := by
  cases h.stage with
  | resolving left resolved hb hw hk hlog => exact hlog ▸ List.nil_prefix
  | connecting left hb hw hk hlog =>
    refine ⟨unfinished left ++ serial ((s.kept config).flatMap (messageInvocations config s.resolved) ++ s.disconnectCalls), ?_⟩
    rw [← List.append_assoc, hlog, ← serial_append, ← List.append_assoc]
    rfl
  | ready hb hr ht hd =>
    obtain ⟨dispatched, ⟨_, hlog⟩, hkept⟩ := ht
    refine ⟨unfinished (s.draining.getD []) ++ serial (s.queuedMessages.toList.flatMap (messageInvocations config s.resolved) ++ s.disconnectCalls), ?_⟩
    rw [← List.append_assoc, hlog, ← serial_append, ← hkept]
    simp [ConnectionState.calls]
  | ending left event hb hr hd hc hnone hlog => exact ⟨unfinished left, hlog⟩

theorem ConnectionState.Ok.isWhole (h : s.Ok config) (hi : s.isIdle config) : s.log = serial (s.calls config (s.kept config) ++ s.disconnectCalls) := by
  have hdrain := hi.not_step (l := .drain) (by simp)
  have hdisconnect : s.disconnect = none := hi.not_step (l := .disconnect) (by simp)
  cases h.stage with
  | resolving left resolved hb =>
    have := hi.not_step (l := .resolve true) (by simp)
    simp [connectionStep, hb] at this
  | connecting left hb =>
    have := hi.not_step (l := .connect) (by simp)
    simp [connectionStep, hb] at this
  | ready hb hr ht hd =>
    obtain ⟨dispatched, ⟨hidle, hlog⟩, hkept⟩ := ht
    have hnone : s.draining = none := by simpa [connectionStep] using hdrain
    simp only [hidle hnone, List.append_nil] at hkept
    cases hc : s.closed with
    | some event => simp [ConnectionState.disconnect, hd, hc, hnone] at hdisconnect
    | none =>
      simp only [hnone, Option.getD_none, unfinished_nil, List.append_nil] at hlog
      rw [hlog, hkept, ConnectionState.disconnectCalls, hc]
      simp
  | ending left event hb hr hd hc hnone hlog =>
    cases left with
    | nil => simpa using hlog
    | cons invocation left => simp [ConnectionState.disconnect, hd] at hdisconnect

/-- In every run the handlers are called one after another: those of the connection, those of
the messages that are kept, as they have arrived, and those of the disconnect. -/
theorem connection_ordered {ls : List (ConnectionLabel Data)}
    (h : Run (connectionStep config) (fun _ _ => True) (createConnectionHandlerState config) ls s) : s.Ordered config := by
  have hok : s.Ok config := h.keeps (fun s => s.Ok config) (fun _ _ _ _ hi hs => ok_step hi hs) ok_create
  exact ⟨hok.isPrefix, hok.isWhole⟩

private def chat : GatewayDescriptor where
  targetName := "ChatGateway"
  handlers   := [{ type := .connect, methodName := "open" }, { type := .message, methodName := "receive" }, { type := .disconnect, methodName := "leave" }]

/-- A message is its length in bytes. -/
private def chatConfig (maxPayloadBytes : Int) : ConnectionConfig Nat where
  service                  := .node
  descriptors              := [chat]
  maxPayloadBytes          := some maxPayloadBytes
  resolveMessageByteLength := id
  parsedEvent              := fun _ => none

private def closedEarly : List (ConnectionLabel Nat) :=
  [.message 3, .resolve true, .resolve true, .message 5, .close { code := 1000, reason := "" }, .connect, .connect, .drain, .drain, .drain, .drain,
    .disconnect, .disconnect]

/-- Two messages and the close come before the connect handler has finished. -/
theorem closedEarly_ordered : ∃ s, ConnectionState.Ordered (chatConfig 8) s ∧ s.log.length = 8 :=
  ⟨_, connection_ordered (Run.of_passes (p := fun _ _ => true) (fun _ _ _ => trivial) (show Lib.passes _ _ _ closedEarly = true by decide)), by decide⟩

/-- A message above `maxPayloadBytes` is not dispatched, though no overflow policy drops it. -/
theorem oversized_not_dispatched : ∃ (config : ConnectionConfig Nat) (ls : List (ConnectionLabel Nat)) (s : ConnectionState Nat),
    Run (connectionStep config) (fun _ _ => True) (createConnectionHandlerState config) ls s ∧ s.isIdle config ∧
      s.log ≠ serial (s.calls config (s.arrived.filter (·.number ∉ s.dropped)) ++ s.disconnectCalls) := by
  refine ⟨chatConfig 8, [.resolve true, .resolve true, .connect, .connect, .message 9], _,
    Run.of_passes (p := fun _ _ => true) (fun _ _ _ => trivial) (by decide), ?_, by decide⟩
  rintro l ⟨s', hs⟩
  cases l with
  | message data => exact .inl ⟨data, rfl⟩
  | close event => exact .inr ⟨event, rfl⟩
  | resolve ok => cases hs
  | connect => cases hs
  | drain => cases hs
  | disconnect => cases hs

end Fluo.Websockets
