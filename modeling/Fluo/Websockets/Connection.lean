import Fluo.Lib.Serial
import Fluo.Lib.ArrayQueue
import Fluo.Websockets.Admission
/-!
# A connection of the Node and Bun gateways

One connection of `NodeWebSocketGatewayLifecycleService` or of
`BunWebSocketGatewayLifecycleService`, between two turns of the event loop: three
asynchronous functions (of the connection, of its messages and of its end) and the events
of the socket. A handler settles when it likes, with or without an error.
-/

namespace Fluo.Websockets
open Fluo.Lib

inductive Service
  | node
  | bun
deriving DecidableEq

inductive HandlerType
  | connect
  | message
  | disconnect
deriving DecidableEq

structure HandlerDescriptor where
  type : HandlerType
  event : Option String := none
  methodName : String
  /-- The instance has a function there. -/
  isCallable : Bool := true

structure GatewayDescriptor where
  targetName : String
  handlers : List HandlerDescriptor

inductive OverflowPolicy
  | dropOldest
  | dropNewest
  | close

structure ConnectionConfig (Data : Type) where
  service : Service
  descriptors : List GatewayDescriptor
  maxPayloadBytes : Option Int := none
  maxPendingMessagesPerSocket : Option Int := none
  overflowPolicy : Option OverflowPolicy := none
  resolveMessageByteLength : Data → Nat
  /-- The `event` of `parseIncomingMessage`. -/
  parsedEvent : Data → Option String

def DEFAULT_MAX_WEBSOCKET_PAYLOAD_BYTES : Nat := 1048576

def DEFAULT_MAX_PENDING_MESSAGES_PER_SOCKET : Nat := 256

/-- A message, with its place in the order of arrival. -/
structure Message (Data : Type) where
  number : Nat
  data : Data
deriving DecidableEq

structure DisconnectEvent where
  code : Nat
  reason : String
deriving DecidableEq

inductive SocketEvent (Data : Type)
  | connect
  | message (message : Message Data)
  | disconnect (event : DisconnectEvent)
deriving DecidableEq

/-- A call of a handler of a gateway. -/
structure HandlerCall (Event : Type) where
  event : Event
  targetName : String
  methodName : String
deriving DecidableEq

abbrev Invocation (Data : Type) := HandlerCall (SocketEvent Data)

inductive SocketClose
  | terminate
  | close (code : Nat) (reason : String)

/-- `bindConnectionHandlers` -/
inductive Binding (Data : Type)
  | resolving (left resolved : List GatewayDescriptor)
  /-- The first of `left` is awaited, if there is one. -/
  | connecting (left : List (Invocation Data))
  | bound

/-- `enqueueDisconnectDispatch` -/
inductive Disconnecting (Data : Type)
  | none
  /-- The handlers of the messages come first. -/
  | queued (event : DisconnectEvent)
  | running (left : List (Invocation Data))

structure ConnectionState (Data : Type) where
  binding : Binding Data
  resolved : List GatewayDescriptor := []
  bufferedMessages : ArrayQueue (Message Data) := {}
  bufferedDisconnect : Option DisconnectEvent := none
  handlersReady : Bool := false
  queuedMessages : ArrayQueue (Message Data) := {}
  /-- `drainMessageQueue`, if it is in progress: `processingMessageQueue`. -/
  draining : Option (List (Invocation Data)) := none
  disconnecting : Disconnecting Data := .none
  /-- What the service has asked of the socket. -/
  closing : List SocketClose := []
  closed : Option DisconnectEvent := none
  arrived : List (Message Data) := []
  /-- The messages that the overflow policy has dropped. -/
  dropped : List Nat := []
  log : List (CallEvent (Invocation Data)) := []

inductive ConnectionLabel (Data : Type)
  /-- The container answers for the next gateway. -/
  | resolve (ok : Bool)
  /-- `bindConnectionHandlers` goes on. -/
  | connect
  /-- `drainMessageQueue` goes on. -/
  | drain
  /-- The disconnect dispatch goes on. -/
  | disconnect
  | message (data : Data)
  | close (event : DisconnectEvent)

variable {Data : Type}

/-! ## Dispatch -/

/-- The handlers of one gateway that are called in turn for an event. -/
def GatewayDescriptor.invocations {Event : Type} (d : GatewayDescriptor) (event : Event) (p : HandlerDescriptor → Bool) : List (HandlerCall Event) :=
  ((d.handlers.filter p).filter (·.isCallable)).map fun handler => { event, targetName := d.targetName, methodName := handler.methodName }

/-- `runGatewayHandlers(.., 'connect', ..)` of all gateways -/
def connectInvocations (resolved : List GatewayDescriptor) : List (Invocation Data) :=
  resolved.flatMap fun d => d.invocations .connect fun handler => handler.type = .connect

/-- `dispatchGatewayMessage` -/
def messageInvocations (config : ConnectionConfig Data) (resolved : List GatewayDescriptor) (message : Message Data) : List (Invocation Data) :=
  resolved.flatMap fun d => d.invocations (.message message) fun handler =>
    handler.type = .message && (handler.event = none || handler.event = config.parsedEvent message.data)

/-- `dispatchGatewayDisconnect` -/
def disconnectInvocations (resolved : List GatewayDescriptor) (event : DisconnectEvent) : List (Invocation Data) :=
  resolved.flatMap fun d => d.invocations (.disconnect event) fun handler => handler.type = .disconnect

namespace ConnectionConfig

def maxPending (config : ConnectionConfig Data) : Nat := positiveIntegerOr DEFAULT_MAX_PENDING_MESSAGES_PER_SOCKET config.maxPendingMessagesPerSocket

def policy (config : ConnectionConfig Data) : OverflowPolicy := config.overflowPolicy.getD .dropOldest

def resolveMaxPayloadBytes (config : ConnectionConfig Data) : Nat := positiveIntegerOr DEFAULT_MAX_WEBSOCKET_PAYLOAD_BYTES config.maxPayloadBytes

/-- The check of `closeOversizedPayload`. -/
def isOversized (config : ConnectionConfig Data) (data : Data) : Bool := config.resolveMaxPayloadBytes < config.resolveMessageByteLength data

/-- How an overflow closes the socket. -/
def overflowClose (config : ConnectionConfig Data) (reason : String) : SocketClose :=
  match config.service with
  | .node => .terminate
  | .bun => .close 1013 reason

end ConnectionConfig

/-! ## The three functions -/

namespace ConnectionState
variable (config : ConnectionConfig Data) (s : ConnectionState Data)

def logAll (events : List (CallEvent (Invocation Data))) : ConnectionState Data := { s with log := s.log ++ events }

def drop (messages : List (Message Data)) : ConnectionState Data := { s with dropped := s.dropped ++ messages.map (·.number) }

/-- The loop of `drainMessageQueue`, to the dispatch of the next message. -/
def nextMessage : ConnectionState Data :=
  match s.queuedMessages.shift with
  | some (message, queuedMessages) =>
    let left := messageInvocations config s.resolved message
    { s with queuedMessages, draining := some left }.logAll (started left)
  | none => { s with queuedMessages := {}, draining := none }

/-- A handler of a message has settled: the next one, or the next message. -/
def drain (left : List (Invocation Data)) : ConnectionState Data :=
  match left with
  | [] => s.nextMessage config
  | invocation :: left => { s with draining := some left }.logAll (.finished invocation :: started left)

/-- The end of `enqueueMessageDispatch`. -/
def push (message : Message Data) : ConnectionState Data :=
  let s := { s with queuedMessages := s.queuedMessages.push message }
  match s.draining with
  | some _ => s
  | none => s.nextMessage config

def dropOldest : ConnectionState Data :=
  { s.drop (s.queuedMessages.toList.take 1) with queuedMessages := s.queuedMessages.dropOldest }

def enqueueMessageDispatch (message : Message Data) : ConnectionState Data :=
  if config.maxPending ≤ s.queuedMessages.count then
    match config.policy with
    | .close =>
      { s.drop (s.queuedMessages.toList ++ [message]) with
        closing := s.closing ++ [config.overflowClose "Ready-state message queue limit exceeded"]
        queuedMessages := {} }
    | .dropOldest => s.dropOldest.push config message
    | .dropNewest => s.drop [message]
  else s.push config message

def bufferIncomingMessage (message : Message Data) : ConnectionState Data :=
  if s.bufferedMessages.count < config.maxPending then { s with bufferedMessages := s.bufferedMessages.push message }
  else match config.policy with
    | .close =>
      { s.drop (s.bufferedMessages.toList ++ [message]) with
        closing := s.closing ++ [config.overflowClose "Pending message buffer limit exceeded"]
        bufferedMessages := {} }
    | .dropNewest => s.drop [message]
    | .dropOldest => { s.drop (s.bufferedMessages.toList.take 1) with bufferedMessages := s.bufferedMessages.dropOldest.push message }

def arrival (data : Data) : Message Data := { number := s.arrived.length, data }

def arrive (data : Data) : ConnectionState Data := { s with arrived := s.arrived ++ [s.arrival data] }

/-- The listener of `message`. -/
def message (data : Data) : ConnectionState Data :=
  if config.isOversized data then { s.arrive data with closing := s.closing ++ [.close 1009 "Payload too large"] }
  else if s.handlersReady then (s.arrive data).enqueueMessageDispatch config (s.arrival data)
  else (s.arrive data).bufferIncomingMessage config (s.arrival data)

/-- The listener of `close`. -/
def close (event : DisconnectEvent) : ConnectionState Data :=
  let s := { s with closed := some event }
  if s.handlersReady then { s with disconnecting := .queued event } else { s with bufferedDisconnect := some event }

def makeReady : ConnectionState Data := { s with binding := .bound, handlersReady := true }

/-- `replayBufferedConnectionEvents`, after the messages -/
def replayDisconnect : ConnectionState Data :=
  { s with
    disconnecting := s.bufferedDisconnect.elim s.disconnecting .queued
    bufferedDisconnect := none
    bufferedMessages := {} }

def finalizeConnectionBinding : ConnectionState Data :=
  (s.bufferedMessages.toList.foldl (fun s message => s.enqueueMessageDispatch config message) s.makeReady).replayDisconnect

/-- A handler of the connection has settled. -/
def connect (left : List (Invocation Data)) : ConnectionState Data :=
  match left with
  | [] => s.finalizeConnectionBinding config
  | invocation :: left => { s with binding := .connecting left }.logAll (.finished invocation :: started left)

/-- `resolveConnectionGateways`: Node adds each gateway to the state, Bun adds them all at the end. -/
def resolve (left resolved : List GatewayDescriptor) (ok : Bool) : ConnectionState Data :=
  match left with
  | [] =>
    let left := connectInvocations resolved
    { s with resolved, binding := .connecting left }.logAll (started left)
  | descriptor :: left =>
    let resolved := if ok then resolved ++ [descriptor] else resolved
    { s with
      resolved := if config.service = .node then resolved else s.resolved
      binding := .resolving left resolved }

/-- The disconnect dispatch waits for the messages before it. -/
def disconnect : Option (ConnectionState Data) :=
  match s.disconnecting with
  | .none => none
  | .queued event =>
    if s.draining.isSome then none
    else
      let left := disconnectInvocations s.resolved event
      some ({ s with disconnecting := .running left }.logAll (started left))
  | .running [] => none
  | .running (invocation :: left) => some ({ s with disconnecting := .running left }.logAll (.finished invocation :: started left))

end ConnectionState

/-- The events of a socket end with its close. -/
def connectionStep (config : ConnectionConfig Data) (s : ConnectionState Data) : ConnectionLabel Data → Option (ConnectionState Data)
  | .resolve ok =>
    match s.binding with
    | .resolving left resolved => some (s.resolve config left resolved ok)
    | _ => none
  | .connect =>
    match s.binding with
    | .connecting left => some (s.connect config left)
    | _ => none
  | .drain => s.draining.map (s.drain config)
  | .disconnect => s.disconnect
  | .message data => if s.closed.isSome then none else some (s.message config data)
  | .close event => if s.closed.isSome then none else some (s.close event)

/-- `createConnectionHandlerState` -/
def createConnectionHandlerState (config : ConnectionConfig Data) : ConnectionState Data := { binding := .resolving config.descriptors [] }

end Fluo.Websockets
