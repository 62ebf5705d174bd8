import Fluo.Websockets.Connection
/-!
# A connection of the Socket.IO gateways

One connection of `SocketIoLifecycleService`, between two awaits: the function of the
connection, with the replay of what it has buffered, one function for each message that
comes after, and the events of the socket.
-/

namespace Fluo.SocketIo
open Fluo.Lib Fluo.Websockets

structure SocketIoGuardRejection where
  message : Option String := none
  disconnect : Bool := false

/-- A message, with its place in the order of arrival. -/
structure Message (Data : Type) where
  number : Nat
  event : String
  payload : Data
  hasAcknowledgement : Bool := false
deriving DecidableEq

inductive SocketEvent (Data : Type)
  | connect
  | message (message : Message Data)
  | disconnect (reason : String)
deriving DecidableEq

abbrev Invocation (Data : Type) := HandlerCall (SocketEvent Data)

structure Config (Data : Type) where
  descriptors : List GatewayDescriptor
  maxPendingMessagesPerSocket : Option Int := none
  overflowPolicy : Option OverflowPolicy := none
  /-- What `auth.message` says of a message in the end; no guard says `none` of all. -/
  resolveMessageGuardRejection : Message Data → Option SocketIoGuardRejection

def DEFAULT_MAX_PENDING_MESSAGES_PER_SOCKET : Nat := 128

/-- A call of `handleMessage`. -/
inductive Handling (Data : Type)
  | guarding (message : Message Data)
  /-- The first of `left` is awaited, if there is one. -/
  | running (left : List (Invocation Data))

/-- Calls of `handleMessage` one after another: the replay, or one message alone. -/
structure Delivery (Data : Type) where
  current : Handling Data
  rest : List (Message Data)

/-- `bindConnectionHandlers` -/
inductive Binding (Data : Type)
  | resolving (left resolved : List GatewayDescriptor)
  | connecting (left : List (Invocation Data))
  /-- The first delivery is awaited. -/
  | replaying
  | bound

structure State (Data : Type) where
  binding : Binding Data
  resolved : List GatewayDescriptor := []
  bufferedMessages : List (Message Data) := []
  bufferedDisconnect : Option String := none
  handlersReady : Bool := false
  deliveries : List (Delivery Data) := []
  /-- `handleDisconnect` -/
  disconnecting : Option (List (Invocation Data)) := none
  /-- What the service has acknowledged. -/
  acknowledged : List (Nat × String) := []
  /-- Calls of `socket.disconnect(true)`. -/
  disconnectCalls : Nat := 0
  disconnected : Option String := none
  arrived : List (Message Data) := []
  /-- The messages that the overflow policy has dropped. -/
  dropped : List Nat := []
  log : List (CallEvent (Invocation Data)) := []

inductive Label (Data : Type)
  /-- The container answers for the next gateway. -/
  | resolve (ok : Bool)
  /-- `bindConnectionHandlers` goes on, to the replay. -/
  | connect
  /-- A delivery goes on. -/
  | deliver (i : Nat)
  /-- The replay is over. -/
  | finish
  /-- `handleDisconnect` goes on. -/
  | disconnect
  | message (event : String) (payload : Data) (hasAcknowledgement : Bool)
  | disconnected (reason : String)

variable {Data : Type}

/-! ## Handlers -/

def connectInvocations (resolved : List GatewayDescriptor) : List (Invocation Data) :=
  resolved.flatMap fun d => d.invocations .connect fun handler => handler.type = .connect

def disconnectInvocations (resolved : List GatewayDescriptor) (reason : String) : List (Invocation Data) :=
  resolved.flatMap fun d => d.invocations (.disconnect reason) fun handler => handler.type = .disconnect

/-- The test of `selectMessageHandlers`. -/
def isSelected (event : String) (handler : HandlerDescriptor) : Bool :=
  handler.type = .message && (handler.event = none || handler.event = some event)

def hasMatchingHandlers (resolved : List GatewayDescriptor) (message : Message Data) : Bool :=
  resolved.any fun d => d.handlers.any (isSelected message.event)

/-- The loop of `handleMessage`. -/
def messageInvocations (resolved : List GatewayDescriptor) (message : Message Data) : List (Invocation Data) :=
  resolved.flatMap fun d => d.invocations (.message message) (isSelected message.event)

namespace Config

def maxPendingMessagesPerSocket' (config : Config Data) : Nat :=
  positiveIntegerOr DEFAULT_MAX_PENDING_MESSAGES_PER_SOCKET config.maxPendingMessagesPerSocket

def policy (config : Config Data) : OverflowPolicy := config.overflowPolicy.getD .dropOldest

end Config

/-- `handleMessage`, to its first await. -/
def handleMessage (resolved : List GatewayDescriptor) (message : Message Data) : Handling Data :=
  if hasMatchingHandlers resolved message then .guarding message else .running []

/-- `replayBufferedConnectionEvents`, of the messages -/
def replay (bufferedMessages : List (Message Data)) : Delivery Data := { current := .running [], rest := bufferedMessages }

/-! ## The functions of the service -/

namespace State
variable (config : Config Data) (s : State Data)

def logAll (events : List (CallEvent (Invocation Data))) : State Data := { s with log := s.log ++ events }

def drop (messages : List (Message Data)) : State Data := { s with dropped := s.dropped ++ messages.map (·.number) }

def reportRejectedMessage (message : Message Data) (rejection : SocketIoGuardRejection) : State Data :=
  { s with
    acknowledged := if message.hasAcknowledgement
      then s.acknowledged ++ [(message.number, rejection.message.getD "Socket.IO message rejected.")] else s.acknowledged
    disconnectCalls := if rejection.disconnect then s.disconnectCalls + 1 else s.disconnectCalls }

def setDelivery (i : Nat) (delivery : Delivery Data) : State Data := { s with deliveries := s.deliveries.set i delivery }

/-- The guard has answered, a handler has settled, or the message is done with. -/
def deliver (i : Nat) (delivery : Delivery Data) : Option (State Data) :=
  match delivery.current with
  | .guarding message =>
    match config.resolveMessageGuardRejection message with
    | some rejection => some ((s.reportRejectedMessage message rejection).setDelivery i { delivery with current := .running [] })
    | none =>
      let left := messageInvocations s.resolved message
      some ((s.setDelivery i { delivery with current := .running left }).logAll (started left))
  | .running (invocation :: left) =>
    some ((s.setDelivery i { delivery with current := .running left }).logAll (.finished invocation :: started left))
  | .running [] =>
    match delivery.rest with
    | [] => none
    | message :: rest => some (s.setDelivery i { current := handleMessage s.resolved message, rest })

def arrive (message : Message Data) : State Data := { s with arrived := s.arrived ++ [message] }

/-- A message before the handlers are ready. -/
def buffer (message : Message Data) : State Data :=
  if config.maxPendingMessagesPerSocket' ≤ s.bufferedMessages.length then
    match config.policy with
    | .close => { s.drop (s.bufferedMessages ++ [message]) with disconnectCalls := s.disconnectCalls + 1, bufferedMessages := [] }
    | .dropNewest => s.drop [message]
    | .dropOldest => { s.drop (s.bufferedMessages.take 1) with bufferedMessages := s.bufferedMessages.tail ++ [message] }
  else { s with bufferedMessages := s.bufferedMessages ++ [message] }

/-- A message when they are. -/
def handle (message : Message Data) : State Data :=
  { s with deliveries := s.deliveries ++ [{ current := handleMessage s.resolved message, rest := [] }] }

/-- The listener of all events. -/
def message (event : String) (payload : Data) (hasAcknowledgement : Bool) : State Data :=
  let message : Message Data := { number := s.arrived.length, event, payload, hasAcknowledgement }
  match s.binding with
  | .resolving _ _ => s.arrive message
  | _ =>
    if s.handlersReady then (s.arrive message).handle message else (s.arrive message).buffer config message

def handleDisconnect (reason : String) : State Data :=
  let left := disconnectInvocations s.resolved reason
  { s with disconnecting := some left }.logAll (started left)

/-- The listener of `disconnect`. -/
def close (reason : String) : State Data :=
  let s := { s with disconnected := some reason }
  match s.binding with
  | .resolving _ _ => s
  | _ => if s.handlersReady then s.handleDisconnect reason else { s with bufferedDisconnect := some reason }

/-- `resolveConnectionGateways`, after which the listeners are attached. -/
def resolve (left resolved : List GatewayDescriptor) (ok : Bool) : State Data :=
  match left with
  | [] =>
    let left := connectInvocations resolved
    { s with resolved, binding := .connecting left }.logAll (started left)
  | descriptor :: left => { s with binding := .resolving left (if ok then resolved ++ [descriptor] else resolved) }

/-- `runConnectHandlers`, after which the replay begins. -/
def connect (left : List (Invocation Data)) : State Data :=
  match left with
  | [] => { s with binding := .replaying, handlersReady := true, deliveries := s.deliveries ++ [replay s.bufferedMessages] }
  | invocation :: left => { s with binding := .connecting left }.logAll (.finished invocation :: started left)

/-- The end of `replayBufferedConnectionEvents`. -/
def finish : State Data :=
  match s.bufferedDisconnect with
  | some reason => { s with binding := .bound, bufferedMessages := [], bufferedDisconnect := none }.handleDisconnect reason
  | none => { s with binding := .bound, bufferedMessages := [] }

def disconnect (left : List (Invocation Data)) : Option (State Data) :=
  match left with
  | [] => none
  | invocation :: left => some ({ s with disconnecting := some left }.logAll (.finished invocation :: started left))

end State

def Delivery.isDone (delivery : Delivery Data) : Bool :=
  match delivery.current with
  | .running [] => delivery.rest.isEmpty
  | _ => false

/-- The events of a socket end with its disconnect. -/
def step (config : Config Data) (s : State Data) : Label Data → Option (State Data)
  | .resolve ok =>
    match s.binding with
    | .resolving left resolved => some (s.resolve left resolved ok)
    | _ => none
  | .connect =>
    match s.binding with
    | .connecting left => some (s.connect left)
    | _ => none
  | .deliver i => s.deliveries[i]?.bind (s.deliver config i)
  | .finish =>
    match s.binding with
    | .replaying => if s.deliveries.head?.all (·.isDone) then some s.finish else none
    | _ => none
  | .disconnect => s.disconnecting.bind s.disconnect
  | .message event payload hasAcknowledgement =>
    if s.disconnected.isSome then none else some (s.message config event payload hasAcknowledgement)
  | .disconnected reason => if s.disconnected.isSome then none else some (s.close reason)

def createConnection (config : Config Data) : State Data := { binding := .resolving config.descriptors [] }

end Fluo.SocketIo
