import Fluo.Lib.SetMap
import Fluo.Websockets.Admission
/-!
# Rooms of the Node gateways

The rooms of `NodeWebSocketGatewayLifecycleService`: which sockets are in a room and which rooms a
socket is in. A socket is taken out of its rooms when it is unregistered, and gateway code may put it
into a room at any time.
-/

namespace Fluo.Websockets
open Fluo.Lib

inductive BackpressurePolicy
  | drop
  | close
deriving DecidableEq

structure BackpressureConfig where
  maxBufferedAmountBytes : Option Int := none
  policy : Option BackpressurePolicy := none

def DEFAULT_MAX_BUFFERED_AMOUNT_BYTES : Nat := 1048576

/-- What a broadcast reads of a socket. -/
structure TrackedSocket where
  isOpen : Bool
  bufferedAmount : Nat

variable {Frame : Type}

structure RoomState (Frame : Type) where
  socketRegistry : OrderedMap String TrackedSocket := []
  /-- The keys of `socketStates`. -/
  socketStates : List String := []
  socketRooms : SetMap String String := []
  roomSockets : SetMap String String := []
  sent : List (String × Frame) := []
  terminated : List String := []
  connected : List String := []
  /-- The sockets whose `close` event has come. -/
  closed : List String := []
  /-- The sockets whose disconnect handling has completed. -/
  disconnected : List String := []

namespace RoomState

def joinRoom (state : RoomState Frame) (socketId room : String) : RoomState Frame :=
  { state with
    socketRooms := state.socketRooms.add socketId room
    roomSockets := state.roomSockets.add room socketId }

def leaveRoom (state : RoomState Frame) (socketId room : String) : RoomState Frame :=
  { state with
    socketRooms := state.socketRooms.remove socketId room
    roomSockets := state.roomSockets.remove room socketId }

def unregisterSocket (state : RoomState Frame) (socketId : String) (deleteState : Bool) : RoomState Frame :=
  { state with
    socketRegistry := state.socketRegistry.filter fun entry => entry.1 ≠ socketId
    socketStates := if deleteState then state.socketStates.erase socketId else state.socketStates
    roomSockets := state.roomSockets.removeAll (state.socketRooms.members socketId) socketId
    socketRooms := state.socketRooms.delete socketId }

def unregisterTrackedSocketWithDeferredStateCleanup (state : RoomState Frame) (socketId : String) : RoomState Frame :=
  state.unregisterSocket socketId (socketId ∉ state.socketStates)

/-- One turn of the loop of `broadcastToRoom`. -/
def broadcastTo (config : BackpressureConfig) (message : Frame) (state : RoomState Frame) (socketId : String) : RoomState Frame :=
  match state.socketRegistry.get socketId with
  | none => state
  | some socket =>
    if socket.isOpen then
      if positiveIntegerOr DEFAULT_MAX_BUFFERED_AMOUNT_BYTES config.maxBufferedAmountBytes < socket.bufferedAmount then
        if config.policy.getD .drop = .close then
          { state with terminated := state.terminated ++ [socketId] }.unregisterTrackedSocketWithDeferredStateCleanup socketId
        else state
      else { state with sent := state.sent ++ [(socketId, message)] }
    else state

/-- The loop takes nothing from the set but the socket it is at. -/
def broadcastToRoom (config : BackpressureConfig) (state : RoomState Frame) (room : String) (message : Frame) : RoomState Frame :=
  match state.roomSockets.get room with
  | none => state
  | some socketIds => socketIds.foldl (broadcastTo config message) state

end RoomState

inductive RoomLabel (Frame : Type)
  | connect (socketId : String) (socket : TrackedSocket)
  /-- What the socket shows changes. -/
  | socket (socketId : String) (socket : TrackedSocket)
  | joinRoom (socketId room : String)
  | leaveRoom (socketId room : String)
  | broadcastToRoom (room : String) (message : Frame)
  /-- The `error` event. -/
  | error (socketId : String)
  /-- A ping was not answered in time, or too many messages wait. -/
  | terminate (socketId : String)
  /-- The `close` event. -/
  | close (socketId : String)
  /-- The handlers of the end have run. -/
  | disconnected (socketId : String)
  /-- `clearConnectionTrackingState` -/
  | shutdown

def RoomState.step (config : BackpressureConfig) (state : RoomState Frame) : RoomLabel Frame → Option (RoomState Frame)
  | .connect socketId socket =>
    if socketId ∈ state.connected then none
    else some { state with
      socketRegistry := state.socketRegistry.set socketId socket
      socketStates := socketId :: state.socketStates
      connected := socketId :: state.connected }
  | .socket socketId socket =>
    if (state.socketRegistry.get socketId).isSome then some { state with socketRegistry := state.socketRegistry.set socketId socket } else none
  | .joinRoom socketId room => some (state.joinRoom socketId room)
  | .leaveRoom socketId room => some (state.leaveRoom socketId room)
  | .broadcastToRoom room message => some (state.broadcastToRoom config room message)
  | .error socketId => if socketId ∈ state.connected then some (state.unregisterSocket socketId false) else none
  | .terminate socketId =>
    if socketId ∈ state.connected then
      some ({ state with terminated := state.terminated ++ [socketId] }.unregisterTrackedSocketWithDeferredStateCleanup socketId)
    else none
  | .close socketId =>
    if socketId ∈ state.connected ∧ socketId ∉ state.closed then
      some { state.unregisterSocket socketId false with closed := socketId :: state.closed }
    else none
  | .disconnected socketId =>
    if socketId ∈ state.closed ∧ socketId ∉ state.disconnected then
      some { state with
        socketStates := state.socketStates.erase socketId
        disconnected := socketId :: state.disconnected }
    else none
  | .shutdown => some { state with socketRegistry := [], socketStates := [], socketRooms := [], roomSockets := [] }

/-! ## The invariant -/

/-- The two maps are converse and have no empty set, and no room has a socket whose disconnect handling has completed. -/
structure RoomState.Sound (state : RoomState Frame) : Prop where
  converse : state.socketRooms.Converse state.roomSockets
  rooms : state.socketRooms.Filled
  sockets : state.roomSockets.Filled
  gone : ∀ socketId ∈ state.disconnected, ∀ room, socketId ∉ state.roomSockets.members room

/-- No socket is put into a room after its `close` event. -/
def RoomState.JoinsLive (state : RoomState Frame) : RoomLabel Frame → Prop
  | .joinRoom socketId _ => socketId ∉ state.closed
  | _ => True

instance (state : RoomState Frame) : DecidablePred state.JoinsLive := fun label =>
  match label with
  | .joinRoom socketId _ => inferInstanceAs (Decidable (socketId ∉ state.closed))
  | .connect .. | .socket .. | .leaveRoom .. | .broadcastToRoom .. | .error .. | .terminate .. | .close .. | .disconnected .. | .shutdown =>
    inferInstanceAs (Decidable True)

structure RoomState.Kept (state : RoomState Frame) : Prop where
  converse : state.socketRooms.Converse state.roomSockets
  rooms : state.socketRooms.Filled
  sockets : state.roomSockets.Filled
  out : ∀ socketId ∈ state.closed, ∀ room, room ∉ state.socketRooms.members socketId
  closes : state.disconnected ⊆ state.closed

namespace RoomState.Kept

variable {state : RoomState Frame}

theorem sound (h : state.Kept) : state.Sound :=
  ⟨h.converse, h.rooms, h.sockets, fun socketId hmem room hroom => h.out socketId (h.closes hmem) room ((h.converse socketId room).2 hroom)⟩

theorem joinRoom (h : state.Kept) {socketId : String} (hlive : socketId ∉ state.closed) (room : String) : (state.joinRoom socketId room).Kept where
  converse := h.converse.add socketId room
  rooms := h.rooms.add socketId room
  sockets := h.sockets.add room socketId
  out := by
    intro other hother room' hmem
    rcases SetMap.mem_add.1 hmem with ⟨rfl, -⟩ | hmem
    · exact hlive hother
    · exact h.out other hother room' hmem
  closes := h.closes

theorem leaveRoom (h : state.Kept) (socketId room : String) : (state.leaveRoom socketId room).Kept where
  converse := h.converse.remove socketId room
  rooms := h.rooms.remove socketId room
  sockets := h.sockets.remove room socketId
  out := fun other hother room' hmem => h.out other hother room' (SetMap.mem_remove.1 hmem).1
  closes := h.closes

theorem unregisterSocket (h : state.Kept) (socketId : String) (deleteState : Bool) : (state.unregisterSocket socketId deleteState).Kept where
  converse := h.converse.removeAll socketId
  rooms := h.rooms.delete socketId
  sockets := h.sockets.removeAll _ socketId
  out := fun other hother room hmem => h.out other hother room (SetMap.mem_delete.1 hmem).2
  closes := h.closes

theorem terminated (h : state.Kept) (socketId : String) :
    ({ state with terminated := state.terminated ++ [socketId] }.unregisterTrackedSocketWithDeferredStateCleanup socketId).Kept := by
  have hkept : Kept { state with terminated := state.terminated ++ [socketId] } := ⟨h.converse, h.rooms, h.sockets, h.out, h.closes⟩
  exact hkept.unregisterSocket socketId _

theorem broadcastTo (h : state.Kept) (config : BackpressureConfig) (message : Frame) (socketId : String) :
    (state.broadcastTo config message socketId).Kept := by
  unfold RoomState.broadcastTo
  split
  · exact h
  · split
    · split
      · split
        · exact h.terminated socketId
        · exact h
      · exact ⟨h.converse, h.rooms, h.sockets, h.out, h.closes⟩
    · exact h

theorem broadcastToRoom (h : state.Kept) (config : BackpressureConfig) (room : String) (message : Frame) :
    (state.broadcastToRoom config room message).Kept := by
  unfold RoomState.broadcastToRoom
  split
  · exact h
  · exact List.foldlRecOn (motive := RoomState.Kept) _ _ h fun _ hstate socketId _ => hstate.broadcastTo config message socketId

theorem close (h : state.Kept) (socketId : String) : Kept { state.unregisterSocket socketId false with closed := socketId :: state.closed } := by
  have hunregistered := h.unregisterSocket socketId false
  refine ⟨hunregistered.converse, hunregistered.rooms, hunregistered.sockets, fun other hother room hmem => ?_, fun other hother => ?_⟩
  · rcases List.mem_cons.1 hother with rfl | hother
    · exact (SetMap.mem_delete.1 hmem).1 rfl
    · exact hunregistered.out other hother room hmem
  · exact List.mem_cons_of_mem _ (h.closes hother)

theorem step (h : state.Kept) {config : BackpressureConfig} {label : RoomLabel Frame} {state' : RoomState Frame} (hlive : state.JoinsLive label)
    (hstep : state.step config label = some state') : state'.Kept := by
  cases label with
  | connect socketId socket =>
    obtain ⟨-, rfl⟩ := Option.ite_none_left_eq_some.1 hstep |>.imp id Option.some.inj
    exact ⟨h.converse, h.rooms, h.sockets, h.out, h.closes⟩
  | socket socketId socket =>
    obtain ⟨-, rfl⟩ := Option.ite_none_right_eq_some.1 hstep |>.imp id Option.some.inj
    exact ⟨h.converse, h.rooms, h.sockets, h.out, h.closes⟩
  | joinRoom socketId room =>
    cases hstep
    exact h.joinRoom hlive room
  | leaveRoom socketId room =>
    cases hstep
    exact h.leaveRoom socketId room
  | broadcastToRoom room message =>
    cases hstep
    exact h.broadcastToRoom config room message
  | error socketId =>
    obtain ⟨-, rfl⟩ := Option.ite_none_right_eq_some.1 hstep |>.imp id Option.some.inj
    exact h.unregisterSocket socketId false
  | terminate socketId =>
    obtain ⟨-, rfl⟩ := Option.ite_none_right_eq_some.1 hstep |>.imp id Option.some.inj
    exact h.terminated socketId
  | close socketId =>
    obtain ⟨-, rfl⟩ := Option.ite_none_right_eq_some.1 hstep |>.imp id Option.some.inj
    exact h.close socketId
  | disconnected socketId =>
    obtain ⟨hboth, rfl⟩ := Option.ite_none_right_eq_some.1 hstep |>.imp id Option.some.inj
    exact ⟨h.converse, h.rooms, h.sockets, h.out, List.cons_subset.2 ⟨hboth.1, h.closes⟩⟩
  | shutdown =>
    cases hstep
    exact ⟨fun _ _ => ⟨nofun, nofun⟩, nofun, nofun, fun _ _ _ => nofun, h.closes⟩

end RoomState.Kept

/-- In a run that puts no closed socket into a room, the maps are converse without empty sets, and no room has a socket whose
disconnect handling has completed. -/
theorem rooms_sound {config : BackpressureConfig} {labels : List (RoomLabel Frame)} {state : RoomState Frame}
    (h : Run (RoomState.step config) RoomState.JoinsLive {} labels state) : state.Sound := by
  have hstart : RoomState.Kept ({} : RoomState Frame) := ⟨fun _ _ => ⟨nofun, nofun⟩, nofun, nofun, nofun, fun _ h => h⟩
  exact (h.keeps RoomState.Kept (fun _ _ _ hlive hkept hstep => hkept.step hlive hstep) hstart).sound

/-- A socket joins two rooms, and is closed while it is in one of them. -/
private def leaving : List (RoomLabel Unit) :=
  [.connect "a" ⟨true, 0⟩, .joinRoom "a" "x", .joinRoom "a" "y", .leaveRoom "a" "x", .broadcastToRoom "y" (), .close "a", .disconnected "a"]

theorem rooms_sound_leaving : (after (RoomState.step {}) ({} : RoomState Unit) leaving).Sound :=
  rooms_sound (Run.of_passes (p := fun state label => decide (state.JoinsLive label)) (fun _ _ h => of_decide_eq_true h)
    (by decide : passes (RoomState.step {}) (fun state label => decide (state.JoinsLive label)) {} leaving = true))

/-- A handler of the gateway goes on after the end of its socket, and has it join a room. -/
theorem rooms_unsound : ∃ state : RoomState Unit,
    Run (RoomState.step {}) (fun _ _ => True) {} [.connect "a" ⟨true, 0⟩, .close "a", .disconnected "a", .joinRoom "a" "x"] state ∧
      "a" ∈ state.disconnected ∧ "a" ∈ state.roomSockets.members "x" ∧ ¬ state.Sound := by
  refine ⟨_, Run.of_passes (p := fun _ _ => true) (fun _ _ _ => trivial) (by decide), by decide, by decide, fun hsound => ?_⟩
  exact hsound.gone "a" (by decide) "x" (by decide)

end Fluo.Websockets
