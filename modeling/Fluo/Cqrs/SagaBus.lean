import Fluo.Lib.OrderedMap
import Fluo.Lib.Runs
import Fluo.Lib.Slots
/-!
# The saga bus

`CqrsSagaLifecycleService`, from the dispatch of an event to the settling of the sagas that handle it, and its shutdown. What
a saga does is the environment's: it publishes events from its async context, and settles.
-/

namespace Fluo.Cqrs
open Fluo.Lib

structure SagaDescriptor (Token EventType : Type) where
  eventType : EventType
  eventName : String
  token : Token
  targetName : String

/-- A route of a dispatch context, and the invocation of its saga that waited in the saga's chain for all of that context. -/
structure Route (Token EventType : Type) where
  eventType : EventType
  token : Token
  turn : Nat

structure SagaDispatchContext (Token EventType : Type) where
  activeRoutes : List (Route Token EventType) := []
  depth : Nat := 0
  path : List String := []

structure SagaTopologyError where
  message : String
deriving DecidableEq

inductive SagaError
  | invariant (message : String)
  | fluo (message : String)
  | sagaExecution (message : String)
deriving DecidableEq

/-- What comes of the instance that the container resolves for a saga. -/
inductive Handled
  | notASaga
  | returned
  | threwFluoError (message : String)
  | threw (message : String)

inductive Phase
  /-- After the invocation `previous`, if there is one. -/
  | waiting (previous : Option Nat)
  | running
  | settled (result : Except SagaError Unit)
deriving DecidableEq

def Phase.hasBegun : Phase → Bool
  | .waiting _ => false
  | .running | .settled _ => true

def Phase.hasSettled : Phase → Bool
  | .settled _ => true
  | .waiting _ | .running => false

@[simp] theorem Phase.hasBegun_waiting (previous : Option Nat) : (Phase.waiting previous).hasBegun = false := rfl
@[simp] theorem Phase.hasBegun_running : Phase.running.hasBegun = true := rfl
@[simp] theorem Phase.hasBegun_settled (result : Except SagaError Unit) : (Phase.settled result).hasBegun = true := rfl

@[simp] theorem Phase.hasSettled_waiting (previous : Option Nat) : (Phase.waiting previous).hasSettled = false := rfl
@[simp] theorem Phase.hasSettled_running : Phase.running.hasSettled = false := rfl
@[simp] theorem Phase.hasSettled_settled (result : Except SagaError Unit) : (Phase.settled result).hasSettled = true := rfl

structure Invocation (Token EventType : Type) where
  descriptor : SagaDescriptor Token EventType
  context : SagaDispatchContext Token EventType
  /-- The top-level dispatch that it belongs to. -/
  origin : Nat
  /-- The invocation in whose place of the chain it runs: itself, if it has waited there. -/
  turn : Nat
  phase : Phase

abbrev Invocation.token {Token EventType : Type} (invocation : Invocation Token EventType) : Token := invocation.descriptor.token

/-- A call of `dispatch`, from the context of the invocation `caller` or from none. -/
structure Dispatch where
  caller : Option Nat
  sagas : List (Except SagaTopologyError Nat)
deriving DecidableEq

/-- An invocation stands for the promise `current` of its own, and in `executionChains` for that promise with its rejection
caught: both settle as the invocation does. -/
structure CqrsSagaLifecycleService (Token EventType : Type) where
  descriptorsByEvent : List (EventType × List (SagaDescriptor Token EventType))
  invocations : List (Invocation Token EventType) := []
  dispatches : List Dispatch := []
  executionChains : OrderedMap Token Nat := []
  pendingDispatches : List Nat := []
  /-- The work that a shutdown awaits. -/
  activeWork : Option (List Nat) := none

inductive Label (Event : Type)
  | dispatch (caller : Option Nat) (event : Event)
  | begin (invocation : Nat)
  | settle (invocation : Nat) (handled : Handled)
  | stopping
  | stopped (timedOut : Bool)

def MAX_NESTED_SAGA_DEPTH : Nat := 32

variable {Token EventType Event : Type} [DecidableEq Token] [DecidableEq EventType]

def SagaDescriptor.routeLabel (descriptor : SagaDescriptor Token EventType) : String :=
  descriptor.targetName ++ "(" ++ descriptor.eventName ++ ")"

def SagaTopologyError.reentered (path : List String) (descriptor : SagaDescriptor Token EventType) : SagaTopologyError where
  message := "Saga " ++ descriptor.targetName ++ " re-entered an unsafe cycle while handling " ++ descriptor.eventName ++
    ". Active saga path: " ++ " -> ".intercalate (path ++ [descriptor.routeLabel]) ++ "."

def SagaTopologyError.exceeded (descriptor : SagaDescriptor Token EventType) : SagaTopologyError where
  message := "Saga " ++ descriptor.targetName ++ " exceeded the maximum nested saga depth of " ++ toString MAX_NESTED_SAGA_DEPTH ++
    " while handling " ++ descriptor.eventName ++ ". Keep in-process saga graphs acyclic and externally bounded."

def invokeSaga (descriptor : SagaDescriptor Token EventType) : Handled → Except SagaError Unit
  | .notASaga => .error (.invariant ("Saga " ++ descriptor.targetName ++ " must implement handle(event)."))
  | .returned => .ok ()
  | .threwFluoError message => .error (.fluo message)
  | .threw message => .error (.sagaExecution
      ("Saga " ++ descriptor.targetName ++ " failed while handling " ++ descriptor.eventName ++ ": " ++ message))

namespace SagaDispatchContext

/-- The checks of `dispatchWithOrdering`: the route in whose turn the saga is run at once, or none if it is to wait. -/
def admission (context : SagaDispatchContext Token EventType) (descriptor : SagaDescriptor Token EventType) :
    Except SagaTopologyError (Option (Route Token EventType)) :=
  if context.activeRoutes.any fun route => route.token = descriptor.token && route.eventType = descriptor.eventType then
    .error (.reentered context.path descriptor)
  else if MAX_NESTED_SAGA_DEPTH ≤ context.depth then .error (.exceeded descriptor)
  else .ok (context.activeRoutes.find? fun route => route.token = descriptor.token)

/-- The context of `runInDispatchContext`. -/
def next (context : SagaDispatchContext Token EventType) (descriptor : SagaDescriptor Token EventType) (turn : Nat) :
    SagaDispatchContext Token EventType where
  activeRoutes := context.activeRoutes ++ [⟨descriptor.eventType, descriptor.token, turn⟩]
  depth := context.depth + 1
  path := context.path ++ [descriptor.routeLabel]

end SagaDispatchContext

namespace CqrsSagaLifecycleService

def matchSagaDescriptors (instanceOf : Event → EventType → Bool) (s : CqrsSagaLifecycleService Token EventType) (event : Event) :
    List (SagaDescriptor Token EventType) :=
  (s.descriptorsByEvent.filter fun entry => instanceOf event entry.1).flatMap Prod.snd

/-- Outside of a saga there is no context, which is as an empty one. -/
def dispatchWithOrdering (s : CqrsSagaLifecycleService Token EventType) (origin : Nat) (activeContext : SagaDispatchContext Token EventType)
    (descriptor : SagaDescriptor Token EventType) : CqrsSagaLifecycleService Token EventType × Except SagaTopologyError Nat :=
  match activeContext.admission descriptor with
  | .error e => (s, .error e)
  | .ok (some route) =>
    ({ s with
        invocations := s.invocations ++
          [{ descriptor, context := activeContext.next descriptor route.turn, origin, turn := route.turn, phase := .running }] },
      .ok s.invocations.length)
  | .ok none =>
    ({ s with
        invocations := s.invocations ++
          [{ descriptor, context := activeContext.next descriptor s.invocations.length, origin, turn := s.invocations.length,
             phase := .waiting (s.executionChains.get descriptor.token) }]
        executionChains := s.executionChains.set descriptor.token s.invocations.length
        pendingDispatches := s.pendingDispatches ++ [s.invocations.length] },
      .ok s.invocations.length)

def dispatchEach (s : CqrsSagaLifecycleService Token EventType) (origin : Nat) (activeContext : SagaDispatchContext Token EventType) :
    List (SagaDescriptor Token EventType) → CqrsSagaLifecycleService Token EventType × List (Except SagaTopologyError Nat)
  | [] => (s, [])
  | descriptor :: rest =>
    let (s', saga) := s.dispatchWithOrdering origin activeContext descriptor
    let (s'', sagas) := s'.dispatchEach origin activeContext rest
    (s'', saga :: sagas)

def dispatch (instanceOf : Event → EventType → Bool) (s : CqrsSagaLifecycleService Token EventType) (caller : Option Nat) (origin : Nat)
    (activeContext : SagaDispatchContext Token EventType) (event : Event) : CqrsSagaLifecycleService Token EventType :=
  let (s', sagas) := s.dispatchEach origin activeContext (s.matchSagaDescriptors instanceOf event)
  { s' with dispatches := s'.dispatches ++ [{ caller, sagas }] }

def hasSettled (s : CqrsSagaLifecycleService Token EventType) (i : Nat) : Bool := (s.invocations[i]?).any (·.phase.hasSettled)

/-- What an invocation waits for has settled. -/
def isReady (s : CqrsSagaLifecycleService Token EventType) (invocation : Invocation Token EventType) : Bool :=
  match invocation.phase with
  | .waiting none => true
  | .waiting (some previous) => s.hasSettled previous
  | .running | .settled _ => false

def drainActiveSagaWork (s : CqrsSagaLifecycleService Token EventType) : List Nat :=
  s.pendingDispatches ++ s.executionChains.map Prod.snd

def step (instanceOf : Event → EventType → Bool) (s : CqrsSagaLifecycleService Token EventType) : Label Event →
    Option (CqrsSagaLifecycleService Token EventType)
  | .dispatch none event => some (s.dispatch instanceOf none s.dispatches.length {} event)
  | .dispatch (some i) event => s.invocations[i]?.bind fun invocation =>
      if invocation.phase.hasBegun then some (s.dispatch instanceOf (some i) invocation.origin invocation.context event) else none
  | .begin i => s.invocations[i]?.bind fun invocation =>
      if s.isReady invocation then some { s with invocations := s.invocations.set i { invocation with phase := .running } } else none
  | .settle i handled => s.invocations[i]?.bind fun invocation =>
      if invocation.phase = .running then
        some { s with
          invocations := s.invocations.set i { invocation with phase := .settled (invokeSaga invocation.descriptor handled) }
          pendingDispatches := s.pendingDispatches.filter (· ≠ i) }
      else none
  | .stopping => if s.activeWork.isNone then some { s with activeWork := some s.drainActiveSagaWork } else none
  | .stopped timedOut => s.activeWork.bind fun work =>
      if timedOut || work.all s.hasSettled then some { s with executionChains := [], activeWork := none } else none

/-- A call of `dispatch` resolves when all its sagas have, and rejects when one of them has. -/
def isSettled (s : CqrsSagaLifecycleService Token EventType) (dispatch : Dispatch) : Bool :=
  (dispatch.sagas.any fun saga => match saga with
    | .error _ => true
    | .ok i => (s.invocations[i]?).any fun invocation => match invocation.phase with
        | .settled (.error _) => true
        | _ => false) ||
  dispatch.sagas.all fun saga => match saga with
    | .error _ => true
    | .ok i => s.hasSettled i

/-- A saga settles only when the dispatches that it has made have. -/
def Awaits (s : CqrsSagaLifecycleService Token EventType) : Label Event → Prop
  | .settle i _ => ∀ dispatch ∈ s.dispatches, dispatch.caller = some i → s.isSettled dispatch = true
  | _ => True

end CqrsSagaLifecycleService

end Fluo.Cqrs
