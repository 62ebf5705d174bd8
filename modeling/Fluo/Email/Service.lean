import Fluo.Lib.Runs
/-!
# The transport of `EmailService` and `SlackService`

The two services keep a transport in the same way: one promise of it, one resolved transport and one
lifecycle, with any number of calls of `onModuleInit`, `send` and `onApplicationShutdown`, each
a program of the steps between its awaits. What else they do with a message does
not matter here.
-/

namespace Fluo.Email
open Fluo.Lib

inductive Service
  | email
  | slack
deriving DecidableEq

inductive LifecycleState
  | created
  | starting
  | ready
  | stopping
  | stopped
  | failed
deriving DecidableEq

structure Config where
  service : Service
  /-- `options.transport.ownsResources` -/
  ownsResources : Bool
  verifyOnModuleInit : Bool
  /-- The transport has `close`. -/
  hasClose : Bool
  /-- The transport has `verify`. -/
  hasVerify : Bool

inductive Status
  | creating
  | created
  | rejected
deriving DecidableEq

/-- What one call of `options.transport.create` makes. -/
structure Transport where
  status : Status := .creating
  /-- How often its `close` was called. -/
  closes : Nat := 0

/-- An initialisation: `startTransport` of Email, `onModuleInit` of Slack. -/
inductive Start
  /-- `ensureTransport` is awaited. -/
  | awaiting (i : Nat)
  /-- `transport.verify` is awaited. -/
  | verifying (i : Nat)
  /-- Email closes what could not be verified. -/
  | closing (i : Nat)
  | settled (ok : Bool)
  /-- Email, after the `finally` of the call that has begun it. -/
  | finished (ok : Bool)

/-- A call of `send`. -/
inductive Send
  /-- In `ensureReadyForDelivery`, `onModuleInit` is awaited; the transport is there the second time. -/
  | joining (k : Nat) (transport : Option Nat)
  /-- `ensureReadyForDelivery` has returned. -/
  | checked (transport : Option Nat)
  /-- `ensureTransport` is awaited. -/
  | ensuring (i : Nat)
  /-- `transport.send` is awaited. -/
  | sending (i : Nat)
  | settled

inductive ShutdownPhase
  /-- `transportPromise` is awaited. -/
  | awaiting
  /-- `transport.close` is awaited. -/
  | closing
  | settled (ok : Bool)
deriving DecidableEq

/-- A call of `onApplicationShutdown`, with the transport that it finds or waits for. -/
structure Shutdown where
  transport : Option Nat
  phase : ShutdownPhase

structure State where
  lifecycleState : LifecycleState := .created
  transports : List Transport := []
  transportPromise : Option Nat := none
  resolvedTransport : Option Nat := none
  /-- Of Email. -/
  bootstrapPromise : Option Nat := none
  starts : List Start := []
  sends : List Send := []
  shutdowns : List Shutdown := []

inductive Label
  | onModuleInit
  | send
  | onApplicationShutdown
  /-- A call of `create` settles, with the callback of its `then`. -/
  | create (i : Nat) (ok : Bool)
  /-- What an initialisation waits for has settled; `ok` is the outcome of `verify` or `close`. -/
  | start (k : Nat) (ok : Bool)
  | finally_ (k : Nat)
  /-- What a `send` waits for has settled; `ok` is that of the checks of the message. -/
  | continue_ (m : Nat) (ok : Bool)
  /-- What a shutdown waits for has settled; `ok` is the outcome of `close`. -/
  | shutdown (d : Nat) (ok : Bool)
deriving DecidableEq

/-- The service closes its transport. -/
def Config.closes (config : Config) : Bool := config.ownsResources && config.hasClose

/-- `send` goes through `ensureReadyForDelivery`. -/
def Config.usesReady (config : Config) : Bool := config.service = .email && config.verifyOnModuleInit

namespace State

def isShutdownLifecycleState (s : State) : Bool := s.lifecycleState = .stopping || s.lifecycleState = .stopped

/-- `assertCanCreateOrUseTransport` -/
def canDeliver (s : State) : Bool := !(s.isShutdownLifecycleState || s.lifecycleState = .failed)

def status (s : State) (i : Nat) : Option Status := s.transports[i]?.map (·.status)

/-- The transport that `ensureTransport` returns, or promises. -/
def transport (s : State) : Nat := (s.resolvedTransport <|> s.transportPromise).getD s.transports.length

def ensureTransport (s : State) : State :=
  if (s.resolvedTransport <|> s.transportPromise).isSome then s
  else { s with transports := s.transports ++ [{}], transportPromise := some s.transports.length }

def close (s : State) (i : Nat) : State :=
  { s with transports := s.transports.modify i fun t => { t with closes := t.closes + 1 } }

def setStart (s : State) (k : Nat) (start : Start) : State := { s with starts := s.starts.set k start }

def setSend (s : State) (m : Nat) (send : Send) : State := { s with sends := s.sends.set m send }

/-- An initialisation, to its first await. -/
def startTransport (s : State) : State :=
  if s.isShutdownLifecycleState then { s with starts := s.starts ++ [.settled true] }
  else
    let s := { s with lifecycleState := .starting }
    { s.ensureTransport with starts := s.starts ++ [.awaiting s.transport] }

/-- `onModuleInit` calls `startTransport`, unless Email has a promise of it. -/
def initializes (config : Config) (s : State) : Bool := config.service = .slack || s.bootstrapPromise.isNone

def onModuleInit (config : Config) (s : State) : State :=
  if s.initializes config then
    { s.startTransport with bootstrapPromise := if config.service = .email then some s.starts.length else s.bootstrapPromise }
  else s

/-- The `catch` of an initialisation. -/
def failStart (config : Config) (s : State) (k : Nat) : State :=
  if s.isShutdownLifecycleState then s.setStart k (.settled false)
  else
    let s := { s with lifecycleState := .failed }
    match config.service, s.resolvedTransport with
    | .email, some i => if config.closes then (s.close i).setStart k (.closing i) else s.setStart k (.settled false)
    | _, _ => s.setStart k (.settled false)

def markReady (s : State) (k : Nat) : State := { s with lifecycleState := .ready }.setStart k (.settled true)

def start (config : Config) (s : State) (k : Nat) (ok : Bool) : Option State :=
  match s.starts[k]? with
  | some (.awaiting i) => match s.status i with
    | some .created =>
      if s.lifecycleState ≠ .starting then some (s.setStart k (.settled true))
      else if config.verifyOnModuleInit && config.hasVerify then some (s.setStart k (.verifying i))
      else some (s.markReady k)
    | some .rejected => some (s.failStart config k)
    | _ => none
  | some (.verifying _) =>
    if ok then
      if s.lifecycleState ≠ .starting then some (s.setStart k (.settled true)) else some (s.markReady k)
    else some (s.failStart config k)
  | some (.closing _) => some ({ s with resolvedTransport := none, transportPromise := none }.setStart k (.settled false))
  | _ => none

/-- The `finally` of Email's `onModuleInit`. -/
def finally_ (config : Config) (s : State) (k : Nat) : Option State :=
  match config.service, s.starts[k]? with
  | .email, some (.settled ok) =>
    some ({ s with bootstrapPromise := if s.lifecycleState = LifecycleState.failed then none else s.bootstrapPromise }.setStart k (.finished ok))
  | _, _ => none

/-- `ensureReadyForDelivery`, to its first await. -/
def ensureReady (config : Config) (s : State) : State :=
  if s.canDeliver && s.lifecycleState ≠ .ready then s.onModuleInit config else s

/-- Where that leaves a `send`. -/
def readySend (config : Config) (s : State) (transport : Option Nat) : Send :=
  if !s.canDeliver then .settled
  else if s.lifecycleState = .ready then .checked transport
  else .joining (((s.onModuleInit config).bootstrapPromise).getD 0) transport

/-- `send`, to its first await. -/
def send (config : Config) (s : State) : State :=
  if config.usesReady then { s.ensureReady config with sends := s.sends ++ [s.readySend config none] }
  else if s.canDeliver then { s.ensureTransport with sends := s.sends ++ [.ensuring s.transport] }
  else { s with sends := s.sends ++ [.settled] }

def continueSend (config : Config) (s : State) (m : Nat) (ok : Bool) : Option State :=
  match s.sends[m]? with
  | some (.joining k transport) => match s.starts[k]? with
    | some (.settled started) | some (.finished started) =>
      some (s.setSend m (if started && s.lifecycleState = .ready then .checked transport else .settled))
    | _ => none
  | some (.checked none) => if s.canDeliver then some (s.ensureTransport.setSend m (.ensuring s.transport)) else some (s.setSend m .settled)
  | some (.checked (some i)) => some (s.setSend m (.sending i))
  | some (.ensuring i) => match s.status i with
    | some .created =>
      if !ok then some (s.setSend m .settled)
      else if config.usesReady then some ((s.ensureReady config).setSend m (s.readySend config (some i)))
      else some (s.setSend m (if s.canDeliver then .sending i else .settled))
    | some .rejected => some (s.setSend m .settled)
    | _ => none
  | some (.sending _) => some (s.setSend m .settled)
  | _ => none

/-- What a shutdown does with a transport. -/
def release (config : Config) (s : State) (i : Nat) : State := if config.closes then s.close i else { s with lifecycleState := .stopped }

def releasing (config : Config) (i : Nat) : Shutdown := { transport := some i, phase := if config.closes then .closing else .settled true }

def onApplicationShutdown (config : Config) (s : State) : State :=
  let s := { s with lifecycleState := .stopping }
  match s.resolvedTransport, s.transportPromise with
  | some i, _ => { s.release config i with shutdowns := s.shutdowns ++ [releasing config i] }
  | none, some i => { s with shutdowns := s.shutdowns ++ [{ transport := some i, phase := .awaiting }] }
  | none, none => { s with lifecycleState := .stopped, shutdowns := s.shutdowns ++ [{ transport := none, phase := .settled true }] }

/-- How a shutdown settles. -/
def settleShutdown (s : State) (d : Nat) (transport : Option Nat) (ok : Bool) : State :=
  { s with lifecycleState := if ok then .stopped else .failed, shutdowns := s.shutdowns.set d { transport, phase := .settled ok } }

def shutdown (config : Config) (s : State) (d : Nat) (ok : Bool) : Option State :=
  match s.shutdowns[d]? with
  | some { transport := some i, phase := .awaiting } => match s.status i with
    | some .created => some { s.release config i with shutdowns := s.shutdowns.set d (releasing config i) }
    | some .rejected => some (s.settleShutdown d (some i) false)
    | _ => none
  | some { transport, phase := .closing } => some (s.settleShutdown d transport ok)
  | _ => none

/-- The `then` of `create`. -/
def create (s : State) (i : Nat) (ok : Bool) : Option State :=
  if s.status i = some .creating then
    some { s with
      transports := s.transports.modify i fun t => { t with status := if ok then .created else .rejected }
      resolvedTransport := if ok then some i else s.resolvedTransport }
  else none

end State

def step (config : Config) (s : State) : Label → Option State
  | .onModuleInit => some (s.onModuleInit config)
  | .send => some (s.send config)
  | .onApplicationShutdown => some (s.onApplicationShutdown config)
  | .create i ok => s.create i ok
  | .start k ok => s.start config k ok
  | .finally_ k => s.finally_ config k
  | .continue_ m ok => s.continueSend config m ok
  | .shutdown d ok => s.shutdown config d ok

end Fluo.Email
