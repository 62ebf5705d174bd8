import Fluo.Lib.Runs
import Fluo.Lib.Slots
/-!
# Transactions and shutdown of the Mongoose connection

`MongooseConnection` with any number of calls of `transaction` and `requestTransaction`,
between two awaits at a time. When a session comes, when the connection invokes a callback
and when any of them settles is the environment's.
-/

namespace Fluo.Mongoose
open Fluo.Lib

inductive LifecycleState
  | ready
  | shuttingDown
  | stopped
deriving DecidableEq

structure Config where
  strictTransactions : Bool
  /-- `typeof connection.transaction === 'function'` -/
  hasTransaction : Bool
  /-- `typeof connection.startSession === 'function'` -/
  hasStartSession : Bool

inductive Mode
  /-- Through `connection.transaction`. -/
  | connection
  /-- With a session started here. -/
  | manual
  /-- With no transaction. -/
  | direct
  /-- In the session there is. -/
  | nested
deriving DecidableEq

inductive Phase
  /-- `startSession` is awaited. -/
  | starting
  /-- It has settled, and the call has still to go on. -/
  | started
  /-- The request has been aborted first: the session is ended when it comes. -/
  | abandoned
  /-- `startTransaction` is awaited, or the callback of `connection.transaction`. -/
  | opening
  /-- The callback is awaited. -/
  | running
  /-- `commitTransaction` or `abortTransaction` is awaited. -/
  | closing
  /-- `endSession` is awaited. -/
  | ending
  | settled
deriving DecidableEq

/-- A call of `transaction` or `requestTransaction`. -/
structure Call where
  isRequest : Bool
  mode : Mode
  phase : Phase
  aborted : Bool := false
  /-- Its callback has been started. -/
  hasStarted : Bool := false
  /-- In `activeRequestTransactions`. -/
  isActiveRequest : Bool := false
  /-- In `activeSessions`. -/
  isActiveSession : Bool := false

inductive ShutdownPhase
  | draining
  /-- `dispose` has been invoked, if there is one. -/
  | disposing
  | stopped
deriving DecidableEq

/-- A call of `onApplicationShutdown`, with the calls whose handles it waits for. -/
structure Shutdown where
  activeRequestTransactions : List Nat
  activeSessions : List Nat
  phase : ShutdownPhase := .draining

structure State where
  lifecycleState : LifecycleState := .ready
  calls : List Call := []
  shutdowns : List Shutdown := []

inductive SessionResult
  | session
  | none
  | failed

inductive Label
  /-- `transaction(fn)`, in the callback of a call or outside. -/
  | transaction (within : Option Nat)
  /-- `requestTransaction(fn, signal)`; the signal may be aborted already. -/
  | requestTransaction (within : Option Nat) (aborted : Bool)
  /-- `startSession` settles. -/
  | start (i : Nat)
  /-- The call goes on with what `startSession` has returned. -/
  | session (i : Nat) (result : SessionResult)
  /-- `startTransaction` settles, or the connection invokes the callback. -/
  | begin_ (i : Nat) (ok : Bool)
  /-- `fn` settles. -/
  | return_ (i : Nat)
  /-- The signal of a request. -/
  | abort (i : Nat)
  /-- `commitTransaction` or `abortTransaction` settles. -/
  | close (i : Nat)
  /-- `endSession` or `connection.transaction` settles. -/
  | end_ (i : Nat)
  | shutdown
  /-- `onApplicationShutdown` goes on: `dispose` is invoked. -/
  | dispose (k : Nat)
  | stop (k : Nat)

/-! ## Calls -/

/-- The boundary is over, and nothing tracks it. -/
def Call.settle (call : Call) : Call := { call with phase := .settled, isActiveRequest := false, isActiveSession := false }

/-- The signal of a request is aborted: it is raced with the session, with the callback, and with all of `connection.transaction`. -/
def Call.abort (call : Call) : Call :=
  match call.mode, call.phase with
  | _, .settled => call
  | .manual, .starting => { call with aborted := true, phase := .abandoned }
  | .manual, .running => { call with aborted := true, phase := .closing }
  | .manual, _ => { call with aborted := true }
  | .connection, _ => { call with aborted := true, isActiveRequest := false }
  | .direct, _ => { call.settle with aborted := true }
  | .nested, _ => { call.settle with aborted := true }

def State.add (s : State) (call : Call) : State := { s with calls := s.calls ++ [call] }

def State.setCall (s : State) (i : Nat) (call : Call) : State := { s with calls := s.calls.set i call }

/-- `sessions.getStore()` in the callback of a call is its session, if it has one. -/
def State.hasSession (s : State) (within : Option Nat) : Bool :=
  within.any fun i => s.calls[i]?.any fun call => call.mode ≠ .direct

/-- The callback has been started: what it calls, it may call at any time after. -/
def State.hasStarted (s : State) (within : Option Nat) : Bool := within.all fun i => s.calls[i]?.any (·.hasStarted)

def notSupportedError : String := "Transaction not supported: Mongoose connection does not implement startSession."

def unavailableError : String := "Mongoose transactions are unavailable during application shutdown."

/-- `transaction`, to its first await. -/
def transaction (config : Config) (s : State) (within : Option Nat) : Except String State :=
  if s.hasSession within then .ok (s.add { isRequest := false, mode := .nested, phase := .running, hasStarted := true })
  else if s.lifecycleState ≠ .ready then .error unavailableError
  else if config.hasTransaction then .ok (s.add { isRequest := false, mode := .connection, phase := .opening, isActiveSession := true })
  else if config.hasStartSession then .ok (s.add { isRequest := false, mode := .manual, phase := .starting })
  else if config.strictTransactions then .error notSupportedError
  else .ok (s.add { isRequest := false, mode := .direct, phase := .running, hasStarted := true })

/-- `requestTransaction`, to its first await. Where the signal is aborted already, only a session is still started. -/
def requestTransaction (config : Config) (s : State) (within : Option Nat) (aborted : Bool) : Except String State :=
  if s.lifecycleState ≠ .ready then .error unavailableError
  else if s.hasSession within then
    if aborted then .ok (s.add { isRequest := true, mode := .nested, phase := .settled, aborted })
    else .ok (s.add { isRequest := true, mode := .nested, phase := .running, hasStarted := true, isActiveRequest := true })
  else if config.hasTransaction then
    if aborted then .ok (s.add { isRequest := true, mode := .connection, phase := .settled, aborted })
    else .ok (s.add { isRequest := true, mode := .connection, phase := .opening, isActiveRequest := true, isActiveSession := true })
  else if config.hasStartSession then
    .ok (s.add { isRequest := true, mode := .manual, phase := if aborted then .abandoned else .starting, aborted, isActiveRequest := true })
  else if aborted then .ok (s.add { isRequest := true, mode := .direct, phase := .settled, aborted })
  else if config.strictTransactions then .error notSupportedError
  else .ok (s.add { isRequest := true, mode := .direct, phase := .running, hasStarted := true, isActiveRequest := true })

/-- What a call does with the result of `startSession`. -/
def Call.session (call : Call) (result : SessionResult) : Call :=
  match call.phase, result with
  | .abandoned, .session => { call with phase := .ending }
  | .abandoned, _ => call.settle
  | _, .session => { call with phase := .opening, isActiveSession := true }
  | _, .none => if call.aborted then call.settle else { call with mode := .direct, phase := .running, hasStarted := true }
  | _, .failed => call.settle

/-- `startTransaction` has settled, or the connection invokes the callback, which `connection.transaction` may do again. -/
def Call.begin_ (call : Call) (ok : Bool) : Call :=
  match call.mode with
  | .manual => if ok && !call.aborted then { call with phase := .running, hasStarted := true } else { call with phase := .closing }
  | _ => { call with phase := .running, hasStarted := call.hasStarted || !call.aborted }

def Call.return_ (call : Call) : Call :=
  match call.mode with
  | .manual => { call with phase := .closing }
  | .connection => { call with phase := .opening }
  | _ => call.settle

/-- The start of `onApplicationShutdown`. -/
def State.shutdown (s : State) : State :=
  { lifecycleState := .shuttingDown
    calls := s.calls.map fun call => if call.isActiveRequest then call.abort else call
    shutdowns := s.shutdowns ++ [{
      activeRequestTransactions := (List.range s.calls.length).filter fun i => s.calls[i]?.any (·.isActiveRequest)
      activeSessions := (List.range s.calls.length).filter fun i => s.calls[i]?.any (·.isActiveSession) }] }

/-- All handles that the shutdown waits for have settled. -/
def State.isDrained (s : State) (shutdown : Shutdown) : Bool :=
  (shutdown.activeRequestTransactions.all fun i => s.calls[i]?.all fun call => !call.isActiveRequest) &&
    shutdown.activeSessions.all fun i => s.calls[i]?.all fun call => !call.isActiveSession

/-- A call that throws at once changes nothing. -/
def State.orElse (s : State) : Except String State → State
  | .ok s' => s'
  | .error _ => s

/-- A call, in one of the phases, goes on. -/
def State.update (s : State) (i : Nat) (enabled : Call → Bool) (next : Call → Call) : Option State := do
  let call ← s.calls[i]?
  if enabled call then return s.setCall i (next call) else none

def step (config : Config) (s : State) : Label → Option State
  | .transaction within => if s.hasStarted within then some (s.orElse (transaction config s within)) else none
  | .requestTransaction within aborted => if s.hasStarted within then some (s.orElse (requestTransaction config s within aborted)) else none
  | .start i => s.update i (fun call => call.phase = .starting) fun call => { call with phase := .started }
  | .session i result => s.update i (fun call => call.phase = .started || call.phase = .abandoned) (·.session result)
  | .begin_ i ok => s.update i (fun call => call.phase = .opening) (·.begin_ ok)
  | .return_ i => s.update i (fun call => call.phase = .running) Call.return_
  | .abort i => s.update i (·.isRequest) Call.abort
  | .close i => s.update i (fun call => call.phase = .closing) fun call => { call with phase := .ending }
  | .end_ i => s.update i (fun call => call.phase = .ending || call.mode = .connection && call.phase ≠ .settled) Call.settle
  | .shutdown => some s.shutdown
  | .dispose k => do
    let shutdown ← s.shutdowns[k]?
    if shutdown.phase = .draining ∧ s.isDrained shutdown = true then
      return { s with shutdowns := s.shutdowns.set k { shutdown with phase := .disposing } }
    else none
  | .stop k => do
    let shutdown ← s.shutdowns[k]?
    if shutdown.phase = .disposing then
      return { s with lifecycleState := .stopped, shutdowns := s.shutdowns.set k { shutdown with phase := .stopped } }
    else none

end Fluo.Mongoose
