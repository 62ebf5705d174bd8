import Fluo.Lib.Runs
import Fluo.Lib.Slots
/-!
# Transactions of the Prisma service

`PrismaService` with any number of calls of `transaction` and `requestTransaction`,
nested or not, between two awaits at a time. What the client does is the
environment's: `$transaction` invokes its callback at most once, before it settles,
and commits only once the callback has resolved.
-/

namespace Fluo.Prisma
open Fluo.Lib

inductive LifecycleState
  | created
  | ready
  | shuttingDown
  | stopped
deriving DecidableEq

inductive TransactionAbortSignalSupport
  | unknown
  | supported
  | unsupported
deriving DecidableEq

structure Config where
  strictTransactions : Bool
  /-- `typeof client.$transaction === 'function'` -/
  hasTransaction : Bool

/-- The context that `transactions.getStore()` returns: whose transaction it is, and whether it has a request's signal. -/
structure TransactionContext where
  holder : Nat
  requestAbortSignal : Bool
deriving DecidableEq

inductive Mode
  /-- In a transaction of its own. -/
  | own
  /-- With a client that has no transactions. -/
  | direct
  /-- A request in the transaction of a plain call. -/
  | inPlain (holder : Nat)
  /-- In the context there is, raced with a signal or not. -/
  | reused (raced : Bool)
deriving DecidableEq

inductive Settlement
  | ok
  | failed
  | aborted
deriving DecidableEq

inductive Phase
  /-- `$transaction` is called, and has not invoked its callback. -/
  | attempting
  | running
  /-- The callback has settled. -/
  | returned (settlement : Settlement)
  /-- `$transaction` has settled. -/
  | finished (settlement : Settlement)
  | settled (settlement : Settlement)
deriving DecidableEq

inductive Transaction
  | none
  | opened
  | committed
  | rolledBack
deriving DecidableEq

/-- A call of `transaction` or `requestTransaction`. -/
structure Call where
  isRequest : Bool
  mode : Mode
  /-- The context that its callback runs in. -/
  context : Option TransactionContext
  phase : Phase
  aborted : Bool := false
  withSignal : Bool := false
  transaction : Transaction := .none
  /-- How often its callback has been started. -/
  runs : Nat := 0
  /-- In `activeRequestTransactions`. -/
  tracked : Bool := false
  /-- Aborted before its callback had settled. -/
  abortedEarly : Bool := false
deriving DecidableEq

inductive ShutdownPhase
  | draining
  | disconnecting
  | stopped
deriving DecidableEq

structure Shutdown where
  /-- The calls whose handles it waits for. -/
  waitsFor : List Nat
  phase : ShutdownPhase := .draining

structure State where
  lifecycleState : LifecycleState := .created
  transactionAbortSignalSupport : TransactionAbortSignalSupport := .unknown
  calls : List Call := []
  shutdowns : List Shutdown := []

inductive OptionsArgument
  | absent
  | object
  | other
deriving DecidableEq

inductive Label
  /-- `onModuleInit` has connected; the runtime awaits it before it goes on. -/
  | ready
  /-- `transaction(fn, options)`, in the callback of a call or outside. -/
  | transaction (within : Option Nat) (options : OptionsArgument)
  /-- `requestTransaction(fn, signal, options)`; a signal may be aborted already. -/
  | requestTransaction (within : Option Nat) (signal : Option Bool) (options : OptionsArgument)
  /-- The client invokes the callback. -/
  | invoke (i : Nat)
  /-- The client rejects without invoking it, with a message that is about the signal or not. -/
  | refuse (i : Nat) (aboutSignal : Bool)
  /-- `fn` settles. -/
  | return_ (i : Nat) (ok : Bool)
  | abort (i : Nat)
  | commit (i : Nat)
  | rollBack (i : Nat) (settlement : Settlement)
  | settle (i : Nat)
  | shutdown
  | disconnect (k : Nat)
  | stop (k : Nat)

/-! ## Calls -/

/-- `raceWithAbort(fn, signal)`, or `fn()` where nothing has been aborted. -/
def Call.start (call : Call) : Call :=
  if call.isRequest && call.aborted then { call with phase := .returned .aborted }
  else { call with phase := .running, runs := call.runs + 1 }

def Call.hasSettled (call : Call) : Bool :=
  match call.phase with
  | .settled _ => true
  | _ => false

def Call.isEarly (call : Call) : Bool :=
  match call.phase with
  | .attempting | .running => true
  | _ => false

/-- The signal that the call is raced with is aborted. -/
def Call.abort (call : Call) : Call :=
  if call.hasSettled then call
  else { call with
    aborted := true
    abortedEarly := call.abortedEarly || call.isEarly
    phase := if call.phase = .running then .returned .aborted else call.phase }

/-- There is a signal that the call is raced with. -/
def Call.isRaced (call : Call) : Bool :=
  match call.mode with
  | .reused raced => raced
  | _ => call.isRequest

/-- `throwIfRequestAborted` -/
def Call.outcome (call : Call) (settlement : Settlement) : Settlement :=
  match call.mode with
  | .reused _ => settlement
  | _ => if call.isRequest && call.aborted && settlement = .ok then .aborted else settlement

/-- What the call settles with next, if it does. -/
def Call.settlement (call : Call) : Option Settlement :=
  match call.mode, call.phase with
  | .own, .finished settlement => some (call.outcome settlement)
  | .own, _ => none
  | _, .returned settlement => some (call.outcome settlement)
  | _, _ => none

def State.setCall (s : State) (i : Nat) (call : Call) : State := { s with calls := s.calls.set i call }

def State.add (s : State) (call : Call) : State := { s with calls := s.calls ++ [call] }

/-- The context of what is called in the callback of a call. -/
def State.getStore (s : State) (within : Option Nat) : Option TransactionContext := do
  let call ← s.calls[← within]?
  call.context

/-- The callback has been started: what it calls, it may call at any time after. -/
def State.hasStarted (s : State) (within : Option Nat) : Bool := within.all fun i => s.calls[i]?.any fun call => 0 < call.runs

def State.isAvailable (s : State) : Bool := s.lifecycleState ≠ .shuttingDown && s.lifecycleState ≠ .stopped

def nestedOptionsError : String := "Nested Prisma transaction options are not supported because the active transaction context is reused."

def unavailableError : String := "Prisma request transactions are not available during shutdown."

def notSupportedError : String := "Transaction not supported: Prisma client does not implement $transaction."

/-- `runWithTransactionClient`, to its first await. -/
def transaction (config : Config) (s : State) (within : Option Nat) (options : OptionsArgument) : Except String State :=
  match s.getStore within with
  | some context =>
    if options ≠ .absent then .error nestedOptionsError
    else .ok (s.add (Call.start { isRequest := false, mode := .reused false, context := some context, phase := .running }))
  | none =>
    if config.hasTransaction then
      .ok (s.add { isRequest := false, mode := .own, context := some ⟨s.calls.length, false⟩, phase := .attempting })
    else if config.strictTransactions then .error notSupportedError
    else .ok (s.add (Call.start { isRequest := false, mode := .direct, context := none, phase := .running }))

/-- `canAttemptTransactionAbortSignalOption` -/
def State.canAttemptSignal (s : State) (options : OptionsArgument) : Bool :=
  options ≠ .other && s.transactionAbortSignalSupport ≠ .unsupported

/-- `requestTransaction`, to its first await. -/
def requestTransaction (config : Config) (s : State) (within : Option Nat) (signal : Option Bool) (options : OptionsArgument) :
    Except String State :=
  let aborted := signal = some true
  match s.getStore within with
  | some context =>
    if options ≠ .absent then .error nestedOptionsError
    else if context.requestAbortSignal then
      .ok (s.add (Call.start { isRequest := true, mode := .reused signal.isSome, context := some context, phase := .running, aborted := aborted }))
    else if s.isAvailable then
      let call : Call := { isRequest := true, mode := .inPlain context.holder, context := some ⟨context.holder, true⟩, phase := .running, aborted := aborted }
      .ok (s.add { call.start with tracked := true, abortedEarly := aborted })
    else .error unavailableError
  | none =>
    if !s.isAvailable then .error unavailableError
    else if config.hasTransaction then
      .ok (s.add {
        isRequest := true, mode := .own, context := some ⟨s.calls.length, true⟩, phase := .attempting, aborted := aborted
        withSignal := s.canAttemptSignal options, tracked := true, abortedEarly := aborted })
    else
      let call : Call := { isRequest := true, mode := .direct, context := none, phase := .running, aborted := aborted }
      if config.strictTransactions then .ok (s.add { call with phase := .returned .failed, tracked := true })
      else .ok (s.add { call.start with tracked := true, abortedEarly := aborted })

/-- `runTransactionWithAbortSignalFallback`, when the client rejects the first attempt. -/
def State.refuse (s : State) (i : Nat) (call : Call) (aboutSignal : Bool) : State :=
  if call.isRequest && call.withSignal && aboutSignal && s.transactionAbortSignalSupport ≠ .supported then
    { s.setCall i { call with withSignal := false } with transactionAbortSignalSupport := .unsupported }
  else s.setCall i { call with phase := .finished .failed }

def State.commit (s : State) (i : Nat) (call : Call) : State :=
  let s := s.setCall i { call with transaction := .committed, phase := .finished .ok }
  if call.isRequest && call.withSignal then { s with transactionAbortSignalSupport := .supported } else s

/-- What the end of call `i` untracks: itself, or what was deferred to it. -/
def Call.untrackedBy (call : Call) (i j : Nat) : Call :=
  if call.mode = .inPlain i ∨ j = i ∧ (call.mode = .own ∨ call.mode = .direct) then { call with tracked := false } else call

def State.settle (s : State) (i : Nat) (call : Call) (settlement : Settlement) : State :=
  { s with calls := (s.calls.set i { call with phase := .settled settlement }).mapIdx fun j call => call.untrackedBy i j }

/-- The start of `onApplicationShutdown`. -/
def State.shutdown (s : State) : State :=
  { s with
    lifecycleState := .shuttingDown
    calls := s.calls.map fun call => if call.tracked then call.abort else call
    shutdowns := s.shutdowns ++ [⟨(List.range s.calls.length).filter fun i => s.calls[i]?.any (·.tracked), .draining⟩] }

/-- A call that throws at once changes nothing. -/
def State.orElse (s : State) : Except String State → State
  | .ok s' => s'
  | .error _ => s

def step (config : Config) (s : State) : Label → Option State
  | .ready => if s.lifecycleState = .created then some { s with lifecycleState := .ready } else none
  | .transaction within options => if s.hasStarted within then some (s.orElse (transaction config s within options)) else none
  | .requestTransaction within signal options =>
    if s.hasStarted within then some (s.orElse (requestTransaction config s within signal options)) else none
  | .invoke i => do
    let call ← s.calls[i]?
    if call.phase = .attempting then return s.setCall i { call.start with transaction := .opened } else none
  | .refuse i aboutSignal => do
    let call ← s.calls[i]?
    if call.phase = .attempting then return s.refuse i call aboutSignal else none
  | .return_ i ok => do
    let call ← s.calls[i]?
    if call.phase = .running then return s.setCall i { call with phase := .returned (if ok then .ok else .failed) } else none
  | .abort i => do
    let call ← s.calls[i]?
    if call.isRaced then return s.setCall i call.abort else none
  | .commit i => do
    let call ← s.calls[i]?
    if call.mode = .own ∧ call.phase = .returned .ok then return s.commit i call else none
  | .rollBack i settlement => do
    let call ← s.calls[i]?
    if call.mode = .own ∧ settlement ≠ .ok ∧ (call.phase = .running ∨ call.phase = .returned .ok ∨ call.phase = .returned settlement) then
      return s.setCall i { call with transaction := .rolledBack, phase := .finished settlement }
    else none
  | .settle i => do
    let call ← s.calls[i]?
    let settlement ← call.settlement
    return s.settle i call settlement
  | .shutdown => some s.shutdown
  | .disconnect k => do
    let shutdown ← s.shutdowns[k]?
    if shutdown.phase = .draining ∧ ∀ i ∈ shutdown.waitsFor, s.calls[i]?.all fun call => !call.tracked then
      return { s with shutdowns := s.shutdowns.set k { shutdown with phase := .disconnecting } }
    else none
  | .stop k => do
    let shutdown ← s.shutdowns[k]?
    if shutdown.phase = .disconnecting then
      return { s with lifecycleState := .stopped, shutdowns := s.shutdowns.set k { shutdown with phase := .stopped } }
    else none

/-! ## Outcomes -/

/-- The call that holds the transaction of what a call's callback writes. -/
def Call.holder (call : Call) (i : Nat) : Option Nat :=
  match call.mode with
  | .own => some i
  | .direct => none
  | .inPlain holder => some holder
  | .reused _ => call.context.map (·.holder)

def State.transactionOf (s : State) (i : Nat) (call : Call) : Option Transaction := do
  let holder ← s.calls[← call.holder i]?
  return holder.transaction

/-- What the outcome of a request transaction says of a transaction: nothing ran twice, it resolved only if that was committed, and an
abort means that it was not. -/
structure Call.Faithful (call : Call) (transaction : Option Transaction) : Prop where
  runs : call.runs ≤ 1
  resolved : call.phase = .settled .ok → transaction = some .committed
  aborted : call.phase = .settled .aborted → transaction ≠ some .committed

/-- A request transaction with a transaction of its own: an abort counts until the callback has settled. -/
structure Call.FaithfulOwn (call : Call) : Prop where
  runs : call.runs ≤ 1
  resolved : call.mode = .own → call.phase = .settled .ok → call.transaction = .committed
  aborted : call.mode = .own → call.phase = .settled .aborted → call.abortedEarly = true → call.transaction ≠ .committed

structure Call.Inv (call : Call) : Prop where
  runs : call.runs ≤ 1
  idle : call.phase = .attempting → call.runs = 0
  tracked : call.tracked = true → call.isRequest = true
  own : call.mode = .own → call.phase = .finished .ok ∨ call.phase = .settled .ok → call.transaction = .committed
  late : call.transaction = .committed → call.isEarly = false
  early : call.abortedEarly = true → call.aborted = true ∧ call.isRequest = true ∧ call.transaction ≠ .committed ∧
    call.phase ≠ .running ∧ call.phase ≠ .returned .ok ∧ call.phase ≠ .finished .ok
  raced : call.isRaced = true → call.isRequest = true

theorem Call.Inv.faithfulOwn {call : Call} (h : call.Inv) : call.FaithfulOwn where
  runs := h.runs
  resolved hown hphase := h.own hown (.inr hphase)
  aborted _ _ hearly := (h.early hearly).2.2.1

section Calls
variable {call : Call}

theorem Call.Inv.invoke (h : call.Inv) (hphase : call.phase = .attempting) : Call.Inv { call.start with transaction := .opened } := by
  have hruns := h.idle hphase
  unfold Call.start
  split
  · next hcond =>
    exact
      { runs := h.runs
        idle := nofun
        tracked := h.tracked
        own := fun _ hdone => by rcases hdone with hdone | hdone <;> cases hdone
        late := nofun
        early := fun hearly => ⟨(h.early hearly).1, (h.early hearly).2.1, nofun, nofun, nofun, nofun⟩
        raced := h.raced }
  · next hcond =>
    exact
      { runs := by
          change call.runs + 1 ≤ 1
          rw [hruns]
        idle := nofun
        tracked := h.tracked
        own := fun _ hdone => by rcases hdone with hdone | hdone <;> cases hdone
        late := nofun
        early := fun hearly => by
          obtain ⟨haborted, hrequest, -⟩ := h.early hearly
          rw [haborted, hrequest] at hcond
          exact absurd rfl hcond
        raced := h.raced }

theorem Call.Inv.withSignal (h : call.Inv) (withSignal : Bool) : Call.Inv { call with withSignal } :=
  ⟨h.runs, h.idle, h.tracked, h.own, h.late, h.early, h.raced⟩

theorem Call.Inv.untracked (h : call.Inv) : Call.Inv { call with tracked := false } :=
  ⟨h.runs, h.idle, nofun, h.own, h.late, h.early, h.raced⟩

theorem Call.Inv.refused (h : call.Inv) : Call.Inv { call with phase := .finished .failed } where
  runs := h.runs
  idle := nofun
  tracked := h.tracked
  own := fun _ hdone => by rcases hdone with hdone | hdone <;> cases hdone
  late := fun _ => rfl
  early hearly := ⟨(h.early hearly).1, (h.early hearly).2.1, (h.early hearly).2.2.1, nofun, nofun, nofun⟩
  raced := h.raced

theorem Call.Inv.returns (h : call.Inv) (hphase : call.phase = .running) (settlement : Settlement) :
    Call.Inv { call with phase := .returned settlement } where
  runs := h.runs
  idle := nofun
  tracked := h.tracked
  own := fun _ hdone => by rcases hdone with hdone | hdone <;> cases hdone
  late := fun _ => rfl
  early hearly := absurd hphase (h.early hearly).2.2.2.1
  raced := h.raced

theorem Call.Inv.abort (h : call.Inv) (hrequest : call.isRequest = true) : call.abort.Inv := by
  unfold Call.abort
  split
  · exact h
  · have huncommitted : call.isEarly = true → call.transaction ≠ .committed := by
      intro hearly hcommitted
      rw [h.late hcommitted] at hearly
      cases hearly
    by_cases hrunning : call.phase = .running
    · rw [if_pos hrunning]
      exact
        { runs := h.runs
          idle := nofun
          tracked := h.tracked
          own := fun _ hdone => by rcases hdone with hdone | hdone <;> cases hdone
          late := fun _ => rfl
          early := fun _ => ⟨rfl, hrequest, huncommitted (by rw [Call.isEarly, hrunning]), nofun, nofun, nofun⟩
          raced := h.raced }
    · rw [if_neg hrunning]
      refine ⟨h.runs, h.idle, h.tracked, h.own, h.late, fun hearly => ?_, h.raced⟩
      rcases Bool.or_eq_true_iff.1 hearly with hearly | hearly
      · obtain ⟨-, -, hrest⟩ := h.early hearly
        exact ⟨rfl, hrequest, hrest⟩
      · -- the client has yet to invoke the callback
        have hattempting : call.phase = .attempting := by
          unfold Call.isEarly at hearly
          split at hearly
          · next heq => exact heq
          · next heq => exact absurd heq hrunning
          · cases hearly
        refine ⟨rfl, hrequest, huncommitted hearly, ?_⟩
        change call.phase ≠ .running ∧ call.phase ≠ .returned .ok ∧ call.phase ≠ .finished .ok
        rw [hattempting]
        exact ⟨nofun, nofun, nofun⟩

theorem Call.Inv.commit (h : call.Inv) (hphase : call.phase = .returned .ok) :
    Call.Inv { call with transaction := .committed, phase := .finished .ok } where
  runs := h.runs
  idle := nofun
  tracked := h.tracked
  own := fun _ _ => rfl
  late := fun _ => rfl
  early hearly := absurd hphase (h.early hearly).2.2.2.2.1
  raced := h.raced

theorem Call.Inv.rollBack (h : call.Inv) {settlement : Settlement} (hfailed : settlement ≠ .ok) :
    Call.Inv { call with transaction := .rolledBack, phase := .finished settlement } where
  runs := h.runs
  idle := nofun
  tracked := h.tracked
  own := fun _ hdone => by
    rcases hdone with hdone | hdone
    · exact absurd (Phase.finished.inj hdone) hfailed
    · cases hdone
  late := nofun
  early hearly := ⟨(h.early hearly).1, (h.early hearly).2.1, nofun, nofun, nofun, fun hdone => hfailed (Phase.finished.inj hdone)⟩
  raced := h.raced

theorem outcome_eq_ok {settlement : Settlement} (h : call.outcome settlement = .ok) : settlement = .ok := by
  unfold Call.outcome at h
  split at h
  · exact h
  · split at h
    · cases h
    · exact h

theorem settlement_of_own {settlement : Settlement} (h : call.settlement = some settlement) (hmode : call.mode = .own) :
    ∃ finished, call.phase = .finished finished ∧ settlement = call.outcome finished := by
  unfold Call.settlement at h
  rw [hmode] at h
  cases hphase : call.phase with
  | finished finished =>
    rw [hphase] at h
    exact ⟨finished, rfl, (Option.some.inj h).symm⟩
  | attempting | running | returned settlement | settled settlement =>
    rw [hphase] at h
    cases h

theorem Call.Inv.settle (h : call.Inv) {settlement : Settlement} (hsettles : call.settlement = some settlement) :
    Call.Inv { call with phase := .settled settlement } where
  runs := h.runs
  idle := nofun
  tracked := h.tracked
  own := fun hmode hdone => by
    obtain ⟨finished, hphase, rfl⟩ := settlement_of_own hsettles hmode
    rcases hdone with hdone | hdone
    · cases hdone
    · have hok := outcome_eq_ok (Phase.settled.inj hdone)
      exact h.own hmode (.inl (by rw [hphase, hok]))
  late := fun _ => rfl
  early hearly := ⟨(h.early hearly).1, (h.early hearly).2.1, (h.early hearly).2.2.1, nofun, nofun, nofun⟩
  raced := h.raced

theorem Call.Inv.untrackedBy (h : call.Inv) (i j : Nat) : (call.untrackedBy i j).Inv := by
  unfold Call.untrackedBy
  split
  · exact h.untracked
  · exact h

end Calls

section Steps
variable {config : Config} {s s' : State} {i : Nat} {call : Call}

def CallsInv (s : State) : Prop := ∀ call ∈ s.calls, call.Inv

theorem CallsInv.orElse (h : CallsInv s) {result : Except String State} (hok : ∀ s', result = .ok s' → CallsInv s') :
    CallsInv (s.orElse result) := by
  cases result with
  | error error => exact h
  | ok s' => exact hok s' rfl

theorem CallsInv.setCall (h : CallsInv s) (i : Nat) (hcall : call.Inv) : CallsInv (s.setCall i call) := forall_mem_set h hcall i

theorem Call.Inv.started (call : Call) (hnew : call.runs = 0 ∧ call.transaction = .none ∧ call.mode ≠ .own) (tracked abortedEarly : Bool)
    (hrequest : tracked = true ∨ call.isRaced = true → call.isRequest = true)
    (hearly : abortedEarly = true → call.aborted = true ∧ call.isRequest = true) :
    Call.Inv { call.start with tracked, abortedEarly } := by
  obtain ⟨hruns, htransaction, hmode⟩ := hnew
  have huncommitted : call.transaction ≠ .committed := by
    rw [htransaction]
    exact nofun
  unfold Call.start
  split
  · exact
      { runs := by
          change call.runs ≤ 1
          rw [hruns]
          exact Nat.zero_le 1
        idle := nofun
        tracked := fun h => hrequest (.inl h)
        own := fun h => absurd h hmode
        late := fun h => absurd h huncommitted
        early := fun h => ⟨(hearly h).1, (hearly h).2, huncommitted, nofun, nofun, nofun⟩
        raced := fun h => hrequest (.inr h) }
  · next hcond =>
    exact
      { runs := by
          change call.runs + 1 ≤ 1
          rw [hruns]
        idle := nofun
        tracked := fun h => hrequest (.inl h)
        own := fun h => absurd h hmode
        late := fun h => absurd h huncommitted
        early := fun h => by
          obtain ⟨haborted, hisRequest⟩ := hearly h
          rw [haborted, hisRequest] at hcond
          exact absurd rfl hcond
        raced := fun h => hrequest (.inr h) }

theorem start_eq (call : Call) : { call.start with tracked := call.tracked, abortedEarly := call.abortedEarly } = call.start := by
  unfold Call.start
  split <;> rfl

theorem CallsInv.add (h : CallsInv s) (hcall : call.Inv) : CallsInv (s.add call) := forall_mem_concat h hcall

theorem CallsInv.transaction (h : CallsInv s) {within : Option Nat} {options : OptionsArgument}
    (hs' : transaction config s within options = .ok s') : CallsInv s' := by
  unfold Prisma.transaction at hs'
  split at hs'
  · next context hstore =>
    split at hs'
    · cases hs'
    · cases hs'
      refine h.add ?_
      rw [← start_eq]
      exact Call.Inv.started _ (by exact ⟨rfl, rfl, nofun⟩) _ _ (by rintro (h | h) <;> cases h) nofun
  · split at hs'
    · cases hs'
      refine h.add ⟨Nat.zero_le 1, fun _ => rfl, nofun, fun _ hdone => ?_, nofun, nofun, nofun⟩
      rcases hdone with hdone | hdone <;> cases hdone
    · split at hs'
      · cases hs'
      · cases hs'
        refine h.add ?_
        rw [← start_eq]
        exact Call.Inv.started _ (by exact ⟨rfl, rfl, nofun⟩) _ _ (by rintro (h | h) <;> cases h) nofun

theorem CallsInv.requestTransaction (h : CallsInv s) {within : Option Nat} {signal : Option Bool} {options : OptionsArgument}
    (hs' : requestTransaction config s within signal options = .ok s') : CallsInv s' := by
  unfold Prisma.requestTransaction at hs'
  dsimp only at hs'
  split at hs'
  · next context hstore =>
    split at hs'
    · cases hs'
    · split at hs'
      · cases hs'
        refine h.add ?_
        rw [← start_eq]
        exact Call.Inv.started _ (by exact ⟨rfl, rfl, nofun⟩) _ _ (fun _ => rfl) nofun
      · split at hs'
        · cases hs'
          exact h.add (Call.Inv.started _ (by exact ⟨rfl, rfl, nofun⟩) _ _ (fun _ => rfl) fun hearly => ⟨hearly, rfl⟩)
        · cases hs'
  · split at hs'
    · cases hs'
    · split at hs'
      · cases hs'
        refine h.add ⟨Nat.zero_le 1, fun _ => rfl, fun _ => rfl, fun _ hdone => ?_, nofun, fun hearly => ?_, fun _ => rfl⟩
        · rcases hdone with hdone | hdone <;> cases hdone
        · exact ⟨hearly, rfl, nofun, nofun, nofun, nofun⟩
      · split at hs'
        · cases hs'
          refine h.add ⟨Nat.zero_le 1, nofun, fun _ => rfl, nofun, nofun, nofun, fun _ => rfl⟩
        · cases hs'
          exact h.add (Call.Inv.started _ (by exact ⟨rfl, rfl, nofun⟩) _ _ (fun _ => rfl) fun hearly => ⟨hearly, rfl⟩)

theorem step_callsInv {l : Label} (h : CallsInv s) (hstep : step config s l = some s') : CallsInv s' := by
  cases l with
  | ready =>
    simp only [step] at hstep
    split at hstep
    · cases hstep
      exact h
    · cases hstep
  | transaction within options =>
    simp only [step] at hstep
    split at hstep
    · cases hstep
      exact h.orElse fun s' hs' => h.transaction hs'
    · cases hstep
  | requestTransaction within signal options =>
    simp only [step] at hstep
    split at hstep
    · cases hstep
      exact h.orElse fun s' hs' => h.requestTransaction hs'
    · cases hstep
  | invoke i =>
    obtain ⟨call, hi, hphase, rfl⟩ := bind_guarded_eq_some hstep
    exact h.setCall i ((h call (List.mem_of_getElem? hi)).invoke hphase)
  | refuse i aboutSignal =>
    obtain ⟨call, hi, hphase, rfl⟩ := bind_guarded_eq_some hstep
    have hcall := h call (List.mem_of_getElem? hi)
    unfold State.refuse
    split
    · exact h.setCall i (hcall.withSignal false)
    · exact h.setCall i hcall.refused
  | return_ i ok =>
    obtain ⟨call, hi, hphase, rfl⟩ := bind_guarded_eq_some hstep
    exact h.setCall i ((h call (List.mem_of_getElem? hi)).returns hphase _)
  | abort i =>
    obtain ⟨call, hi, hraced, rfl⟩ := bind_guarded_eq_some hstep
    have hcall := h call (List.mem_of_getElem? hi)
    exact h.setCall i (hcall.abort (hcall.raced hraced))
  | commit i =>
    obtain ⟨call, hi, ⟨-, hphase⟩, rfl⟩ := bind_guarded_eq_some hstep
    have hset := h.setCall i ((h call (List.mem_of_getElem? hi)).commit hphase)
    unfold State.commit
    dsimp only
    split
    · exact hset
    · exact hset
  | rollBack i settlement =>
    obtain ⟨call, hi, ⟨-, hfailed, -⟩, rfl⟩ := bind_guarded_eq_some hstep
    exact h.setCall i ((h call (List.mem_of_getElem? hi)).rollBack hfailed)
  | settle i =>
    obtain ⟨call, hi, hstep⟩ := Option.bind_eq_some_iff.1 hstep
    obtain ⟨settlement, hsettles, hstep⟩ := Option.bind_eq_some_iff.1 hstep
    cases hstep
    intro call' hmem
    obtain ⟨j, hj, rfl⟩ := List.mem_mapIdx.1 hmem
    exact (h.setCall i ((h call (List.mem_of_getElem? hi)).settle hsettles) _ (List.getElem_mem hj)).untrackedBy i j
  | shutdown =>
    cases hstep
    intro call' hmem
    obtain ⟨call, hcall, rfl⟩ := List.mem_map.1 hmem
    split
    · next htracked => exact (h call hcall).abort ((h call hcall).tracked htracked)
    · exact h call hcall
  | disconnect k =>
    obtain ⟨shutdown, -, -, rfl⟩ := bind_guarded_eq_some hstep
    exact h
  | stop k =>
    obtain ⟨shutdown, -, -, rfl⟩ := bind_guarded_eq_some hstep
    exact h

/-- Any run leaves every call such that it ran its callback once at most, and, where it has a transaction of its own, that it resolves only if
that was committed, and is rejected for an abort that came before its callback had settled only if it was not. -/
theorem faithfulOwn_of_run {ls : List Label} (h : Run (step config) (fun _ _ => True) {} ls s) : ∀ call ∈ s.calls, call.FaithfulOwn :=
  fun call hcall => (h.keeps CallsInv (fun _ _ _ _ hinv hstep => step_callsInv hinv hstep) (by intro call hcall; cases hcall) call hcall).faithfulOwn

end Steps

/-- A request transaction whose client knows no signal, and one that is aborted while it runs. -/
def requests : List Label :=
  [.ready, .requestTransaction none (some false) .absent, .refuse 0 true, .invoke 0, .requestTransaction none none .object, .invoke 1,
    .return_ 0 true, .commit 0, .settle 0, .abort 1, .rollBack 1 .aborted, .settle 1]

theorem faithfulOwn_of_run_requests : ∃ call ∈ (after (step ⟨false, true⟩) {} requests).calls, call.isRequest = true ∧ call.FaithfulOwn := by
  have hsome : ∃ call ∈ (after (step ⟨false, true⟩) {} requests).calls, call.isRequest = true := by decide
  obtain ⟨call, hmem, hrequest⟩ := hsome
  refine ⟨call, hmem, hrequest, ?_⟩
  exact faithfulOwn_of_run (Run.of_passes (fun _ _ _ => trivial) (by decide : passes (step ⟨false, true⟩) (fun _ _ => true) {} requests = true)) call hmem

/-- A request transaction resolves in a plain one, which is rolled back. -/
def nested : List Label :=
  [.ready, .transaction none .absent, .invoke 0, .requestTransaction (some 0) none .absent, .return_ 1 true, .settle 1, .return_ 0 false,
    .rollBack 0 .failed, .settle 0]

theorem not_faithful_nested : ¬ ∀ (config : Config) (ls : List Label) (s : State), Run (step config) (fun _ _ => True) {} ls s →
    ∀ (i : Nat) call, s.calls[i]? = some call → call.isRequest = true → call.Faithful (s.transactionOf i call) := by
  intro h
  have hrun : Run (step ⟨false, true⟩) (fun _ _ => True) {} nested (after (step ⟨false, true⟩) {} nested) :=
    Run.of_passes (fun _ _ _ => trivial) (by decide : passes (step ⟨false, true⟩) (fun _ _ => true) {} nested = true)
  have hcall : (after (step ⟨false, true⟩) {} nested).calls[1]? =
      some ⟨true, .inPlain 0, some ⟨0, true⟩, .settled .ok, false, false, .none, 1, false, false⟩ := by decide
  exact absurd ((h _ _ _ hrun 1 _ hcall rfl).resolved rfl) (by decide)

end Fluo.Prisma
