import Fluo.Mongoose.Outcome
/-!
# The outcome of a Drizzle request transaction

One call of `DrizzleDatabase.requestTransaction`, with what the transaction runner does between its
awaits; and at the end what the outcome says of the transaction, for Drizzle and for Mongoose.
-/

namespace Fluo.Drizzle
open Fluo.Lib Driver

structure Config where
  strictTransactions : Bool
  /-- `typeof database.transaction === 'function'` -/
  hasTransaction : Bool

/-- What `transactions.getStore()` returns. -/
inductive TransactionContext
  | none
  /-- Of a plain `transaction()`. -/
  | transaction
  /-- Of a request, with its signal. -/
  | requestTransaction

inductive Mode
  /-- `executeRequestTransaction` -/
  | own
  /-- `executeNestedRequestTransaction` -/
  | nested
  /-- `executeRequestFallback` -/
  | fallback
deriving DecidableEq

structure Call where
  mode : Mode
  driver : Driver.State
  /-- The transaction of a call that this one is nested in. -/
  ambient : Transaction := .none
  settlement : Option Settlement := none

inductive Label
  | driver (l : Driver.Label)
  | ambient (transaction : Transaction)
  | settle

def transactionNotSupportedError : String := "Transaction not supported: Drizzle database does not implement transaction."

def nestedTransactionOptionsNotSupportedError : String :=
  "Nested Drizzle transaction options are not supported because the active transaction context is reused."

def requestTransactionUnavailableError : String := "Drizzle request transactions are not available during shutdown."

/-- `executeTransaction` of a request, to its first await. Under the context of a request the signal is either one's. -/
def requestTransaction (config : Config) (context : TransactionContext) (hasOptions ready aborted : Bool) : Except String Call :=
  let ifReady (call : Call) : Except String Call := if ready then .ok call else .error requestTransactionUnavailableError
  let nested : Call := { mode := .nested, driver := race aborted, ambient := .opened }
  match context with
  | .requestTransaction => if hasOptions then .error nestedTransactionOptionsNotSupportedError else .ok nested
  | .transaction => if hasOptions then .error nestedTransactionOptionsNotSupportedError else ifReady nested
  | .none =>
    if config.hasTransaction then ifReady { mode := .own, driver := { aborted } }
    else if config.strictTransactions then .error transactionNotSupportedError
    else ifReady { mode := .fallback, driver := race aborted }

namespace Call

def allows (call : Call) (l : Driver.Label) : Bool :=
  match call.mode, l with
  | .own, _ | _, .return_ _ | _, .abort => true
  | _, _ => false

/-- `throwIfRequestAborted`, where the runner or the race has resolved. -/
def throwIfRequestAborted (call : Call) (settlement : Settlement) : Settlement :=
  if settlement = .ok && call.driver.aborted then .aborted else settlement

/-- What the call settles with next, if it does. -/
def outcome (call : Call) : Option Settlement :=
  match call.mode, call.driver.phase with
  | .own, .finished settlement | .nested, .returned settlement | .fallback, .returned settlement => some (call.throwIfRequestAborted settlement)
  | _, _ => none

def step (call : Call) : Label → Option Call
  | .driver l => if call.allows l then (Driver.step call.driver l).map fun driver => { call with driver } else none
  | .ambient transaction => if call.mode = .nested then some { call with ambient := transaction } else none
  | .settle => if call.settlement = none then call.outcome.map fun settlement => { call with settlement := some settlement } else none

/-- The transaction that the writes of the callback are in. -/
def transaction (call : Call) : Transaction :=
  match call.mode with
  | .own => call.driver.transaction
  | .nested => call.ambient
  | .fallback => .none

/-- With a transaction of its own, the call settles after the runner; it resolves only if the transaction was committed, and an abort means that it
was not and will not be, where the callback had not resolved before it. -/
structure Faithful (call : Call) : Prop where
  runs     : ∀ n ∈ call.driver.runs, n ≤ 1
  settled  : call.mode = .own → call.settlement ≠ none → ∃ settlement, call.driver.phase = .finished settlement
  resolved : call.mode = .own → call.settlement = some .ok → call.driver.transaction = .committed
  aborted  : call.mode = .own → call.settlement = some .aborted → call.driver.abortedLate = false → call.driver.transaction ≠ .committed

structure Ok (call : Call) : Prop where
  driver   : call.driver.Ok
  settled  : call.mode = .own → call.settlement ≠ none → ∃ settlement, call.driver.phase = .finished settlement
  resolved : call.mode = .own → call.settlement = some .ok → call.driver.transaction = .committed
  aborted  : call.settlement = some .aborted → call.driver.aborted = true

variable {config : Config} {call call' : Call}

theorem Ok.faithful (h : call.Ok) : call.Faithful where
  runs := h.driver.runs
  settled := h.settled
  resolved := h.resolved
  aborted _ hs hlate hcommitted := by
    have := (h.driver.aborted (h.aborted hs)).2 (h.driver.committed hcommitted)
    rw [hlate] at this
    cases this

theorem ok_requestTransaction {context : TransactionContext} {hasOptions ready aborted : Bool}
    (h : requestTransaction config context hasOptions ready aborted = .ok call) : call.Ok := by
  have hraced : ∀ mode ambient, Ok { mode, driver := race aborted, ambient } := fun _ _ => ⟨ok_race aborted, by simp, by simp, by simp⟩
  have hready : ∀ {fresh : Call}, fresh.Ok → (if ready then .ok fresh else .error requestTransactionUnavailableError) = Except.ok call → call.Ok := by
    intro fresh hfresh h
    cases ready <;> cases h
    exact hfresh
  cases context with
  | requestTransaction =>
    cases hasOptions <;> cases h
    exact hraced _ _
  | transaction =>
    cases hasOptions
    · exact hready (hraced _ _) h
    · cases h
  | none =>
    simp only [requestTransaction] at h
    split at h
    · exact hready ⟨ok_calling aborted, by simp, by simp, by simp⟩ h
    · split at h
      · cases h
      · exact hready (hraced _ _) h

theorem Ok.drive {l : Driver.Label} {driver : Driver.State} (h : call.Ok) (hstep : Driver.step call.driver l = some driver) :
    Ok { call with driver } := by
  obtain ⟨hcommitted, haborted⟩ := step_keeps hstep
  refine ⟨step_ok h.driver hstep, fun hmode hs => ?_, fun hmode hs => hcommitted (h.resolved hmode hs), fun hs => haborted (h.aborted hs)⟩
  obtain ⟨settlement, hphase⟩ := h.settled hmode hs
  exact step_finished hstep hphase

theorem outcome_eq {settlement : Settlement} (h : call.outcome = some settlement) : ∃ before, settlement = call.throwIfRequestAborted before ∧
    (call.driver.phase = .finished before ∨ call.mode ≠ .own ∧ call.driver.phase = .returned before) := by
  unfold outcome at h
  split at h
  · next hphase => cases h; exact ⟨_, rfl, .inl hphase⟩
  · next hmode hphase => cases h; exact ⟨_, rfl, .inr ⟨by simp [hmode], hphase⟩⟩
  · next hmode hphase => cases h; exact ⟨_, rfl, .inr ⟨by simp [hmode], hphase⟩⟩
  · cases h

theorem Ok.settle {settlement : Settlement} (h : call.Ok) (houtcome : call.outcome = some settlement) :
    Ok { call with settlement := some settlement } := by
  obtain ⟨before, rfl, hphase⟩ := outcome_eq houtcome
  refine ⟨h.driver, fun hmode _ => ?_, fun hmode hs => ?_, fun hs => ?_⟩
  · exact ⟨before, hphase.resolve_right fun hother => hother.1 hmode⟩
  · have hfinished := hphase.resolve_right fun hother => hother.1 hmode
    have hok : before = .ok := by
      have hs := Option.some.inj hs
      unfold throwIfRequestAborted at hs
      split at hs
      · cases hs
      · exact hs
    exact h.driver.finished (hok ▸ hfinished)
  · have hs := Option.some.inj hs
    unfold throwIfRequestAborted at hs
    split at hs
    · next hlate => simp only [Bool.and_eq_true] at hlate; exact hlate.2
    · exact h.driver.signal (by rw [← hs]; exact hphase.symm.imp_left And.right)

theorem step_ok {l : Label} (h : call.Ok) (hstep : step call l = some call') : call'.Ok := by
  cases l with
  | driver l =>
    simp only [step] at hstep
    split at hstep
    · obtain ⟨driver, hdriver, rfl⟩ := Option.map_eq_some_iff.1 hstep
      exact h.drive hdriver
    · cases hstep
  | ambient transaction =>
    simp only [step] at hstep
    split at hstep <;> cases hstep
    exact ⟨h.driver, h.settled, h.resolved, h.aborted⟩
  | settle =>
    simp only [step] at hstep
    split at hstep
    · obtain ⟨settlement, houtcome, rfl⟩ := Option.map_eq_some_iff.1 hstep
      exact h.settle houtcome
    · cases hstep

end Call

/-! ## Both -/

/-- Whatever the database does and whenever the signal is aborted, the outcome of a request transaction is true of its transaction. -/
theorem requestTransaction_faithful :
    (∀ config context hasOptions ready aborted call ls call', requestTransaction config context hasOptions ready aborted = .ok call →
      Run Call.step (fun _ _ => True) call ls call' → call'.Faithful) ∧
    (∀ config ambient ready aborted call ls call', Mongoose.RequestCall.requestTransaction config ambient ready aborted = .ok call →
      Run (Mongoose.RequestCall.step config) (fun _ _ => True) call ls call' → call'.Faithful) := by
  constructor
  · intro config context hasOptions ready aborted call ls call' hcall hrun
    exact (hrun.keeps Call.Ok (fun _ _ _ _ hok hstep => Call.step_ok hok hstep) (Call.ok_requestTransaction hcall)).faithful
  · intro config ambient ready aborted call ls call' hcall hrun
    exact (hrun.keeps Mongoose.RequestCall.Ok (fun _ _ _ _ hok hstep => Mongoose.RequestCall.step_ok hok hstep)
      (Mongoose.RequestCall.ok_requestTransaction hcall)).faithful

private def database : Config := { strictTransactions := true, hasTransaction := true }

private def connection : Mongoose.OutcomeConfig := { strictTransactions := true, hasTransaction := false, hasStartSession := true }

private def retried : List Label :=
  [.driver .invoke, .driver (.return_ true), .driver .rollBack, .driver .invoke, .driver (.return_ true), .driver .commit, .driver (.finish .ok), .settle]

private def abortedInCallback : List Mongoose.RequestLabel :=
  [.session .session, .driver .invoke, .driver .abort, .driver .rollBack, .driver (.finish .aborted), .settle true]

theorem requestTransaction_faithful_retried :
    (Lib.after Call.step { mode := .own, driver := {} } retried).Faithful ∧
    (Lib.after (Mongoose.RequestCall.step connection) { mode := .starting, driver := {} } abortedInCallback).Faithful :=
  ⟨requestTransaction_faithful.1 database .none true true false _ retried _ rfl
      (Run.of_passes (p := fun _ _ => true) (fun _ _ _ => trivial) (show Lib.passes Call.step (fun _ _ => true) _ retried = true by decide)),
    requestTransaction_faithful.2 connection false true false _ abortedInCallback _ rfl
      (Run.of_passes (p := fun _ _ => true) (fun _ _ _ => trivial)
        (show Lib.passes (Mongoose.RequestCall.step connection) (fun _ _ => true) _ abortedInCallback = true by decide))⟩

private def abortedInCommit : List Label :=
  [.driver .invoke, .driver (.return_ true), .driver .abort, .driver .commit, .driver (.finish .ok), .settle]

private def rolledBackAround : List Label := [.driver (.return_ true), .settle, .ambient .rolledBack]

/-- A call reports an abort that comes while its transaction is committed, and a nested call resolves before the transaction around it fails. -/
theorem requestTransaction_after_commit :
    (∃ call, requestTransaction database .none false true false = .ok call ∧
      Run Call.step (fun _ _ => True) call abortedInCommit (Lib.after Call.step call abortedInCommit) ∧
      (Lib.after Call.step call abortedInCommit).settlement = some .aborted ∧
      (Lib.after Call.step call abortedInCommit).transaction = .committed) ∧
    ∃ call, requestTransaction database .transaction false true false = .ok call ∧
      Run Call.step (fun _ _ => True) call rolledBackAround (Lib.after Call.step call rolledBackAround) ∧
      (Lib.after Call.step call rolledBackAround).settlement = some .ok ∧
      (Lib.after Call.step call rolledBackAround).transaction = .rolledBack := by
  refine ⟨⟨_, rfl, Run.of_passes (p := fun _ _ => true) (fun _ _ _ => trivial) ?_, ?_, ?_⟩,
    _, rfl, Run.of_passes (p := fun _ _ => true) (fun _ _ _ => trivial) ?_, ?_, ?_⟩ <;> decide

end Fluo.Drizzle
