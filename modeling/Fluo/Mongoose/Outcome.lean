import Fluo.Lib.Driver
/-!
# The outcome of a Mongoose request transaction

One call of `MongooseConnection.requestTransaction`, with what the connection or the session does
between its awaits.
-/

namespace Fluo.Mongoose
open Fluo.Lib Driver

structure OutcomeConfig where
  strictTransactions : Bool
  /-- `typeof connection.transaction === 'function'` -/
  hasTransaction : Bool
  /-- `typeof connection.startSession === 'function'` -/
  hasStartSession : Bool

inductive RequestMode
  /-- In the session there is. -/
  | nested
  /-- Through `connection.transaction`, which the whole call is raced with the signal. -/
  | connection
  /-- `startSession` is awaited. -/
  | starting
  /-- With that session. -/
  | manual
  /-- With no transaction. -/
  | direct
deriving DecidableEq

structure RequestCall where
  mode : RequestMode
  /-- Of a manual session, the driver is `executeSessionTransaction`. -/
  driver : Driver.State
  /-- The transaction of a call that this one is nested in. -/
  ambient : Transaction := .none
  settlement : Option Settlement := none

inductive SessionOutcome
  | session
  | none
  | failed

inductive RequestLabel
  | driver (l : Driver.Label)
  /-- `resolveSession` settles. -/
  | session (outcome : SessionOutcome)
  /-- The transaction that this call is nested in. -/
  | ambient (transaction : Transaction)
  /-- The call settles, after `endSession` where there is a session. -/
  | settle (ended : Bool)

namespace RequestCall

def unavailableError : String := "Mongoose transactions are unavailable during application shutdown."

/-- `requestTransaction`, to its first await. -/
def requestTransaction (config : OutcomeConfig) (ambient ready aborted : Bool) : Except String RequestCall :=
  if ready then
    if ambient then .ok { mode := .nested, driver := race aborted, ambient := .opened }
    else
      -- a signal that is aborted already wins both races before they start anything
      let settlement := if aborted then some Settlement.aborted else none
      if config.hasTransaction then
        .ok { mode := .connection, driver := { phase := if aborted then .finished .aborted else .calling, aborted }, settlement }
      else .ok { mode := .starting, driver := { aborted }, settlement }
  else .error unavailableError

/-- What `resolveSession` can do. -/
def canResolve (config : OutcomeConfig) : SessionOutcome → Bool
  | .session => config.hasStartSession
  | .none => !config.hasStartSession && !config.strictTransactions
  | .failed => config.hasStartSession || config.strictTransactions

def resolveSession (call : RequestCall) : SessionOutcome → RequestCall
  | .session => { call with mode := .manual }
  | .none => { call with mode := .direct, driver := race call.driver.aborted }
  | .failed => { call with settlement := some .failed }

/-- What `executeSessionTransaction` does: `startTransaction`, the callback once, `commitTransaction` if it has resolved, and
`abortTransaction` after any failure, whose own failure is dropped. -/
def sessionAllows (driver : Driver.State) : Driver.Label → Bool
  | .invoke => driver.phase = .calling
  | .finish settlement => match driver.phase with
    | .calling => settlement = .failed
    | .returned .ok => settlement ≠ .aborted
    | .returned failure => settlement = failure
    | _ => false
  | _ => true

def allows (call : RequestCall) (l : Driver.Label) : Bool :=
  match call.mode with
  | .connection => true
  | .manual => sessionAllows call.driver l
  | .starting => l = .abort && call.settlement = none
  | .nested | .direct => match l with
    | .return_ _ | .abort => true
    | _ => false

/-- The signal is raced with `startSession` and with `connection.transaction` too. -/
def isRaced (call : RequestCall) : Bool := call.mode = .connection || call.mode = .starting

def drive (call : RequestCall) (l : Driver.Label) (driver : Driver.State) : RequestCall :=
  { call with driver, settlement := if l = .abort && call.isRaced then call.settlement <|> some .aborted else call.settlement }

/-- What the call settles with next, if it does. -/
def outcome (call : RequestCall) (ended : Bool) : Option Settlement :=
  match call.mode, call.driver.phase with
  | .nested, .returned settlement | .direct, .returned settlement | .connection, .finished settlement => some settlement
  | .manual, .finished settlement => some (if ended then settlement else .failed)
  | _, _ => none

def step (config : OutcomeConfig) (call : RequestCall) : RequestLabel → Option RequestCall
  | .driver l => if call.allows l then (Driver.step call.driver l).map (call.drive l) else none
  | .session outcome =>
    if call.mode = .starting ∧ call.settlement = none ∧ canResolve config outcome = true then some (call.resolveSession outcome) else none
  | .ambient transaction => if call.mode = .nested then some { call with ambient := transaction } else none
  | .settle ended =>
    if call.settlement = none then (call.outcome ended).map fun settlement => { call with settlement := some settlement } else none

/-- A request transaction of its own resolves only if the transaction was committed, and an abort means that it was not and will not be, where the
callback had not resolved before it or the session is a manual one. -/
structure Faithful (call : RequestCall) : Prop where
  runs     : ∀ n ∈ call.driver.runs, n ≤ 1
  resolved : call.mode = .connection ∨ call.mode = .manual → call.settlement = some .ok → call.driver.transaction = .committed
  aborted  : call.settlement = some .aborted → (call.mode = .connection → call.driver.abortedLate = false) → call.driver.transaction ≠ .committed

structure Ok (call : RequestCall) : Prop where
  driver   : call.driver.Ok
  /-- Without a driver nothing is opened. -/
  plain    : call.mode ≠ .connection → call.mode ≠ .manual → call.driver.transaction = .none
  resolved : call.mode = .connection ∨ call.mode = .manual → call.settlement = some .ok → call.driver.transaction = .committed
  aborted  : call.settlement = some .aborted → call.driver.aborted = true
  manual   : call.mode = .manual → call.settlement = some .aborted → call.driver.phase = .finished .aborted

variable {config : OutcomeConfig} {call call' : RequestCall}

theorem Ok.faithful (h : call.Ok) : call.Faithful where
  runs := h.driver.runs
  resolved := h.resolved
  aborted hs hlate hcommitted := by
    have hresolved := h.driver.committed hcommitted
    cases hmode : call.mode with
    | connection =>
      have := (h.driver.aborted (h.aborted hs)).2 hresolved
      rw [hlate hmode] at this
      cases this
    | manual => exact (h.driver.resolved hresolved).2.2 (h.manual hmode hs)
    | nested | starting | direct =>
      rw [h.plain (by simp [hmode]) (by simp [hmode])] at hcommitted
      cases hcommitted

theorem ok_requestTransaction {ambient ready aborted : Bool} (h : requestTransaction config ambient ready aborted = .ok call) : call.Ok := by
  unfold requestTransaction at h
  cases ready <;> cases ambient <;> cases aborted <;> cases hconnection : config.hasTransaction <;> simp only [hconnection] at h <;> cases h
  all_goals first
    | exact ⟨ok_race _, fun _ _ => rfl, by simp, by simp, by simp⟩
    | exact ⟨ok_calling _, by simp, by simp, by simp, by simp⟩
    | exact ⟨⟨by simp, by simp, by simp, by simp, by simp, by simp, by simp⟩, by simp, by simp, by simp, by simp⟩

theorem abort_fresh {s s' : Driver.State} (h : Driver.step s .abort = some s') : s.aborted = false ∧ s' = s.abort := by
  simp only [Driver.step] at h
  split at h
  · cases h
  · next haborted => exact ⟨by simpa using haborted, (Option.some.inj h).symm⟩

theorem Ok.drive {l : Driver.Label} {driver : Driver.State} (h : call.Ok) (hallows : call.allows l = true)
    (hstep : Driver.step call.driver l = some driver) : (call.drive l driver).Ok := by
  obtain ⟨hcommitted, haborted⟩ := step_keeps hstep
  constructor
  · exact step_ok h.driver hstep
  · intro hconnection hmanual
    have hplain := h.plain hconnection hmanual
    have hl : l = .abort ∨ ∃ ok, l = .return_ ok := by
      unfold allows at hallows
      split at hallows
      · next hmode => exact absurd hmode hconnection
      · next hmode => exact absurd hmode hmanual
      · exact .inl (by simp only [Bool.and_eq_true, decide_eq_true_eq] at hallows; exact hallows.1)
      all_goals
        split at hallows
        · exact .inr ⟨_, rfl⟩
        · exact .inl rfl
        · cases hallows
    rcases hl with rfl | ⟨ok, rfl⟩
    · exact (abort_fresh hstep).2 ▸ hplain
    · simp only [Driver.step] at hstep
      split at hstep <;> cases hstep
      exact hplain
  · intro hmode hs
    apply hcommitted
    apply h.resolved hmode
    simp only [RequestCall.drive] at hs
    split at hs
    · cases hsettled : call.settlement <;> simp_all
    · exact hs
  · intro hs
    simp only [RequestCall.drive] at hs
    split at hs
    · next hraced =>
      obtain rfl : l = .abort := by simp only [Bool.and_eq_true, decide_eq_true_eq] at hraced; exact hraced.1
      exact (abort_fresh hstep).2 ▸ rfl
    · exact haborted (h.aborted hs)
  · intro hmode hs
    have hmode : call.mode = .manual := hmode
    have hs : call.settlement = some .aborted := by
      simpa [RequestCall.drive, isRaced, hmode] using hs
    have hphase := h.manual hmode hs
    have hsignal := h.aborted hs
    simp only [allows, hmode] at hallows
    show driver.phase = .finished .aborted
    cases l with
    | invoke => simp [sessionAllows, hphase] at hallows
    | finish settlement => simp [sessionAllows, hphase] at hallows
    | return_ ok => simp [Driver.step, hphase] at hstep
    | abort => rw [(abort_fresh hstep).1] at hsignal; cases hsignal
    | commit => simp [Driver.step, hphase] at hstep
    | rollBack =>
      simp only [Driver.step] at hstep
      split at hstep <;> cases hstep
      exact hphase

theorem Ok.resolveSession (h : call.Ok) (hmode : call.mode = .starting) (hs : call.settlement = none) (outcome : SessionOutcome) :
    (call.resolveSession outcome).Ok := by
  have hplain := h.plain (by simp [hmode]) (by simp [hmode])
  cases outcome with
  | session => exact ⟨h.driver, by simp [RequestCall.resolveSession], by simp [RequestCall.resolveSession, hs], by simp [RequestCall.resolveSession, hs], by simp [RequestCall.resolveSession, hs]⟩
  | none => exact ⟨ok_race _, fun _ _ => rfl, by simp [RequestCall.resolveSession], by simp [RequestCall.resolveSession, hs], by simp [RequestCall.resolveSession]⟩
  | failed => exact ⟨h.driver, fun _ _ => hplain, by simp [RequestCall.resolveSession], by simp [RequestCall.resolveSession], by simp [RequestCall.resolveSession]⟩

theorem outcome_eq {ended : Bool} {settlement : Settlement} (h : call.outcome ended = some settlement) : settlement = .failed ∨
    call.driver.phase = .finished settlement ∨ call.mode ≠ .connection ∧ call.mode ≠ .manual ∧ call.driver.phase = .returned settlement := by
  unfold outcome at h
  split at h
  · next hmode hphase => cases h; exact .inr (.inr ⟨by simp [hmode], by simp [hmode], hphase⟩)
  · next hmode hphase => cases h; exact .inr (.inr ⟨by simp [hmode], by simp [hmode], hphase⟩)
  · next hphase => cases h; exact .inr (.inl hphase)
  · next hphase =>
    cases ended
    · cases h; exact .inl rfl
    · cases h; exact .inr (.inl hphase)
  · cases h

theorem Ok.settle {ended : Bool} {settlement : Settlement} (h : call.Ok) (houtcome : call.outcome ended = some settlement) :
    Ok { call with settlement := some settlement } := by
  have hcases := outcome_eq houtcome
  refine ⟨h.driver, h.plain, fun hmode hs => ?_, fun hs => ?_, fun hmode hs => ?_⟩ <;> cases hs
  · rcases hcases with hfailed | hphase | ⟨hconnection, hmanual, -⟩
    · cases hfailed
    · exact h.driver.finished hphase
    · exact (hmode.elim hconnection hmanual).elim
  · rcases hcases with hfailed | hphase | ⟨-, -, hphase⟩
    · cases hfailed
    · exact h.driver.signal (.inr hphase)
    · exact h.driver.signal (.inl hphase)
  · rcases hcases with hfailed | hphase | ⟨-, hmanual, -⟩
    · cases hfailed
    · exact hphase
    · exact absurd hmode hmanual

theorem step_ok {l : RequestLabel} (h : call.Ok) (hstep : step config call l = some call') : call'.Ok := by
  cases l with
  | driver l =>
    simp only [step] at hstep
    split at hstep
    · next hallows =>
      obtain ⟨driver, hdriver, rfl⟩ := Option.map_eq_some_iff.1 hstep
      exact h.drive hallows hdriver
    · cases hstep
  | session outcome =>
    simp only [step] at hstep
    split at hstep
    · next hat =>
      cases hstep
      exact h.resolveSession hat.1 hat.2.1 outcome
    · cases hstep
  | ambient transaction =>
    simp only [step] at hstep
    split at hstep <;> cases hstep
    exact ⟨h.driver, h.plain, h.resolved, h.aborted, h.manual⟩
  | settle ended =>
    simp only [step] at hstep
    split at hstep
    · obtain ⟨settlement, houtcome, rfl⟩ := Option.map_eq_some_iff.1 hstep
      exact h.settle houtcome
    · cases hstep

end RequestCall

end Fluo.Mongoose
