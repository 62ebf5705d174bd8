import Fluo.Lib.Runs
/-!
# A callback in transactions of a driver

A driver calls a callback in a transaction, and calls it again in a new one where it
retries. Each call of the callback is raced with one abort signal. The driver
commits only a transaction whose callback has resolved, it resolves only after that, and
it rejects with the abort error only where the callback has.
-/

namespace Fluo.Lib.Driver

inductive Settlement
  | ok
  | failed
  | aborted
deriving DecidableEq

inductive Transaction
  | none
  | opened
  | committed
  | rolledBack
deriving DecidableEq

inductive Phase
  /-- The driver has been called. -/
  | calling
  /-- The callback is awaited. -/
  | running
  /-- The callback has settled. -/
  | returned (settlement : Settlement)
  /-- The driver has settled. -/
  | finished (settlement : Settlement)
deriving DecidableEq

structure State where
  phase : Phase := .calling
  transaction : Transaction := .none
  /-- The last callback has resolved. -/
  resolved : Bool := false
  aborted : Bool := false
  /-- The signal was aborted after that. -/
  abortedLate : Bool := false
  /-- How often each call of the driver has run what is raced. -/
  runs : List Nat := []

inductive Label
  | invoke
  | return_ (ok : Bool)
  | abort
  | commit
  | rollBack
  | finish (settlement : Settlement)
deriving DecidableEq

/-- `raceWithAbort`, to its first await, in a new transaction. -/
def State.invoke (s : State) : State :=
  if s.aborted then { s with phase := .returned .aborted, transaction := .opened, resolved := false, abortedLate := false, runs := s.runs ++ [0] }
  else { s with phase := .running, transaction := .opened, resolved := false, runs := s.runs ++ [1] }

def State.abort (s : State) : State :=
  { s with
    phase := if s.phase = .running then .returned .aborted else s.phase
    aborted := true
    abortedLate := s.resolved }

def State.return_ (s : State) (ok : Bool) : State := { s with phase := .returned (if ok then .ok else .failed), resolved := ok }

/-- The driver can call the callback, for the first time or again. -/
def State.canInvoke (s : State) : Bool :=
  match s.phase with
  | .calling | .returned _ => s.transaction ≠ .committed
  | _ => false

/-- How the driver can settle. -/
def State.canFinish (s : State) : Settlement → Bool
  | .ok => s.phase = .returned .ok ∧ s.transaction = .committed
  | .failed => match s.phase with
    | .finished _ => false
    | _ => true
  | .aborted => s.phase = .returned .aborted

def step (s : State) : Label → Option State
  | .invoke => if s.canInvoke then some s.invoke else none
  | .return_ ok => if s.phase = .running then some (s.return_ ok) else none
  | .abort => if s.aborted then none else some s.abort
  | .commit => if s.phase = .returned .ok ∧ s.transaction = .opened then some { s with transaction := .committed } else none
  | .rollBack => if s.transaction = .opened then some { s with transaction := .rolledBack } else none
  | .finish settlement => if s.canFinish settlement then some { s with phase := .finished settlement } else none

variable {s s' : State}

/-- An abort keeps a transaction from being committed, if it comes before the last callback has resolved. -/
structure State.Ok (s : State) : Prop where
  runs      : ∀ n ∈ s.runs, n ≤ 1
  committed : s.transaction = .committed → s.resolved = true
  returned  : s.phase = .returned .ok → s.resolved = true
  resolved  : s.resolved = true → s.phase ≠ .running ∧ s.phase ≠ .returned .aborted ∧ s.phase ≠ .finished .aborted
  finished  : s.phase = .finished .ok → s.transaction = .committed
  aborted   : s.aborted = true → s.phase ≠ .running ∧ (s.resolved = true → s.abortedLate = true)
  signal    : s.phase = .returned .aborted ∨ s.phase = .finished .aborted → s.aborted = true

theorem ok_calling (aborted : Bool) : State.Ok { aborted } :=
  ⟨by simp, by simp, by simp, by simp, by simp, by simp, by simp⟩

theorem State.Ok.invoke (h : s.Ok) : s.invoke.Ok := by
  have hruns : ∀ n ≤ 1, ∀ m ∈ s.runs ++ [n], m ≤ 1 := by
    intro n hn m hm
    rcases List.mem_append.1 hm with hm | hm
    · exact h.runs m hm
    · rwa [List.mem_singleton.1 hm]
  unfold State.invoke
  split
  · next haborted => exact ⟨hruns 0 (by omega), by simp, by simp, by simp, by simp, by simp, by simp [haborted]⟩
  · next haborted => exact ⟨hruns 1 (by omega), by simp, by simp, by simp, by simp, by simp [haborted], by simp⟩

theorem State.Ok.abort (h : s.Ok) : s.abort.Ok := by
  unfold State.abort
  by_cases hrunning : s.phase = .running
  · have hresolved : s.resolved = false := by
      by_contra hresolved
      exact (h.resolved (by simpa using hresolved)).1 hrunning
    have hopen : s.transaction ≠ .committed := by
      intro hcommitted
      rw [h.committed hcommitted] at hresolved
      cases hresolved
    simp only [if_pos hrunning]
    exact ⟨h.runs, h.committed, by simp, by simp [hresolved], by simp, by simp [hresolved], by simp⟩
  · simp only [if_neg hrunning]
    exact ⟨h.runs, h.committed, h.returned, h.resolved, h.finished, fun _ => ⟨hrunning, id⟩, fun _ => rfl⟩

theorem State.Ok.return_ (h : s.Ok) (hrunning : s.phase = .running) (ok : Bool) : (s.return_ ok).Ok := by
  have hresolved : s.resolved = false := by
    by_contra hresolved
    exact (h.resolved (by simpa using hresolved)).1 hrunning
  have hopen : s.transaction ≠ .committed := by
    intro hcommitted
    rw [h.committed hcommitted] at hresolved
    cases hresolved
  have haborted : s.aborted = false := by
    by_contra haborted
    exact (h.aborted (by simpa using haborted)).1 hrunning
  cases ok with
  | true => exact ⟨h.runs, fun _ => rfl, fun _ => rfl, by simp [State.return_], by simp [State.return_], by simp [State.return_, haborted], by simp [State.return_]⟩
  | false => exact ⟨h.runs, by simp [State.return_, hopen], by simp [State.return_], by simp [State.return_], by simp [State.return_], by simp [State.return_, haborted], by simp [State.return_]⟩

/-- `raceWithAbort` by itself, with no transaction around it. -/
def race (aborted : Bool) : State := { State.invoke { aborted } with transaction := .none }

theorem ok_race (aborted : Bool) : (race aborted).Ok := by
  cases aborted <;> exact ⟨by simp [race, State.invoke], by simp [race, State.invoke], by simp [race, State.invoke], by simp [race, State.invoke],
    by simp [race, State.invoke], by simp [race, State.invoke], by simp [race, State.invoke]⟩

theorem step_ok {l : Label} (h : s.Ok) (hs : step s l = some s') : s'.Ok := by
  cases l with
  | invoke =>
    simp only [step] at hs
    split at hs
    · cases hs; exact h.invoke
    · cases hs
  | return_ ok =>
    simp only [step] at hs
    split at hs
    · next hrunning => cases hs; exact h.return_ hrunning ok
    · cases hs
  | abort =>
    simp only [step] at hs
    split at hs
    · cases hs
    · cases hs; exact h.abort
  | commit =>
    simp only [step] at hs
    split at hs
    · next hat =>
      cases hs
      exact ⟨h.runs, fun _ => h.returned hat.1, h.returned, h.resolved, fun _ => rfl, h.aborted, h.signal⟩
    · cases hs
  | rollBack =>
    simp only [step] at hs
    split at hs
    · next hopen =>
      cases hs
      refine ⟨h.runs, by simp, h.returned, h.resolved, fun hdone => ?_, h.aborted, h.signal⟩
      rw [h.finished hdone] at hopen
      cases hopen
    · cases hs
  | finish settlement =>
    simp only [step] at hs
    split at hs
    · next hcan =>
      cases hs
      cases settlement with
      | ok =>
        obtain ⟨hphase, hcommitted⟩ : s.phase = .returned .ok ∧ s.transaction = .committed := by simpa [State.canFinish] using hcan
        exact ⟨h.runs, h.committed, by simp, by simp, fun _ => hcommitted, fun ha => ⟨by simp, (h.aborted ha).2⟩, by simp⟩
      | failed => exact ⟨h.runs, h.committed, by simp, by simp, by simp, fun ha => ⟨by simp, (h.aborted ha).2⟩, by simp⟩
      | aborted =>
        have hphase : s.phase = .returned .aborted := by simpa [State.canFinish] using hcan
        refine ⟨h.runs, h.committed, by simp, fun hr => absurd hphase (h.resolved hr).2.1, by simp, fun ha => ⟨by simp, (h.aborted ha).2⟩, fun _ => h.signal (.inl hphase)⟩
    · cases hs

theorem step_keeps {l : Label} (hs : step s l = some s') :
    (s.transaction = .committed → s'.transaction = .committed) ∧ (s.aborted = true → s'.aborted = true) := by
  cases l with
  | invoke =>
    simp only [step] at hs
    split at hs
    · next hcan =>
      cases hs
      refine ⟨fun hcommitted => ?_, fun haborted => by simp [State.invoke, haborted]⟩
      unfold State.canInvoke at hcan
      split at hcan <;> simp [hcommitted] at hcan
    · cases hs
  | return_ ok =>
    simp only [step] at hs
    split at hs <;> cases hs
    exact ⟨id, id⟩
  | abort =>
    simp only [step] at hs
    split at hs <;> cases hs
    exact ⟨id, fun _ => rfl⟩
  | commit =>
    simp only [step] at hs
    split at hs <;> cases hs
    exact ⟨fun _ => rfl, id⟩
  | rollBack =>
    simp only [step] at hs
    split at hs
    · next hopen => cases hs; exact ⟨fun hcommitted => by simp [hopen] at hcommitted, id⟩
    · cases hs
  | finish settlement =>
    simp only [step] at hs
    split at hs <;> cases hs
    exact ⟨id, id⟩

theorem step_finished {l : Label} {settlement : Settlement} (hs : step s l = some s') (hphase : s.phase = .finished settlement) :
    ∃ settlement, s'.phase = .finished settlement := by
  cases l with
  | invoke => simp [step, State.canInvoke, hphase] at hs
  | return_ ok => simp [step, hphase] at hs
  | abort =>
    simp only [step] at hs
    split at hs <;> cases hs
    exact ⟨settlement, by simp [State.abort, hphase]⟩
  | commit => simp [step, hphase] at hs
  | rollBack =>
    simp only [step] at hs
    split at hs <;> cases hs
    exact ⟨settlement, hphase⟩
  | finish settlement =>
    simp only [step] at hs
    split at hs <;> cases hs
    exact ⟨settlement, rfl⟩

end Fluo.Lib.Driver
