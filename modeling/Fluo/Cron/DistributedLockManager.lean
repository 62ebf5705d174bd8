import Fluo.Lib.Runs
import Fluo.Lib.Slots
/-!
# Distributed locks of cron tasks

Scheduler nodes that share a Redis server. A command that a node sends is executed
at once, some time later, or not at all, and its reply takes time as well. Times are
milliseconds, and the clock is the server's.
-/

namespace Fluo.Cron.DistributedLockManager
open Fluo.Lib

variable {ν τ : Type}

/-- What the nodes `ν` have for the tasks `τ` that they have registered. -/
structure Options (ν τ : Type) where
  ownerId : ν → String
  lockKey : ν → τ → String
  lockTtlMs : ν → τ → Nat

/-! ## The server -/

structure Lock where
  owner : String
  expiresAt : Int
  /-- The run that has set the key; the server knows the owner only. -/
  run : Nat

/-- The keys, with those that have expired. -/
abbrev Locks := String → Option Lock

def Locks.get (locks : Locks) (clock : Int) (key : String) : Option Lock := (locks key).filter fun lock => clock < lock.expiresAt

/-- `SET key owner PX ttl NX` -/
def Locks.setNx (locks : Locks) (clock : Int) (key owner : String) (ttl : Nat) (run : Nat) : Bool × Locks :=
  match locks.get clock key with
  | some _ => (false, locks)
  | none => (true, Function.update locks key (some ⟨owner, clock + ttl, run⟩))

/-- The lock that a script finds to be the owner's. -/
def Locks.owned (locks : Locks) (clock : Int) (key owner : String) : Option Lock := (locks.get clock key).filter fun lock => lock.owner = owner

/-- `RELEASE_LOCK_SCRIPT` -/
def Locks.release (locks : Locks) (clock : Int) (key owner : String) : Nat × Locks :=
  match locks.owned clock key owner with
  | some _ => (1, Function.update locks key none)
  | none => (0, locks)

/-- `RENEW_LOCK_SCRIPT` -/
def Locks.renew (locks : Locks) (clock : Int) (key owner : String) (ttl : Nat) : Nat × Locks :=
  match locks.owned clock key owner with
  | some lock => (1, Function.update locks key (some { lock with expiresAt := clock + ttl }))
  | none => (0, locks)

/-! ## Runs of tasks -/

inductive LockPostRunError
  | ownershipLost
  | renewalFailed

inductive Phase
  /-- The `SET` is sent. -/
  | acquiring
  /-- The key is set, and the reply on its way. -/
  | acquired
  | running
  /-- The task is over, and the release sent. -/
  | releasing
  | ended
deriving DecidableEq

structure TaskRun (ν τ : Type) where
  node : ν
  task : τ
  phase : Phase := .acquiring
  /-- The renewals in the chain that are not executed yet. -/
  renewals : Nat := 0
  lockPostRunError : Option LockPostRunError := none
  /-- When the acquisition of this run expires, by what this run has done. -/
  heldUntil : Option Int := none

structure State (ν τ : Type) where
  clock : Int := 0
  locks : Locks := fun _ => none
  runs : List (TaskRun ν τ) := []

inductive Label (ν τ : Type)
  | pass (time : Int)
  /-- `handleTaskTick` -/
  | tick (node : ν) (task : τ)
  | acquire (i : Nat)
  /-- The `SET` is lost, or its reply. -/
  | acquireFails (i : Nat)
  | start (i : Nat)
  | renewalDue (i : Nat)
  | renew (i : Nat)
  | renewFails (i : Nat)
  | finish (i : Nat)
  | release (i : Nat)
  | releaseFails (i : Nat)

namespace Options
variable (options : Options ν τ)

def keyOf (run : TaskRun ν τ) : String := options.lockKey run.node run.task

def ownerOf (run : TaskRun ν τ) : String := options.ownerId run.node

def ttlOf (run : TaskRun ν τ) : Nat := options.lockTtlMs run.node run.task

end Options

/-- The acquisition of the run is neither expired nor released. -/
def State.holds (s : State ν τ) (run : TaskRun ν τ) : Bool :=
  match run.heldUntil with
  | some time => s.clock < time
  | none => false

def State.setRun (s : State ν τ) (i : Nat) (run : TaskRun ν τ) : State ν τ := { s with runs := s.runs.set i run }

/-- `tryAcquireLock`, on the server. -/
def State.acquire (s : State ν τ) (options : Options ν τ) (i : Nat) (run : TaskRun ν τ) : State ν τ :=
  let (ok, locks) := s.locks.setNx s.clock (options.keyOf run) (options.ownerOf run) (options.ttlOf run) i
  if ok then { s.setRun i { run with phase := .acquired, heldUntil := some (s.clock + options.ttlOf run) } with locks }
  else s.setRun i { run with phase := .ended }

/-- `renewLock`, on the server, and `runLockRenewalAttempt`, which keeps the first error. -/
def State.renew (s : State ν τ) (options : Options ν τ) (i : Nat) (run : TaskRun ν τ) : State ν τ :=
  let (result, locks) := s.locks.renew s.clock (options.keyOf run) (options.ownerOf run) (options.ttlOf run)
  { s.setRun i { run with
      renewals := run.renewals - 1
      lockPostRunError := if result = 0 then run.lockPostRunError <|> some .ownershipLost else run.lockPostRunError
      heldUntil := if (s.locks.owned s.clock (options.keyOf run) (options.ownerOf run)).map (·.run) = some i then some (s.clock + options.ttlOf run) else run.heldUntil } with
    locks }

/-- `releaseLock`, on the server. -/
def State.release (s : State ν τ) (options : Options ν τ) (i : Nat) (run : TaskRun ν τ) : State ν τ :=
  let (_, locks) := s.locks.release s.clock (options.keyOf run) (options.ownerOf run)
  { s.setRun i { run with phase := .ended, heldUntil := none } with locks }

section Steps
variable [DecidableEq ν] [DecidableEq τ]

/-- A task that is still running on a node does not run there once more. -/
def State.isRunning (s : State ν τ) (node : ν) (task : τ) : Bool :=
  s.runs.any fun run => run.node = node ∧ run.task = task ∧ run.phase ≠ .ended

def step (options : Options ν τ) (s : State ν τ) : Label ν τ → Option (State ν τ)
  | .pass time => if s.clock ≤ time then some { s with clock := time } else none
  | .tick node task => if s.isRunning node task then none else some { s with runs := s.runs ++ [{ node, task }] }
  | .acquire i => do
    let run ← s.runs[i]?
    if run.phase = .acquiring then return s.acquire options i run else none
  | .acquireFails i => do
    let run ← s.runs[i]?
    if run.phase = .acquiring ∨ run.phase = .acquired then return s.setRun i { run with phase := .ended } else none
  | .start i => do
    let run ← s.runs[i]?
    if run.phase = .acquired then return s.setRun i { run with phase := .running } else none
  | .renewalDue i => do
    let run ← s.runs[i]?
    if run.phase = .running then return s.setRun i { run with renewals := run.renewals + 1 } else none
  | .renew i => do
    let run ← s.runs[i]?
    if 0 < run.renewals then return s.renew options i run else none
  | .renewFails i => do
    let run ← s.runs[i]?
    if 0 < run.renewals then
      return s.setRun i { run with renewals := run.renewals - 1, lockPostRunError := run.lockPostRunError <|> some .renewalFailed }
    else none
  | .finish i => do
    let run ← s.runs[i]?
    if run.phase = .running then return s.setRun i { run with phase := .releasing } else none
  | .release i => do
    let run ← s.runs[i]?
    if run.phase = .releasing then return s.release options i run else none
  | .releaseFails i => do
    let run ← s.runs[i]?
    if run.phase = .releasing then return s.setRun i { run with phase := .ended } else none

end Steps

/-- What a step must not do: release or renew what another run has acquired, or start a run while another one holds its key. -/
def Exclusive (options : Options ν τ) (s : State ν τ) : Label ν τ → Prop
  | .renew i | .release i => ∀ run, s.runs[i]? = some run → ∀ lock, s.locks.owned s.clock (options.keyOf run) (options.ownerOf run) = some lock →
      lock.run = i
  | .start i => ∀ run, s.runs[i]? = some run → ∀ (j : Nat) other, j ≠ i → s.runs[j]? = some other → options.keyOf other = options.keyOf run →
      s.holds other = false
  | _ => True

/-- A run that no longer holds its acquisition does not start, renew or release when the key has been acquired again; a renewal or
a release may come when it was another owner who did. -/
def OnTime (options : Options ν τ) (s : State ν τ) : Label ν τ → Prop
  | .renew i | .release i => ∀ run, s.runs[i]? = some run → s.holds run = false → ∀ lock, s.locks.get s.clock (options.keyOf run) = some lock →
      lock.owner ≠ options.ownerOf run
  | .start i => ∀ run, s.runs[i]? = some run → s.holds run = false → s.locks.get s.clock (options.keyOf run) = none
  | _ => True

/-! ## What holds in runs on time -/

def Held (options : Options ν τ) (s : State ν τ) : Prop :=
  ∀ (i : Nat) run time, s.runs[i]? = some run → run.heldUntil = some time → s.clock < time →
    s.locks.get s.clock (options.keyOf run) = some ⟨options.ownerOf run, time, i⟩

section Invariant
variable {options : Options ν τ} {s s' : State ν τ} {i : Nat} {run : TaskRun ν τ}

theorem get_update_self (locks : Locks) (clock : Int) (key : String) (lock : Option Lock) :
    Locks.get (Function.update locks key lock) clock key = lock.filter fun lock => clock < lock.expiresAt := by
  rw [Locks.get, Function.update_self]

theorem get_update_ne (locks : Locks) (clock : Int) {key key' : String} (h : key' ≠ key) (lock : Option Lock) :
    Locks.get (Function.update locks key lock) clock key' = locks.get clock key' := by
  rw [Locks.get, Function.update_of_ne h, Locks.get]

theorem holds_iff : s.holds run = true ↔ ∃ time, run.heldUntil = some time ∧ s.clock < time := by
  unfold State.holds
  split
  · next time hheld => simp [hheld]
  · next hheld => simp [hheld]

theorem run_of_owned (h : Held options s) (hi : s.runs[i]? = some run)
    (hlate : s.holds run = false → ∀ lock, s.locks.get s.clock (options.keyOf run) = some lock → lock.owner ≠ options.ownerOf run) {lock : Lock}
    (howned : s.locks.owned s.clock (options.keyOf run) (options.ownerOf run) = some lock) :
    lock.run = i ∧ s.locks.get s.clock (options.keyOf run) = some lock ∧ lock.owner = options.ownerOf run := by
  obtain ⟨hget, howner⟩ := Option.filter_eq_some_iff.1 howned
  have howner := of_decide_eq_true howner
  cases hholds : s.holds run with
  | false => exact absurd howner (hlate hholds lock hget)
  | true =>
    obtain ⟨time, hheld, hlt⟩ := holds_iff.1 hholds
    have hmine := h i run time hi hheld hlt
    obtain rfl : lock = ⟨options.ownerOf run, time, i⟩ := Option.some.inj (hget.symm.trans hmine)
    exact ⟨rfl, hget, rfl⟩

theorem Held.eq_of_holds (h : Held options s) {j : Nat} {other : TaskRun ν τ} (hi : s.runs[i]? = some run) (hj : s.runs[j]? = some other)
    (hkey : options.keyOf other = options.keyOf run) (hrun : s.holds run = true) (hother : s.holds other = true) : j = i := by
  obtain ⟨time, hheld, hlt⟩ := holds_iff.1 hrun
  obtain ⟨time', hheld', hlt'⟩ := holds_iff.1 hother
  have hget := h i run time hi hheld hlt
  rw [← hkey, h j other time' hj hheld' hlt'] at hget
  exact congrArg Lock.run (Option.some.inj hget)

theorem Held.setRun (h : Held options s) (hi : s.runs[i]? = some run) {run' : TaskRun ν τ} (hnode : run'.node = run.node)
    (htask : run'.task = run.task) (hheld : ∀ time, run'.heldUntil = some time → run.heldUntil = some time) : Held options (s.setRun i run') := by
  intro j other time hj htime hlt
  rcases (getElem?_set_iff hi).1 hj with ⟨rfl, rfl⟩ | ⟨-, hj⟩
  · rw [Options.keyOf, Options.ownerOf, hnode, htask]
    exact h j run time hi (hheld time htime) hlt
  · exact h j other time hj htime hlt

theorem Held.update (h : Held options s) (hi : s.runs[i]? = some run) {run' : TaskRun ν τ} (hnode : run'.node = run.node)
    (htask : run'.task = run.task) {lock : Option Lock}
    (hothers : ∀ (j : Nat) other, j ≠ i → s.runs[j]? = some other → options.keyOf other = options.keyOf run → s.holds other = false)
    (hself : ∀ time, run'.heldUntil = some time → lock = some ⟨options.ownerOf run, time, i⟩) :
    Held options { s.setRun i run' with locks := Function.update s.locks (options.keyOf run) lock } := by
  intro j other time hj htime hlt
  rcases (getElem?_set_iff hi).1 hj with ⟨rfl, rfl⟩ | ⟨hne, hj⟩
  · have hkey : options.keyOf other = options.keyOf run := by rw [Options.keyOf, hnode, htask]; rfl
    have howner : options.ownerOf other = options.ownerOf run := by rw [Options.ownerOf, hnode]; rfl
    rw [hkey, howner, get_update_self, hself time htime, Option.filter_some, if_pos (decide_eq_true hlt)]
  · by_cases hkey : options.keyOf other = options.keyOf run
    · have hholds : s.holds other = true := holds_iff.2 ⟨time, htime, hlt⟩
      rw [hothers j other hne hj hkey] at hholds
      cases hholds
    · rw [get_update_ne _ _ hkey]
      exact h j other time hj htime hlt

theorem Held.acquire (h : Held options s) (hi : s.runs[i]? = some run) : Held options (s.acquire options i run) := by
  unfold State.acquire Locks.setNx
  cases hget : s.locks.get s.clock (options.keyOf run) with
  | some lock => exact h.setRun hi (by rfl) (by rfl) fun _ hheld => hheld
  | none =>
    refine h.update hi (by rfl) (by rfl) (fun j other _ hj hkey => ?_) fun time hheld => ?_
    · by_contra hholds
      obtain ⟨time, hheld, hlt⟩ := holds_iff.1 (Bool.not_eq_false _ ▸ hholds)
      have hlock := h j other time hj hheld hlt
      rw [hkey, hget] at hlock
      cases hlock
    · obtain rfl := Option.some.inj hheld
      rfl

theorem others_of_owned (h : Held options s) {lock : Lock} (hget : s.locks.get s.clock (options.keyOf run) = some lock) (hrun : lock.run = i)
    (j : Nat) (other : TaskRun ν τ) (hne : j ≠ i) (hj : s.runs[j]? = some other) (hkey : options.keyOf other = options.keyOf run) :
    s.holds other = false := by
  by_contra hholds
  obtain ⟨time, hheld, hlt⟩ := holds_iff.1 (Bool.not_eq_false _ ▸ hholds)
  have hlock := h j other time hj hheld hlt
  rw [hkey, hget] at hlock
  exact hne ((congrArg Lock.run (Option.some.inj hlock)).symm.trans hrun)

theorem Held.renew (h : Held options s) (hi : s.runs[i]? = some run)
    (hlate : s.holds run = false → ∀ lock, s.locks.get s.clock (options.keyOf run) = some lock → lock.owner ≠ options.ownerOf run) :
    Held options (s.renew options i run) := by
  unfold State.renew Locks.renew
  cases howned : s.locks.owned s.clock (options.keyOf run) (options.ownerOf run) with
  | none => exact h.setRun hi (by rfl) (by rfl) fun _ hheld => hheld
  | some lock =>
    obtain ⟨hrun, hget, howner⟩ := run_of_owned h hi hlate howned
    refine h.update hi (by rfl) (by rfl) (others_of_owned h hget hrun) fun time hheld => ?_
    rw [Option.map_some, hrun, if_pos rfl] at hheld
    obtain rfl := Option.some.inj hheld
    rw [howner, hrun]

theorem Held.release (h : Held options s) (hi : s.runs[i]? = some run)
    (hlate : s.holds run = false → ∀ lock, s.locks.get s.clock (options.keyOf run) = some lock → lock.owner ≠ options.ownerOf run) :
    Held options (s.release options i run) := by
  unfold State.release Locks.release
  cases howned : s.locks.owned s.clock (options.keyOf run) (options.ownerOf run) with
  | none => exact h.setRun hi (by rfl) (by rfl) fun _ hheld => by cases hheld
  | some lock =>
    obtain ⟨hrun, hget, -⟩ := run_of_owned h hi hlate howned
    exact h.update hi (by rfl) (by rfl) (others_of_owned h hget hrun) fun _ hheld => by cases hheld

variable [DecidableEq ν] [DecidableEq τ]

theorem step_held {l : Label ν τ} (hontime : OnTime options s l) (h : Held options s) (hstep : step options s l = some s') : Held options s' := by
  cases l with
  | pass time =>
    simp only [step] at hstep
    split at hstep
    · next hle =>
      cases hstep
      intro i run expires hi hheld hlt
      have hlock := h i run expires hi hheld (Int.lt_of_le_of_lt hle hlt)
      obtain ⟨hget, -⟩ := Option.filter_eq_some_iff.1 hlock
      exact Option.filter_eq_some_iff.2 ⟨hget, decide_eq_true hlt⟩
    · cases hstep
  | tick node task =>
    simp only [step] at hstep
    split at hstep
    · cases hstep
    · cases hstep
      intro i run time hi hheld hlt
      rcases getElem?_concat_iff.1 hi with ⟨-, rfl⟩ | hi
      · cases hheld
      · exact h i run time hi hheld hlt
  | acquire i =>
    obtain ⟨run, hi, -, rfl⟩ := bind_guarded_eq_some hstep
    exact h.acquire hi
  | renew i =>
    obtain ⟨run, hi, -, rfl⟩ := bind_guarded_eq_some hstep
    exact h.renew hi (hontime run hi)
  | release i =>
    obtain ⟨run, hi, -, rfl⟩ := bind_guarded_eq_some hstep
    exact h.release hi (hontime run hi)
  | acquireFails i | start i | renewalDue i | renewFails i | finish i | releaseFails i =>
    obtain ⟨run, hi, -, rfl⟩ := bind_guarded_eq_some hstep
    exact h.setRun hi (by rfl) (by rfl) fun _ hheld => hheld

omit [DecidableEq ν] [DecidableEq τ] in
theorem step_exclusive {l : Label ν τ} (hontime : OnTime options s l) (h : Held options s) : Exclusive options s l := by
  cases l with
  | renew i | release i => exact fun run hi lock howned => (run_of_owned h hi (hontime run hi) howned).1
  | start i =>
    intro run hi j other hne hj hkey
    by_contra hother
    have hother : s.holds other = true := Bool.not_eq_false _ ▸ hother
    obtain ⟨time, hheld, hlt⟩ := holds_iff.1 hother
    have hlock := h j other time hj hheld hlt
    cases hholds : s.holds run with
    | true => exact hne (h.eq_of_holds hi hj hkey hholds hother)
    | false =>
      rw [hkey, hontime run hi hholds] at hlock
      cases hlock
  | _ => trivial

end Invariant

/-! ## Exclusion -/

section Exclusion
variable [DecidableEq ν] [DecidableEq τ]

/-- Of runs on time, each releases and renews what it has acquired, and none starts while another one holds its key. -/
theorem exclusive_of_onTime {options : Options ν τ} {ls : List (Label ν τ)} {s : State ν τ} (h : Run (step options) (OnTime options) {} ls s) :
    Run (step options) (Exclusive options) {} ls s :=
  h.mono_of_inv (Held options) (fun _ _ _ hontime hheld hstep => step_held hontime hheld hstep)
    (fun _ _ _ hontime hheld _ => step_exclusive hontime hheld) (by intro i run time hi; cases hi)

end Exclusion

def isInTime (s : State ν τ) : Label ν τ → Bool
  | .start i | .renew i | .release i => s.runs[i]?.all s.holds
  | _ => true

theorem onTime_of_isInTime {options : Options ν τ} {s : State ν τ} {l : Label ν τ} (h : isInTime s l = true) : OnTime options s l := by
  have hholds : ∀ (i : Nat) run, s.runs[i]?.all s.holds = true → s.runs[i]? = some run → s.holds run = false → False := by
    intro i run hall hi hnot
    rw [hi, Option.all_some, hnot] at hall
    cases hall
  cases l with
  | start i => exact fun run hi hnot => (hholds i run h hi hnot).elim
  | renew i | release i => exact fun run hi hnot => (hholds i run h hi hnot).elim
  | _ => trivial

/-- Two nodes with two tasks that share a key. -/
def reports : Options String String where
  ownerId node := node
  lockKey _ _ := "fluo:cron:lock:reports"
  lockTtlMs _ _ := 30000

/-- One node after the other. -/
def oneByOne : List (Label String String) :=
  [.tick "a" "daily", .acquire 0, .start 0, .pass 15000, .renewalDue 0, .renew 0, .pass 40000, .finish 0, .release 0,
    .tick "b" "weekly", .acquire 1, .start 1, .finish 1, .release 1]

theorem exclusive_of_onTime_oneByOne : Run (step reports) (Exclusive reports) {} oneByOne (after (step reports) {} oneByOne) :=
  exclusive_of_onTime (Run.of_passes (fun _ _ => onTime_of_isInTime) (by decide : passes (step reports) isInTime {} oneByOne = true))

/-- A run of a node whose lock has expired, and which releases what the next run of the node has acquired. -/
def lateRelease : List (Label String String) :=
  [.tick "a" "daily", .acquire 0, .start 0, .pass 30000, .tick "a" "weekly", .acquire 1, .start 1, .finish 0, .release 0,
    .tick "b" "daily", .acquire 2, .start 2]

def startsAlone (options : Options ν τ) (s : State ν τ) : Label ν τ → Bool
  | .start i => s.runs[i]?.all fun run => (List.range s.runs.length).all fun j => s.runs[j]?.all fun other =>
      j = i ∨ options.keyOf other ≠ options.keyOf run ∨ s.holds other = false
  | _ => true

theorem startsAlone_of_exclusive {options : Options ν τ} {s : State ν τ} {l : Label ν τ} (h : Exclusive options s l) :
    startsAlone options s l = true := by
  cases l with
  | start i =>
    refine (Option.all_eq_true _ _).2 fun run hi => List.all_eq_true.2 fun j _ => (Option.all_eq_true _ _).2 fun other hj => decide_eq_true ?_
    by_cases hne : j = i
    · exact .inl hne
    · by_cases hkey : options.keyOf other = options.keyOf run
      · exact .inr (.inr (h run hi j other hne hj hkey))
      · exact .inr (.inl hkey)
  | _ => rfl

theorem not_exclusive_lateRelease : ¬ ∀ (options : Options String String) (ls : List (Label String String)) (s : State String String),
    Run (step options) (fun _ _ => True) {} ls s → Run (step options) (Exclusive options) {} ls s := by
  intro h
  have hrun : Run (step reports) (fun _ _ => True) {} lateRelease (after (step reports) {} lateRelease) :=
    Run.of_passes (fun _ _ _ => trivial) (by decide : passes (step reports) (fun _ _ => true) {} lateRelease = true)
  exact absurd ((h reports lateRelease _ hrun).passes fun _ _ => startsAlone_of_exclusive) (by decide)

end Fluo.Cron.DistributedLockManager
