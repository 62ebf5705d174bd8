import Fluo.Lib.Fallible
import Fluo.Lib.Slots
import Fluo.Runtime.PlatformShell
/-!
# The scheduling registry

`CronLifecycleService` once it has started: the calls of its registry, the ticks of
its timers and the runs of its tasks, in any order. A run keeps the task it was
started for, and knows the registry by the task's name only.
-/

namespace Fluo.Cron.SchedulingRegistry
open Fluo.Lib

inductive SchedulingTaskKind
  | cron (expression : String)
  | interval (ms : Nat)
  | timeout (ms : Nat)
deriving DecidableEq

def SchedulingTaskKind.isTimeout : SchedulingTaskKind → Bool
  | .timeout _ => true
  | _ => false

def SchedulingTaskKind.name : SchedulingTaskKind → String
  | .cron _ => "cron"
  | .interval _ => "interval"
  | .timeout _ => "timeout"

structure CronTaskDescriptor where
  taskName : String
  kind : SchedulingTaskKind
  distributed : Bool := true
  lockTtlMs : Nat := 30000
deriving DecidableEq

structure RuntimeTaskState where
  descriptor : CronTaskDescriptor
  enabled : Bool := true
  running : Bool := false
  scheduledHandle : Option Nat := none
deriving DecidableEq

inductive TimerPhase
  | waiting
  /-- The timer of a timeout that has gone off. -/
  | fired
  | stopped
deriving DecidableEq

structure Timer where
  /-- The task that the timer was created for; its callback knows the name only. -/
  task : Nat
  taskName : String
  isTimeout : Bool
  phase : TimerPhase := .waiting
deriving DecidableEq

inductive RunPhase
  | running
  /-- `executeTask` has returned. -/
  | executed
  /-- `handleTaskTick` has returned. -/
  | settled
  /-- `completeTimeoutTask` has returned. -/
  | completed
deriving DecidableEq

structure TaskRun where
  task : Nat
  taskName : String
  isTimeout : Bool
  phase : RunPhase := .running

structure State where
  registry : String → Option Nat := fun _ => none
  /-- The tasks that have ever been registered. -/
  tasks : List RuntimeTaskState := []
  timers : List Timer := []
  runs : List TaskRun := []

/-! ## Timers -/

def Timer.stop (timer : Timer) : Timer := { timer with phase := if timer.phase = .waiting then .stopped else timer.phase }

def State.setTask (s : State) (i : Nat) (task : RuntimeTaskState) : State := { s with tasks := s.tasks.set i task }

def State.stopScheduledHandle (s : State) (handle : Nat) : State := { s with timers := s.timers.modify handle Timer.stop }

/-- The handle that is created next. `failure` is what the cron scheduler throws, if it throws. -/
def createScheduledHandle (s : State) (i : Nat) (descriptor : CronTaskDescriptor) (failure : Option String) : Except String (Nat × State) :=
  let created := (s.timers.length, { s with timers := s.timers ++ [⟨i, descriptor.taskName, descriptor.kind.isTimeout, .waiting⟩] })
  match descriptor.kind with
  | .cron expression =>
    if expression = "" then .error s!"Cron task \"{descriptor.taskName}\" is missing a cron expression."
    else
      match failure with
      | some error => .error error
      | none => .ok created
  | .interval ms | .timeout ms =>
    if ms = 0 then .error s!"{descriptor.kind.name} task \"{descriptor.taskName}\" is missing interval duration." else .ok created

def State.unscheduleTask (s : State) (i : Nat) (task : RuntimeTaskState) : State :=
  match task.scheduledHandle with
  | none => s.setTask i task
  | some handle => (s.setTask i { task with scheduledHandle := none }).stopScheduledHandle handle

/-! ## Calls -/

section Calls
variable (isCronExpression : String → Bool)

def assertValidTaskName (name : String) : Except String Unit :=
  if name.toList.all Runtime.isTrimmed then .error "Scheduling task name must be a non-empty string." else .ok ()

def assertValidMs (ms : Nat) : Except String Unit :=
  if ms = 0 then .error "scheduling registry: ms must be a positive integer." else .ok ()

def assertValidCronExpression (expression : String) : Except String Unit :=
  if isCronExpression expression then .ok () else .error s!"@Cron(): invalid cron expression \"{expression}\"."

def assertValidLockTtlMs (lockTtlMs : Nat) : Except String Unit :=
  if lockTtlMs < 1000 then .error "Cron distributed lockTtlMs must be a positive integer greater than or equal to 1000ms." else .ok ()

def assertTaskNameAvailable (s : State) (taskName : String) : Except String Unit :=
  if (s.registry taskName).isSome then
    .error s!"Duplicate scheduling task name detected: \"{taskName}\". Task names must be unique globally."
  else .ok ()

def registerTask (s : State) (descriptor : CronTaskDescriptor) (failure : Option String) : Except String State := do
  assertTaskNameAvailable s descriptor.taskName
  if descriptor.distributed then assertValidLockTtlMs descriptor.lockTtlMs
  let i := s.tasks.length
  let (handle, s) ← createScheduledHandle s i descriptor failure
  return { s with
    tasks := s.tasks ++ [{ descriptor, scheduledHandle := some handle }]
    registry := Function.update s.registry descriptor.taskName (some i) }

/-- `addCron`, `addInterval` and `addTimeout`, by the kind of the task. -/
def add (s : State) (descriptor : CronTaskDescriptor) (failure : Option String) : Except String State := do
  assertValidTaskName descriptor.taskName
  match descriptor.kind with
  | .cron expression => assertValidCronExpression isCronExpression expression
  | .interval ms | .timeout ms => assertValidMs ms
  registerTask s descriptor failure

def State.find (s : State) (name : String) : Option (Nat × RuntimeTaskState) := do
  let i ← s.registry name
  let task ← s.tasks[i]?
  return (i, task)

def remove (s : State) (name : String) : Bool × State :=
  match s.find name with
  | none => (false, s)
  | some (i, task) => (true, { s.unscheduleTask i task with registry := Function.update s.registry name none })

/-- `scheduleTask`, of a task that is about to be enabled. -/
def scheduleTask (s : State) (i : Nat) (task : RuntimeTaskState) (failure : Option String) : Except String State :=
  match task.scheduledHandle with
  | some _ => .ok (s.setTask i task)
  | none => do
    let (handle, s) ← createScheduledHandle s i task.descriptor failure
    return s.setTask i { task with scheduledHandle := some handle }

def enable (s : State) (name : String) (failure : Option String) : Except String (Bool × State) :=
  match s.find name with
  | none => .ok (false, s)
  | some (i, task) =>
    if task.enabled then .ok (true, s)
    else do
      let s ← scheduleTask s i { task with enabled := true } failure
      return (true, s)

def disable (s : State) (name : String) : Bool × State :=
  match s.find name with
  | none => (false, s)
  | some (i, task) =>
    if !task.enabled && task.scheduledHandle.isNone then (true, s)
    else (true, s.unscheduleTask i { task with enabled := false })

def updateCronExpression (s : State) (name expression : String) (failure : Option String) : Except String State := do
  assertValidCronExpression isCronExpression expression
  match s.find name with
  | none => .error s!"Scheduling task \"{name}\" does not exist."
  | some (i, task) =>
    match task.descriptor.kind with
    | .cron _ =>
      let descriptor := { task.descriptor with kind := .cron expression }
      if !task.enabled then return s.setTask i { task with descriptor }
      else
        let (handle, s) ← createScheduledHandle s i descriptor failure
        let s := s.setTask i { task with descriptor, scheduledHandle := some handle }
        match task.scheduledHandle with
        | some previousHandle => return s.stopScheduledHandle previousHandle
        | none => return s
    | kind => .error s!"updateCronExpression() supports only cron tasks. Received {kind.name} task \"{name}\"."

end Calls

/-! ## Ticks and runs -/

/-- The run that a tick starts, if the task is enabled and not running. -/
def handleTaskTick (s : State) (timer : Timer) : Option State := do
  let (i, task) ← s.find timer.taskName
  if task.enabled && !task.running then
    return { s.setTask i { task with running := true } with runs := s.runs ++ [⟨i, timer.taskName, timer.isTimeout, .running⟩] }
  else none

/-- The callback of a timer. That of a timeout goes on to `completeTimeoutTask`, whatever the tick does. -/
def fire (s : State) (handle : Nat) (timer : Timer) : State :=
  let s := if timer.isTimeout then { s with timers := s.timers.set handle { timer with phase := .fired } } else s
  match handleTaskTick s timer with
  | some s => s
  | none => if timer.isTimeout then { s with runs := s.runs ++ [⟨timer.task, timer.taskName, true, .settled⟩] } else s

def State.setRun (s : State) (r : Nat) (run : TaskRun) : State := { s with runs := s.runs.set r run }

/-- What marks a timeout as over. -/
def RuntimeTaskState.complete (task : RuntimeTaskState) : RuntimeTaskState :=
  if task.descriptor.kind.isTimeout then { task with enabled := false, scheduledHandle := none } else task

/-- The end of `executeTask`. -/
def executeTask (s : State) (run : TaskRun) : State :=
  match s.tasks[run.task]? with
  | some task => s.setTask run.task task.complete
  | none => s

/-- The `finally` of `handleTaskTick`. -/
def settle (s : State) (run : TaskRun) : State :=
  match s.tasks[run.task]? with
  | some task => s.setTask run.task { task with running := false }
  | none => s

def completeTimeoutTask (s : State) (taskName : String) : State :=
  match s.find taskName with
  | some (i, task) => s.setTask i task.complete
  | none => s

inductive Label
  | add (descriptor : CronTaskDescriptor) (failure : Option String)
  | remove (name : String)
  | enable (name : String) (failure : Option String)
  | disable (name : String)
  | updateCronExpression (name expression : String) (failure : Option String)
  | fire (handle : Nat)
  | execute (r : Nat)
  /-- The lock of a distributed task is not acquired. -/
  | skip (r : Nat)
  | settle (r : Nat)
  | complete (r : Nat)

/-- A call that throws leaves the state as it was. -/
def State.orElse (s : State) : Except String State → State
  | .ok s' => s'
  | .error _ => s

def step (isCronExpression : String → Bool) (s : State) : Label → Option State
  | .add descriptor failure => some (s.orElse (add isCronExpression s descriptor failure))
  | .remove name => some (remove s name).2
  | .enable name failure => some (s.orElse ((enable s name failure).map (·.2)))
  | .disable name => some (disable s name).2
  | .updateCronExpression name expression failure => some (s.orElse (updateCronExpression isCronExpression s name expression failure))
  | .fire handle => do
    let timer ← s.timers[handle]?
    if timer.phase = .waiting then return fire s handle timer else none
  | .execute r => do
    let run ← s.runs[r]?
    if run.phase = .running then return (executeTask s run).setRun r { run with phase := .executed } else none
  | .skip r => do
    let run ← s.runs[r]?
    if run.phase = .running then return s.setRun r { run with phase := .executed } else none
  | .settle r => do
    let run ← s.runs[r]?
    if run.phase = .executed then return (settle s run).setRun r { run with phase := .settled } else none
  | .complete r => do
    let run ← s.runs[r]?
    if run.phase = .settled ∧ run.isTimeout then return (completeTimeoutTask s run.taskName).setRun r { run with phase := .completed } else none

/-! ## One timer for each task -/

/-- The timer has been created for the task, and will go off. -/
def State.IsWaiting (s : State) (i handle : Nat) : Prop := ∃ timer, s.timers[handle]? = some timer ∧ timer.task = i ∧ timer.phase = .waiting

/-- The one shot of a timeout has gone off. -/
def State.HasFired (s : State) (task : RuntimeTaskState) : Prop :=
  task.descriptor.kind.isTimeout = true ∧ ∃ handle timer, task.scheduledHandle = some handle ∧ s.timers[handle]? = some timer ∧ timer.phase = .fired

/-- A registered task that is enabled, and whose one shot has not gone off, has one timer; any other task has none. -/
def Consistent (s : State) : Prop :=
  ∀ (i : Nat) task, s.tasks[i]? = some task →
    (s.registry task.descriptor.taskName = some i ∧ task.enabled = true ∧ ¬ s.HasFired task → ∃! handle, s.IsWaiting i handle) ∧
    (¬ (s.registry task.descriptor.taskName = some i ∧ task.enabled = true ∧ ¬ s.HasFired task) → ∀ handle, ¬ s.IsWaiting i handle)

/-- The run that goes on. -/
def Label.run? : Label → Option Nat
  | .execute r | .skip r | .settle r | .complete r => some r
  | _ => none

/-- A run that goes on leaves every registered task but its own as it is. -/
def KeepsOthers (isCronExpression : String → Bool) (s : State) (l : Label) : Prop :=
  ∀ r run s', l.run? = some r → s.runs[r]? = some run → step isCronExpression s l = some s' →
    s'.registry = s.registry ∧ ∀ name i, s.registry name = some i → i ≠ run.task → s'.tasks[i]? = s.tasks[i]?

/-- What a run of a timeout marks as over has no timer that waits, and is its own task or a disabled one. -/
def Unrenewed (s : State) : Label → Prop
  | .execute r => ∀ run task, s.runs[r]? = some run → s.tasks[run.task]? = some task → task.descriptor.kind.isTimeout = true →
      ∀ handle, task.scheduledHandle = some handle → ¬ s.IsWaiting run.task handle
  | .complete r => ∀ run i task, s.runs[r]? = some run → s.find run.taskName = some (i, task) → task.descriptor.kind.isTimeout = true →
      (∀ handle, task.scheduledHandle = some handle → ¬ s.IsWaiting i handle) ∧ (i ≠ run.task → task.enabled = false)
  | _ => True

/-! ### What a registration goes through -/

/-- A task that has been removed, or never was; one that is disabled or completed; and one that is scheduled. -/
inductive Owns (s : State) (i : Nat) : Prop
  | gone : (∀ name, s.registry name ≠ some i) → (∀ handle, ¬ s.IsWaiting i handle) → Owns s i
  | idle {task} : s.tasks[i]? = some task → (∀ name, s.registry name = some i ↔ name = task.descriptor.taskName) → task.enabled = false →
      task.scheduledHandle = none → (∀ handle, ¬ s.IsWaiting i handle) → Owns s i
  | scheduled {task handle timer} : s.tasks[i]? = some task → (∀ name, s.registry name = some i ↔ name = task.descriptor.taskName) →
      task.enabled = true → task.scheduledHandle = some handle → s.timers[handle]? = some timer → timer.task = i →
      timer.isTimeout = task.descriptor.kind.isTimeout →
      timer.phase = .waiting ∨ task.descriptor.kind.isTimeout = true ∧ timer.phase = .fired → (∀ handle', s.IsWaiting i handle' → handle' = handle) →
      Owns s i

def Inv (s : State) : Prop := ∀ i, Owns s i

section Invariant
variable {s s' : State} {i : Nat} {task : RuntimeTaskState}

theorem Inv.init : Inv {} := by
  intro i
  refine .gone (fun _ h => by cases h) fun handle h => ?_
  obtain ⟨timer, htimer, -⟩ := h
  cases htimer

theorem Inv.consistent (h : Inv s) : Consistent s := by
  intro i task htask
  cases h i with
  | gone hgone hnone => exact ⟨fun ⟨hregistered, _⟩ => absurd hregistered (hgone _), fun _ => hnone⟩
  | idle htask' hregistry hdisabled hhandle hnone =>
    rw [htask] at htask'
    cases htask'
    refine ⟨fun ⟨_, henabled, _⟩ => ?_, fun _ => hnone⟩
    rw [hdisabled] at henabled
    cases henabled
  | @scheduled task' handle timer htask' hregistry henabled hhandle htimer hi hkind hphase honly =>
    rw [htask] at htask'
    cases htask'
    rcases hphase with hwaiting | ⟨htimeout, hfired⟩
    · refine ⟨fun _ => ⟨handle, ⟨timer, htimer, hi, hwaiting⟩, honly⟩, fun hnot => absurd ⟨(hregistry _).2 rfl, henabled, ?_⟩ hnot⟩
      rintro ⟨-, handle', timer', hhandle', htimer', hfired⟩
      rw [hhandle] at hhandle'
      cases hhandle'
      rw [htimer] at htimer'
      cases htimer'
      rw [hwaiting] at hfired
      cases hfired
    · have hdone : s.HasFired task := ⟨htimeout, handle, timer, hhandle, htimer, hfired⟩
      refine ⟨fun ⟨_, _, hnot⟩ => absurd hdone hnot, fun _ handle' hwaiting => ?_⟩
      have heq := honly handle' hwaiting
      obtain ⟨timer', htimer', -, hphase⟩ := hwaiting
      rw [heq, htimer] at htimer'
      cases htimer'
      rw [hfired] at hphase
      cases hphase

theorem Owns.frame (h : Owns s i) (htask : s'.tasks[i]? = s.tasks[i]?) (hregistry : ∀ name, s'.registry name = some i ↔ s.registry name = some i)
    (htimers : ∀ (handle : Nat) timer, timer.task = i → (s'.timers[handle]? = some timer ↔ s.timers[handle]? = some timer)) : Owns s' i := by
  have hwaiting : ∀ handle, s'.IsWaiting i handle → s.IsWaiting i handle := fun handle ⟨timer, htimer, hi, hphase⟩ =>
    ⟨timer, (htimers handle timer hi).1 htimer, hi, hphase⟩
  cases h with
  | gone hgone hnone => exact .gone (fun name hname => hgone name ((hregistry name).1 hname)) fun handle hw => hnone handle (hwaiting handle hw)
  | idle htask' hregistry' hdisabled hhandle hnone =>
    exact .idle (htask.trans htask') (fun name => (hregistry name).trans (hregistry' name)) hdisabled hhandle fun handle hw =>
      hnone handle (hwaiting handle hw)
  | scheduled htask' hregistry' henabled hhandle htimer hi hkind hphase honly =>
    exact .scheduled (htask.trans htask') (fun name => (hregistry name).trans (hregistry' name)) henabled hhandle ((htimers _ _ hi).2 htimer) hi
      hkind hphase fun handle hw => honly handle (hwaiting handle hw)

variable {task' : RuntimeTaskState} {descriptor : CronTaskDescriptor} {failure : Option String} {handle : Nat} {timer : Timer} {name : String}
    {isCronExpression : String → Bool}

theorem Inv.setTask (h : Inv s) (hi : s.tasks[i]? = some task)
    (hname : task'.descriptor.taskName = task.descriptor.taskName) (hkind : task'.descriptor.kind.isTimeout = task.descriptor.kind.isTimeout)
    (henabled : task'.enabled = task.enabled) (hhandle : task'.scheduledHandle = task.scheduledHandle) : Inv (s.setTask i task') := by
  have hself : (s.setTask i task').tasks[i]? = some task' := (getElem?_set_iff hi).2 (.inl ⟨rfl, rfl⟩)
  intro j
  by_cases hj : j = i
  · subst hj
    cases h j with
    | gone hgone hnone => exact .gone hgone hnone
    | idle htask' hregistry hdisabled hnohandle hnone =>
      rw [hi] at htask'
      cases htask'
      exact .idle hself (by rw [hname]; exact hregistry) (henabled.trans hdisabled) (hhandle.trans hnohandle) hnone
    | scheduled htask' hregistry henabled' hhandle' htimer htimertask hkind' hphase honly =>
      rw [hi] at htask'
      cases htask'
      exact .scheduled hself (by rw [hname]; exact hregistry) (henabled.trans henabled') (hhandle.trans hhandle') htimer htimertask
        (hkind'.trans hkind.symm) (by rw [hkind]; exact hphase) honly
  · exact (h j).frame (List.getElem?_set_ne (Ne.symm hj)) (fun _ => Iff.rfl) fun _ _ _ => Iff.rfl

theorem Inv.complete (h : Inv s) (hi : s.tasks[i]? = some task)
    (hover : task.descriptor.kind.isTimeout = true → ∀ handle, task.scheduledHandle = some handle → ¬ s.IsWaiting i handle) :
    Inv (s.setTask i task.complete) := by
  unfold RuntimeTaskState.complete
  split
  · next htimeout =>
    intro j
    by_cases hj : j = i
    · subst hj
      have hself : (s.setTask j { task with enabled := false, scheduledHandle := none }).tasks[j]? =
          some { task with enabled := false, scheduledHandle := none } := (getElem?_set_iff hi).2 (.inl ⟨rfl, rfl⟩)
      cases h j with
      | gone hgone hnone => exact .gone hgone hnone
      | idle htask' hregistry hdisabled hnohandle hnone =>
        rw [hi] at htask'
        cases htask'
        exact .idle hself hregistry rfl rfl hnone
      | scheduled htask' hregistry henabled' hhandle' htimer htimertask hkind' hphase honly =>
        rw [hi] at htask'
        cases htask'
        refine .idle hself hregistry rfl rfl fun handle hw => ?_
        exact hover htimeout handle ((honly handle hw) ▸ hhandle') hw
    · exact (h j).frame (List.getElem?_set_ne (Ne.symm hj)) (fun _ => Iff.rfl) fun _ _ _ => Iff.rfl
  · exact h.setTask hi rfl rfl rfl rfl

/-! ### Timers that are created and stopped -/

theorem createScheduledHandle_eq_ok
    (h : createScheduledHandle s i descriptor failure = .ok (handle, s')) :
    handle = s.timers.length ∧ s' = { s with timers := s.timers ++ [⟨i, descriptor.taskName, descriptor.kind.isTimeout, .waiting⟩] } := by
  unfold createScheduledHandle at h
  split at h
  · next expression hkind =>
    split at h
    · cases h
    · split at h
      · cases h
      · cases h
        exact ⟨rfl, rfl⟩
  · split at h
    · cases h
    · cases h
      exact ⟨rfl, rfl⟩
  · split at h
    · cases h
    · cases h
      exact ⟨rfl, rfl⟩

theorem getElem?_stop (s : State) (handle handle' : Nat) :
    (s.stopScheduledHandle handle).timers[handle']? = (s.timers[handle']?).map fun timer => if handle = handle' then timer.stop else timer :=
  List.getElem?_modify _ _ _ _

theorem Timer.stop_ne_waiting (timer : Timer) : timer.stop.phase ≠ .waiting := by
  unfold Timer.stop
  split
  · intro h
    cases h
  · next hne => exact hne

theorem isWaiting_stop {handle' j : Nat} (h : (s.stopScheduledHandle handle).IsWaiting j handle') : s.IsWaiting j handle' ∧ handle' ≠ handle := by
  obtain ⟨timer, htimer, hj, hphase⟩ := h
  rw [getElem?_stop] at htimer
  obtain ⟨timer', htimer', rfl⟩ := Option.map_eq_some_iff.1 htimer
  split at hj
  · next heq =>
    rw [if_pos heq] at hphase
    exact absurd hphase (Timer.stop_ne_waiting timer')
  · next hne =>
    rw [if_neg hne] at hphase
    exact ⟨⟨timer', htimer', hj, hphase⟩, Ne.symm hne⟩

theorem timers_stop_others (htimer : s.timers[handle]? = some timer) (handle' : Nat) (timer' : Timer)
    (hne : timer'.task ≠ timer.task) : (s.stopScheduledHandle handle).timers[handle']? = some timer' ↔ s.timers[handle']? = some timer' := by
  rw [getElem?_stop]
  by_cases heq : handle = handle'
  · subst heq
    rw [htimer]
    refine ⟨fun h => ?_, fun h => ?_⟩
    · rw [Option.map_some, if_pos rfl] at h
      cases h
      exact absurd rfl hne
    · cases h
      exact absurd rfl hne
  · simp [heq]

theorem unscheduleTask_spec (h : Inv s) (hi : s.tasks[i]? = some task) (hregistered : s.registry task.descriptor.taskName = some i)
    (hhandle : task'.scheduledHandle = task.scheduledHandle) :
    (s.unscheduleTask i task').tasks = s.tasks.set i { task' with scheduledHandle := none } ∧
    (s.unscheduleTask i task').registry = s.registry ∧
    (∀ handle, ¬ (s.unscheduleTask i task').IsWaiting i handle) ∧
    (∀ (handle : Nat) timer, timer.task ≠ i → ((s.unscheduleTask i task').timers[handle]? = some timer ↔ s.timers[handle]? = some timer)) := by
  unfold State.unscheduleTask
  cases h i with
  | gone hgone => exact absurd hregistered (hgone _)
  | idle htask hregistry hdisabled hnohandle hnone =>
    rw [hi] at htask
    cases htask
    have hsame : { task' with scheduledHandle := none } = task' := by rw [← hnohandle, ← hhandle]
    rw [hsame, hhandle, hnohandle]
    exact ⟨rfl, rfl, hnone, fun _ _ _ => Iff.rfl⟩
  | @scheduled _ handle timer htask hregistry henabled hhandle' htimer htimertask hkind hphase honly =>
    rw [hi] at htask
    cases htask
    rw [hhandle, hhandle']
    refine ⟨rfl, rfl, fun handle' hw => ?_, fun handle' timer' hne => ?_⟩
    · obtain ⟨hw, hne⟩ := isWaiting_stop hw
      exact hne (honly handle' hw)
    · exact timers_stop_others htimer handle' timer' (by rw [htimertask]; exact hne)

/-! ### Steps -/

theorem find_eq_some : s.find name = some (i, task) ↔ s.registry name = some i ∧ s.tasks[i]? = some task := by
  simp only [State.find, bind, Option.bind_eq_some_iff]
  constructor
  · rintro ⟨i', hregistry, task', htask, heq⟩
    cases heq
    exact ⟨hregistry, htask⟩
  · rintro ⟨hregistry, htask⟩
    exact ⟨i, hregistry, task, htask, rfl⟩

theorem Inv.name_eq (h : Inv s) (hregistry : s.registry name = some i) (htask : s.tasks[i]? = some task) :
    name = task.descriptor.taskName := by
  cases h i with
  | gone hgone => exact absurd hregistry (hgone name)
  | idle htask' hiff | scheduled htask' hiff =>
    rw [htask] at htask'
    cases htask'
    exact (hiff name).1 hregistry

theorem Inv.unschedule (h : Inv s) (hi : s.tasks[i]? = some task) (hregistered : s.registry task.descriptor.taskName = some i)
    (hhandle : task'.scheduledHandle = task.scheduledHandle) {registry : String → Option Nat}
    (hothers : ∀ j name, j ≠ i → (registry name = some j ↔ s.registry name = some j))
    (hself : (∀ name, registry name ≠ some i) ∨
      (task'.enabled = false ∧ ∀ name, registry name = some i ↔ name = task'.descriptor.taskName)) :
    Inv { s.unscheduleTask i task' with registry } := by
  obtain ⟨htasks, -, hnone, htimers⟩ := unscheduleTask_spec h hi hregistered hhandle
  intro j
  by_cases hj : j = i
  · subst hj
    rcases hself with hgone | ⟨hdisabled, hregistry⟩
    · exact .gone hgone hnone
    · have htask : (s.unscheduleTask j task').tasks[j]? = some { task' with scheduledHandle := none } := by
        rw [htasks]
        exact (getElem?_set_iff hi).2 (.inl ⟨rfl, rfl⟩)
      exact .idle htask hregistry hdisabled rfl hnone
  · refine (h j).frame ?_ (fun name => hothers j name hj) fun handle timer htimer => htimers handle timer (by rw [htimer]; exact hj)
    change (s.unscheduleTask i task').tasks[j]? = _
    rw [htasks]
    exact List.getElem?_set_ne (Ne.symm hj)

theorem Inv.remove (h : Inv s) (name : String) : Inv (remove s name).2 := by
  unfold SchedulingRegistry.remove
  split
  · exact h
  · next i task hfind =>
    obtain ⟨hregistry, htask⟩ := find_eq_some.1 hfind
    have hname := h.name_eq hregistry htask
    refine h.unschedule htask (hname ▸ hregistry) rfl (fun j name' hj => ?_) (.inl fun name' hname' => ?_)
    · by_cases heq : name' = name
      · subst heq
        simpa [hregistry] using Ne.symm hj
      · rw [Function.update_of_ne heq]
    · by_cases heq : name' = name
      · subst heq
        simp at hname'
      · rw [Function.update_of_ne heq] at hname'
        exact heq ((h.name_eq hname' htask).trans hname.symm)

theorem Inv.disable (h : Inv s) (name : String) : Inv (disable s name).2 := by
  unfold SchedulingRegistry.disable
  split
  · exact h
  · next i task hfind =>
    obtain ⟨hregistry, htask⟩ := find_eq_some.1 hfind
    have hname := h.name_eq hregistry htask
    split
    · exact h
    · let disabled : RuntimeTaskState := { task with enabled := false }
      obtain ⟨-, hsame, -⟩ := unscheduleTask_spec h htask (hname ▸ hregistry) (show disabled.scheduledHandle = task.scheduledHandle from rfl)
      have heq : { s.unscheduleTask i disabled with registry := s.registry } = s.unscheduleTask i disabled := by rw [← hsame]
      change Inv (s.unscheduleTask i disabled)
      rw [← heq]
      refine h.unschedule htask (hname ▸ hregistry) (by rfl) (fun _ _ _ => Iff.rfl) (.inr ⟨by rfl, fun name' => ⟨fun hname' => ?_, fun hname' => ?_⟩⟩)
      · have hnamed := h.name_eq hname' htask
        exact hnamed
      · exact (hname'.trans hname.symm) ▸ hregistry

theorem Inv.schedule (h : Inv s) (hi : s.tasks[i]? = some task) (hregistered : s.registry task.descriptor.taskName = some i)
    (hname : task'.descriptor.taskName = task.descriptor.taskName) (henabled : task'.enabled = true)
    (hhandle : task'.scheduledHandle = some s.timers.length) {timers : List Timer}
    (hself : timers[s.timers.length]? = some ⟨i, task'.descriptor.taskName, task'.descriptor.kind.isTimeout, .waiting⟩)
    (honly : ∀ (handle : Nat) timer, timers[handle]? = some timer → timer.task = i → timer.phase = .waiting → handle = s.timers.length)
    (hothers : ∀ (handle : Nat) timer, timer.task ≠ i → (timers[handle]? = some timer ↔ s.timers[handle]? = some timer)) :
    Inv { s with tasks := s.tasks.set i task', timers } := by
  intro j
  by_cases hj : j = i
  · subst hj
    have hnames : ∀ name, s.registry name = some j ↔ name = task'.descriptor.taskName := fun name =>
      ⟨fun hregistry => (h.name_eq hregistry hi).trans hname.symm, fun heq => (heq.trans hname) ▸ hregistered⟩
    refine .scheduled ((getElem?_set_iff hi).2 (.inl ⟨rfl, rfl⟩)) hnames henabled hhandle hself rfl rfl (.inl rfl) ?_
    rintro handle ⟨timer, htimer, htask, hphase⟩
    exact honly handle timer htimer htask hphase
  · exact (h j).frame (List.getElem?_set_ne (Ne.symm hj)) (fun _ => Iff.rfl) fun handle timer htimer => hothers handle timer (by rw [htimer]; exact hj)

theorem Inv.orElse (h : Inv s) {result : Except String State} (hok : ∀ s', result = .ok s' → Inv s') : Inv (s.orElse result) := by
  cases result with
  | error error => exact h
  | ok s' => exact hok s' rfl

theorem timers_concat (hnone : ∀ handle, ¬ s.IsWaiting i handle) (new : Timer) (hi : new.task = i) :
    (s.timers ++ [new])[s.timers.length]? = some new ∧
    (∀ (handle : Nat) timer, (s.timers ++ [new])[handle]? = some timer → timer.task = i → timer.phase = .waiting → handle = s.timers.length) ∧
    (∀ (handle : Nat) timer, timer.task ≠ i → ((s.timers ++ [new])[handle]? = some timer ↔ s.timers[handle]? = some timer)) := by
  refine ⟨getElem?_concat_iff.2 (.inl ⟨rfl, rfl⟩), fun handle timer htimer htask hphase => ?_, fun handle timer hne => ?_⟩
  · rcases getElem?_concat_iff.1 htimer with ⟨hlast, -⟩ | htimer
    · exact hlast
    · exact absurd ⟨timer, htimer, htask, hphase⟩ (hnone handle)
  · refine ⟨fun htimer => ?_, fun htimer => getElem?_concat_iff.2 (.inr htimer)⟩
    rcases getElem?_concat_iff.1 htimer with ⟨-, rfl⟩ | htimer
    · exact absurd hi hne
    · exact htimer

theorem scheduleTask_eq_ok (h : scheduleTask s i task failure = .ok s') (hhandle : task.scheduledHandle = none) :
    s' = { s with
      tasks := s.tasks.set i { task with scheduledHandle := some s.timers.length }
      timers := s.timers ++ [⟨i, task.descriptor.taskName, task.descriptor.kind.isTimeout, .waiting⟩] } := by
  unfold scheduleTask at h
  rw [hhandle] at h
  cases hcreate : createScheduledHandle s i task.descriptor failure with
  | error error =>
    rw [hcreate] at h
    cases h
  | ok created =>
    obtain ⟨handle, s''⟩ := created
    obtain ⟨rfl, rfl⟩ := createScheduledHandle_eq_ok hcreate
    rw [hcreate] at h
    cases h
    rfl

theorem Inv.enable (h : Inv s) (name : String) (failure : Option String) : Inv (s.orElse ((enable s name failure).map (·.2))) := by
  refine h.orElse fun s' hs' => ?_
  unfold SchedulingRegistry.enable at hs'
  split at hs'
  · cases hs'
    exact h
  · next i task hfind =>
    obtain ⟨hregistry, htask⟩ := find_eq_some.1 hfind
    have hname := h.name_eq hregistry htask
    split at hs'
    · cases hs'
      exact h
    · next hdisabled =>
      cases h i with
      | gone hgone => exact absurd hregistry (hgone name)
      | scheduled htask' _ henabled =>
        rw [htask] at htask'
        cases htask'
        exact absurd henabled hdisabled
      | idle htask' hnames _ hnohandle hnone =>
        rw [htask] at htask'
        cases htask'
        cases hschedule : scheduleTask s i { task with enabled := true } failure with
        | error error =>
          rw [hschedule] at hs'
          cases hs'
        | ok scheduled =>
          rw [hschedule] at hs'
          cases hs'
          rw [scheduleTask_eq_ok hschedule hnohandle]
          obtain ⟨hself, honly, hothers⟩ :=
            timers_concat hnone ⟨i, task.descriptor.taskName, task.descriptor.kind.isTimeout, .waiting⟩ rfl
          exact h.schedule htask (hname ▸ hregistry) (by rfl) (by rfl) (by rfl) hself honly hothers

theorem updateCronExpression_eq_ok {expression : String}
    (h : updateCronExpression isCronExpression s name expression failure = .ok s') : ∃ i task, s.find name = some (i, task) ∧
      task.descriptor.kind.isTimeout = false ∧
      let task' := { task with descriptor := { task.descriptor with kind := .cron expression } }
      ((task.enabled = false ∧ s' = s.setTask i task') ∨
        task.enabled = true ∧ ∃ created, created = { s with
            tasks := s.tasks.set i { task' with scheduledHandle := some s.timers.length }
            timers := s.timers ++ [⟨i, task.descriptor.taskName, false, .waiting⟩] } ∧
          s' = match task.scheduledHandle with
            | some handle => created.stopScheduledHandle handle
            | none => created) := by
  obtain ⟨-, h⟩ := seq_eq_ok.1 h
  split at h
  · cases h
  · next i task hfind =>
    split at h
    · next old hkind =>
      refine ⟨i, task, hfind, by rw [hkind]; rfl, ?_⟩
      split at h
      · next hdisabled =>
        cases h
        exact .inl ⟨by simpa using hdisabled, rfl⟩
      · next henabled =>
        obtain ⟨⟨handle, s''⟩, hcreate, h⟩ := bind_eq_ok.1 h
        obtain ⟨rfl, rfl⟩ := createScheduledHandle_eq_ok hcreate
        refine .inr ⟨by simpa using henabled, _, rfl, ?_⟩
        cases hhandle : task.scheduledHandle with
        | none =>
          simp only [hhandle] at h
          cases h
          rfl
        | some previousHandle =>
          simp only [hhandle] at h
          cases h
          rfl
    · cases h

theorem Inv.updateCronExpression (h : Inv s) (isCronExpression : String → Bool) (name expression : String) (failure : Option String) :
    Inv (s.orElse (updateCronExpression isCronExpression s name expression failure)) := by
  refine h.orElse fun s' hs' => ?_
  obtain ⟨i, task, hfind, hkind, hcases⟩ := updateCronExpression_eq_ok hs'
  obtain ⟨hregistry, htask⟩ := find_eq_some.1 hfind
  have hname := h.name_eq hregistry htask
  rcases hcases with ⟨-, rfl⟩ | ⟨henabled, created, rfl, rfl⟩
  · exact h.setTask htask (by rfl) hkind.symm (by rfl) (by rfl)
  · cases h i with
    | gone hgone => exact absurd hregistry (hgone name)
    | idle htask' _ hdisabled =>
      rw [htask] at htask'
      cases htask'
      rw [henabled] at hdisabled
      cases hdisabled
    | @scheduled _ handle timer htask' _ _ hhandle htimer htimertask _ _ honly =>
      rw [htask] at htask'
      cases htask'
      rw [hhandle]
      obtain ⟨hlt, -⟩ := List.getElem?_eq_some_iff.1 htimer
      let new : Timer := ⟨i, task.descriptor.taskName, false, .waiting⟩
      let created : State := { s with timers := s.timers ++ [new] }
      have hcreated : created.timers[handle]? = some timer := getElem?_concat_iff.2 (.inr htimer)
      refine h.schedule htask (hname ▸ hregistry) (by rfl) (by exact henabled) (by rfl) ?_ ?_ ?_
      · change (created.stopScheduledHandle handle).timers[s.timers.length]? = _
        rw [getElem?_stop, getElem?_concat_iff.2 (.inl ⟨rfl, rfl⟩), Option.map_some, if_neg (Nat.ne_of_lt hlt)]
        rfl
      · intro handle' timer' htimer' htask'' hphase
        obtain ⟨⟨last, hlast, hlasttask, hlastphase⟩, hne⟩ :=
          isWaiting_stop (show (created.stopScheduledHandle handle).IsWaiting i handle' from ⟨timer', htimer', htask'', hphase⟩)
        rcases getElem?_concat_iff.1 hlast with ⟨hlength, -⟩ | hlast
        · exact hlength
        · exact absurd (honly handle' ⟨last, hlast, hlasttask, hlastphase⟩) hne
      · intro handle' timer' hne
        refine (timers_stop_others hcreated handle' timer' (by rw [htimertask]; exact hne)).trans ?_
        refine ⟨fun hmem => ?_, fun hmem => getElem?_concat_iff.2 (.inr hmem)⟩
        rcases getElem?_concat_iff.1 hmem with ⟨-, rfl⟩ | hmem
        · exact absurd rfl hne
        · exact hmem

theorem registerTask_eq_ok (h : registerTask s descriptor failure = .ok s') :
    s.registry descriptor.taskName = none ∧ s' = { s with
      tasks := s.tasks ++ [{ descriptor, scheduledHandle := some s.timers.length }]
      registry := Function.update s.registry descriptor.taskName (some s.tasks.length)
      timers := s.timers ++ [⟨s.tasks.length, descriptor.taskName, descriptor.kind.isTimeout, .waiting⟩] } := by
  obtain ⟨hname, h⟩ := seq_eq_ok.1 h
  have hfree : s.registry descriptor.taskName = none := by
    unfold assertTaskNameAvailable at hname
    split at hname
    · cases hname
    · next hnot => simpa using hnot
  refine ⟨hfree, ?_⟩
  have hcreate : ∃ created, createScheduledHandle s s.tasks.length descriptor failure = .ok created ∧ s' = { created.2 with
      tasks := created.2.tasks ++ [{ descriptor, scheduledHandle := some created.1 }]
      registry := Function.update created.2.registry descriptor.taskName (some s.tasks.length) } := by
    split at h
    · obtain ⟨-, h⟩ := seq_eq_ok.1 h
      obtain ⟨created, hcreate, h⟩ := bind_eq_ok.1 h
      exact ⟨created, hcreate, (Except.ok.inj h).symm⟩
    · obtain ⟨created, hcreate, h⟩ := bind_eq_ok.1 h
      exact ⟨created, hcreate, (Except.ok.inj h).symm⟩
  obtain ⟨⟨handle, s''⟩, hcreate, rfl⟩ := hcreate
  obtain ⟨rfl, rfl⟩ := createScheduledHandle_eq_ok hcreate
  rfl

theorem add_eq_ok
    (h : add isCronExpression s descriptor failure = .ok s') : registerTask s descriptor failure = .ok s' := by
  obtain ⟨-, h⟩ := seq_eq_ok.1 h
  split at h
  · exact (seq_eq_ok.1 h).2
  · exact (seq_eq_ok.1 h).2
  · exact (seq_eq_ok.1 h).2

theorem Inv.add (h : Inv s) (isCronExpression : String → Bool) (descriptor : CronTaskDescriptor) (failure : Option String) :
    Inv (s.orElse (add isCronExpression s descriptor failure)) := by
  refine h.orElse fun s' hs' => ?_
  obtain ⟨hfree, rfl⟩ := registerTask_eq_ok (add_eq_ok hs')
  -- the next task has no timer yet
  obtain ⟨hgone, hnone⟩ : (∀ name, s.registry name ≠ some s.tasks.length) ∧ ∀ handle, ¬ s.IsWaiting s.tasks.length handle := by
    cases h s.tasks.length with
    | gone hgone hnone => exact ⟨hgone, hnone⟩
    | idle htask | scheduled htask => simp at htask
  obtain ⟨hself, honly, hothers⟩ := timers_concat hnone ⟨s.tasks.length, descriptor.taskName, descriptor.kind.isTimeout, .waiting⟩ rfl
  intro j
  by_cases hj : j = s.tasks.length
  · subst hj
    refine .scheduled (getElem?_concat_iff.2 (.inl ⟨rfl, rfl⟩)) (fun name => ?_) rfl rfl hself rfl rfl (.inl rfl) ?_
    · by_cases heq : name = descriptor.taskName
      · simp [heq]
      · simpa [Function.update_of_ne heq, heq] using hgone name
    · rintro handle ⟨timer, htimer, htask, hphase⟩
      exact honly handle timer htimer htask hphase
  · refine (h j).frame ?_ (fun name => ?_) fun handle timer htimer => hothers handle timer (by rw [htimer]; exact hj)
    · change (s.tasks ++ [_])[j]? = _
      rcases Nat.lt_or_gt_of_ne hj with hlt | hgt
      · exact List.getElem?_append_left hlt
      · rw [List.getElem?_eq_none (by simpa using Nat.succ_le_of_lt hgt), List.getElem?_eq_none (Nat.le_of_lt hgt)]
    · change Function.update s.registry descriptor.taskName (some s.tasks.length) name = some j ↔ _
      by_cases heq : name = descriptor.taskName
      · simpa [heq, hfree] using Ne.symm hj
      · rw [Function.update_of_ne heq]

theorem Inv.runs (h : Inv s) (runs : List TaskRun) : Inv { s with runs } := fun i =>
  (h i).frame rfl (fun _ => Iff.rfl) fun _ _ _ => Iff.rfl

theorem Inv.fired (h : Inv s) (htimer : s.timers[handle]? = some timer) (hwaiting : timer.phase = .waiting)
    (htimeout : timer.isTimeout = true) : Inv { s with timers := s.timers.set handle { timer with phase := .fired } } := by
  have hothers : ∀ (handle' : Nat) timer', timer'.task ≠ timer.task →
      ((s.timers.set handle { timer with phase := .fired })[handle']? = some timer' ↔ s.timers[handle']? = some timer') := by
    intro handle' timer' hne
    rw [getElem?_set_iff htimer]
    constructor
    · rintro (⟨-, rfl⟩ | ⟨-, hmem⟩)
      · exact absurd rfl hne
      · exact hmem
    · intro hmem
      refine .inr ⟨fun heq => ?_, hmem⟩
      subst heq
      rw [htimer] at hmem
      cases hmem
      exact hne rfl
  intro j
  by_cases hj : j = timer.task
  · subst hj
    have hself : s.IsWaiting timer.task handle := ⟨timer, htimer, rfl, hwaiting⟩
    cases h timer.task with
    | gone hgone hnone => exact absurd hself (hnone handle)
    | idle htask hregistry hdisabled hnohandle hnone => exact absurd hself (hnone handle)
    | scheduled htask hregistry henabled hhandle htimer' htimertask hkind hphase honly =>
      obtain rfl := honly handle hself
      rw [htimer] at htimer'
      cases htimer'
      refine .scheduled htask hregistry henabled hhandle ((getElem?_set_iff htimer).2 (.inl ⟨rfl, rfl⟩)) rfl hkind
        (.inr ⟨hkind.symm.trans htimeout, rfl⟩) fun handle' hw => ?_
      obtain ⟨timer', htimer', htask', hphase'⟩ := hw
      rcases (getElem?_set_iff htimer).1 htimer' with ⟨heq, -⟩ | ⟨-, hmem⟩
      · exact heq
      · exact honly handle' ⟨timer', hmem, htask', hphase'⟩
  · exact (h j).frame rfl (fun _ => Iff.rfl) fun handle' timer' htask => hothers handle' timer' (by rw [htask]; exact hj)

theorem Inv.handleTaskTick (h : Inv s) (htick : handleTaskTick s timer = some s') : Inv s' := by
  obtain ⟨⟨i, task⟩, hfind, htick⟩ := Option.bind_eq_some_iff.1 htick
  dsimp only at htick
  split at htick
  · cases htick
    exact Inv.runs (h.setTask (find_eq_some.1 hfind).2 (by rfl) (by rfl) (by rfl) (by rfl)) _
  · cases htick

theorem Inv.callback (h : Inv s) (timer : Timer) : Inv (match SchedulingRegistry.handleTaskTick s timer with
    | some s => s
    | none => if timer.isTimeout then { s with runs := s.runs ++ [⟨timer.task, timer.taskName, true, .settled⟩] } else s) := by
  split
  · next s' htick => exact h.handleTaskTick htick
  · split
    · exact h.runs _
    · exact h

theorem Inv.fire (h : Inv s) (htimer : s.timers[handle]? = some timer) (hwaiting : timer.phase = .waiting) :
    Inv (fire s handle timer) := by
  have hfired : Inv (if timer.isTimeout then { s with timers := s.timers.set handle { timer with phase := .fired } } else s) := by
    split
    · next htimeout => exact h.fired htimer hwaiting htimeout
    · exact h
  exact hfired.callback timer

theorem Inv.executeTask (h : Inv s) {r : Nat} {run : TaskRun} (hrun : s.runs[r]? = some run) (hunrenewed : Unrenewed s (.execute r)) :
    Inv (executeTask s run) := by
  unfold SchedulingRegistry.executeTask
  split
  · next task htask => exact h.complete htask (hunrenewed run task hrun htask)
  · exact h

theorem Inv.completeTimeoutTask (h : Inv s) {r : Nat} {run : TaskRun} (hrun : s.runs[r]? = some run) (hunrenewed : Unrenewed s (.complete r)) :
    Inv (completeTimeoutTask s run.taskName) := by
  unfold SchedulingRegistry.completeTimeoutTask
  split
  · next i task hfind => exact h.complete (find_eq_some.1 hfind).2 fun htimeout => (hunrenewed run i task hrun hfind htimeout).1
  · exact h

theorem Inv.settle (h : Inv s) (run : TaskRun) : Inv (settle s run) := by
  unfold SchedulingRegistry.settle
  split
  · next task htask => exact h.setTask htask (by rfl) (by rfl) (by rfl) (by rfl)
  · exact h

theorem step_inv {l : Label} (hunrenewed : Unrenewed s l) (h : Inv s)
    (hstep : step isCronExpression s l = some s') : Inv s' := by
  cases l with
  | add descriptor failure =>
    cases hstep
    exact h.add isCronExpression descriptor failure
  | remove name =>
    cases hstep
    exact h.remove name
  | enable name failure =>
    cases hstep
    exact h.enable name failure
  | disable name =>
    cases hstep
    exact h.disable name
  | updateCronExpression name expression failure =>
    cases hstep
    exact h.updateCronExpression isCronExpression name expression failure
  | fire handle =>
    obtain ⟨timer, htimer, hstep⟩ := Option.bind_eq_some_iff.1 hstep
    split at hstep
    · next hwaiting =>
      cases hstep
      exact h.fire htimer hwaiting
    · cases hstep
  | execute r =>
    obtain ⟨run, hrun, -, rfl⟩ := bind_guarded_eq_some hstep
    exact (h.executeTask hrun hunrenewed).runs _
  | skip r =>
    obtain ⟨run, -, -, rfl⟩ := bind_guarded_eq_some hstep
    exact h.runs _
  | settle r =>
    obtain ⟨run, -, -, rfl⟩ := bind_guarded_eq_some hstep
    exact (h.settle run).runs _
  | complete r =>
    obtain ⟨run, hrun, -, rfl⟩ := bind_guarded_eq_some hstep
    exact (h.completeTimeoutTask hrun hunrenewed).runs _

theorem step_keepsOthers {l : Label} (hunrenewed : Unrenewed s l) (h : Inv s) :
    KeepsOthers isCronExpression s l := by
  intro r run s' hl hrun hstep
  cases l with
  | execute r' =>
    cases hl
    obtain ⟨run', hrun', -, rfl⟩ := bind_guarded_eq_some hstep
    rw [hrun] at hrun'
    cases hrun'
    change (executeTask s run).registry = s.registry ∧ ∀ name i, s.registry name = some i → i ≠ run.task → (executeTask s run).tasks[i]? = _
    unfold executeTask
    split
    · exact ⟨rfl, fun name i _ hne => List.getElem?_set_ne (Ne.symm hne)⟩
    · exact ⟨rfl, fun _ _ _ _ => rfl⟩
  | skip r' =>
    obtain ⟨run', -, -, rfl⟩ := bind_guarded_eq_some hstep
    exact ⟨rfl, fun _ _ _ _ => rfl⟩
  | settle r' =>
    cases hl
    obtain ⟨run', hrun', -, rfl⟩ := bind_guarded_eq_some hstep
    rw [hrun] at hrun'
    cases hrun'
    change (settle s run).registry = s.registry ∧ ∀ name i, s.registry name = some i → i ≠ run.task → (settle s run).tasks[i]? = _
    unfold settle
    split
    · exact ⟨rfl, fun name i _ hne => List.getElem?_set_ne (Ne.symm hne)⟩
    · exact ⟨rfl, fun _ _ _ _ => rfl⟩
  | complete r' =>
    cases hl
    obtain ⟨run', hrun', -, rfl⟩ := bind_guarded_eq_some hstep
    rw [hrun] at hrun'
    cases hrun'
    change (completeTimeoutTask s run.taskName).registry = s.registry ∧
      ∀ name i, s.registry name = some i → i ≠ run.task → (completeTimeoutTask s run.taskName).tasks[i]? = _
    unfold completeTimeoutTask
    split
    · next i task hfind =>
      refine ⟨rfl, fun name j hj hne => ?_⟩
      by_cases hji : j = i
      · -- another registration of the name, which is disabled and stays so
        subst hji
        obtain ⟨hregistry, htask⟩ := find_eq_some.1 hfind
        have hsame : task.complete = task := by
          unfold RuntimeTaskState.complete
          split
          · next htimeout =>
            have hdisabled := (hunrenewed run j task hrun hfind htimeout).2 hne
            cases h j with
            | gone hgone => exact absurd hregistry (hgone _)
            | idle htask' _ _ hnohandle =>
              rw [htask] at htask'
              cases htask'
              rw [← hnohandle, ← hdisabled]
            | scheduled htask' _ henabled =>
              rw [htask] at htask'
              cases htask'
              rw [henabled] at hdisabled
              cases hdisabled
          · rfl
        change (s.tasks.set j task.complete)[j]? = s.tasks[j]?
        rw [hsame, htask]
        exact (getElem?_set_iff htask).2 (.inl ⟨rfl, rfl⟩)
      · exact List.getElem?_set_ne (Ne.symm hji)
    · exact ⟨rfl, fun _ _ _ _ => rfl⟩
  | _ => cases hl

end Invariant

/-! ## Runs -/

/-- In a run in which no timeout is marked as over once it has been scheduled anew, each scheduled task has one timer and no other task has
one, and what is registered later under a name is left alone by the runs of before. -/
theorem consistent_of_unrenewed {isCronExpression : String → Bool} {ls : List Label} {s : State}
    (h : Run (step isCronExpression) Unrenewed {} ls s) : Consistent s ∧ Run (step isCronExpression) (KeepsOthers isCronExpression) {} ls s :=
  ⟨(h.keeps Inv (fun _ _ _ hok hinv hstep => step_inv hok hinv hstep) .init).consistent,
    h.mono_of_inv Inv (fun _ _ _ hok hinv hstep => step_inv hok hinv hstep) (fun _ _ _ hok hinv _ => step_keepsOthers hok hinv) .init⟩

/-- A run of a timeout marks as over its own task only, which has not been scheduled anew. -/
def marksOwn (s : State) : Label → Bool
  | .execute r => s.runs[r]?.all fun run => s.tasks[run.task]?.all fun task =>
      !task.descriptor.kind.isTimeout || task.scheduledHandle.all fun handle => s.timers[handle]?.all fun timer => timer.phase ≠ .waiting
  | .complete r => s.runs[r]?.all fun run => (s.find run.taskName).all fun found =>
      (found.2.scheduledHandle.all fun handle => s.timers[handle]?.all fun timer => timer.phase ≠ .waiting) && found.1 = run.task
  | _ => true

theorem unrenewed_of_marksOwn {s : State} {l : Label} (h : marksOwn s l = true) : Unrenewed s l := by
  have hover : ∀ i (task : RuntimeTaskState), (task.scheduledHandle.all fun handle => s.timers[handle]?.all fun timer => timer.phase ≠ .waiting) = true →
      ∀ handle, task.scheduledHandle = some handle → ¬ s.IsWaiting i handle := by
    rintro i task hall handle hhandle ⟨timer, htimer, -, hwaiting⟩
    rw [hhandle, Option.all_some, htimer, Option.all_some] at hall
    exact of_decide_eq_true hall hwaiting
  cases l with
  | execute r =>
    intro run task hrun htask htimeout
    simp only [marksOwn, hrun, htask, Option.all_some, htimeout, Bool.not_true, Bool.false_or] at h
    exact hover run.task task h
  | complete r =>
    intro run i task hrun hfind _
    simp only [marksOwn, hrun, hfind, Option.all_some, Bool.and_eq_true, decide_eq_true_eq] at h
    exact ⟨hover i task (by simpa using h.1), fun hne => absurd h.2 hne⟩
  | _ => trivial

/-- A timeout that runs once, and is enabled again after it. -/
def onceMore : List Label :=
  [.add ⟨"expire", .timeout 1000, false, 30000⟩ none, .add ⟨"poll", .interval 50, false, 30000⟩ none, .fire 1, .fire 0, .execute 1, .settle 1,
    .complete 1, .execute 0, .settle 0, .enable "expire" none, .remove "poll"]

theorem consistent_of_unrenewed_onceMore : Consistent (after (step fun _ => true) {} onceMore) ∧
    Run (step fun _ => true) (KeepsOthers fun _ => true) {} onceMore (after (step fun _ => true) {} onceMore) :=
  consistent_of_unrenewed (Run.of_passes (fun _ _ => unrenewed_of_marksOwn) (by decide : passes (step fun _ => true) marksOwn {} onceMore = true))

/-- A timeout that is removed and registered again while it runs. -/
def readded : List Label :=
  [.add ⟨"expire", .timeout 1000, false, 30000⟩ none, .fire 0, .remove "expire", .add ⟨"expire", .timeout 1000, false, 30000⟩ none, .execute 0,
    .settle 0, .complete 0]

theorem not_consistent_readded : ¬ ∀ (isCronExpression : String → Bool) (ls : List Label) (s : State),
    Run (step isCronExpression) (fun _ _ => True) {} ls s →
      Consistent s ∧ Run (step isCronExpression) (KeepsOthers isCronExpression) {} ls s := by
  intro h
  have hrun : Run (step fun _ => true) (fun _ _ => True) {} readded (after (step fun _ => true) {} readded) :=
    Run.of_passes (fun _ _ _ => trivial) (by decide : passes (step fun _ => true) (fun _ _ => true) {} readded = true)
  obtain ⟨hconsistent, -⟩ := h _ _ _ hrun
  -- the second timer waits, and the second registration is marked as completed
  have hdisabled : (after (step fun _ => true) {} readded).tasks[1]? = some ⟨⟨"expire", .timeout 1000, false, 30000⟩, false, false, none⟩ := by decide
  have hwaiting : (after (step fun _ => true) {} readded).timers[1]? = some ⟨1, "expire", true, .waiting⟩ := by decide
  refine (hconsistent 1 _ hdisabled).2 ?_ 1 ⟨_, hwaiting, rfl, rfl⟩
  rintro ⟨-, henabled, -⟩
  cases henabled

end Fluo.Cron.SchedulingRegistry
