import Fluo.Lib.Runs
import Fluo.Lib.Dfs
/-!
# The platform shell

`RuntimePlatformShell.start` and `stop`, one call after the other. Every
`await` of a component is a step whose label is the component's answer, so any
component may fail at any time.
-/

namespace Fluo.Runtime

open Lib (Run after passes)

structure RegisteredPlatformComponent where
  id : String
  dependencies : List String := []
  deriving DecidableEq

structure PlatformDiagnosticIssue where
  code : String
  severity : String
  componentId : String
  message : String
  cause : Option String := none
  fixHint : Option String := none

structure PlatformValidationResult where
  ok : Bool
  issues : List PlatformDiagnosticIssue := []
  warnings : List PlatformDiagnosticIssue := []

def createUnknownFailureIssue (componentId phase error : String) : PlatformDiagnosticIssue where
  cause := some error
  code := "RUNTIME_PLATFORM_COMPONENT_FAILURE"
  componentId := componentId
  fixHint := some "Inspect component implementation and ensure validate/start/ready/health/snapshot contracts are deterministic."
  message := s!"Platform component failed during {phase}."
  severity := "error"

inductive ShellError
  | invariant (message : String)
  | aggregate (errors : List String) (message : String)
  deriving DecidableEq

/-- What a component's method does: nothing to report, or what it throws. -/
abbrev Answer := Except String Unit

inductive ShellMethod
  | start
  | stop
  deriving DecidableEq

inductive ShellEvent
  | called (m : ShellMethod)
  | returned (m : ShellMethod) (r : Except ShellError Unit)
  /-- The shell calls `start` or `stop` of a component, which answers. -/
  | start (c : RegisteredPlatformComponent) (a : Answer)
  | stop (c : RegisteredPlatformComponent) (a : Answer)
  deriving DecidableEq

/-- What the call in progress awaits; the head of `left` is asked. -/
inductive Phase
  | idle
  | validating (left : List RegisteredPlatformComponent) (failures : List PlatformDiagnosticIssue)
  | starting (left startedComponents : List RegisteredPlatformComponent)
  | rollingBack (left startedComponents : List RegisteredPlatformComponent) (failed : RegisteredPlatformComponent)
      (startFailure : ShellError) (errors : List String)
  /-- A `stop`; `restart` says that a `start` awaits it. -/
  | stopping (left : List RegisteredPlatformComponent) (errors : List String) (restart : Bool)

structure RuntimePlatformShell where
  registeredComponents : List RegisteredPlatformComponent
  started : Bool := false
  stopped : Bool := false
  orderedComponents : List RegisteredPlatformComponent := []
  rollbackPendingComponents : List RegisteredPlatformComponent := []
  diagnostics : List PlatformDiagnosticIssue := []
  phase : Phase := .idle
  history : List ShellEvent := []

inductive ShellLabel
  | start
  | stop
  | validated (r : Except String PlatformValidationResult)
  | startAnswer (a : Answer)
  | stopAnswer (a : Answer)

/-! ## Checks -/

/-- The characters that `trim` removes. -/
def isTrimmed (c : Char) : Bool :=
  (9 ≤ c.toNat && c.toNat ≤ 13) || (0x2000 ≤ c.toNat && c.toNat ≤ 0x200A) ||
    [0x20, 0xA0, 0x1680, 0x2028, 0x2029, 0x202F, 0x205F, 0x3000, 0xFEFF].contains c.toNat

/-- The first component of `left` with a bad id; `ids` are those before it. -/
def validateIdentity (ids : List String) : List RegisteredPlatformComponent → Except ShellError Unit
  | [] => .ok ()
  | c :: left =>
    if c.id.toList.all isTrimmed then .error (.invariant "Platform component id must be a non-empty string.")
    else if c.id ∈ ids then .error (.invariant s!"Duplicate platform component id \"{c.id}\" is not allowed.")
    else validateIdentity (ids ++ [c.id]) left

def validateDependencies (ids : List String) (c : RegisteredPlatformComponent) : Except ShellError Unit :=
  c.dependencies.forM fun dependency =>
    if dependency ∉ ids then .error (.invariant s!"Platform component \"{c.id}\" depends on unknown component \"{dependency}\".")
    else if dependency = c.id then .error (.invariant s!"Platform component \"{c.id}\" cannot depend on itself.")
    else .ok ()

def validateIdentityAndDependencies (cs : List RegisteredPlatformComponent) : Except ShellError Unit := do
  validateIdentity [] cs
  cs.forM (validateDependencies (cs.map (·.id)))

/-- `byId`: the last entry of an id counts. -/
def byId (cs : List RegisteredPlatformComponent) (id : String) : Option RegisteredPlatformComponent :=
  cs.reverse.find? (·.id = id)

def dependenciesOf (cs : List RegisteredPlatformComponent) (id : String) : Except String (List String) :=
  match byId cs id with
  | none => .error id
  | some c => .ok c.dependencies

/-- `orderByDependency`: the depth-first order of the dependencies. The fuel is
for every id that occurs. -/
def orderByDependency (cs : List RegisteredPlatformComponent) : Except ShellError (List RegisteredPlatformComponent) :=
  match Lib.Dfs.order (dependenciesOf cs) ((cs.flatMap fun c => c.id :: c.dependencies).length + 1) (cs.map (·.id)) with
  | .ok ids => .ok (ids.filterMap (byId cs))
  | .error (.cycle id) => .error (.invariant s!"Platform component dependency cycle detected at \"{id}\".")
  | .error (.failed id) => .error (.invariant s!"Platform component \"{id}\" is missing from runtime registration.")
  | .error .fuel => .error (.invariant "")

/-! ## Calls -/

def RuntimePlatformShell.log (s : RuntimePlatformShell) (e : ShellEvent) : RuntimePlatformShell :=
  { s with history := s.history ++ [e] }

/-- `start()` returns or throws. -/
def RuntimePlatformShell.endStart (s : RuntimePlatformShell) (r : Except ShellError Unit) : RuntimePlatformShell :=
  { s with phase := .idle }.log (.returned .start r)

/-- The loop of `start` over the ordered components. -/
def RuntimePlatformShell.continueStart (s : RuntimePlatformShell) (left startedComponents : List RegisteredPlatformComponent) :
    RuntimePlatformShell :=
  match left with
  | [] => { s with started := true, stopped := false, rollbackPendingComponents := [] }.endStart (.ok ())
  | _ => { s with phase := .starting left startedComponents }

/-- `validateComponents`, and what `start` does after it. -/
def RuntimePlatformShell.continueValidation (s : RuntimePlatformShell) (left : List RegisteredPlatformComponent)
    (failures : List PlatformDiagnosticIssue) : RuntimePlatformShell :=
  match left, failures with
  | [], [] => match orderByDependency s.registeredComponents with
    | .error e => s.endStart (.error e)
    | .ok ordered => { s with orderedComponents := ordered }.continueStart ordered []
  | [], failures => s.endStart (.error (.invariant ("Platform shell validation failed: " ++
      ", ".intercalate (failures.map fun i => i.componentId ++ ":" ++ i.code))))
  | left, failures => { s with phase := .validating left failures }

/-- `start()` from the check of the ids on. -/
def RuntimePlatformShell.beginStart (s : RuntimePlatformShell) : RuntimePlatformShell :=
  match validateIdentityAndDependencies s.registeredComponents with
  | .error e => s.endStart (.error e)
  | .ok _ => s.continueValidation s.registeredComponents []

/-- `stop()` returns or throws; a `start` that awaits it goes on. -/
def RuntimePlatformShell.endStop (s : RuntimePlatformShell) (restart : Bool) (r : Except ShellError Unit) : RuntimePlatformShell :=
  let s := { s with phase := .idle }.log (.returned .stop r)
  if restart then
    match r with
    | .ok _ => s.beginStart
    | .error e => s.endStart (.error e)
  else s

def stopFailure (errors : List String) : ShellError :=
  .aggregate errors "One or more platform components failed to stop cleanly."

/-- The loop of `stopStartedComponents` in `stop`. -/
def RuntimePlatformShell.continueStop (s : RuntimePlatformShell) (left : List RegisteredPlatformComponent) (errors : List String)
    (restart : Bool) : RuntimePlatformShell :=
  match left, errors with
  | [], [] => { s with rollbackPendingComponents := [], started := false, stopped := true }.endStop restart (.ok ())
  | [], errors => s.endStop restart (.error (stopFailure errors))
  | left, errors => { s with phase := .stopping left errors restart }

/-- The loop of `stopStartedComponents` in the `catch` of `start`. -/
def RuntimePlatformShell.continueRollback (s : RuntimePlatformShell) (left startedComponents : List RegisteredPlatformComponent)
    (failed : RegisteredPlatformComponent) (startFailure : ShellError) (errors : List String) : RuntimePlatformShell :=
  match left, errors with
  | [], [] => { s with rollbackPendingComponents := [] }.endStart (.error startFailure)
  | [], _ => { s with
      rollbackPendingComponents := startedComponents
      diagnostics := s.diagnostics ++ [createUnknownFailureIssue failed.id "start-rollback"
        "One or more platform components failed to stop cleanly."] }.endStart (.error startFailure)
  | left, errors => { s with phase := .rollingBack left startedComponents failed startFailure errors }

def RuntimePlatformShell.stop (s : RuntimePlatformShell) (restart : Bool) : RuntimePlatformShell :=
  let s := s.log (.called .stop)
  if (!s.started && s.rollbackPendingComponents.isEmpty) || s.stopped then s.endStop restart (.ok ())
  else
    let toStop := if !s.rollbackPendingComponents.isEmpty then s.rollbackPendingComponents
      else if !s.orderedComponents.isEmpty then s.orderedComponents else s.registeredComponents
    s.continueStop toStop.reverse [] restart

def RuntimePlatformShell.start (s : RuntimePlatformShell) : RuntimePlatformShell :=
  let s := s.log (.called .start)
  if s.registeredComponents.isEmpty || s.started then s.endStart (.ok ())
  else if !s.rollbackPendingComponents.isEmpty then s.stop true
  else s.beginStart

namespace RuntimePlatformShell

def fails (s : RuntimePlatformShell) (c : RegisteredPlatformComponent) (phase error : String) : RuntimePlatformShell :=
  { s with diagnostics := s.diagnostics ++ [createUnknownFailureIssue c.id phase error] }

def step (s : RuntimePlatformShell) : ShellLabel → Option RuntimePlatformShell
  | .start => match s.phase with
    | .idle => some s.start
    | _ => none
  | .stop => match s.phase with
    | .idle => some (s.stop false)
    | _ => none
  | .validated r => match s.phase, r with
    | .validating (c :: left) failures, .error e =>
      some ((s.fails c "validate" e).continueValidation left (failures ++ [createUnknownFailureIssue c.id "validate" e]))
    | .validating (_ :: left) failures, .ok result =>
      let s := { s with diagnostics := s.diagnostics ++ result.warnings }
      if !result.ok || result.issues.any (·.severity = "error") then
        some ({ s with diagnostics := s.diagnostics ++ result.issues }.continueValidation left (failures ++ result.issues))
      else some (s.continueValidation left failures)
    | _, _ => none
  | .startAnswer a => match s.phase, a with
    | .starting (c :: left) startedComponents, .ok _ =>
      some ((s.log (.start c a)).continueStart left (startedComponents ++ [c]))
    | .starting (c :: _) startedComponents, .error e =>
      some (((s.log (.start c a)).fails c "start" e).continueRollback startedComponents.reverse startedComponents c
        (.invariant s!"Platform component \"{c.id}\" failed to start: {e}") [])
    | _, _ => none
  | .stopAnswer a => match s.phase, a with
    | .stopping (c :: left) errors restart, .ok _ => some ((s.log (.stop c a)).continueStop left errors restart)
    | .stopping (c :: left) errors restart, .error e =>
      some (((s.log (.stop c a)).fails c "stop" e).continueStop left (errors ++ [e]) restart)
    | .rollingBack (c :: left) startedComponents failed startFailure errors, .ok _ =>
      some ((s.log (.stop c a)).continueRollback left startedComponents failed startFailure errors)
    | .rollingBack (c :: left) startedComponents failed startFailure errors, .error e =>
      some (((s.log (.stop c a)).fails c "stop" e).continueRollback left startedComponents failed startFailure (errors ++ [e]))
    | _, _ => none

end RuntimePlatformShell

/-! ## Histories -/

/-- The components that run, in the order of their starts. -/
def runningAfter (ids : List String) : ShellEvent → List String
  | .start c (.ok _) => ids.filter (· ≠ c.id) ++ [c.id]
  | .stop c (.ok _) => ids.filter (· ≠ c.id)
  | _ => ids

/-- Started and not since successfully stopped. -/
def running (h : List ShellEvent) : List String := h.foldl runningAfter []

/-- The components that were started, in the order of their last starts. -/
def startOrder (h : List ShellEvent) : List String := h.foldl (fun ids e => match e with
  | .start c (.ok _) => ids.filter (· ≠ c.id) ++ [c.id]
  | _ => ids) []

/-- The events of the last `start()`. -/
def sinceStart (h : List ShellEvent) : List ShellEvent := h.foldl (fun es e => match e with
  | .called .start => []
  | e => es ++ [e]) []

/-- The components whose stops end the history, with nothing in between. -/
def lastStops (h : List ShellEvent) : List String := h.foldl (fun ids e => match e with
  | .stop c _ => ids ++ [c.id]
  | _ => []) []

/-- What may happen after the events `h`. -/
def LegalEvent (h : List ShellEvent) : ShellEvent → Prop
  /- A start: the component does not run, and its dependencies do. -/
  | .start c _ => c.id ∉ running h ∧ ∀ d ∈ c.dependencies, d ∈ running h
  /- A stop, after other stops: the component was started before theirs. -/
  | .stop c _ => ∀ id ∈ lastStops h, [c.id, id].Sublist (startOrder h)
  /- A failed `start()`: what still runs is what it has failed to stop. -/
  | .returned .start (.error _) => ∀ id ∈ running h, ∃ c e, c.id = id ∧ .stop c (.error e) ∈ sinceStart h
  | _ => True

/-- Every event of the history was legal when it happened. -/
def AllLegal (h : List ShellEvent) : Prop := ∀ before e after, h = before ++ e :: after → LegalEvent before e

theorem AllLegal.log {h : List ShellEvent} {e : ShellEvent} (hl : AllLegal h) (he : LegalEvent h e) : AllLegal (h ++ [e]) := by
  intro before e' after heq
  rcases List.eq_nil_or_concat after with rfl | ⟨init, last, rfl⟩
  · obtain ⟨rfl, hee⟩ := List.append_inj' heq rfl
    cases hee
    exact he
  · have heq' : h ++ [e] = (before ++ e' :: init) ++ [last] := by simpa using heq
    exact hl before e' init (List.append_inj' heq' rfl).1

section Histories
variable (h : List ShellEvent) (c : RegisteredPlatformComponent) (a : Answer) (m : ShellMethod) (r : Except ShellError Unit)

@[simp] theorem running_snoc (e : ShellEvent) : running (h ++ [e]) = runningAfter (running h) e := by simp [running]

@[simp] theorem startOrder_called : startOrder (h ++ [.called m]) = startOrder h := by simp [startOrder]
@[simp] theorem startOrder_returned : startOrder (h ++ [.returned m r]) = startOrder h := by simp [startOrder]
@[simp] theorem startOrder_stop : startOrder (h ++ [.stop c a]) = startOrder h := by simp [startOrder]
@[simp] theorem startOrder_start_ok (u : Unit) : startOrder (h ++ [.start c (.ok u)]) = (startOrder h).filter (· ≠ c.id) ++ [c.id] := by
  simp [startOrder]
@[simp] theorem startOrder_start_error (e : String) : startOrder (h ++ [.start c (.error e)]) = startOrder h := by simp [startOrder]

@[simp] theorem lastStops_called : lastStops (h ++ [.called m]) = [] := by simp [lastStops]
@[simp] theorem lastStops_start : lastStops (h ++ [.start c a]) = [] := by simp [lastStops]
@[simp] theorem lastStops_stop : lastStops (h ++ [.stop c a]) = lastStops h ++ [c.id] := by simp [lastStops]

@[simp] theorem sinceStart_stop : sinceStart (h ++ [.stop c a]) = sinceStart h ++ [.stop c a] := by simp [sinceStart]
@[simp] theorem sinceStart_start : sinceStart (h ++ [.start c a]) = sinceStart h ++ [.start c a] := by simp [sinceStart]
@[simp] theorem sinceStart_returned : sinceStart (h ++ [.returned m r]) = sinceStart h ++ [.returned m r] := by simp [sinceStart]
end Histories

/-! ## The dependency order -/

structure DependenciesFirst (cs : List RegisteredPlatformComponent) : Prop where
  nodup : (cs.map (·.id)).Nodup
  ordered : ∀ before c after, cs = before ++ c :: after → ∀ d ∈ c.dependencies, d ∈ before.map (·.id)

variable {cs : List RegisteredPlatformComponent}

theorem byId_id {id : String} {c : RegisteredPlatformComponent} (h : byId cs id = some c) :
    c.id = id := by simpa using List.find?_some h

theorem dependenciesOf_ok {id : String} {ds : List String} (h : dependenciesOf cs id = .ok ds) :
    ∃ c, byId cs id = some c ∧ c.dependencies = ds := by
  unfold dependenciesOf at h
  split at h
  · cases h
  · rename_i c hc
    cases h
    exact ⟨c, hc, rfl⟩

theorem filterMap_byId {ids : List String} (h : ∀ id ∈ ids, ∃ c, byId cs id = some c) :
    (ids.filterMap (byId cs)).map (·.id) = ids := by
  induction ids with
  | nil => rfl
  | cons id rest ih =>
    obtain ⟨c, hc⟩ := h id List.mem_cons_self
    rw [List.filterMap_cons, hc, List.map_cons, byId_id hc, ih fun i hi => h i (List.mem_cons_of_mem _ hi)]

theorem orderByDependency_ok {ordered : List RegisteredPlatformComponent} (h : orderByDependency cs = .ok ordered) :
    DependenciesFirst ordered ∧ ∀ c ∈ cs, c.id ∈ ordered.map (·.id) := by
  unfold orderByDependency at h
  split at h
  · rename_i ids hids
    cases h
    obtain ⟨hs, hmem⟩ := Lib.Dfs.order_ok hids
    have hby : ∀ id ∈ ids, ∃ c, byId cs id = some c := fun id hid => by
      obtain ⟨ds, hds, _⟩ := hs.children_ok hid
      obtain ⟨c, hc, _⟩ := dependenciesOf_ok hds
      exact ⟨c, hc⟩
    refine ⟨⟨by rw [filterMap_byId hby]; exact hs.nodup, fun before c after he d hd => ?_⟩, fun c hc => ?_⟩
    · have hids' : ids = before.map (·.id) ++ c.id :: after.map (·.id) := by
        rw [← filterMap_byId hby, he, List.map_append, List.map_cons]
      obtain ⟨ds, hds, hbefore⟩ := hs.ordered _ _ _ hids'
      obtain ⟨c', hc', rfl⟩ := dependenciesOf_ok hds
      have hcmem : c ∈ ids.filterMap (byId cs) := he ▸ List.mem_append_right _ List.mem_cons_self
      obtain ⟨id, -, hid⟩ := List.mem_filterMap.1 hcmem
      rw [byId_id hid, hid] at hc'
      cases hc'
      exact hbefore d hd
    · rw [filterMap_byId hby]
      exact (hmem c.id).2 ⟨c.id, List.mem_map_of_mem hc, .refl⟩
  · cases h
  · cases h
  · cases h

/-! ## Invariant -/

namespace RuntimePlatformShell

def toStop (s : RuntimePlatformShell) : List RegisteredPlatformComponent :=
  if !s.rollbackPendingComponents.isEmpty then s.rollbackPendingComponents
  else if s.started then s.orderedComponents else []

/-- Between two calls: what runs is what the next `stop()` stops. -/
structure Rest (s : RuntimePlatformShell) : Prop where
  runs : ∀ id ∈ running s.history, id ∈ s.toStop.map (·.id)
  order : (s.toStop.map (·.id)).Sublist (startOrder s.history)
  live : s.toStop ≠ [] → s.stopped = false
  started : s.started = true → s.rollbackPendingComponents = [] ∧ s.orderedComponents ≠ []

structure Down (s : RuntimePlatformShell) : Prop where
  started : s.started = false
  pending : s.rollbackPendingComponents = []
  nothing : running s.history = []
  registered : s.registeredComponents ≠ []

structure Stops (s : RuntimePlatformShell) (all left : List RegisteredPlatformComponent) (errors : List String) : Prop where
  batch : all.reverse.map (·.id) = lastStops s.history ++ left.map (·.id)
  order : (all.map (·.id)).Sublist (startOrder s.history)
  runs : ∀ id ∈ running s.history, id ∈ all.map (·.id)
  failed : ∀ id ∈ running s.history, id ∈ left.map (·.id) ∨
    errors ≠ [] ∧ ∃ c e, c.id = id ∧ .stop c (.error e) ∈ sinceStart s.history

def Progress (s : RuntimePlatformShell) : Phase → Prop
  | .idle => s.Rest
  | .validating _ _ => s.Down
  | .starting left startedComponents => s.started = false ∧ s.rollbackPendingComponents = [] ∧ left ≠ [] ∧
      s.orderedComponents = startedComponents ++ left ∧ DependenciesFirst s.orderedComponents ∧
      running s.history = startedComponents.map (·.id) ∧ (startedComponents.map (·.id)).Sublist (startOrder s.history)
  | .rollingBack left startedComponents _ _ errors => s.started = false ∧ s.rollbackPendingComponents = [] ∧
      s.Stops startedComponents left errors ∧ (errors ≠ [] → s.stopped = false)
  | .stopping left errors restart => s.Stops s.toStop left errors ∧ s.stopped = false ∧
      (s.started = true → s.rollbackPendingComponents = [] ∧ s.orderedComponents ≠ []) ∧
      (restart = true → s.started = false ∧ s.registeredComponents ≠ [])

structure Inv (s : RuntimePlatformShell) : Prop where
  legal : AllLegal s.history
  progress : s.Progress s.phase
  /-- A `start()` that has failed leaves the shell idle and not started. -/
  lastFailed : ∀ e, s.history.getLast? = some (.returned .start (.error e)) → s.phase = .idle ∧ s.started = false

variable {s s' : RuntimePlatformShell} {all left startedComponents : List RegisteredPlatformComponent} {errors : List String}

theorem toStop_of_pending (h : s.rollbackPendingComponents ≠ []) : s.toStop = s.rollbackPendingComponents := by
  simp [toStop, h]

theorem toStop_of_started (h : s.rollbackPendingComponents = []) (hs : s.started = true) : s.toStop = s.orderedComponents := by
  simp [toStop, h, hs]

theorem toStop_of_neither (h : s.rollbackPendingComponents = []) (hs : s.started = false) : s.toStop = [] := by
  simp [toStop, h, hs]

theorem Down.rest (h : s.Down) : s.Rest := by
  have ht := toStop_of_neither h.pending h.started
  refine ⟨by simp [h.nothing], by simp [ht], fun hne => absurd ht hne, fun hs => ?_⟩
  rw [h.started] at hs
  cases hs

theorem Rest.log (h : s.Rest) (p : Phase) {e : ShellEvent} (hr : runningAfter (running s.history) e = running s.history)
    (ho : startOrder (s.history ++ [e]) = startOrder s.history) : ({ s with phase := p }.log e).Rest := by
  refine ⟨?_, ?_, h.live, h.started⟩
  · simp only [RuntimePlatformShell.log, running_snoc, hr]
    exact h.runs
  · simp only [RuntimePlatformShell.log, ho]
    exact h.order

variable {r : Except ShellError Unit} {restart : Bool} {l : ShellLabel} {id : String}

theorem endStart_inv (hrest : s.Rest) (hl : AllLegal s.history)
    (herr : ∀ e, r = .error e → s.started = false ∧
      ∀ id ∈ running s.history, ∃ c m, c.id = id ∧ .stop c (.error m) ∈ sinceStart s.history) : Inv (s.endStart r) := by
  refine ⟨hl.log ?_, hrest.log _ rfl (by simp), fun e he => ⟨rfl, ?_⟩⟩
  · cases r with
    | ok => trivial
    | error e => exact (herr e rfl).2
  · simp only [endStart, log, List.getLast?_append, List.getLast?_singleton, Option.some_or, Option.some.injEq,
      ShellEvent.returned.injEq, true_and] at he
    exact (herr e he).1

theorem continueStart_inv (hl : AllLegal s.history) (hstarted : s.started = false) (hpending : s.rollbackPendingComponents = [])
    (hordered : s.orderedComponents = startedComponents ++ left) (hne : s.orderedComponents ≠ [])
    (hdeps : DependenciesFirst s.orderedComponents) (hrun : running s.history = startedComponents.map (·.id))
    (hsub : (startedComponents.map (·.id)).Sublist (startOrder s.history)) (hlast : ∀ e, s.history.getLast? ≠ some (.returned .start (.error e))) :
    Inv (s.continueStart left startedComponents) := by
  cases left with
  | nil =>
    rw [List.append_nil] at hordered
    have hrest : { s with started := true, stopped := false, rollbackPendingComponents := [] }.Rest := by
      refine ⟨fun id hid => ?_, ?_, fun _ => rfl, fun _ => ⟨rfl, hne⟩⟩
      · rw [toStop_of_started rfl rfl]
        simp only [hordered, ← hrun]
        exact hid
      · rw [toStop_of_started rfl rfl]
        simp only [hordered]
        exact hsub
    exact endStart_inv (r := .ok ()) hrest hl (by simp)
  | cons c left =>
    exact ⟨hl, ⟨hstarted, hpending, by simp, hordered, hdeps, hrun, hsub⟩, fun e he => absurd he (hlast e)⟩

theorem continueValidation_inv (hl : AllLegal s.history) (hdown : s.Down) (failures : List PlatformDiagnosticIssue)
    (hlast : ∀ e, s.history.getLast? ≠ some (.returned .start (.error e))) : Inv (s.continueValidation left failures) := by
  have herr : ∀ e : ShellError, Inv (s.endStart (.error e)) := fun e =>
    endStart_inv hdown.rest hl fun _ _ => ⟨hdown.started, by simp [hdown.nothing]⟩
  unfold continueValidation
  split
  · split
    · exact herr _
    · rename_i ordered hordered
      obtain ⟨hdeps, hmem⟩ := orderByDependency_ok hordered
      have hne : ordered ≠ [] := by
        rintro rfl
        obtain ⟨c, hc⟩ := List.exists_mem_of_ne_nil _ hdown.registered
        exact absurd (hmem c hc) (by simp)
      exact continueStart_inv hl hdown.started hdown.pending rfl hne hdeps hdown.nothing (List.nil_sublist _) hlast
  · exact herr _
  · exact ⟨hl, ⟨hdown.started, hdown.pending, hdown.nothing, hdown.registered⟩, fun e he => absurd he (hlast e)⟩

theorem beginStart_inv (hl : AllLegal s.history) (hdown : s.Down)
    (hlast : ∀ e, s.history.getLast? ≠ some (.returned .start (.error e))) : Inv s.beginStart := by
  unfold beginStart
  split
  · exact endStart_inv hdown.rest hl fun _ _ => ⟨hdown.started, by simp [hdown.nothing]⟩
  · exact continueValidation_inv hl hdown _ hlast

theorem endStop_inv (hrest : s.Rest) (hl : AllLegal s.history)
    (hok : restart = true → r = .ok () → s.Down)
    (herr : restart = true → ∀ e, r = .error e → s.started = false ∧
      ∀ id ∈ running s.history, ∃ c m, c.id = id ∧ .stop c (.error m) ∈ sinceStart s.history) : Inv (s.endStop restart r) := by
  have hl' : AllLegal (s.history ++ [.returned .stop r]) := hl.log (by cases r <;> trivial)
  have hrest' := hrest.log .idle (e := .returned .stop r) rfl (by simp)
  have hlast : ∀ e, (s.history ++ [ShellEvent.returned .stop r]).getLast? ≠ some (.returned .start (.error e)) := by simp
  unfold endStop
  cases restart with
  | false => exact ⟨hl', hrest', fun e he => absurd he (hlast e)⟩
  | true =>
    cases r with
    | ok =>
      have hdown := hok rfl rfl
      exact beginStart_inv hl' ⟨hdown.started, hdown.pending, by simpa [log, runningAfter] using hdown.nothing, hdown.registered⟩ hlast
    | error e =>
      refine endStart_inv hrest' hl' fun _ _ => ⟨(herr rfl e rfl).1, fun id hid => ?_⟩
      obtain ⟨c, m, hc, hm⟩ := (herr rfl e rfl).2 id (by simpa [log, runningAfter] using hid)
      exact ⟨c, m, hc, by simp [log, hm]⟩

theorem Stops.legal {c : RegisteredPlatformComponent} (h : s.Stops all (c :: left) errors) (a : Answer) :
    LegalEvent s.history (.stop c a) := by
  intro id hid
  obtain ⟨p, q, hpq⟩ := List.append_of_mem hid
  have hrev : ([id, c.id] : List String).Sublist (all.reverse.map (·.id)) := by
    rw [h.batch, hpq, List.map_cons, List.append_assoc, List.cons_append]
    refine (List.Sublist.cons_cons id ?_).trans (List.sublist_append_right _ _)
    refine (List.Sublist.cons_cons c.id (List.nil_sublist (left.map (·.id)))).trans (List.sublist_append_right _ _)
  have hall := hrev.reverse
  rw [List.map_reverse, List.reverse_reverse] at hall
  exact hall.trans h.order

theorem Stops.next {c : RegisteredPlatformComponent} (h : s.Stops all (c :: left) errors) (d : List PlatformDiagnosticIssue)
    (a : Answer) : ({ s with diagnostics := d }.log (.stop c a)).Stops all left (errors ++ match a with
      | .ok _ => []
      | .error e => [e]) := by
  have hbatch := h.batch
  refine ⟨by simp [log, hbatch], by simpa [log] using h.order, fun id hid => h.runs id ?_, fun id hid => ?_⟩
  · cases a with
    | ok =>
      simp only [log, running_snoc, runningAfter, List.mem_filter] at hid
      exact hid.1
    | error => simpa [log, runningAfter] using hid
  · have hold : id ∈ running s.history → c.id ≠ id → id ∈ left.map (·.id) ∨
        errors ≠ [] ∧ ∃ c' e, c'.id = id ∧ .stop c' (.error e) ∈ sinceStart s.history := by
      intro hid hne
      rcases h.failed id hid with hleft | hfailed
      · rcases List.mem_cons.1 hleft with rfl | hleft
        · exact absurd rfl hne
        · exact .inl hleft
      · exact .inr hfailed
    cases a with
    | ok =>
      simp only [log, running_snoc, runningAfter, List.mem_filter, decide_eq_true_eq] at hid
      rcases hold hid.1 (Ne.symm hid.2) with hleft | ⟨he, c', e, hc', hm⟩
      · exact .inl hleft
      · exact .inr ⟨by simpa using he, c', e, hc', by simp [log, hm]⟩
    | error e =>
      simp only [log, running_snoc, runningAfter] at hid
      by_cases hc : c.id = id
      · exact .inr ⟨by simp, c, e, hc, by simp [log]⟩
      · rcases hold hid hc with hleft | ⟨he, c', e', hc', hm⟩
        · exact .inl hleft
        · exact .inr ⟨by simp, c', e', hc', by simp [log, hm]⟩

theorem Stops.done (h : s.Stops all [] []) : running s.history = [] := by
  refine List.eq_nil_iff_forall_not_mem.2 fun id hid => ?_
  rcases h.failed id hid with hleft | ⟨he, _⟩
  · cases hleft
  · exact he rfl

theorem Stops.remaining (h : s.Stops all [] errors) :
    ∀ id ∈ running s.history, ∃ c e, c.id = id ∧ .stop c (.error e) ∈ sinceStart s.history := by
  intro id hid
  rcases h.failed id hid with hleft | ⟨_, hfailed⟩
  · cases hleft
  · exact hfailed

theorem continueStop_inv (hl : AllLegal s.history) (h : s.Stops s.toStop left errors) (hstopped : s.stopped = false)
    (hstarted : s.started = true → s.rollbackPendingComponents = [] ∧ s.orderedComponents ≠ [])
    (hrestart : restart = true → s.started = false ∧ s.registeredComponents ≠ [])
    (hlast : ∀ e, s.history.getLast? ≠ some (.returned .start (.error e))) : Inv (s.continueStop left errors restart) := by
  unfold continueStop
  split
  · have hdown : restart = true → ({ s with rollbackPendingComponents := [], started := false, stopped := true }).Down :=
      fun hr => ⟨rfl, rfl, h.done, (hrestart hr).2⟩
    have hrest : ({ s with rollbackPendingComponents := [], started := false, stopped := true }).Rest :=
      ⟨fun id hid => absurd hid (by simp [h.done]), by simp [toStop], by simp [toStop], by simp⟩
    exact endStop_inv hrest hl
      (fun hr _ => hdown hr) (by simp)
  · rename_i errors hne
    exact endStop_inv ⟨h.runs, h.order, fun _ => hstopped, hstarted⟩ hl (by simp) fun hr e _ => ⟨(hrestart hr).1, h.remaining⟩
  · exact ⟨hl, ⟨⟨h.batch, h.order, h.runs, h.failed⟩, hstopped, hstarted, hrestart⟩, fun e he => absurd he (hlast e)⟩

theorem continueRollback_inv (hl : AllLegal s.history) (hstarted : s.started = false) (hpending : s.rollbackPendingComponents = [])
    (h : s.Stops startedComponents left errors) (hstopped : errors ≠ [] → s.stopped = false)
    (failed : RegisteredPlatformComponent) (startFailure : ShellError)
    (hlast : ∀ e, s.history.getLast? ≠ some (.returned .start (.error e))) :
    Inv (s.continueRollback left startedComponents failed startFailure errors) := by
  unfold continueRollback
  split
  · have hrest : ({ s with rollbackPendingComponents := [] }).Rest :=
      ⟨fun id hid => absurd hid (by simp [h.done]), by simp [toStop, hstarted], by simp [toStop, hstarted], by simp [hstarted]⟩
    exact endStart_inv hrest hl fun _ _ => ⟨hstarted, by simp [h.done]⟩
  · rename_i hne
    generalize s.diagnostics ++ _ = diagnostics
    have htoStop : ({ s with rollbackPendingComponents := startedComponents, diagnostics }).toStop = startedComponents := by
      by_cases he : startedComponents = []
      · simp [toStop, he, hstarted]
      · exact toStop_of_pending he
    have hrest : ({ s with rollbackPendingComponents := startedComponents, diagnostics }).Rest :=
      ⟨by rw [htoStop]; exact h.runs, by rw [htoStop]; exact h.order, fun _ => hstopped hne, by simp [hstarted]⟩
    exact endStart_inv hrest hl fun _ _ => ⟨hstarted, h.remaining⟩
  · exact ⟨hl, ⟨hstarted, hpending, ⟨h.batch, h.order, h.runs, h.failed⟩, hstopped⟩, fun e he => absurd he (hlast e)⟩

theorem Rest.batch (h : s.Rest) (hno : ((!s.started && s.rollbackPendingComponents.isEmpty) || s.stopped) = false) :
    (if !s.rollbackPendingComponents.isEmpty then s.rollbackPendingComponents
      else if !s.orderedComponents.isEmpty then s.orderedComponents else s.registeredComponents) = s.toStop ∧ s.stopped = false := by
  rw [Bool.or_eq_false_iff, Bool.and_eq_false_iff] at hno
  refine ⟨?_, hno.2⟩
  by_cases hp : s.rollbackPendingComponents = []
  · have hs : s.started = true := by simpa [hp] using hno.1
    simp [toStop, hp, hs, (h.started hs).2]
  · simp [toStop, hp]

theorem Rest.stops (h : s.Rest) (hstops : lastStops s.history = []) : s.Stops s.toStop s.toStop.reverse [] := by
  refine ⟨by simp [hstops], h.order, h.runs, fun id hid => .inl ?_⟩
  rw [List.map_reverse, List.mem_reverse]
  exact h.runs id hid

theorem stop_inv (hl : AllLegal s.history) (hrest : s.Rest)
    (hrestart : restart = true → s.started = false ∧ s.rollbackPendingComponents ≠ [] ∧ s.registeredComponents ≠ []) :
    Inv (s.stop restart) := by
  have hrest' := hrest.log s.phase (e := .called .stop) rfl (by simp)
  have hl' : AllLegal (s.log (.called .stop)).history := hl.log trivial
  have hlast : ∀ e, (s.log (.called .stop)).history.getLast? ≠ some (.returned .start (.error e)) := by simp [log]
  have hstops : lastStops (s.log (.called .stop)).history = [] := by simp [log]
  have hrestart' : restart = true → (s.log (.called .stop)).started = false ∧
      (s.log (.called .stop)).rollbackPendingComponents ≠ [] ∧ (s.log (.called .stop)).registeredComponents ≠ [] := hrestart
  unfold stop
  dsimp only
  generalize s.log (.called .stop) = t at *
  change t.Rest at hrest'
  split
  · rename_i hno
    refine endStop_inv hrest' hl' (fun hr _ => ?_) (by simp)
    -- a restart stops what its failed rollback has left
    obtain ⟨_, hp, _⟩ := hrestart' hr
    have hstopped := hrest'.live (by rw [toStop_of_pending hp]; exact hp)
    simp [hp, hstopped] at hno
  · rename_i hno
    obtain ⟨htoStop, hstopped⟩ := hrest'.batch (by simpa using hno)
    rw [htoStop]
    exact continueStop_inv hl' (hrest'.stops hstops) hstopped hrest'.started (fun hr => ⟨(hrestart' hr).1, (hrestart' hr).2.2⟩) hlast

theorem start_inv (hl : AllLegal s.history) (hrest : s.Rest) : Inv s.start := by
  have hrest' := hrest.log s.phase (e := .called .start) rfl (by simp [startOrder])
  have hl' : AllLegal (s.log (.called .start)).history := hl.log trivial
  have hlast : ∀ e, (s.log (.called .start)).history.getLast? ≠ some (.returned .start (.error e)) := by simp [log]
  unfold start
  dsimp only
  generalize s.log (.called .start) = t at *
  change t.Rest at hrest'
  split
  · exact endStart_inv hrest' hl' (by simp)
  · rename_i hno
    simp only [Bool.or_eq_true, List.isEmpty_iff, not_or, Bool.not_eq_true] at hno
    split
    · rename_i hp
      exact stop_inv hl' hrest' fun _ => ⟨hno.2, by simpa using hp, hno.1⟩
    · rename_i hp
      have hpending : t.rollbackPendingComponents = [] := by simpa using hp
      refine beginStart_inv hl' ⟨hno.2, hpending, ?_, hno.1⟩ hlast
      refine List.eq_nil_iff_forall_not_mem.2 fun id hid => ?_
      have := hrest'.runs id hid
      rw [toStop_of_neither hpending hno.2] at this
      cases this

/-! ## Steps -/

/-- No component fails to stop in a rollback while the shell counts as stopped. -/
def Steady (s : RuntimePlatformShell) : ShellLabel → Prop
  | .stopAnswer (.error _) => ∀ left startedComponents failed startFailure errors,
      s.phase = .rollingBack left startedComponents failed startFailure errors → s.stopped = false
  | _ => True

theorem Inv.unfinished (h : s.Inv) {p : Phase} (hp : s.phase = p) (hne : p ≠ .idle) :
    ∀ e, s.history.getLast? ≠ some (.returned .start (.error e)) :=
  fun e he => hne (hp ▸ (h.lastFailed e he).1)

/-- What a step makes of the shell: by the label, in the phase it is enabled in. -/
inductive Stepped (s : RuntimePlatformShell) : ShellLabel → RuntimePlatformShell → Prop
  | start : s.phase = .idle → s.Stepped .start s.start
  | stop : s.phase = .idle → s.Stepped .stop (s.stop false)
  | validated {c left failures} (r diagnostics failures') : s.phase = .validating (c :: left) failures →
      s.Stepped (.validated r) ({ s with diagnostics }.continueValidation left failures')
  | started {c left acc} (u) : s.phase = .starting (c :: left) acc →
      s.Stepped (.startAnswer (.ok u)) ((s.log (.start c (.ok u))).continueStart left (acc ++ [c]))
  | startFailed {c left acc} (e failure) : s.phase = .starting (c :: left) acc →
      s.Stepped (.startAnswer (.error e)) (((s.log (.start c (.error e))).fails c "start" e).continueRollback acc.reverse acc c failure [])
  | stopped {c left errors restart} (u) : s.phase = .stopping (c :: left) errors restart →
      s.Stepped (.stopAnswer (.ok u)) ((s.log (.stop c (.ok u))).continueStop left errors restart)
  | stopFailed {c left errors restart} (e) : s.phase = .stopping (c :: left) errors restart →
      s.Stepped (.stopAnswer (.error e)) (((s.log (.stop c (.error e))).fails c "stop" e).continueStop left (errors ++ [e]) restart)
  | rolledBack {c left acc failed startFailure errors} (u) : s.phase = .rollingBack (c :: left) acc failed startFailure errors →
      s.Stepped (.stopAnswer (.ok u)) ((s.log (.stop c (.ok u))).continueRollback left acc failed startFailure errors)
  | rollbackFailed {c left acc failed startFailure errors} (e) : s.phase = .rollingBack (c :: left) acc failed startFailure errors →
      s.Stepped (.stopAnswer (.error e))
        (((s.log (.stop c (.error e))).fails c "stop" e).continueRollback left acc failed startFailure (errors ++ [e]))

theorem step_cases (hs : s.step l = some s') : s.Stepped l s' := by
  cases l with
  | start =>
    simp only [RuntimePlatformShell.step] at hs
    split at hs <;> cases hs
    exact .start ‹_›
  | stop =>
    simp only [RuntimePlatformShell.step] at hs
    split at hs <;> cases hs
    exact .stop ‹_›
  | validated r =>
    simp only [RuntimePlatformShell.step] at hs
    split at hs
    · cases hs
      exact .validated _ _ _ ‹_›
    · split at hs <;> cases hs <;> exact .validated _ _ _ ‹_›
    · cases hs
  | startAnswer a =>
    simp only [RuntimePlatformShell.step] at hs
    split at hs <;> cases hs
    · exact .started _ ‹_›
    · exact .startFailed _ _ ‹_›
  | stopAnswer a =>
    simp only [RuntimePlatformShell.step] at hs
    split at hs <;> cases hs
    · exact .stopped _ ‹_›
    · exact .stopFailed _ ‹_›
    · exact .rolledBack _ ‹_›
    · exact .rollbackFailed _ ‹_›

theorem Inv.step_validated (h : s.Inv) {r : Except String PlatformValidationResult} (hs : s.step (.validated r) = some s') : s'.Inv := by
  have hp := h.progress
  have hgo : ∀ {left failures}, s.phase = .validating left failures → ∀ diagnostics left failures,
      Inv ({ s with diagnostics }.continueValidation left failures) := by
    intro left failures hphase diagnostics left' failures'
    rw [hphase] at hp
    have hdown : ({ s with diagnostics }).Down := ⟨hp.started, hp.pending, hp.nothing, hp.registered⟩
    exact continueValidation_inv (s := { s with diagnostics }) h.legal hdown _ (h.unfinished hphase (by simp))
  cases step_cases hs with
  | validated _ _ _ hphase => exact hgo hphase _ _ _

theorem Inv.step_startAnswer (h : s.Inv) {a : Answer} (hs : s.step (.startAnswer a) = some s') : s'.Inv := by
  have hp := h.progress
  have hlegal : ∀ {c : RegisteredPlatformComponent} {left acc : List RegisteredPlatformComponent}, s.phase = .starting (c :: left) acc →
      c.id ∉ running s.history ∧ LegalEvent s.history (.start c a) := by
    intro c left acc hphase
    rw [hphase] at hp
    obtain ⟨_, _, _, hordered, hdeps, hrun, _⟩ := hp
    have hnodup := hdeps.nodup
    rw [hordered, List.map_append, List.nodup_append] at hnodup
    have hnot : c.id ∉ running s.history := fun hid => hnodup.2.2 _ (hrun ▸ hid) c.id (by simp) rfl
    exact ⟨hnot, hnot, fun d hd => hrun ▸ hdeps.ordered _ _ _ hordered d hd⟩
  cases step_cases hs with
  | @started c left acc u hphase =>
    obtain ⟨hnot, hl⟩ := hlegal hphase
    rw [hphase] at hp
    obtain ⟨hstarted, hpending, _, hordered, hdeps, hrun, hsub⟩ := hp
    have hfilter : ∀ ids : List String, c.id ∉ ids → ids.filter (· ≠ c.id) = ids := fun ids hids =>
      List.filter_eq_self.2 fun id hid => by simpa using fun he : id = c.id => hids (he ▸ hid)
    have hacc : c.id ∉ acc.map (·.id) := hrun ▸ hnot
    refine continueStart_inv (h.legal.log hl) hstarted hpending (by simpa [log] using hordered) ?_ hdeps ?_ ?_ (by simp [log])
    · simp [log, hordered]
    · simp only [log, running_snoc, runningAfter, hrun, hfilter _ hacc, List.map_append, List.map_cons, List.map_nil]
    · simp only [log, startOrder_start_ok, List.map_append, List.map_cons, List.map_nil]
      refine List.Sublist.append ?_ (List.Sublist.refl _)
      rw [← hfilter _ hacc]
      exact hsub.filter _
  | @startFailed c left acc e failure hphase =>
    obtain ⟨hnot, hl⟩ := hlegal hphase
    rw [hphase] at hp
    obtain ⟨hstarted, hpending, _, _, _, hrun, hsub⟩ := hp
    have hl' : AllLegal ((s.log (.start c (.error e))).fails c "start" e).history := h.legal.log hl
    refine continueRollback_inv hl' hstarted hpending ⟨?_, ?_, ?_, ?_⟩ (by simp) _ _ (by simp [log, fails])
    · simp [log, fails]
    · simpa [log, fails] using hsub
    · simp [log, fails, runningAfter, hrun]
    · simp [log, fails, runningAfter, hrun]

theorem Inv.step_stopAnswer (h : s.Inv) {a : Answer} (hok : s.Steady (.stopAnswer a)) (hs : s.step (.stopAnswer a) = some s') : s'.Inv := by
  have hp := h.progress
  cases step_cases hs with
  | @stopped c left errors restart u hphase =>
    rw [hphase] at hp
    obtain ⟨hstops, hstopped, hstarted, hrestart⟩ := hp
    have hnext : (s.log (.stop c (.ok u))).Stops s.toStop left (errors ++ []) := hstops.next s.diagnostics (.ok u)
    rw [List.append_nil] at hnext
    exact continueStop_inv (h.legal.log (hstops.legal (.ok u))) hnext hstopped hstarted hrestart (by simp [log])
  | @stopFailed c left errors restart e hphase =>
    rw [hphase] at hp
    obtain ⟨hstops, hstopped, hstarted, hrestart⟩ := hp
    have hl : AllLegal ((s.log (.stop c (.error e))).fails c "stop" e).history := h.legal.log (hstops.legal _)
    exact continueStop_inv hl (hstops.next _ (.error e)) hstopped hstarted hrestart (by simp [log, fails])
  | @rolledBack c left acc failed startFailure errors u hphase =>
    rw [hphase] at hp
    obtain ⟨hstarted, hpending, hstops, hstopped⟩ := hp
    have hnext : (s.log (.stop c (.ok u))).Stops acc left (errors ++ []) := hstops.next s.diagnostics (.ok u)
    rw [List.append_nil] at hnext
    have hl : AllLegal (s.log (.stop c (.ok u))).history := h.legal.log (hstops.legal _)
    exact continueRollback_inv hl hstarted hpending hnext hstopped _ _ (by simp [log])
  | @rollbackFailed c left acc failed startFailure errors e hphase =>
    rw [hphase] at hp
    obtain ⟨hstarted, hpending, hstops, _⟩ := hp
    have hl : AllLegal ((s.log (.stop c (.error e))).fails c "stop" e).history := h.legal.log (hstops.legal _)
    exact continueRollback_inv hl hstarted hpending (hstops.next _ (.error e)) (fun _ => hok _ _ _ _ _ hphase) _ _
      (by simp [log, fails])

theorem Inv.step (h : s.Inv) (hok : s.Steady l) (hs : s.step l = some s') : s'.Inv := by
  have hp := h.progress
  cases l with
  | start =>
    cases step_cases hs with
    | start hphase =>
      rw [hphase] at hp
      exact start_inv h.legal hp
  | stop =>
    cases step_cases hs with
    | stop hphase =>
      rw [hphase] at hp
      exact stop_inv h.legal hp (by simp)
  | validated r => exact h.step_validated hs
  | startAnswer a => exact h.step_startAnswer hs
  | stopAnswer a => exact h.step_stopAnswer hok hs

/-! ## The next stop -/

section Prefix

theorem endStart_extends (r : Except ShellError Unit) : s.history <+: (s.endStart r).history := List.prefix_append _ _

theorem continueStart_extends : s.history <+: (s.continueStart left startedComponents).history := by
  unfold continueStart
  split
  · exact endStart_extends (s := { s with started := true, stopped := false, rollbackPendingComponents := [] }) _
  · exact List.prefix_rfl

theorem continueValidation_extends (failures : List PlatformDiagnosticIssue) :
    s.history <+: (s.continueValidation left failures).history := by
  unfold continueValidation
  split
  · split
    · exact endStart_extends _
    · rename_i ordered _
      exact continueStart_extends (s := { s with orderedComponents := ordered })
  · exact endStart_extends _
  · exact List.prefix_rfl

theorem beginStart_extends : s.history <+: s.beginStart.history := by
  unfold beginStart
  split
  · exact endStart_extends _
  · exact continueValidation_extends _

theorem endStop_extends (restart : Bool) (r : Except ShellError Unit) : s.history <+: (s.endStop restart r).history := by
  unfold endStop
  have hlog : s.history <+: ({ s with phase := .idle }.log (.returned .stop r)).history := List.prefix_append _ _
  cases restart with
  | false => exact hlog
  | true =>
    cases r with
    | ok => exact hlog.trans beginStart_extends
    | error => exact hlog.trans (endStart_extends _)

theorem continueStop_extends (restart : Bool) : s.history <+: (s.continueStop left errors restart).history := by
  unfold continueStop
  split
  · exact endStop_extends (s := { s with rollbackPendingComponents := [], started := false, stopped := true }) _ _
  · exact endStop_extends _ _
  · exact List.prefix_rfl

theorem continueRollback_extends (failed : RegisteredPlatformComponent) (startFailure : ShellError) :
    s.history <+: (s.continueRollback left startedComponents failed startFailure errors).history := by
  unfold continueRollback
  split
  · exact endStart_extends (s := { s with rollbackPendingComponents := [] }) _
  · exact endStart_extends (s := { s with rollbackPendingComponents := _, diagnostics := _ }) _
  · exact List.prefix_rfl

theorem stop_extends (restart : Bool) : s.history <+: (s.stop restart).history := by
  have hlog : s.history <+: (s.log (.called .stop)).history := List.prefix_append _ _
  unfold stop
  dsimp only
  split
  · exact hlog.trans (endStop_extends _ _)
  · exact hlog.trans (continueStop_extends _)

theorem start_extends : s.history <+: s.start.history := by
  have hlog : s.history <+: (s.log (.called .start)).history := List.prefix_append _ _
  unfold start
  dsimp only
  split
  · exact hlog.trans (endStart_extends _)
  · split
    · exact hlog.trans (stop_extends _)
    · exact hlog.trans beginStart_extends

theorem step_extends {l : ShellLabel} (hs : s.step l = some s') : s.history <+: s'.history := by
  have hlog : ∀ e, s.history <+: (s.log e).history := fun e => List.prefix_append _ _
  cases step_cases hs with
  | start _ => exact start_extends
  | stop _ => exact stop_extends _
  | validated _ diagnostics failures _ => exact continueValidation_extends (s := { s with diagnostics }) failures
  | started _ _ => exact (hlog _).trans continueStart_extends
  | startFailed _ _ _ => exact (hlog _).trans (continueRollback_extends (s := (s.log _).fails _ _ _) _ _)
  | stopped _ _ => exact (hlog _).trans (continueStop_extends _)
  | stopFailed _ _ => exact (hlog _).trans (continueStop_extends (s := (s.log _).fails _ _ _) _)
  | rolledBack _ _ => exact (hlog _).trans (continueRollback_extends _ _)
  | rollbackFailed _ _ => exact (hlog _).trans (continueRollback_extends (s := (s.log _).fails _ _ _) _ _)

end Prefix

/-- Since the events `h`, the component has been asked to stop, or no `stop()`
has returned and the next one, or the one in progress, will ask it. -/
def Owed (h : List ShellEvent) (id : String) (s : RuntimePlatformShell) : Prop :=
  ∃ since, s.history = h ++ since ∧ ((∃ c a, c.id = id ∧ .stop c a ∈ since) ∨
    (∀ r, .returned .stop r ∉ since) ∧
      ((s.phase = .idle ∧ id ∈ s.rollbackPendingComponents.map (·.id) ∧ s.stopped = false) ∨
        ∃ left errors restart, s.phase = .stopping left errors restart ∧ id ∈ left.map (·.id)))

theorem continueStop_owed (hid : id ∈ left.map (·.id)) :
    s.continueStop left errors restart = { s with phase := .stopping left errors restart } := by
  unfold continueStop
  split
  · cases hid
  · cases hid
  · rfl

theorem Owed.stop {h since : List ShellEvent} (heq : s.history = h ++ since) (hno : ∀ r, .returned .stop r ∉ since)
    (hid : id ∈ s.rollbackPendingComponents.map (·.id)) (hstopped : s.stopped = false) (restart : Bool) : Owed h id (s.stop restart) := by
  have hp : s.rollbackPendingComponents ≠ [] := by
    rintro he
    rw [he] at hid
    cases hid
  have hleft : id ∈ s.rollbackPendingComponents.reverse.map (·.id) := by rwa [List.map_reverse, List.mem_reverse]
  have hstop : s.stop restart = { s.log (.called .stop) with phase := .stopping s.rollbackPendingComponents.reverse [] restart } := by
    unfold RuntimePlatformShell.stop
    simp only [log, List.isEmpty_eq_false_iff.2 hp, hstopped, Bool.and_false, Bool.or_self, Bool.false_eq_true, ↓reduceIte, Bool.not_false]
    exact continueStop_owed hleft
  rw [hstop]
  refine ⟨since ++ [.called .stop], by simp [log, heq], .inr ⟨fun r => ?_, .inr ⟨_, _, _, rfl, hleft⟩⟩⟩
  simpa using hno r

theorem Owed.step {h : List ShellEvent} (ho : Owed h id s) (hs : s.step l = some s') : Owed h id s' := by
  obtain ⟨since, heq, ⟨c, a, hc, ha⟩ | ⟨hno, ⟨hphase, hid, hstopped⟩ | ⟨left, errors, restart, hphase, hid⟩⟩⟩ := ho
  · obtain ⟨more, hmore⟩ := step_extends hs
    exact ⟨since ++ more, by rw [← hmore, heq, List.append_assoc], .inl ⟨c, a, hc, List.mem_append_left _ ha⟩⟩
  · cases l with
    | start =>
      simp only [RuntimePlatformShell.step, hphase, Option.some.injEq] at hs
      subst hs
      have hlog : (s.log (.called .start)).history = h ++ (since ++ [.called .start]) := by simp [log, heq]
      have hno' : ∀ r, .returned .stop r ∉ since ++ [.called .start] := fun r => by simpa using hno r
      unfold start
      dsimp only
      split
      · refine ⟨since ++ [.called .start] ++ [.returned .start (.ok ())], by simp [endStart, log, heq], .inr ⟨fun r => ?_, .inl ⟨rfl, hid, hstopped⟩⟩⟩
        simpa using hno r
      · have hp : s.rollbackPendingComponents.isEmpty = false := by
          rw [List.isEmpty_eq_false_iff]
          rintro he
          rw [he] at hid
          cases hid
        rw [if_pos (by simp [log, hp])]
        exact Owed.stop hlog hno' hid hstopped true
    | stop =>
      simp only [RuntimePlatformShell.step, hphase, Option.some.injEq] at hs
      subst hs
      exact Owed.stop heq hno hid hstopped false
    | validated r => simp [RuntimePlatformShell.step, hphase] at hs
    | startAnswer a => simp [RuntimePlatformShell.step, hphase] at hs
    | stopAnswer a => simp [RuntimePlatformShell.step, hphase] at hs
  · cases left with
    | nil => cases hid
    | cons c left =>
      cases l with
      | stopAnswer a =>
        have hlogged : s.history ++ [.stop c a] <+: s'.history ∧ (id ∈ left.map (·.id) →
            ∃ errors', s'.phase = .stopping left errors' restart ∧ s'.history = s.history ++ [.stop c a]) := by
          simp only [RuntimePlatformShell.step, hphase] at hs
          cases a with
          | ok u =>
            cases hs
            exact ⟨continueStop_extends (s := s.log (.stop c (.ok u))) _, fun hid => by rw [continueStop_owed hid]; exact ⟨_, rfl, rfl⟩⟩
          | error e =>
            cases hs
            exact ⟨continueStop_extends (s := (s.log (.stop c (.error e))).fails c "stop" e) _,
              fun hid => by rw [continueStop_owed hid]; exact ⟨_, rfl, rfl⟩⟩
        rcases List.mem_cons.1 hid with rfl | hid
        · obtain ⟨more, hmore⟩ := hlogged.1
          exact ⟨since ++ ([.stop c a] ++ more), by rw [← hmore, heq]; simp, .inl ⟨c, a, rfl, by simp⟩⟩
        · obtain ⟨errors', hphase', hhist⟩ := hlogged.2 hid
          exact ⟨since ++ [.stop c a], by rw [hhist, heq, List.append_assoc],
            .inr ⟨fun r => by simpa using hno r, .inr ⟨_, _, _, hphase', hid⟩⟩⟩
      | _ => simp [RuntimePlatformShell.step, hphase] at hs

/-! ## Component safety -/

/-- In every run of a new shell in which no rollback of a shell that counts as
stopped fails, every event is legal, and what a failed `start()` has left
running is asked to stop before the next `stop()` returns. -/
theorem component_safety (cs : List RegisteredPlatformComponent) {ls : List ShellLabel} {s : RuntimePlatformShell}
    (hr : Run step Steady { registeredComponents := cs } ls s) :
    AllLegal s.history ∧
    ∀ (ls₁ ls₂ : List ShellLabel) (s₁ : RuntimePlatformShell) (e : ShellError) (since : List ShellEvent),
      Run step Steady { registeredComponents := cs } ls₁ s₁ → s₁.history.getLast? = some (.returned .start (.error e)) →
      Run step Steady s₁ ls₂ s → s.history = s₁.history ++ since → (∃ r, .returned .stop r ∈ since) →
      ∀ id ∈ running s₁.history, ∃ c a, c.id = id ∧ .stop c a ∈ since := by
  have hinv : ∀ {ls : List ShellLabel} {s : RuntimePlatformShell}, Run step Steady { registeredComponents := cs } ls s → s.Inv :=
    fun hr => hr.keeps Inv (fun _ _ _ hok h hs => h.step hok hs)
      ⟨fun before e after he => by simp at he, ⟨by simp [running], by simp [toStop], by simp [toStop], by simp⟩, by simp⟩
  refine ⟨(hinv hr).legal, fun ls₁ ls₂ s₁ e since hr₁ hlast hr₂ heq ⟨r, hstop⟩ id hid => ?_⟩
  obtain ⟨hphase, hstarted⟩ := (hinv hr₁).lastFailed e hlast
  have hrest := (hinv hr₁).progress
  rw [hphase] at hrest
  have hpending : id ∈ s₁.rollbackPendingComponents.map (·.id) ∧ s₁.stopped = false := by
    have hid' := hrest.runs id hid
    by_cases hp : s₁.rollbackPendingComponents = []
    · rw [toStop_of_neither hp hstarted] at hid'
      cases hid'
    · rw [toStop_of_pending hp] at hid'
      exact ⟨hid', hrest.live (by rw [toStop_of_pending hp]; exact hp)⟩
  have howed : Owed s₁.history id s := hr₂.keeps (Owed s₁.history id) (fun _ _ _ _ h hs => h.step hs)
    ⟨[], by simp, .inr ⟨by simp, .inl ⟨hphase, hpending⟩⟩⟩
  obtain ⟨since', heq', hasked | ⟨hno, _⟩⟩ := howed
  · rw [heq] at heq'
    exact List.append_cancel_left heq' ▸ hasked
  · rw [heq] at heq'
    exact absurd (List.append_cancel_left heq' ▸ hstop) (hno r)

private def twoComponents : RuntimePlatformShell := { registeredComponents := [⟨"b", ["a"]⟩, ⟨"a", []⟩] }

private def valid : ShellLabel := .validated (.ok { ok := true })

/-- `start()`: `a` starts, `b` does not, and `a` does not stop. -/
private def failedStart : List ShellLabel :=
  [.start, valid, valid, .startAnswer (.ok ()), .startAnswer (.error "b"), .stopAnswer (.error "a")]

private def isSteady (s : RuntimePlatformShell) : ShellLabel → Bool
  | .stopAnswer (.error _) => match s.phase with
    | .rollingBack .. => !s.stopped
    | _ => true
  | _ => true

private theorem steady_of (s : RuntimePlatformShell) (l : ShellLabel) (h : isSteady s l = true) : s.Steady l := by
  unfold Steady
  split
  · intro left startedComponents failed startFailure errors hphase
    simpa [isSteady, hphase] using h
  · trivial

private def rolledBack : RuntimePlatformShell := after step twoComponents failedStart

theorem component_safety_rollback : AllLegal (after step rolledBack [.stop, .stopAnswer (.ok ())]).history ∧
    ∃ c a, c.id = "a" ∧ .stop c a ∈ [ShellEvent.called .stop, .stop ⟨"a", []⟩ (.ok ()), .returned .stop (.ok ())] := by
  have hpre : Run step Steady twoComponents failedStart rolledBack := Run.of_passes (p := isSteady) steady_of (by decide)
  have hpost : Run step Steady rolledBack _ (after step rolledBack [.stop, .stopAnswer (.ok ())]) :=
    Run.of_passes (p := isSteady) steady_of (by decide)
  obtain ⟨hlegal, hnext⟩ := component_safety [⟨"b", ["a"]⟩, ⟨"a", []⟩] (hpre.append hpost)
  exact ⟨hlegal, hnext _ _ rolledBack (.invariant "Platform component \"b\" failed to start: b") _ hpre (by decide) hpost
    (by decide) ⟨.ok (), by decide⟩ "a" (by decide)⟩

/-- After a `stop()` the shell counts as stopped, also while the next `start()`
rolls back. What the rollback leaves running is not asked to stop any more, and
is started again. -/
private def restarted : List ShellLabel :=
  [.start, valid, valid, .startAnswer (.ok ()), .startAnswer (.ok ()), .stop, .stopAnswer (.ok ()), .stopAnswer (.ok ())] ++
    failedStart ++ [.stop, .start, valid, valid, .startAnswer (.ok ())]

theorem component_safety_stopped : ¬ ∀ (cs : List RegisteredPlatformComponent) (ls : List ShellLabel) (s : RuntimePlatformShell),
    Run step (fun _ _ => True) { registeredComponents := cs } ls s → AllLegal s.history := by
  intro h
  have hlegal := h _ _ _ (@Run.of_passes _ _ _ _ (fun _ _ => true) (fun _ _ _ => trivial) restarted twoComponents
    (by decide))
  have hstart := hlegal ((after step twoComponents restarted).history.take 18) (.start ⟨"a", []⟩ (.ok ())) [] (by decide)
  exact hstart.1 (by decide)

end RuntimePlatformShell

end Fluo.Runtime