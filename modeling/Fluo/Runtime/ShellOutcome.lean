import Fluo.Runtime.PlatformShell
/-!
# What the platform shell tells its caller

A `start()` that resolves says that every component runs, and a `stop()` that resolves that none does. What the components
have answered to `validate()` is watched beside the shell, for a `start()` must not start anything after a refusal.
-/

namespace Fluo.Runtime.RuntimePlatformShell

open Lib (Run after passes)

/-- All components run. -/
def AllRun (cs : List RegisteredPlatformComponent) (h : List ShellEvent) : Prop := ∀ c ∈ cs, c.id ∈ running h

/-- What a call may tell its caller after the events `h`. -/
def TruthfulEvent (cs : List RegisteredPlatformComponent) (h : List ShellEvent) : ShellEvent → Prop
  | .returned .start (.ok _) => AllRun cs h
  | .returned .stop (.ok _) => running h = []
  | _ => True

/-- Every event of the history was truthful when it happened. -/
def AllTruthful (cs : List RegisteredPlatformComponent) (h : List ShellEvent) : Prop :=
  ∀ before e after, h = before ++ e :: after → TruthfulEvent cs before e

/-- The last `stop()` that has returned has failed. -/
def lastStopFailed (h : List ShellEvent) : Bool := h.foldl (fun failed e => match e with
  | .returned .stop (.ok _) => false
  | .returned .stop (.error _) => true
  | _ => failed) false

/-- The shell, and whether a component has reported to the `start()` in progress that it is not ok, or has thrown. -/
structure Watched where
  shell : RuntimePlatformShell
  notOk : Bool := false

def heard (notOk : Bool) : ShellLabel → Bool
  | .start => false
  | .validated (.ok result) => notOk || !result.ok
  | .validated (.error _) => true
  | .stop | .startAnswer _ | .stopAnswer _ => notOk

def Watched.step (w : Watched) (l : ShellLabel) : Option Watched :=
  (w.shell.step l).map fun shell => { shell, notOk := heard w.notOk l }

/-- Where the flags of the shell and the answers of the components can be relied on: no rollback fails while the shell counts
as stopped; nobody calls `start()` on a shell that counts as started after a `stop()` that has failed; and a component that
is not ok reports an issue. -/
def Reliable (w : Watched) (l : ShellLabel) : Prop :=
  w.shell.Steady l ∧ match l with
    | .start => w.shell.started = true → lastStopFailed w.shell.history = false
    | .validated (.ok result) => result.ok = false → result.issues ≠ []
    | _ => True

/-! ## Histories -/

section Histories
variable (h : List ShellEvent) (c : RegisteredPlatformComponent) (a : Answer) (m : ShellMethod) (r : Except ShellError Unit)

@[simp] theorem lastStopFailed_returned_start : lastStopFailed (h ++ [.returned .start r]) = lastStopFailed h := by simp [lastStopFailed]
@[simp] theorem lastStopFailed_stop_error (e : ShellError) : lastStopFailed (h ++ [.returned .stop (.error e)]) = true := by
  simp [lastStopFailed]

theorem AllTruthful.log {cs : List RegisteredPlatformComponent} {h : List ShellEvent} {e : ShellEvent} (ht : AllTruthful cs h)
    (he : TruthfulEvent cs h e) : AllTruthful cs (h ++ [e]) := by
  intro before e' after heq
  rcases List.eq_nil_or_concat after with rfl | ⟨init, last, rfl⟩
  · obtain ⟨rfl, hee⟩ := List.append_inj' heq rfl
    cases hee
    exact he
  · have heq' : h ++ [e] = (before ++ e' :: init) ++ [last] := by simpa using heq
    exact ht before e' init (List.append_inj' heq' rfl).1

end Histories

/-! ## Invariant -/

variable {cs : List RegisteredPlatformComponent} {notOk : Bool}

def Knows (cs : List RegisteredPlatformComponent) (notOk : Bool) (s : RuntimePlatformShell) : Phase → Prop
  | .idle => s.started = true → lastStopFailed s.history = false → AllRun cs s.history
  | .validating _ failures => notOk = true → failures ≠ []
  | .starting _ _ => notOk = false ∧ ∀ c ∈ cs, c.id ∈ s.orderedComponents.map (·.id)
  | .rollingBack .. => True
  | .stopping _ _ restart => restart = true → notOk = false

structure Told (cs : List RegisteredPlatformComponent) (notOk : Bool) (s : RuntimePlatformShell) : Prop where
  truthful : AllTruthful cs s.history
  registered : s.registeredComponents = cs
  knows : s.Knows cs notOk s.phase

variable {s s' : RuntimePlatformShell} {all left startedComponents : List RegisteredPlatformComponent} {errors : List String}

theorem endStart_told (ht : AllTruthful cs s.history) (hcs : s.registeredComponents = cs) {r : Except ShellError Unit}
    (hok : r = .ok () → AllRun cs s.history) (hidle : s.started = true → lastStopFailed s.history = false → AllRun cs s.history) :
    Told cs notOk (s.endStart r) := by
  refine ⟨ht.log ?_, hcs, fun hstarted hlast => ?_⟩
  · cases r with
    | ok u => exact hok rfl
    | error e => trivial
  · have hrun := hidle hstarted (by simpa [endStart, log] using hlast)
    intro c hc
    simpa [endStart, log, runningAfter] using hrun c hc

theorem continueStart_told (ht : AllTruthful cs s.history) (hcs : s.registeredComponents = cs) (hno : notOk = false)
    (hordered : s.orderedComponents = startedComponents ++ left) (hrun : running s.history = startedComponents.map (·.id))
    (hcover : ∀ c ∈ cs, c.id ∈ s.orderedComponents.map (·.id)) : Told cs notOk (s.continueStart left startedComponents) := by
  cases left with
  | nil =>
    have hall : AllRun cs s.history := fun c hc => by simpa [hrun, hordered] using hcover c hc
    exact endStart_told (r := .ok ()) (s := { s with started := true, stopped := false, rollbackPendingComponents := [] }) ht hcs
      (fun _ => hall) fun _ _ => hall
  | cons c left => exact ⟨ht, hcs, hno, hcover⟩

theorem continueValidation_told (ht : AllTruthful cs s.history) (hcs : s.registeredComponents = cs) (hdown : s.Down)
    {failures : List PlatformDiagnosticIssue} (hfailures : notOk = true → failures ≠ []) : Told cs notOk (s.continueValidation left failures) := by
  have herr (e : ShellError) : Told cs notOk (s.endStart (.error e)) :=
    endStart_told ht hcs (by simp) fun hstarted => by simp [hdown.started] at hstarted
  unfold continueValidation
  split
  · have hno : notOk = false := by simpa using hfailures
    split
    · exact herr _
    · rename_i ordered hordered
      obtain ⟨-, hmem⟩ := orderByDependency_ok hordered
      exact continueStart_told (s := { s with orderedComponents := ordered }) ht hcs hno rfl hdown.nothing fun c hc => hmem c (hcs ▸ hc)
  · exact herr _
  · exact ⟨ht, hcs, hfailures⟩

theorem beginStart_told (ht : AllTruthful cs s.history) (hcs : s.registeredComponents = cs) (hdown : s.Down) (hno : notOk = false) :
    Told cs notOk s.beginStart := by
  unfold beginStart
  split
  · exact endStart_told ht hcs (by simp) fun hstarted => by simp [hdown.started] at hstarted
  · exact continueValidation_told ht hcs hdown (by simp [hno])

theorem endStop_told (ht : AllTruthful cs s.history) (hcs : s.registeredComponents = cs) {restart : Bool} {r : Except ShellError Unit}
    (hok : r = .ok () → running s.history = [] ∧ s.started = false ∧ (restart = true → s.Down)) (herr : restart = true → s.started = false)
    (hno : restart = true → notOk = false) : Told cs notOk (s.endStop restart r) := by
  have ht' : AllTruthful cs (s.history ++ [.returned .stop r]) := by
    refine ht.log ?_
    cases r with
    | ok u => exact (hok rfl).1
    | error e => trivial
  unfold endStop
  cases restart with
  | false =>
    refine ⟨ht', hcs, fun hstarted hlast => ?_⟩
    cases r with
    | ok u =>
      have hdown := (hok rfl).2.1
      simp [log, hdown] at hstarted
    | error e => simp [log] at hlast
  | true =>
    cases r with
    | ok u =>
      obtain ⟨hnothing, -, hdown⟩ := hok rfl
      have hdown := hdown rfl
      exact beginStart_told ht' hcs ⟨hdown.started, hdown.pending, by simpa [log, runningAfter] using hdown.nothing, hdown.registered⟩ (hno rfl)
    | error e =>
      have hstarted : ¬s.started = true := by simp [herr rfl]
      exact endStart_told (s := { s with phase := .idle }.log (.returned .stop (.error e))) (r := .error e) ht' hcs (by simp)
        fun hs => absurd hs hstarted

theorem continueStop_told (ht : AllTruthful cs s.history) (hcs : s.registeredComponents = cs) (h : s.Stops all left errors) {restart : Bool}
    (hrestart : restart = true → s.started = false ∧ s.registeredComponents ≠ []) (hno : restart = true → notOk = false) :
    Told cs notOk (s.continueStop left errors restart) := by
  unfold continueStop
  split
  · exact endStop_told (s := { s with rollbackPendingComponents := [], started := false, stopped := true }) ht hcs
      (fun _ => ⟨h.done, rfl, fun hr => ⟨rfl, rfl, h.done, (hrestart hr).2⟩⟩) (fun _ => rfl) hno
  · exact endStop_told ht hcs (by simp) (fun hr => (hrestart hr).1) hno
  · exact ⟨ht, hcs, hno⟩

theorem continueRollback_told (ht : AllTruthful cs s.history) (hcs : s.registeredComponents = cs) (hstarted : s.started = false)
    (failed : RegisteredPlatformComponent) (startFailure : ShellError) :
    Told cs notOk (s.continueRollback left startedComponents failed startFailure errors) := by
  unfold continueRollback
  split
  · exact endStart_told (s := { s with rollbackPendingComponents := [] }) ht hcs (by simp) (by simp [hstarted])
  · generalize s.diagnostics ++ _ = diagnostics
    exact endStart_told (s := { s with rollbackPendingComponents := startedComponents, diagnostics }) ht hcs (by simp) (by simp [hstarted])
  · exact ⟨ht, hcs, trivial⟩

theorem stop_told (ht : AllTruthful cs s.history) (hcs : s.registeredComponents = cs) (hrest : s.Rest) {restart : Bool}
    (hrestart : restart = true → s.started = false ∧ s.rollbackPendingComponents ≠ [] ∧ s.registeredComponents ≠ [])
    (hno : restart = true → notOk = false) : Told cs notOk (s.stop restart) := by
  have hrest' := hrest.log s.phase (e := .called .stop) rfl (by simp)
  have ht' : AllTruthful cs (s.log (.called .stop)).history := ht.log trivial
  have hstops : lastStops (s.log (.called .stop)).history = [] := by simp [log]
  have hrestart' : restart = true → (s.log (.called .stop)).started = false ∧
      (s.log (.called .stop)).rollbackPendingComponents ≠ [] ∧ (s.log (.called .stop)).registeredComponents ≠ [] := hrestart
  have hcs' : (s.log (.called .stop)).registeredComponents = cs := hcs
  unfold stop
  dsimp only
  generalize s.log (.called .stop) = t at *
  change t.Rest at hrest'
  split
  · rename_i hearly
    have htoStop : t.toStop = [] := by
      by_contra hne
      have hstopped := hrest'.live hne
      simp only [hstopped, Bool.or_false, Bool.and_eq_true, Bool.not_eq_true', List.isEmpty_iff] at hearly
      exact hne (toStop_of_neither hearly.2 hearly.1)
    have hnothing : running t.history = [] := by
      refine List.eq_nil_iff_forall_not_mem.2 fun id hid => ?_
      have hmem := hrest'.runs id hid
      simp [htoStop] at hmem
    have hstarted : t.started = false := by
      by_contra hstarted
      rw [Bool.not_eq_false] at hstarted
      obtain ⟨hpending, hordered⟩ := hrest'.started hstarted
      rw [toStop_of_started hpending hstarted] at htoStop
      exact hordered htoStop
    refine endStop_told ht' hcs' (fun _ => ⟨hnothing, hstarted, fun hr => ?_⟩) (fun _ => hstarted) hno
    -- a restart has something to stop
    obtain ⟨-, hpending, -⟩ := hrestart' hr
    rw [toStop_of_pending hpending] at htoStop
    exact absurd htoStop hpending
  · rename_i hgoes
    obtain ⟨htoStop, -⟩ := hrest'.batch (by simpa using hgoes)
    rw [htoStop]
    exact continueStop_told ht' hcs' (hrest'.stops hstops) (fun hr => ⟨(hrestart' hr).1, (hrestart' hr).2.2⟩) hno

theorem start_told (h : Told cs notOk s) (hrest : s.Rest) (hidle : s.phase = .idle)
    (hok : s.started = true → lastStopFailed s.history = false) : Told cs false s.start := by
  have hknows := h.knows
  rw [hidle] at hknows
  have hall : s.started = true → AllRun cs (s.log (.called .start)).history := fun hstarted c hc => by
    simpa [log, runningAfter] using hknows hstarted (hok hstarted) c hc
  have hrest' := hrest.log s.phase (e := .called .start) rfl (by simp [startOrder])
  have ht' : AllTruthful cs (s.log (.called .start)).history := h.truthful.log trivial
  have hcs' : (s.log (.called .start)).registeredComponents = cs := h.registered
  have hstarted' : (s.log (.called .start)).started = s.started := rfl
  unfold start
  dsimp only
  rw [← hstarted'] at hall
  generalize s.log (.called .start) = t at *
  change t.Rest at hrest'
  split
  · rename_i hearly
    refine endStart_told ht' hcs' (fun _ => ?_) fun hstarted _ => hall hstarted
    rw [Bool.or_eq_true, List.isEmpty_iff] at hearly
    rcases hearly with hnone | hstarted
    · intro c hc
      rw [← hcs', hnone] at hc
      cases hc
    · exact hall hstarted
  · rename_i hno
    simp only [Bool.or_eq_true, List.isEmpty_iff, not_or, Bool.not_eq_true] at hno
    split
    · rename_i hp
      exact stop_told ht' hcs' hrest' (fun _ => ⟨hno.2, by simpa using hp, hno.1⟩) fun _ => rfl
    · rename_i hp
      have hpending : t.rollbackPendingComponents = [] := by simpa using hp
      refine beginStart_told ht' hcs' ⟨hno.2, hpending, ?_, hno.1⟩ rfl
      refine List.eq_nil_iff_forall_not_mem.2 fun id hid => ?_
      have hmem := hrest'.runs id hid
      rw [toStop_of_neither hpending hno.2] at hmem
      cases hmem

/-! ## Steps -/

theorem validated_told (h : Told cs notOk s) (hi : s.Inv) {r : Except String PlatformValidationResult}
    (hok : ∀ result, r = .ok result → result.ok = false → result.issues ≠ []) (hs : s.step (.validated r) = some s') :
    Told cs (heard notOk (.validated r)) s' := by
  have hknows := h.knows
  have hp := hi.progress
  cases hphase : s.phase with
  | validating components failures =>
    rw [hphase] at hp hknows
    have hdown (diagnostics : List PlatformDiagnosticIssue) (phase : Phase) : ({ s with diagnostics, phase }).Down :=
      ⟨hp.started, hp.pending, hp.nothing, hp.registered⟩
    cases components with
    | nil => simp [RuntimePlatformShell.step, hphase] at hs
    | cons c left =>
      simp only [RuntimePlatformShell.step, hphase] at hs
      cases r with
      | error e =>
        cases hs
        refine continueValidation_told (s := s.fails c "validate" e) h.truthful h.registered (hdown _ _) fun _ => ?_
        exact List.append_ne_nil_of_right_ne_nil _ (List.cons_ne_nil _ _)
      | ok result =>
        dsimp only at hs
        split at hs <;> cases hs
        · rename_i hrefused
          generalize s.diagnostics ++ result.warnings ++ result.issues = diagnostics
          refine continueValidation_told (s := { s with diagnostics, phase := _ }) h.truthful h.registered (hdown _ _)
            fun _ => List.append_ne_nil_of_right_ne_nil _ ?_
          simp only [Bool.or_eq_true, Bool.not_eq_true'] at hrefused
          rcases hrefused with hrefused | hany
          · exact hok result rfl hrefused
          · rintro hnil
            simp [hnil] at hany
        · rename_i haccepted
          simp only [Bool.or_eq_true, not_or, Bool.not_eq_true, Bool.not_eq_false'] at haccepted
          generalize s.diagnostics ++ result.warnings = diagnostics
          refine continueValidation_told (s := { s with diagnostics, phase := _ }) h.truthful h.registered (hdown _ _) fun hno => ?_
          rw [heard, haccepted.1, Bool.not_true, Bool.or_false] at hno
          exact hknows hno
  | _ => simp [RuntimePlatformShell.step, hphase] at hs

theorem startAnswer_told (h : Told cs notOk s) (hi : s.Inv) {a : Answer} (hs : s.step (.startAnswer a) = some s') : Told cs notOk s' := by
  have hknows := h.knows
  have hp := hi.progress
  cases step_cases hs with
  | @started c left acc u hphase =>
    rw [hphase] at hp hknows
    obtain ⟨-, -, -, hordered, hdeps, hrun, -⟩ := hp
    have hnodup := hdeps.nodup
    rw [hordered, List.map_append, List.nodup_append] at hnodup
    have hnew : ∀ id ∈ acc.map (·.id), id ≠ c.id := fun id hid => hnodup.2.2 id hid c.id (by simp)
    refine continueStart_told (s := s.log (.start c (.ok u))) (h.truthful.log trivial) h.registered hknows.1 (by simpa [log] using hordered) ?_ hknows.2
    have hfilter : (acc.map (·.id)).filter (· ≠ c.id) = acc.map (·.id) := List.filter_eq_self.2 fun id hid => by simpa using hnew id hid
    simp only [log, running_snoc, runningAfter, hrun, hfilter, List.map_append, List.map_cons, List.map_nil]
  | @startFailed c left acc e failure hphase =>
    rw [hphase] at hp
    exact continueRollback_told (s := (s.log (.start c (.error e))).fails c "start" e) (h.truthful.log trivial) h.registered hp.1 _ _

theorem stopAnswer_told (h : Told cs notOk s) (hi : s.Inv) {a : Answer} (hs : s.step (.stopAnswer a) = some s') : Told cs notOk s' := by
  have hknows := h.knows
  have hp := hi.progress
  cases step_cases hs with
  | @stopped c left errors restart u hphase =>
    rw [hphase] at hp hknows
    obtain ⟨hstops, -, -, hrestart⟩ := hp
    have hnext : (s.log (.stop c (.ok u))).Stops s.toStop left (errors ++ []) := hstops.next s.diagnostics (.ok u)
    rw [List.append_nil] at hnext
    exact continueStop_told (s := s.log (.stop c (.ok u))) (h.truthful.log trivial) h.registered hnext hrestart hknows
  | @stopFailed c left errors restart e hphase =>
    rw [hphase] at hp hknows
    obtain ⟨hstops, -, -, hrestart⟩ := hp
    exact continueStop_told (s := (s.log (.stop c (.error e))).fails c "stop" e) (h.truthful.log trivial) h.registered
      (hstops.next _ (.error e)) hrestart hknows
  | @rolledBack c left acc failed startFailure errors u hphase =>
    rw [hphase] at hp
    exact continueRollback_told (s := s.log (.stop c (.ok u))) (h.truthful.log trivial) h.registered hp.1 _ _
  | @rollbackFailed c left acc failed startFailure errors e hphase =>
    rw [hphase] at hp
    exact continueRollback_told (s := (s.log (.stop c (.error e))).fails c "stop" e) (h.truthful.log trivial) h.registered hp.1 _ _

structure Watched.Inv (cs : List RegisteredPlatformComponent) (w : Watched) : Prop where
  shell : w.shell.Inv
  told : Told cs w.notOk w.shell

theorem Watched.inv_step {w w' : Watched} {l : ShellLabel} (hok : Reliable w l) (h : w.Inv cs) (hs : w.step l = some w') : w'.Inv cs := by
  obtain ⟨shell, hshell, rfl⟩ := Option.map_eq_some_iff.1 hs
  refine ⟨h.shell.step hok.1 hshell, ?_⟩
  have hp := h.shell.progress
  cases l with
  | start =>
    cases step_cases hshell with
    | start hphase =>
      rw [hphase] at hp
      exact start_told h.told hp hphase hok.2
  | stop =>
    cases step_cases hshell with
    | stop hphase =>
      rw [hphase] at hp
      exact stop_told h.told.truthful h.told.registered hp (by simp) (by simp)
  | validated r =>
    exact validated_told h.told h.shell (fun result hresult => by subst hresult; exact hok.2) hshell
  | startAnswer a => exact startAnswer_told h.told h.shell hshell
  | stopAnswer a => exact stopAnswer_told h.told h.shell hshell

/-! ## Outcomes -/

/-- In every run of `start()` and `stop()` calls of a new shell whose steps are all reliable: a `start()` that has resolved found
every component running and a `stop()` none, and as long as components are started none has reported that it is not ok. -/
theorem shell_outcomes (cs : List RegisteredPlatformComponent) (ls : List ShellLabel) (w : Watched)
    (run : Run Watched.step Reliable { shell := { registeredComponents := cs } } ls w) :
    AllTruthful cs w.shell.history ∧ ∀ left startedComponents, w.shell.phase = .starting left startedComponents → w.notOk = false := by
  have hinv : w.Inv cs := run.keeps (Watched.Inv cs) (fun _ _ _ hok h hs => Watched.inv_step hok h hs)
    ⟨⟨fun before e after he => by simp at he, ⟨by simp [running], by simp [toStop], by simp [toStop], by simp⟩, by simp⟩,
      ⟨fun before e after he => by simp at he, rfl, fun hstarted => by simp at hstarted⟩⟩
  refine ⟨hinv.told.truthful, fun left startedComponents hphase => ?_⟩
  have hknows := hinv.told.knows
  rw [hphase] at hknows
  exact hknows.1

/-- Two components, the second before the first. -/
private def pair : List RegisteredPlatformComponent := [⟨"b", ["a"]⟩, ⟨"a", []⟩]

private def accepted : ShellLabel := .validated (.ok { ok := true })

private def steadily (w : Watched) : ShellLabel → Bool
  | .stopAnswer (.error _) => match w.shell.phase with
    | .rollingBack .. => !w.shell.stopped
    | _ => true
  | _ => true

private def listens (w : Watched) : ShellLabel → Bool
  | .start => !w.shell.started || !lastStopFailed w.shell.history
  | .validated (.ok result) => result.ok || !result.issues.isEmpty
  | _ => true

private theorem reliable_of (w : Watched) (l : ShellLabel) (h : (steadily w l && listens w l) = true) : Reliable w l := by
  obtain ⟨hsteady, hlistens⟩ := (Bool.and_eq_true ..).mp h
  refine ⟨?_, ?_⟩
  · cases l with
    | stopAnswer a =>
      cases a with
      | ok _ => trivial
      | error e =>
        intro left startedComponents failed startFailure errors hphase
        simpa [steadily, hphase] using hsteady
    | _ => trivial
  · cases l with
    | start =>
      intro hstarted
      simpa [listens, hstarted] using hlistens
    | validated r =>
      cases r with
      | ok result =>
        intro hok hissues
        simp [listens, hok, hissues] at hlistens
      | error e => trivial
    | _ => trivial

/-- A `stop()` that fails is repeated before the next `start()`. -/
theorem shell_outcomes_again : ∃ w : Watched, AllTruthful pair w.shell.history ∧ w.shell.stopped = true :=
  ⟨after Watched.step { shell := { registeredComponents := pair } }
      [.start, accepted, accepted, .startAnswer (.ok ()), .startAnswer (.ok ()), .stop, .stopAnswer (.ok ()), .stopAnswer (.error "a"), .stop,
        .stopAnswer (.ok ()), .stopAnswer (.ok ())],
    (shell_outcomes pair _ _ (Run.of_passes (p := fun w l => steadily w l && listens w l) reliable_of (by decide))).1, by decide⟩

/-- The shell counts as started after a `stop()` that has failed, and the next `start()` resolves at once. -/
private def halfStopped : List ShellLabel :=
  [.start, accepted, accepted, .startAnswer (.ok ()), .startAnswer (.ok ()), .stop, .stopAnswer (.ok ()), .stopAnswer (.error "a"), .start]

/-- The shell counts as stopped while a rollback fails, and the next `stop()` resolves at once. -/
private def keptRunning : List ShellLabel :=
  [.start, accepted, accepted, .startAnswer (.ok ()), .startAnswer (.ok ()), .stop, .stopAnswer (.ok ()), .stopAnswer (.ok ()),
    .start, accepted, accepted, .startAnswer (.ok ()), .startAnswer (.error "b"), .stopAnswer (.error "a"), .stop]

/-- A refusal without an issue is no failure. -/
private def refused : List ShellLabel := [.start, .validated (.ok { ok := false }), accepted]

private theorem run_of (ls : List ShellLabel) (h : passes Watched.step (fun _ _ => true) { shell := { registeredComponents := pair } } ls = true) :
    Run Watched.step (fun _ _ => True) { shell := { registeredComponents := pair } } ls (after Watched.step { shell := { registeredComponents := pair } } ls) :=
  Run.of_passes (p := fun _ _ => true) (fun _ _ _ => trivial) h

/-- Each of the three outcomes is told when it is not true. -/
theorem shell_outcomes_counterexample :
    (∃ w, Run Watched.step (fun _ _ => True) { shell := { registeredComponents := pair } } halfStopped w ∧
      ∃ before, w.shell.history = before ++ [.returned .start (.ok ())] ∧ ¬AllRun pair before) ∧
    (∃ w, Run Watched.step (fun _ _ => True) { shell := { registeredComponents := pair } } keptRunning w ∧
      ∃ before, w.shell.history = before ++ [.returned .stop (.ok ())] ∧ running before ≠ []) ∧
    ∃ w, Run Watched.step (fun _ _ => True) { shell := { registeredComponents := pair } } refused w ∧
      (∃ left startedComponents, w.shell.phase = .starting left startedComponents) ∧ w.notOk = true := by
  refine ⟨⟨_, run_of halfStopped (by decide), (after Watched.step { shell := { registeredComponents := pair } } halfStopped).shell.history.dropLast,
      by decide, fun hall => ?_⟩,
    ⟨_, run_of keptRunning (by decide), (after Watched.step { shell := { registeredComponents := pair } } keptRunning).shell.history.dropLast,
      by decide, by decide⟩,
    _, run_of refused (by decide), ⟨_, _, rfl⟩, rfl⟩
  exact absurd (hall ⟨"b", ["a"]⟩ (by decide)) (by decide)

end Fluo.Runtime.RuntimePlatformShell
