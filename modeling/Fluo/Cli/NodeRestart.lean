import Fluo.Cli.ContentGate
import Fluo.Lib.Runs
import Fluo.Lib.Slots
/-!
# Restarts in the development runner

`runNodeRestartRunner`: a change that the watchers report, and the gate confirms, stops the app child, and its close starts the
next one. Callbacks run to their end; only the disk changes between the start of a child and the commit of the baseline.
-/

namespace Fluo.Cli.NodeRestart
open Fluo.Lib

inductive ChildPhase
  /-- The spawn has failed, which is not reported yet. -/
  | failing
  | failed
  | running
  | exited
  /-- `close` was emitted. -/
  | closed
deriving DecidableEq

structure Child (Content : Type) where
  /-- The project when it was started. -/
  startedOn : Entry Content
  phase : ChildPhase
  /-- None after a signal. -/
  exitCode : Option Int := none
  killed : Bool := false
  settled : Bool := false
  /-- What `scheduleRestart` listens to. -/
  restartsOnClose : Bool := false
  /-- What `stop` listens to. -/
  resolvesOnClose : Bool := false

structure State (Content Digest : Type) where
  disk : Entry Content
  hashes : Path → Option Digest
  /-- The last one is `child`. -/
  children : List (Child Content) := []
  pendingRestartPaths : List Path := []
  /-- Where the events of the batch were. -/
  reported : List Path := []
  restartAfterClosePaths : List Path := []
  restartTimer : Bool := false
  restarting : Bool := false
  stopping : Bool := false
  cleanedUp : Bool := false
  /-- The exit code that the promise has resolved with. -/
  resolved : Option Int := none
  /-- A child was started, and these are to be committed. -/
  committing : List Path := []

inductive Watcher
  /-- A target that is a directory. -/
  | recursive (target : Path)
  | file (target : Path)
  | fallback (directory : Path)

/-- Where the event is. -/
def Watcher.eventPath (filename : Option Path) : Watcher → Path
  | .recursive target => target ++ filename.getD []
  | .file target => target
  | .fallback directory => directory ++ filename.getD []

/-- What the listener schedules: without a name, a target that is a directory has its own name put behind it. -/
def Watcher.changedPath (filename : Option Path) : Watcher → Path
  | .recursive target => target ++ filename.getD target.getLast?.toList
  | .file target => target
  | .fallback directory => directory ++ filename.getD []

inductive Label (Content : Type)
  | disk (disk : Entry Content)
  | watchEvent (watcher : Watcher) (filename : Option Path)
  /-- The debounce is over; `spawns` is whether a child that is started is spawned. -/
  | expire (spawns : Bool)
  | exit (m : Nat) (code : Option Int)
  | close (m : Nat) (spawns : Bool)
  | error (m : Nat)
  | signal
  | commit

def Child.closed {Content : Type} (c : Child Content) : Child Content := { c with phase := .closed, settled := true }

def stopChild {Content : Type} (c : Child Content) : Child Content := if c.exitCode = none then { c with killed := true } else c

section
variable {Content : Type} (c : Child Content)

@[simp] theorem stopChild_phase : (stopChild c).phase = c.phase := by
  unfold stopChild
  split <;> rfl

@[simp] theorem stopChild_exitCode : (stopChild c).exitCode = c.exitCode := by
  unfold stopChild
  split <;> rfl

@[simp] theorem stopChild_settled : (stopChild c).settled = c.settled := by
  unfold stopChild
  split <;> rfl

@[simp] theorem stopChild_restartsOnClose : (stopChild c).restartsOnClose = c.restartsOnClose := by
  unfold stopChild
  split <;> rfl

@[simp] theorem stopChild_resolvesOnClose : (stopChild c).resolvesOnClose = c.resolvesOnClose := by
  unfold stopChild
  split <;> rfl

variable {c}

theorem stopChild_killed (h : c.exitCode = none) : (stopChild c).killed = true := by simp [stopChild, h]

end

namespace State
variable {Content Digest : Type}

/-- Only the first counts. -/
def resolve (s : State Content Digest) (code : Int) : State Content Digest := { s with resolved := s.resolved <|> some code }

def cleanup (s : State Content Digest) : State Content Digest :=
  { s with cleanedUp := true, restartTimer := false, pendingRestartPaths := [], reported := [], restartAfterClosePaths := [] }

def setChild (s : State Content Digest) (m : Nat) (c : Child Content) : State Content Digest := { s with children := s.children.set m c }

/-- With the baseline that is committed after it. -/
def startChild (s : State Content Digest) (spawns : Bool) (paths : List Path) : State Content Digest :=
  { s with children := s.children ++ [{ startedOn := s.disk, phase := if spawns then .running else .failing }], committing := paths }

def scheduleRestart (s : State Content Digest) (eventPath changedPath : Path) : State Content Digest :=
  { s with pendingRestartPaths := s.pendingRestartPaths ++ [changedPath], reported := s.reported ++ [eventPath], restartTimer := true }

def takeBatch (s : State Content Digest) : State Content Digest :=
  { s with pendingRestartPaths := [], reported := [], restartTimer := false }

/-- A batch that the gate has let through. -/
def restart (s : State Content Digest) (restartPaths : List Path) (spawns : Bool) : State Content Digest :=
  match s.children.getLast? with
  | some previousChild =>
    let s := { s with restartAfterClosePaths := s.restartAfterClosePaths ++ restartPaths }
    if s.restarting then s
    else State.setChild { s with restarting := true } (s.children.length - 1) (stopChild { previousChild with restartsOnClose := true })
  | none => { s.startChild spawns restartPaths with restarting := false }

/-- What `startChild` listens to. -/
def settleOnClose (s : State Content Digest) (c : Child Content) : State Content Digest :=
  if c.settled || s.restarting then s else s.cleanup.resolve (c.exitCode.getD (if s.stopping then 0 else 1))

def restartOnClose (s : State Content Digest) (c : Child Content) (spawns : Bool) : State Content Digest :=
  if c.restartsOnClose then
    let committed := s.restartAfterClosePaths
    let s := { s with restartAfterClosePaths := [], restarting := false }
    if s.stopping then s else s.startChild spawns committed
  else s

def resolveOnClose (s : State Content Digest) (c : Child Content) : State Content Digest :=
  if c.resolvesOnClose then s.resolve (c.exitCode.getD 0) else s

def close (s : State Content Digest) (m : Nat) (c : Child Content) (spawns : Bool) : State Content Digest :=
  (((s.setChild m c.closed).settleOnClose c).restartOnClose c spawns).resolveOnClose c

def error (s : State Content Digest) (m : Nat) (c : Child Content) : State Content Digest :=
  if c.settled then s.setChild m { c with phase := .failed }
  else { s.setChild m { c with phase := .failed, settled := true } with restarting := false }.cleanup.resolve 1

def stop (s : State Content Digest) : State Content Digest :=
  let s := State.cleanup { s with stopping := true }
  match s.children.getLast? with
  | some c =>
    match c.exitCode with
    | some code => s.resolve code
    | none => s.setChild (s.children.length - 1) (stopChild { c with resolvesOnClose := true })
  | none => s.resolve 0

end State

section
variable {Content Digest : Type} [DecidableEq Digest] (digest : Content → Digest) (ignorePatterns : List Text)

def State.expire (s : State Content Digest) (spawns : Bool) : State Content Digest :=
  if hasMeaningfulChange digest ignorePatterns s.disk s.hashes s.pendingRestartPaths then s.takeBatch.restart s.pendingRestartPaths spawns
  else s.takeBatch

def step (s : State Content Digest) : Label Content → Option (State Content Digest)
  | .disk disk => some { s with disk }
  | .commit =>
    if s.committing = [] then none
    else some { s with hashes := commitBaseline digest ignorePatterns s.disk s.committing s.hashes, committing := [] }
  | .watchEvent watcher filename =>
    if s.cleanedUp = false ∧ s.committing = [] then some (s.scheduleRestart (watcher.eventPath filename) (watcher.changedPath filename)) else none
  | .expire spawns => if s.restartTimer = true ∧ s.committing = [] then some (s.expire digest ignorePatterns spawns) else none
  | .signal => if s.cleanedUp = false ∧ s.committing = [] then some s.stop else none
  | .exit m code => do
    let c ← s.children[m]?
    if c.phase = .running ∧ s.committing = [] then some (s.setChild m { c with phase := .exited, exitCode := code }) else none
  | .close m spawns => do
    let c ← s.children[m]?
    if (c.phase = .exited ∨ c.phase = .failed) ∧ s.committing = [] then some (s.close m c spawns) else none
  | .error m => do
    let c ← s.children[m]?
    if c.phase = .failing ∧ s.committing = [] then some (s.error m c) else none

def getWatchTargets (disk : Entry Content) : List Path :=
  [["src".toList], [".env".toList], ["package.json".toList], ["tsconfig.json".toList], ["tsconfig.build.json".toList]].filter
    fun target => (disk.stat target).isSome

/-- The baseline of the targets is committed on one disk, and the first child started on the next. -/
def init (before disk : Entry Content) (spawns : Bool) : State Content Digest :=
  State.startChild
    { disk, hashes := commitBaseline digest ignorePatterns before (getWatchTargets before) fun _ => none } spawns []

/-! ## What supervision promises -/

/-- Some file that is not ignored, at or below a path that the batch reports, is not as it was when the child was started. -/
def ReportsChange (s : State Content Digest) : Prop :=
  ∃ p ∈ s.reported, ∃ q, p <+: q ∧ shouldIgnorePath ignorePatterns q = false ∧
    ∃ c, s.children.getLast? = some c ∧ c.startedOn.contentAt q ≠ s.disk.contentAt q

/-- A child was started after child `m`, which is still on its way out until then; or the runner is stopping. -/
def Replaced (m : Nat) (s : State Content Digest) : Prop :=
  m + 1 < s.children.length ∨ s.stopping = true ∨
    ∃ c, s.children[m]? = some c ∧ c.phase ≠ .closed ∧ (c.phase = .running → c.killed = true)

/-- In a state of a run, with the steps that it goes on with under `ok`. -/
structure Supervised (ok : State Content Digest → Label Content → Prop) (s : State Content Digest) : Prop where
  alive    : ∀ (i j : Nat) (c d : Child Content), s.children[i]? = some c → s.children[j]? = some d → c.phase = .running → d.phase = .running → i = j
  started  : ∀ l s', ok s l → step digest ignorePatterns s l = some s' → s.children.length < s'.children.length → s.stopping = false ∧ s.resolved = none
  replaced : ∀ spawns s' ls s'', ok s (.expire spawns) → step digest ignorePatterns s (.expire spawns) = some s' → ReportsChange ignorePatterns s →
    Run (step digest ignorePatterns) ok s' ls s'' → Replaced (s.children.length - 1) s''

/-- A path that the batch has scheduled, or one below it: a file, or the path itself with nothing there, that was recorded otherwise. -/
def SeesChange (s : State Content Digest) : Prop :=
  ∃ p ∈ s.pendingRestartPaths, ∃ q, p <+: q ∧ shouldIgnorePath ignorePatterns q = false ∧
    ((s.disk.contentAt q).isSome = true ∨ q = p ∧ s.disk.stat q = none) ∧ s.hashes q ≠ hashFileContent digest s.disk q

/-- A debounce ends on a spawn that has failed only after that was reported, or where the gate lets nothing through. And where it has a change to report, the
baseline has it. -/
def Sound (s : State Content Digest) : Label Content → Prop
  | .expire _ =>
    (hasMeaningfulChange digest ignorePatterns s.disk s.hashes s.pendingRestartPaths = true → ∀ c, s.children.getLast? = some c → c.phase ≠ .failing) ∧
      (ReportsChange ignorePatterns s → s.restarting = true ∨ SeesChange digest ignorePatterns s)
  | _ => True

end

/-! ## The children -/

variable {Content Digest : Type}

structure Ok (s : State Content Digest) (former : List (Child Content)) (c : Child Content) : Prop where
  children   : s.children = former ++ [c]
  former     : ∀ d ∈ former, d.phase = .closed
  restarts   : c.restartsOnClose = true → c.phase ≠ .closed → s.restarting = true ∧ (s.resolved ≠ none → s.stopping = true)
  restarting : s.restarting = true → c.restartsOnClose = true ∧ c.phase ≠ .closed ∧ (c.phase = .running → c.killed = true)
  unspawned  : c.phase = .failing ∨ c.phase = .failed → c.restartsOnClose = false
  unsettled  : c.phase = .failing ∨ c.phase = .exited ∨ c.phase = .running → c.settled = false
  live       : c.phase = .running → c.exitCode = none
  resolves   : c.resolvesOnClose = true → s.stopping = true
  ended      : c.phase = .closed ∨ c.phase = .failed ∨ s.resolved ≠ none ∨ s.stopping = true → s.cleanedUp = true
  cleanedUp  : s.cleanedUp = true → s.restartTimer = false

/-- What a step does: the child stays, and its restart with it, or the next one is started. -/
inductive Moves (s s' : State Content Digest) (former : List (Child Content)) : Prop
  | stays (c : Child Content) : Ok s' former c → (s.stopping = true → s'.stopping = true) →
      (s.restarting = true → s'.restarting = true ∨ s'.stopping = true) → Moves s s' former
  | starts (c next : Child Content) : Ok s' (former ++ [c]) next → s.stopping = false → s.resolved = none → Moves s s' former

namespace Ok
variable {s s' : State Content Digest} {former : List (Child Content)} {c d : Child Content} {m : Nat}

theorem getLast? (h : Ok s former c) : s.children.getLast? = some c := by simp [h.children]

theorem length (h : Ok s former c) : s.children.length = former.length + 1 := by simp [h.children]

theorem eq_last (h : Ok s former c) (hm : s.children[m]? = some d) (hopen : d.phase ≠ .closed) : m = former.length ∧ d = c := by
  rw [h.children, getElem?_concat_iff] at hm
  rcases hm with hm | hm
  · exact hm
  · exact absurd (h.former d (List.mem_of_getElem? hm)) hopen

theorem setChild (h : Ok s former c) (c' : Child Content) : (s.setChild former.length c').children = former ++ [c'] := by
  simp [State.setChild, h.children]

theorem keeps (h : Ok s former c) (hchildren : s'.children = s.children) (hrestarting : s'.restarting = s.restarting) (hstopping : s'.stopping = s.stopping)
    (hresolved : s'.resolved = s.resolved) (hcleanedUp : s'.cleanedUp = s.cleanedUp) (htimer : s'.cleanedUp = true → s'.restartTimer = false) :
    Moves s s' former := by
  refine .stays c ⟨hchildren.trans h.children, h.former, ?_, ?_, h.unspawned, h.unsettled, h.live, ?_, ?_, htimer⟩ ?_ ?_
  · rw [hrestarting, hresolved, hstopping]
    exact h.restarts
  · rw [hrestarting]
    exact h.restarting
  · rw [hstopping]
    exact h.resolves
  · rw [hresolved, hstopping, hcleanedUp]
    exact h.ended
  · exact fun hs => hstopping.trans hs
  · exact fun hs => .inl (hrestarting.trans hs)

theorem of_timer (h : Ok s former c) (htimer : s.restartTimer = true) :
    c.phase ≠ .closed ∧ c.phase ≠ .failed ∧ s.resolved = none ∧ s.stopping = false ∧ s.cleanedUp = false := by
  have hlive : s.cleanedUp = false := by
    by_contra hcleaned
    have := h.cleanedUp (by simpa using hcleaned)
    simp [this] at htimer
  have hended := mt h.ended (by simp [hlive])
  simp only [not_or, ne_eq, Decidable.not_not, Bool.not_eq_true] at hended
  exact ⟨hended.1, hended.2.1, hended.2.2.1, hended.2.2.2, hlive⟩

theorem restart (h : Ok s former c) (htimer : s.restartTimer = true) (hspawned : c.phase ≠ .failing) (paths : List Path) (spawns : Bool) :
    Moves s (s.takeBatch.restart paths spawns) former ∧ (s.takeBatch.restart paths spawns).restarting = true := by
  obtain ⟨hclosed, hfailed, hresolved, hstopping, hlive⟩ := h.of_timer htimer
  simp only [State.restart, State.takeBatch, h.getLast?]
  by_cases hrestarting : s.restarting = true
  · simp only [hrestarting, if_true]
    exact ⟨h.keeps rfl hrestarting.symm rfl rfl rfl fun _ => rfl, trivial⟩
  · simp only [hrestarting, Bool.false_eq_true, if_false]
    refine ⟨.stays (stopChild { c with restartsOnClose := true }) ⟨?_, h.former, ?_, ?_, ?_, ?_, ?_, ?_, ?_, ?_⟩ id fun _ => .inl rfl, rfl⟩
    · simp [State.setChild, h.children]
    · exact fun _ _ => ⟨rfl, fun hne => absurd hresolved hne⟩
    · intro _
      simp only [stopChild_phase, stopChild_restartsOnClose]
      exact ⟨trivial, hclosed, fun hrunning => stopChild_killed (h.live hrunning)⟩
    · intro hphase
      simp only [stopChild_phase] at hphase
      exact absurd hphase (by simp [hspawned, hfailed])
    · simpa using h.unsettled
    · simpa using h.live
    · simpa [State.setChild] using h.resolves
    · simpa [State.setChild] using h.ended
    · exact fun _ => rfl

theorem stop (h : Ok s former c) : Moves s s.stop former := by
  simp only [State.stop, State.cleanup, h.getLast?]
  cases hcode : c.exitCode with
  | some code =>
    refine .stays c ⟨h.children, h.former, fun hon hopen => ⟨(h.restarts hon hopen).1, fun _ => rfl⟩, h.restarting, h.unspawned, h.unsettled, h.live,
      fun _ => rfl, fun _ => rfl, fun _ => rfl⟩ (fun _ => rfl) fun _ => .inr rfl
  | none =>
    refine .stays (stopChild { c with resolvesOnClose := true }) ⟨?_, h.former, ?_, ?_, ?_, ?_, ?_, fun _ => rfl, fun _ => rfl, fun _ => rfl⟩ (fun _ => rfl)
      fun _ => .inr rfl
    · simp [State.setChild, h.children, hcode]
    · intro hon hopen
      simp only [stopChild_phase, stopChild_restartsOnClose] at hon hopen
      exact ⟨(h.restarts hon hopen).1, fun _ => rfl⟩
    · intro hrestarting
      obtain ⟨hon, hopen, -⟩ := h.restarting hrestarting
      simp only [stopChild_phase, stopChild_restartsOnClose]
      exact ⟨hon, hopen, fun _ => stopChild_killed hcode⟩
    · simpa using h.unspawned
    · simpa using h.unsettled
    · simpa using h.live

theorem exit (h : Ok s former c) (hrunning : c.phase = .running) (code : Option Int) :
    Moves s (s.setChild former.length { c with phase := .exited, exitCode := code }) former := by
  refine .stays _ ⟨h.setChild _, h.former, fun hon _ => h.restarts hon (by simp [hrunning]), fun hrestarting => ?_, by simp, fun _ => ?_, by simp,
    h.resolves, fun hended => ?_, h.cleanedUp⟩ id .inl
  · exact ⟨(h.restarting hrestarting).1, by simp, by simp⟩
  · exact h.unsettled (by simp [hrunning])
  · rcases hended with hphase | hphase | hended
    · cases hphase
    · cases hphase
    · exact h.ended (.inr (.inr hended))

theorem error (h : Ok s former c) (hfailing : c.phase = .failing) : Moves s (s.error former.length c) former := by
  have hon := h.unspawned (.inl hfailing)
  have hidle : s.restarting = false := by
    by_contra hrestarting
    have := (h.restarting (by simpa using hrestarting)).1
    simp [hon] at this
  simp only [State.error, h.unsettled (.inl hfailing), Bool.false_eq_true, if_false]
  refine .stays { c with phase := .failed, settled := true } ⟨h.setChild _, h.former, ?_, ?_, fun _ => hon, by simp, by simp, h.resolves, fun _ => rfl,
    fun _ => rfl⟩ id ?_
  · intro hon'
    simp [hon] at hon'
  · intro hrestarting
    cases hrestarting
  · intro hrestarting
    simp [hidle] at hrestarting

theorem of_closed (hchildren : s.children = former ++ [c]) (hformer : ∀ d ∈ former, d.phase = .closed) (hclosed : c.phase = .closed)
    (hidle : s.restarting = false) (hresolves : c.resolvesOnClose = true → s.stopping = true) (hcleaned : s.cleanedUp = true)
    (htimer : s.restartTimer = false) : Ok s former c where
  children := hchildren
  former := hformer
  restarts _ hopen := absurd hclosed hopen
  restarting hrestarting := by simp [hidle] at hrestarting
  unspawned hphase := by simp [hclosed] at hphase
  unsettled hphase := by simp [hclosed] at hphase
  live hphase := by simp [hclosed] at hphase
  resolves := hresolves
  ended _ := hcleaned
  cleanedUp _ := htimer

theorem resolveOnClose (h : Ok s former c) (hclosed : c.phase = .closed) (hcleaned : s.cleanedUp = true) (d : Child Content) :
    Ok (s.resolveOnClose d) former c ∧ (s.resolveOnClose d).stopping = s.stopping := by
  unfold State.resolveOnClose
  split
  · exact ⟨⟨h.children, h.former, fun _ hopen => absurd hclosed hopen, h.restarting, h.unspawned, h.unsettled, h.live, h.resolves, fun _ => hcleaned,
      h.cleanedUp⟩, rfl⟩
  · exact ⟨h, rfl⟩

theorem settleOnClose (h : Ok s former c) (hphase : c.phase = .exited ∨ c.phase = .failed) (hidle : s.restarting = false) :
    Ok ((s.setChild former.length c.closed).settleOnClose c) former c.closed ∧
      ((s.setChild former.length c.closed).settleOnClose c).cleanedUp = true ∧
      ((s.setChild former.length c.closed).settleOnClose c).stopping = s.stopping := by
  have hchildren := h.setChild c.closed
  unfold State.settleOnClose
  split
  · next hsettled =>
    -- a child that has exited is not settled before its close
    have hfailed : c.phase = .failed := by
      apply hphase.resolve_left
      intro hexited
      simp [h.unsettled (.inr (.inl hexited)), State.setChild, hidle] at hsettled
    have hcleaned := h.ended (.inr (.inl hfailed))
    exact ⟨of_closed hchildren h.former rfl hidle h.resolves hcleaned (h.cleanedUp hcleaned), hcleaned, rfl⟩
  · exact ⟨of_closed hchildren h.former rfl hidle h.resolves rfl rfl, rfl, rfl⟩

theorem close (h : Ok s former c) (hphase : c.phase = .exited ∨ c.phase = .failed) (spawns : Bool) : Moves s (s.close former.length c spawns) former := by
  have hopen : c.phase ≠ .closed := by rcases hphase with hphase | hphase <;> simp [hphase]
  have hchildren := h.setChild c.closed
  by_cases hon : c.restartsOnClose = true
  · obtain ⟨hrestarting, hresolved⟩ := h.restarts hon hopen
    have hsettle : (s.setChild former.length c.closed).settleOnClose c =
        s.setChild former.length c.closed := by simp [State.settleOnClose, State.setChild, hrestarting]
    rw [State.close, hsettle, State.restartOnClose, if_pos hon]
    dsimp only
    by_cases hstopping : s.stopping = true
    · have hcleaned := h.ended (.inr (.inr (.inr hstopping)))
      have hclosed : Ok { s.setChild former.length c.closed with restartAfterClosePaths := [], restarting := false } former c.closed :=
        of_closed hchildren h.former rfl rfl h.resolves hcleaned (h.cleanedUp hcleaned)
      obtain ⟨hok, hkept⟩ := hclosed.resolveOnClose rfl hcleaned c
      rw [if_pos (show (s.setChild former.length c.closed).stopping = true from hstopping)]
      exact .stays _ hok (fun _ => hkept.trans hstopping) fun _ => .inr (hkept.trans hstopping)
    · have hnone : s.resolved = none := by
        by_contra hne
        exact hstopping (hresolved hne)
      have hunresolved : c.resolvesOnClose ≠ true := fun hon' => hstopping (h.resolves hon')
      rw [if_neg (show ¬(s.setChild former.length c.closed).stopping = true from hstopping), State.resolveOnClose, if_neg hunresolved]
      have hformer : ∀ d ∈ former ++ [c.closed], d.phase = .closed := by
        intro d hd
        rcases List.mem_append.1 hd with hd | hd
        · exact h.former d hd
        · rw [List.mem_singleton.1 hd, Child.closed]
      have hphase : (if spawns = true then ChildPhase.running else .failing) ≠ .closed ∧ (if spawns = true then ChildPhase.running else .failing) ≠ .failed := by
        cases spawns <;> decide
      refine .starts c.closed { startedOn := s.disk, phase := if spawns then .running else .failing } ⟨?_, hformer, nofun, nofun, fun _ => rfl, fun _ => rfl, fun _ => rfl, nofun, ?_,
        h.cleanedUp⟩ (by simpa using hstopping) hnone
      · simp only [State.startChild, hchildren]
        rfl
      · rintro (hended | hended | hended | hended)
        · exact absurd hended hphase.1
        · exact absurd hended hphase.2
        · exact absurd hnone hended
        · exact absurd hended hstopping
  · have hidle : s.restarting = false := by
      by_contra hrestarting
      exact hon (h.restarting (by simpa using hrestarting)).1
    obtain ⟨hclosed, hcleaned, hstopping⟩ := h.settleOnClose hphase hidle
    obtain ⟨hok, hkept⟩ := hclosed.resolveOnClose rfl hcleaned c
    rw [State.close, State.restartOnClose, if_neg hon]
    exact .stays _ hok (fun hstop => hkept.trans (hstopping.trans hstop)) fun hrestarting => by simp [hidle] at hrestarting

end Ok

/-! ## Runs -/

section
variable [DecidableEq Digest] {digest : Content → Digest} {ignorePatterns : List Text}
variable {s s' : State Content Digest} {former : List (Child Content)} {c : Child Content}

theorem Ok.expire (h : Ok s former c) (htimer : s.restartTimer = true)
    (hspawned : hasMeaningfulChange digest ignorePatterns s.disk s.hashes s.pendingRestartPaths = true → c.phase ≠ .failing) (spawns : Bool) :
    Moves s (s.expire digest ignorePatterns spawns) former := by
  unfold State.expire
  split
  · next hchange => exact (h.restart htimer (hspawned hchange) _ _).1
  · exact h.keeps rfl rfl rfl rfl rfl fun _ => rfl

theorem step_moves {l : Label Content} (h : Ok s former c) (hsound : Sound digest ignorePatterns s l) (hstep : step digest ignorePatterns s l = some s') :
    Moves s s' former := by
  cases l with
  | disk disk => cases hstep; exact h.keeps rfl rfl rfl rfl rfl h.cleanedUp
  | commit =>
    simp only [step] at hstep
    split at hstep <;> cases hstep
    exact h.keeps rfl rfl rfl rfl rfl h.cleanedUp
  | watchEvent watcher filename =>
    simp only [step] at hstep
    split at hstep
    · next hlive =>
      cases hstep
      refine h.keeps rfl rfl rfl rfl rfl fun hcleaned => ?_
      exact absurd (hlive.1.symm.trans hcleaned) (by decide)
    · cases hstep
  | expire spawns =>
    simp only [step] at hstep
    split at hstep
    · next htimer =>
      cases hstep
      exact h.expire htimer.1 (fun hchange => hsound.1 hchange c h.getLast?) spawns
    · cases hstep
  | signal =>
    simp only [step] at hstep
    split at hstep <;> cases hstep
    exact h.stop
  | exit m code =>
    simp only [step] at hstep
    obtain ⟨d, hm, hrunning, rfl⟩ := bind_guarded_eq_some hstep
    obtain ⟨rfl, rfl⟩ := h.eq_last hm (by simp [hrunning.1])
    exact h.exit hrunning.1 code
  | close m spawns =>
    simp only [step] at hstep
    obtain ⟨d, hm, hphase, rfl⟩ := bind_guarded_eq_some hstep
    obtain ⟨rfl, rfl⟩ := h.eq_last hm (by rcases hphase.1 with hphase | hphase <;> simp [hphase])
    exact h.close hphase.1 spawns
  | error m =>
    simp only [step] at hstep
    obtain ⟨d, hm, hfailing, rfl⟩ := bind_guarded_eq_some hstep
    obtain ⟨rfl, rfl⟩ := h.eq_last hm (by simp [hfailing.1])
    exact h.error hfailing.1

omit [DecidableEq Digest] in
theorem Ok.init (before disk : Entry Content) (spawns : Bool) : ∃ c, Ok (init digest ignorePatterns before disk spawns) [] c := by
  refine ⟨_, rfl, nofun, nofun, nofun, fun _ => rfl, fun _ => rfl, fun _ => rfl, nofun, ?_, nofun⟩
  cases spawns <;> simp [NodeRestart.init, State.startChild]

theorem SeesChange.hasMeaningfulChange (h : SeesChange digest ignorePatterns s) :
    hasMeaningfulChange digest ignorePatterns s.disk s.hashes s.pendingRestartPaths = true := by
  obtain ⟨p, hp, q, hbelow, hkept, hfound, hne⟩ := h
  exact hasMeaningfulChange_of_mem hp (mem_collectContentPaths hbelow hkept hfound) hne

def Underway (m : Nat) (s : State Content Digest) : Prop :=
  ∃ former c, Ok s former c ∧ (m < former.length ∨ s.stopping = true ∨ former.length = m ∧ s.restarting = true)

namespace Underway
variable {m : Nat}

theorem step {l : Label Content} (h : Underway m s) (hsound : Sound digest ignorePatterns s l)
    (hstep : NodeRestart.step digest ignorePatterns s l = some s') : Underway m s' := by
  obtain ⟨former, c, hok, hunder⟩ := h
  cases step_moves hok hsound hstep with
  | stays c' hok' hstopping hrestarting =>
    refine ⟨former, c', hok', ?_⟩
    rcases hunder with hlater | hstop | ⟨hlast, hrestart⟩
    · exact .inl hlater
    · exact .inr (.inl (hstopping hstop))
    · rcases hrestarting hrestart with hrestart | hstop
      · exact .inr (.inr ⟨hlast, hrestart⟩)
      · exact .inr (.inl hstop)
  | starts c' next hok' hstopping =>
    refine ⟨former ++ [c'], next, hok', .inl ?_⟩
    rw [List.length_append, List.length_singleton]
    rcases hunder with hlater | hstop | ⟨hlast, -⟩
    · omega
    · simp [hstop] at hstopping
    · omega

omit [DecidableEq Digest] in
theorem replaced (h : Underway m s) : Replaced m s := by
  obtain ⟨former, c, hok, hlater | hstop | ⟨rfl, hrestart⟩⟩ := h
  · exact .inl (by rw [hok.length]; omega)
  · exact .inr (.inl hstop)
  · obtain ⟨-, hopen, hkilled⟩ := hok.restarting hrestart
    exact .inr (.inr ⟨c, by simp [hok.children], hopen, hkilled⟩)

end Underway

theorem Ok.underway (h : Ok s former c) {spawns : Bool} (hsound : Sound digest ignorePatterns s (.expire spawns))
    (hstep : step digest ignorePatterns s (.expire spawns) = some s') (hreports : ReportsChange ignorePatterns s) : Underway former.length s' := by
  have hmoves := step_moves h hsound hstep
  simp only [step] at hstep
  split at hstep <;> cases hstep
  next htimer =>
  have hrestarting : (s.expire digest ignorePatterns spawns).restarting = true := by
    unfold State.expire
    split
    · next hchange => exact (h.restart htimer.1 (hsound.1 hchange c h.getLast?) _ _).2
    · next hchange => exact (hsound.2 hreports).resolve_right fun hsees => hchange hsees.hasMeaningfulChange
  cases hmoves with
  | stays c' hok' => exact ⟨former, c', hok', .inr (.inr ⟨rfl, hrestarting⟩)⟩
  | starts c' next hok' => exact ⟨former ++ [c'], next, hok', .inl (by simp)⟩

/-- Where no failed spawn is unreported at the end of a debounce that the gate lets through, and the baseline has what changes, one child at most is alive, none
is started once the runner stops or has resolved, and a change that is reported gets a new child. -/
theorem dev_restart_supervision {before disk : Entry Content} {spawns : Bool} {ls : List (Label Content)}
    (h : Run (step digest ignorePatterns) (Sound digest ignorePatterns) (init digest ignorePatterns before disk spawns) ls s) :
    Supervised digest ignorePatterns (Sound digest ignorePatterns) s := by
  have hinv : ∃ former c, Ok s former c := by
    refine h.keeps (fun s => ∃ former c, Ok s former c) ?_ ⟨[], Ok.init before disk spawns⟩
    rintro s l s' hsound ⟨former, c, hok⟩ hstep
    cases step_moves hok hsound hstep with
    | stays c' hok' => exact ⟨former, c', hok'⟩
    | starts c' next hok' => exact ⟨former ++ [c'], next, hok'⟩
  obtain ⟨former, c, hok⟩ := hinv
  refine ⟨fun i j a b hi hj ha hb => ?_, fun l s' hsound hstep hmore => ?_, fun spawns s' ls s'' hsound hstep hreports hlater => ?_⟩
  · rw [(hok.eq_last hi (by simp [ha])).1, (hok.eq_last hj (by simp [hb])).1]
  · cases step_moves hok hsound hstep with
    | stays c' hok' =>
      rw [hok.length, hok'.length] at hmore
      exact absurd hmore (Nat.lt_irrefl _)
    | starts c' next _ hstopping hresolved => exact ⟨hstopping, hresolved⟩
  · rw [hok.length, Nat.add_sub_cancel]
    exact (hlater.keeps (Underway former.length) (fun _ _ _ hs hu hstep => hu.step hs hstep) (hok.underway hsound hstep hreports)).replaced

private def seesFile (digest : Content → Digest) (ignorePatterns : List Text) (s : State Content Digest) : Label Content → Bool
  | .expire _ => s.children.getLast?.all (·.phase ≠ .failing) && s.pendingRestartPaths.any fun p =>
      !shouldIgnorePath ignorePatterns p && (s.disk.contentAt p).isSome && s.hashes p ≠ hashFileContent digest s.disk p
  | _ => true

private theorem sound_of_seesFile {l : Label Content} (h : seesFile digest ignorePatterns s l = true) : Sound digest ignorePatterns s l := by
  cases l with
  | expire spawns =>
    simp only [seesFile, Bool.and_eq_true, List.any_eq_true] at h
    obtain ⟨hspawned, p, hp, hkept, hne⟩ := h
    refine ⟨fun _ c hc => ?_, fun _ => .inr ⟨p, hp, p, List.prefix_rfl, by simpa using hkept.1, .inl hkept.2, by simpa using hne⟩⟩
    simpa [hc] using hspawned
  | _ => trivial

end

/-- `src/main.ts` and what else there is in `src`. -/
private def project (main : Nat) (rest : Directory Nat) : Entry Nat :=
  .directory (.cons "src".toList (.directory (.cons "main.ts".toList (.file main) rest)) .nil)

/-- With `src/sub/a.ts`. -/
private def withSub (main a : Nat) : Entry Nat := project main (.cons "sub".toList (.directory (.cons "a.ts".toList (.file a) .nil)) .nil)

private def booted : State Nat Nat := init id defaultIgnores (withSub 0 1) (withSub 0 1) true

/-- `main.ts` is edited, which starts the next child, and `a.ts` on the way. -/
private def edited : List (Label Nat) :=
  [.disk (withSub 2 1), .watchEvent (.recursive ["src".toList]) (some ["main.ts".toList]), .expire true, .disk (withSub 2 5), .exit 0 (some 0), .close 0 true,
    .commit]

theorem dev_restart_supervision_edited :
    Supervised id defaultIgnores (Sound id defaultIgnores) (Lib.after (step id defaultIgnores) booted edited) :=
  dev_restart_supervision (Run.of_passes (p := seesFile id defaultIgnores) (fun _ _ => sound_of_seesFile)
    (show Lib.passes (step id defaultIgnores) (seesFile id defaultIgnores) booted edited = true by decide))

/-- `src/sub` is moved away. -/
private def removed : List (Label Nat) := [.disk (project 0 .nil), .watchEvent (.recursive ["src".toList]) (some ["sub".toList])]

/-- `a.ts` is changed back, for the child that has started on its change. -/
private def changedBack : List (Label Nat) :=
  edited ++ [.watchEvent (.recursive ["src".toList]) (some ["sub".toList, "a.ts".toList]), .disk (withSub 2 1)]

private def aPath : Path := ["src".toList, "sub".toList, "a.ts".toList]

private theorem lawfulBEq_path : LawfulBEq Path := inferInstance
attribute [local instance] lawfulBEq_path

/-- The batch reports a change of `a.ts` above it, and its end leaves the child running. -/
private def missesChange (p : Path) (s : State Nat Nat) : Bool :=
  let s' := Lib.after (step id defaultIgnores) s [.expire true]
  (step id defaultIgnores s (.expire true)).isSome && p ∈ s.reported && p.isPrefixOf aPath &&
    s.children.getLast?.any (fun c => c.startedOn.contentAt aPath ≠ s.disk.contentAt aPath) &&
    s'.children.length = s.children.length && !s'.stopping && s'.children[s.children.length - 1]?.all fun c => c.phase = .running && !c.killed

private theorem not_supervised_of_missesChange {p : Path} {s : State Nat Nat} (h : missesChange p s = true) :
    ¬Supervised id defaultIgnores (fun _ _ => True) s := by
  intro hsupervised
  simp only [missesChange, Bool.and_eq_true, decide_eq_true_eq, Option.any_eq_true] at h
  obtain ⟨⟨⟨⟨⟨⟨hstep, hp⟩, hbelow⟩, c, hc, hchanged⟩, hlength⟩, hgoing⟩, hrunning⟩ := h
  have hreplaced := hsupervised.replaced true _ [] _ trivial (Lib.step_after hstep)
    ⟨p, hp, aPath, List.isPrefixOf_iff_prefix.1 hbelow, by decide, c, hc, hchanged⟩ .nil
  rcases hreplaced with hmore | hstop | ⟨d, hd, -, hkilled⟩
  · omega
  · simp [hstop] at hgoing
  · simp only [hd, Option.all_some, Bool.and_eq_true, decide_eq_true_eq] at hrunning
    simp [hkilled hrunning.1] at hrunning

/-- A debounce is over after the spawn of the next child has failed, and before that is reported. -/
private def failedLate : List (Label Nat) :=
  [.disk (withSub 2 1), .watchEvent (.recursive ["src".toList]) (some ["main.ts".toList]), .expire true, .exit 0 (some 0), .close 0 false, .commit,
    .disk (withSub 3 1), .watchEvent (.recursive ["src".toList]) (some ["main.ts".toList]), .expire true, .error 1]

/-- The gate sees neither that a file has gone with its directory, nor what was changed back before the batch; and a failed spawn whose close was waited for is
followed by another, when the runner has resolved. -/
theorem dev_restart_unsupervised :
    (∃ s, Run (step id defaultIgnores) (fun _ _ => True) booted removed s ∧ ¬Supervised id defaultIgnores (fun _ _ => True) s) ∧
    (∃ s, Run (step id defaultIgnores) (fun _ _ => True) booted changedBack s ∧ ¬Supervised id defaultIgnores (fun _ _ => True) s) ∧
    ∃ s, Run (step id defaultIgnores) (fun _ _ => True) booted failedLate s ∧ ¬Supervised id defaultIgnores (fun _ _ => True) s := by
  have hrun (ls : List (Label Nat)) (h : Lib.passes (step id defaultIgnores) (fun _ _ => true) booted ls = true) :
      Run (step id defaultIgnores) (fun _ _ => True) booted ls (Lib.after (step id defaultIgnores) booted ls) :=
    Run.of_passes (p := fun _ _ => true) (fun _ _ _ => trivial) h
  refine ⟨⟨_, hrun removed (by decide), not_supervised_of_missesChange (p := ["src".toList, "sub".toList]) (by decide)⟩,
    ⟨_, hrun changedBack (by decide), not_supervised_of_missesChange (p := aPath) (by decide)⟩, _, hrun failedLate (by decide), fun h => ?_⟩
  have hstarted := h.started (.close 1 true) _ trivial (Lib.step_after (by decide)) (by decide)
  exact absurd hstarted.2 (by decide)

end Fluo.Cli.NodeRestart
