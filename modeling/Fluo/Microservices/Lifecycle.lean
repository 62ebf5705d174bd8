import Fluo.Lib.Runs
/-!
# The microservice lifecycle

`listen()` and `close()` of `MicroserviceLifecycleService` over a transport whose two operations take
time and may fail. Calls that await one `listenPromise` are resumed in one go, in the order in which
they came to await it.
-/

namespace Fluo.Microservices
open Fluo.Lib

inductive LifecycleState
  | created
  | starting
  | ready
  | stopping
  | stopped
  | failed

/-- A call that awaits `listenPromise`. -/
inductive Awaiting
  /-- The `listen()` that made the promise. -/
  | opener
  | listen
  | close
deriving DecidableEq

inductive ListenPromise
  | absent
  /-- The transport's `listen()` is in flight; `bound` says whether it has taken effect. -/
  | pending (bound : Bool) (awaiting : List Awaiting)
  /-- Settled, and not yet cleared by the `listen()` that made it. -/
  | settled (failure : Option String)

/-- Calls to be resumed with the outcome of the promise they awaited. -/
structure Resumption where
  awaiting : List Awaiting
  failure : Option String

structure MicroserviceState where
  lifecycleState : LifecycleState := .created
  lastListenError : Option String := none
  listening : Bool := false
  listenPromise : ListenPromise := .absent
  /-- The job queue. -/
  jobs : List Resumption := []
  /-- The transport takes packets. -/
  bound : Bool := false
  /-- The calls of the transport's `close()` in flight, and whether they have taken effect. -/
  closing : List Bool := []
  /-- The transport's `close()` has been called since it came to listen. -/
  released : Bool := false
  /-- A `close()` has resolved, and no `listen()` was called since. -/
  quiet : Bool := false
  closeCalls : Nat := 0
  transportCloses : Nat := 0
  /-- For each `listen()` that resolved, whether the transport was listening and not closed. -/
  resolvedListens : List Bool := []

namespace MicroserviceState

/-- The transport listens and has not been closed. -/
def accepts (state : MicroserviceState) : Bool := state.bound && !state.released

def resolveListen (state : MicroserviceState) : MicroserviceState :=
  { state with resolvedListens := state.resolvedListens ++ [state.accepts] }

def fail (state : MicroserviceState) (message : String) : MicroserviceState :=
  { state with lifecycleState := .failed, lastListenError := some message }

/-- `close()` from the call of the transport's `close()` on. -/
def closeTransport (state : MicroserviceState) : MicroserviceState :=
  { state with
    lifecycleState := .stopping
    closing := state.closing ++ [false]
    released := true
    transportCloses := state.transportCloses + 1 }

/-- `listenPromise` is made; `failure` says what is thrown before the transport's `listen()` is in flight. -/
def startListening (state : MicroserviceState) (failure : Option String) : MicroserviceState :=
  let starting := { state with lifecycleState := .starting, lastListenError := none }
  match failure with
  | none => { starting with listenPromise := .pending false [.opener] }
  | some message => { starting with listenPromise := .settled (some message), jobs := state.jobs ++ [⟨[.opener], some message⟩] }

def listen (state : MicroserviceState) (failure : Option String) : MicroserviceState :=
  let called := { state with quiet := false }
  if state.listening then called.resolveListen
  else match state.listenPromise with
    | .pending bound awaiting => { called with listenPromise := .pending bound (awaiting ++ [.listen]) }
    | .settled outcome => { called with jobs := state.jobs ++ [⟨[.listen], outcome⟩] }
    | .absent => called.startListening failure

def close (state : MicroserviceState) : MicroserviceState :=
  let called := { state with closeCalls := state.closeCalls + 1 }
  match state.listenPromise with
  | .pending bound awaiting => { called with listenPromise := .pending bound (awaiting ++ [.close]) }
  | .settled outcome => { called with jobs := state.jobs ++ [⟨[.close], outcome⟩] }
  | .absent => called.closeTransport

/-- A call goes on after its `await this.listenPromise`. -/
def resume (failure : Option String) (state : MicroserviceState) : Awaiting → MicroserviceState
  | .opener =>
    match failure with
    | none => { state with listenPromise := .absent }.resolveListen
    | some message => { state with listenPromise := .absent }.fail message
  | .listen =>
    match failure with
    | none => state.resolveListen
    | some _ => state
  | .close =>
    match failure with
    | none => state.closeTransport
    -- The rejection leaves `close()` by its first line.
    | some _ => state

end MicroserviceState

inductive MicroserviceLabel
  | listen (failure : Option String)
  | close
  /-- The transport's `listen()` takes effect. -/
  | binds
  | listenSettles (failure : Option String)
  /-- A `close()` of the transport takes effect. -/
  | unbinds (index : Nat)
  | closeSettles (index : Nat) (failure : Option String)
  /-- The next job runs. -/
  | resumes

def MicroserviceState.step (state : MicroserviceState) : MicroserviceLabel → Option MicroserviceState
  | .listen failure => some (state.listen failure)
  | .close => some state.close
  | .binds =>
    match state.listenPromise with
    | .pending false awaiting => some { state with listenPromise := .pending true awaiting, bound := true, released := false }
    | _ => none
  | .listenSettles failure =>
    match state.listenPromise with
    | .pending bound awaiting =>
      let settled := { state with listenPromise := .settled failure, jobs := state.jobs ++ [⟨awaiting, failure⟩] }
      match failure with
      | none => if bound then some { settled with listening := true, lifecycleState := .ready } else none
      | some _ => some settled
    | _ => none
  | .unbinds index =>
    if state.closing[index]? = some false then some { state with closing := state.closing.set index true, bound := false } else none
  | .closeSettles index failure =>
    match state.closing[index]? with
    | none => none
    | some effected =>
      let settled := { state with closing := state.closing.eraseIdx index }
      match failure with
      | none => if effected then some { settled with listening := false, lifecycleState := .stopped, quiet := true } else none
      | some message => some (settled.fail message)
  | .resumes =>
    match state.jobs with
    | [] => none
    | job :: jobs => some (job.awaiting.foldl (resume job.failure) { state with jobs })

/-! ## What is asked of a run -/

namespace MicroserviceState

def awaiting (state : MicroserviceState) : List Awaiting :=
  match state.listenPromise with
  | .pending _ awaiting => awaiting
  | _ => []

/-- The `close()` calls that await a `listenPromise`. -/
def waitingCloses (state : MicroserviceState) : Nat :=
  state.awaiting.count .close + (state.jobs.flatMap Resumption.awaiting).count .close

/-- The three promises of the lifecycle. -/
structure Sound (state : MicroserviceState) : Prop where
  /-- Every `close()` but those that still await a `listenPromise` has called the transport's `close()`. -/
  closes : state.closeCalls = state.transportCloses + state.waitingCloses
  /-- Whenever a `listen()` resolved, the transport was listening and not closed. -/
  listens : ∀ accepted ∈ state.resolvedListens, accepted = true
  /-- No transport is left listening by a `close()` that has resolved. -/
  quiet : state.quiet = true → state.bound = false

/-- No `listenPromise` that a `close()` awaits is rejected, and `listen()` is called neither while a `close()` is pending nor
while the service counts as listening on a transport whose `close()` has been called. -/
def Orderly (state : MicroserviceState) : MicroserviceLabel → Prop
  | .listen _ => state.waitingCloses = 0 ∧ state.closing = [] ∧ (state.listening = true → state.released = false)
  | .close => ∀ message, state.listenPromise ≠ .settled (some message)
  | .listenSettles (some _) => Awaiting.close ∉ state.awaiting
  | _ => True

instance (state : MicroserviceState) : DecidablePred state.Orderly := fun label =>
  match label with
  | .listen _ => inferInstanceAs (Decidable (state.waitingCloses = 0 ∧ state.closing = [] ∧ (state.listening = true → state.released = false)))
  | .close =>
    match h : state.listenPromise with
    | .settled (some message) => isFalse fun hall => hall message h
    | .settled none | .pending .. | .absent => isTrue fun message hsettled => by rw [h] at hsettled; cases hsettled
  | .listenSettles (some _) => inferInstanceAs (Decidable (Awaiting.close ∉ state.awaiting))
  | .listenSettles none | .binds | .unbinds .. | .closeSettles .. | .resumes => inferInstanceAs (Decidable True)

/-! ## The books of calls and of the transport -/

/-- What holds while `waiting` calls of `close()` have not come to the transport. -/
structure Base (waiting : Nat) (state : MicroserviceState) : Prop where
  closes : state.closeCalls = state.transportCloses + waiting
  listens : ∀ accepted ∈ state.resolvedListens, accepted = true
  quiet : state.quiet = true → state.bound = false
  effected : true ∈ state.closing → state.bound = false
  released : state.closing ≠ [] → state.released = true
  listening : state.listening = true → state.released = false → state.bound = true

variable {state : MicroserviceState}

theorem accepts_iff : state.accepts = true ↔ state.bound = true ∧ state.released = false := by
  simp [accepts]

namespace Base
variable {waiting : Nat} {state : MicroserviceState}

theorem resolveListen (h : state.Base waiting) (haccepts : state.accepts = true) : state.resolveListen.Base waiting := by
  refine ⟨h.closes, ?_, h.quiet, h.effected, h.released, h.listening⟩
  intro accepted hmem
  rcases List.mem_append.1 hmem with hmem | hmem
  · exact h.listens accepted hmem
  · rw [List.mem_singleton.1 hmem, haccepts]

theorem closeTransport (h : state.Base (waiting + 1)) : state.closeTransport.Base waiting := by
  refine ⟨?_, h.listens, h.quiet, ?_, fun _ => rfl, fun _ hreleased => absurd hreleased nofun⟩
  · have hcloses := h.closes
    show state.closeCalls = state.transportCloses + 1 + waiting
    omega
  · intro hmem
    exact h.effected (by simpa [MicroserviceState.closeTransport] using hmem)

theorem resume_listens (h : state.Base waiting) (haccepts : state.accepts = true) (listens : Nat) :
    ((List.replicate listens .listen).foldl (resume none) state).Base waiting := by
  induction listens generalizing state with
  | zero => exact h
  | succ listens ih => exact ih (h.resolveListen haccepts) haccepts

theorem resume_rejected (h : state.Base waiting) (message : String) (listens : Nat) :
    ((List.replicate listens .listen).foldl (resume (some message)) state).Base waiting := by
  induction listens with
  | zero => exact h
  | succ listens ih => exact ih

theorem resume_closes {closes : Nat} (h : state.Base (closes + waiting)) : ((List.replicate closes .close).foldl (resume none) state).Base waiting := by
  induction closes generalizing state with
  | zero => rwa [Nat.zero_add] at h
  | succ closes ih =>
    rw [Nat.add_right_comm] at h
    exact ih h.closeTransport

end Base

/-! ## Calls that await a promise -/

def lined (listens closes : Nat) : List Awaiting := .opener :: (List.replicate listens .listen ++ List.replicate closes .close)

theorem count_lined (listens closes : Nat) : (lined listens closes).count .close = closes := by
  rw [lined, List.count_cons_of_ne (by decide), List.count_append, List.count_replicate_self,
    List.count_eq_zero.2 fun hmem => absurd (List.eq_of_mem_replicate hmem) (by decide), Nat.zero_add]

theorem lined_concat_close (listens closes : Nat) : lined listens closes ++ [.close] = lined listens (closes + 1) := by
  simp [lined, List.replicate_succ']

theorem lined_concat_listen (listens : Nat) : lined listens 0 ++ [.listen] = lined (listens + 1) 0 := by
  simp [lined, List.replicate_succ']

def Rejects (job : Resumption) : Prop := ∃ message, job = ⟨[.listen], some message⟩

/-- How the promise, the calls that await it and the job queue stand to each other. -/
def Promised (state : MicroserviceState) : Prop :=
  match state.listenPromise with
  | .absent => ∀ job ∈ state.jobs, Rejects job ∨ job = ⟨[.close], none⟩
  | .pending bound awaiting =>
    state.closing = [] ∧ (bound = true → state.accepts = true) ∧ state.quiet = false ∧ (∀ job ∈ state.jobs, Rejects job) ∧
      ∃ listens closes, awaiting = lined listens closes
  | .settled none =>
    state.closing = [] ∧ state.accepts = true ∧ state.listening = true ∧ ∃ earlier listens closes later,
      state.jobs = earlier ++ ⟨lined listens closes, none⟩ :: later ∧ (∀ job ∈ earlier, Rejects job) ∧ ∀ job ∈ later, job = ⟨[.close], none⟩
  | .settled (some message) =>
    ∃ earlier listens later, state.jobs = earlier ++ ⟨lined listens 0, some message⟩ :: later ∧
      (∀ job ∈ earlier, Rejects job) ∧ ∀ job ∈ later, Rejects job

structure Kept (state : MicroserviceState) : Prop where
  base : state.Base state.waitingCloses
  promised : state.Promised

theorem Kept.sound (h : state.Kept) : state.Sound := ⟨h.base.closes, h.base.listens, h.base.quiet⟩

/-! ## Jobs -/

theorem resume_rejects {job : Resumption} (h : Rejects job) (state : MicroserviceState) : job.awaiting.foldl (resume job.failure) state = state := by
  obtain ⟨message, rfl⟩ := h
  rfl

@[simp] theorem resume_jobs (failure : Option String) (state : MicroserviceState) (call : Awaiting) : (state.resume failure call).jobs = state.jobs := by
  cases call <;> cases failure <;> rfl

@[simp] theorem foldl_resume_jobs (failure : Option String) (state : MicroserviceState) (calls : List Awaiting) :
    (calls.foldl (resume failure) state).jobs = state.jobs := by
  induction calls generalizing state with
  | nil => rfl
  | cons call calls ih => rw [List.foldl_cons, ih, resume_jobs]

theorem foldl_resume_listenPromise (failure : Option String) {calls : List Awaiting} (hcalls : Awaiting.opener ∉ calls) (state : MicroserviceState) :
    (calls.foldl (resume failure) state).listenPromise = state.listenPromise := by
  induction calls generalizing state with
  | nil => rfl
  | cons call calls ih =>
    obtain ⟨hcall, hcalls⟩ := List.ne_and_not_mem_of_not_mem_cons hcalls
    rw [List.foldl_cons, ih hcalls]
    cases call with
    | opener => exact absurd rfl hcall
    | listen => cases failure <;> rfl
    | close => cases failure <;> rfl

theorem opener_notMem (listens closes : Nat) : Awaiting.opener ∉ List.replicate listens .listen ++ List.replicate closes .close := by
  intro hmem
  rcases List.mem_append.1 hmem with hmem | hmem <;> cases List.eq_of_mem_replicate hmem

theorem waitingCloses_cons {job : Resumption} {jobs : List Resumption} (hjobs : state.jobs = job :: jobs) :
    state.waitingCloses = job.awaiting.count .close + waitingCloses { state with jobs } := by
  simp only [waitingCloses, awaiting, hjobs, List.flatMap_cons, List.count_append]
  omega

theorem waitingCloses_absent (habsent : state.listenPromise = .absent) :
    state.waitingCloses = (state.jobs.flatMap Resumption.awaiting).count .close := by
  rw [waitingCloses, awaiting, habsent]
  simp

/-! ## Steps -/

section promised
variable {state : MicroserviceState}

theorem promised_absent (hpromise : state.listenPromise = .absent) :
    state.Promised ↔ ∀ job ∈ state.jobs, Rejects job ∨ job = ⟨[.close], none⟩ := by
  rw [Promised, hpromise]

theorem promised_pending {bound : Bool} {awaiting : List Awaiting} (hpromise : state.listenPromise = .pending bound awaiting) :
    state.Promised ↔ state.closing = [] ∧ (bound = true → state.accepts = true) ∧ state.quiet = false ∧ (∀ job ∈ state.jobs, Rejects job) ∧
      ∃ listens closes, awaiting = lined listens closes := by
  rw [Promised, hpromise]

theorem promised_fulfilled (hpromise : state.listenPromise = .settled none) :
    state.Promised ↔ state.closing = [] ∧ state.accepts = true ∧ state.listening = true ∧ ∃ earlier listens closes later,
      state.jobs = earlier ++ ⟨lined listens closes, none⟩ :: later ∧ (∀ job ∈ earlier, Rejects job) ∧ ∀ job ∈ later, job = ⟨[.close], none⟩ := by
  rw [Promised, hpromise]

theorem promised_rejected {message : String} (hpromise : state.listenPromise = .settled (some message)) :
    state.Promised ↔ ∃ earlier listens later, state.jobs = earlier ++ ⟨lined listens 0, some message⟩ :: later ∧
      (∀ job ∈ earlier, Rejects job) ∧ ∀ job ∈ later, Rejects job := by
  rw [Promised, hpromise]

theorem Promised.closing (h : state.Promised) (hclosing : state.closing ≠ []) :
    state.listenPromise = .absent ∨ ∃ message, state.listenPromise = .settled (some message) := by
  cases hpromise : state.listenPromise with
  | absent => exact .inl rfl
  | pending bound awaiting => exact absurd ((promised_pending hpromise).1 h).1 hclosing
  | settled failure =>
    cases failure with
    | none => exact absurd ((promised_fulfilled hpromise).1 h).1 hclosing
    | some message => exact .inr ⟨message, rfl⟩

variable {state' : MicroserviceState}

theorem Promised.of_eq (h : state.Promised) (hpromise : state'.listenPromise = state.listenPromise)
    (hjobs : state'.jobs = state.jobs) (hclosing : state'.closing = state.closing) (haccepts : state'.accepts = state.accepts)
    (hlistening : state'.listening = state.listening) (hquiet : state'.quiet = true → state.quiet = true) : state'.Promised := by
  rcases hbefore : state.listenPromise with _ | ⟨bound, awaiting⟩ | _ | message
  · rw [promised_absent (hpromise.trans hbefore), hjobs]
    exact (promised_absent hbefore).1 h
  · obtain ⟨hopen, hbound, hcalled, hrest⟩ := (promised_pending hbefore).1 h
    rw [promised_pending (hpromise.trans hbefore), hjobs, hclosing, haccepts]
    exact ⟨hopen, hbound, Bool.eq_false_of_not_eq_true fun hq => Bool.noConfusion (hcalled.symm.trans (hquiet hq)), hrest⟩
  · rw [promised_fulfilled (hpromise.trans hbefore), hjobs, hclosing, haccepts, hlistening]
    exact (promised_fulfilled hbefore).1 h
  · rw [promised_rejected (hpromise.trans hbefore), hjobs]
    exact (promised_rejected hbefore).1 h

theorem Promised.of_closing (h : state.Promised) (hclosing : state.closing ≠ [])
    (hpromise : state'.listenPromise = state.listenPromise) (hjobs : state'.jobs = state.jobs) : state'.Promised := by
  rcases h.closing hclosing with habsent | ⟨message, hsettled⟩
  · rw [promised_absent (hpromise.trans habsent), hjobs]
    exact (promised_absent habsent).1 h
  · rw [promised_rejected (hpromise.trans hsettled), hjobs]
    exact (promised_rejected hsettled).1 h

theorem Promised.head (h : state.Promised) {job : Resumption} {jobs : List Resumption} (hjobs : state.jobs = job :: jobs) :
    (Rejects job ∧ Promised { state with jobs }) ∨
    (job = ⟨[.close], none⟩ ∧ state.listenPromise = .absent) ∨
    (∃ listens closes, job = ⟨lined listens closes, none⟩ ∧ state.listenPromise = .settled none ∧ state.accepts = true ∧
      ∀ later ∈ jobs, later = ⟨[.close], none⟩) ∨
    ∃ listens message, job = ⟨lined listens 0, some message⟩ ∧ state.listenPromise = .settled (some message) ∧ ∀ later ∈ jobs, Rejects later := by
  rcases hpromise : state.listenPromise with _ | ⟨bound, awaiting⟩ | _ | message
  · have hall := (promised_absent hpromise).1 h
    rw [hjobs] at hall
    rcases hall job List.mem_cons_self with hrejects | hclose
    · exact .inl ⟨hrejects, (promised_absent rfl).2 fun job hmem => hall job (List.mem_cons_of_mem _ hmem)⟩
    · exact .inr (.inl ⟨hclose, rfl⟩)
  · obtain ⟨hopen, hbound, hquiet, hall, hcalls⟩ := (promised_pending hpromise).1 h
    rw [hjobs] at hall
    refine .inl ⟨hall job List.mem_cons_self, (promised_pending rfl).2 ?_⟩
    exact ⟨hopen, hbound, hquiet, fun job hmem => hall job (List.mem_cons_of_mem _ hmem), hcalls⟩
  · obtain ⟨hopen, haccepts, hready, earlier, listens, closes, later, hqueue, hearlier, hlater⟩ := (promised_fulfilled hpromise).1 h
    rw [hjobs] at hqueue
    cases earlier with
    | nil =>
      obtain ⟨rfl, rfl⟩ := List.cons.inj hqueue
      exact .inr (.inr (.inl ⟨listens, closes, rfl, rfl, haccepts, hlater⟩))
    | cons first earlier =>
      obtain ⟨rfl, rfl⟩ := List.cons.inj hqueue
      refine .inl ⟨hearlier job List.mem_cons_self, (promised_fulfilled rfl).2 ?_⟩
      exact ⟨hopen, haccepts, hready, earlier, listens, closes, later, rfl, fun job hmem => hearlier job (List.mem_cons_of_mem _ hmem), hlater⟩
  · obtain ⟨earlier, listens, later, hqueue, hearlier, hlater⟩ := (promised_rejected hpromise).1 h
    rw [hjobs] at hqueue
    cases earlier with
    | nil =>
      obtain ⟨rfl, rfl⟩ := List.cons.inj hqueue
      exact .inr (.inr (.inr ⟨listens, message, rfl, rfl, hlater⟩))
    | cons first earlier =>
      obtain ⟨rfl, rfl⟩ := List.cons.inj hqueue
      refine .inl ⟨hearlier job List.mem_cons_self, (promised_rejected rfl).2 ?_⟩
      exact ⟨earlier, listens, later, rfl, fun job hmem => hearlier job (List.mem_cons_of_mem _ hmem), hlater⟩

theorem rejects_of_waitingCloses (hjobs : ∀ job ∈ state.jobs, Rejects job ∨ job = ⟨[.close], none⟩) (hnone : state.waitingCloses = 0) :
    ∀ job ∈ state.jobs, Rejects job := by
  intro job hmem
  refine (hjobs job hmem).resolve_right fun hclose => ?_
  have hcount : (state.jobs.flatMap Resumption.awaiting).count .close = 0 := (Nat.add_eq_zero_iff.1 hnone).2
  refine List.count_eq_zero.1 hcount (List.mem_flatMap.2 ⟨job, hmem, ?_⟩)
  rw [hclose]
  exact List.mem_singleton_self _

end promised

namespace Kept
variable {state : MicroserviceState}

theorem resolveListen (h : state.Kept) (haccepts : state.accepts = true) : { state with quiet := false }.resolveListen.Kept := by
  obtain ⟨hbase, hpromised⟩ := h
  have hcalled : Base state.waitingCloses { state with quiet := false } :=
    ⟨hbase.closes, hbase.listens, nofun, hbase.effected, hbase.released, hbase.listening⟩
  exact ⟨hcalled.resolveListen haccepts, hpromised.of_eq rfl rfl rfl rfl rfl nofun⟩

variable {bound : Bool} {calls : List Awaiting} {index : Nat} {jobs : List Resumption}

theorem await_listen (h : state.Kept) (hnone : state.waitingCloses = 0)
    (hpromise : state.listenPromise = .pending bound calls) :
    Kept { state with quiet := false, listenPromise := .pending bound (calls ++ [.listen]) } := by
  obtain ⟨hbase, hpromised⟩ := h
  obtain ⟨hopen, hbound, -, hjobs, listens, closes, rfl⟩ := (promised_pending hpromise).1 hpromised
  have hcloses : closes = 0 := by
    have hcount := (Nat.add_eq_zero_iff.1 hnone).1
    rwa [awaiting, hpromise, count_lined] at hcount
  subst hcloses
  refine ⟨⟨?_, hbase.listens, nofun, hbase.effected, hbase.released, hbase.listening⟩, (promised_pending rfl).2 ?_⟩
  · simpa [waitingCloses, awaiting, hpromise] using hbase.closes
  · exact ⟨hopen, hbound, rfl, hjobs, listens + 1, 0, lined_concat_listen listens⟩

theorem queue_listen (h : state.Kept) {message : String} (hpromise : state.listenPromise = .settled (some message)) :
    Kept { state with quiet := false, jobs := state.jobs ++ [⟨[.listen], some message⟩] } := by
  obtain ⟨hbase, hpromised⟩ := h
  obtain ⟨earlier, listens, later, hjobs, hearlier, hlater⟩ := (promised_rejected hpromise).1 hpromised
  refine ⟨⟨?_, hbase.listens, nofun, hbase.effected, hbase.released, hbase.listening⟩, ?_⟩
  · simpa [waitingCloses, awaiting, hpromise] using hbase.closes
  · simp only [Promised, hpromise]
    refine ⟨earlier, listens, later ++ [⟨[.listen], some message⟩], by simp [hjobs], hearlier, ?_⟩
    intro job hmem
    rcases List.mem_append.1 hmem with hmem | hmem
    · exact hlater job hmem
    · exact ⟨message, List.mem_singleton.1 hmem⟩

theorem startListening (h : state.Kept) (hnone : state.waitingCloses = 0) (hclosing : state.closing = []) (hpromise : state.listenPromise = .absent)
    (failure : Option String) : ({ state with quiet := false }.startListening failure).Kept := by
  obtain ⟨hbase, hpromised⟩ := h
  have hjobs := rejects_of_waitingCloses ((promised_absent hpromise).1 hpromised) hnone
  have hcloses := hbase.closes
  cases failure with
  | none =>
    refine ⟨⟨?_, hbase.listens, nofun, hbase.effected, hbase.released, hbase.listening⟩, (promised_pending rfl).2 ?_⟩
    · simpa [MicroserviceState.startListening, waitingCloses, awaiting, hpromise] using hcloses
    · exact ⟨hclosing, nofun, rfl, hjobs, 0, 0, rfl⟩
  | some message =>
    refine ⟨⟨?_, hbase.listens, nofun, hbase.effected, hbase.released, hbase.listening⟩, (promised_rejected rfl).2 ?_⟩
    · simpa [MicroserviceState.startListening, waitingCloses, awaiting, hpromise] using hcloses
    · exact ⟨state.jobs, 0, [], rfl, hjobs, nofun⟩

theorem listen (h : state.Kept) {failure : Option String} (horderly : state.Orderly (.listen failure)) : (state.listen failure).Kept := by
  obtain ⟨hnone, hclosing, hlistening⟩ := horderly
  by_cases hready : state.listening = true
  · have hreleased := hlistening hready
    rw [MicroserviceState.listen, if_pos hready]
    exact h.resolveListen (accepts_iff.2 ⟨h.base.listening hready hreleased, hreleased⟩)
  · rw [MicroserviceState.listen, if_neg hready]
    split
    next hpromise => exact h.await_listen hnone hpromise
    next outcome hpromise =>
      cases outcome with
      | none => exact absurd ((promised_fulfilled hpromise).1 h.promised).2.2.1 hready
      | some message => exact h.queue_listen hpromise
    next hpromise => exact h.startListening hnone hclosing hpromise failure

theorem await_close (h : state.Kept) (hpromise : state.listenPromise = .pending bound calls) :
    Kept { state with closeCalls := state.closeCalls + 1, listenPromise := .pending bound (calls ++ [.close]) } := by
  obtain ⟨hbase, hpromised⟩ := h
  have hcloses := hbase.closes
  obtain ⟨hopen, hbound, hquiet, hjobs, listens, closes, rfl⟩ := (promised_pending hpromise).1 hpromised
  refine ⟨⟨?_, hbase.listens, hbase.quiet, hbase.effected, hbase.released, hbase.listening⟩, (promised_pending rfl).2 ?_⟩
  · simp [waitingCloses, awaiting, hpromise] at hcloses ⊢
    omega
  · exact ⟨hopen, hbound, hquiet, hjobs, listens, closes + 1, lined_concat_close listens closes⟩

theorem queue_close (h : state.Kept) (hpromise : state.listenPromise = .settled none) :
    Kept { state with closeCalls := state.closeCalls + 1, jobs := state.jobs ++ [⟨[.close], none⟩] } := by
  obtain ⟨hbase, hpromised⟩ := h
  have hcloses := hbase.closes
  obtain ⟨hopen, haccepts, hready, earlier, listens, closes, later, hjobs, hearlier, hlater⟩ := (promised_fulfilled hpromise).1 hpromised
  refine ⟨⟨?_, hbase.listens, hbase.quiet, hbase.effected, hbase.released, hbase.listening⟩, ?_⟩
  · simp [waitingCloses, awaiting, hpromise] at hcloses ⊢
    omega
  · simp only [Promised, hpromise]
    refine ⟨hopen, haccepts, hready, earlier, listens, closes, later ++ [⟨[.close], none⟩], by simp [hjobs], hearlier, ?_⟩
    intro job hmem
    rcases List.mem_append.1 hmem with hmem | hmem
    · exact hlater job hmem
    · exact List.mem_singleton.1 hmem

theorem close (h : state.Kept) (horderly : state.Orderly .close) : state.close.Kept := by
  unfold MicroserviceState.close
  split
  next hpromise => exact h.await_close hpromise
  next outcome hpromise =>
    cases outcome with
    | none => exact h.queue_close hpromise
    | some message => exact absurd hpromise (horderly message)
  next hpromise =>
    have hcalled : Base (state.waitingCloses + 1) { state with closeCalls := state.closeCalls + 1 } :=
      ⟨congrArg Nat.succ h.base.closes, h.base.listens, h.base.quiet, h.base.effected, h.base.released, h.base.listening⟩
    refine ⟨hcalled.closeTransport, (promised_absent ?_).2 ((promised_absent hpromise).1 h.promised)⟩
    exact hpromise

theorem binds (h : state.Kept) (hpromise : state.listenPromise = .pending false calls) :
    Kept { state with listenPromise := .pending true calls, bound := true, released := false } := by
  obtain ⟨hbase, hpromised⟩ := h
  obtain ⟨hopen, -, hquiet, hjobs, hcalls⟩ := (promised_pending hpromise).1 hpromised
  refine ⟨⟨?_, hbase.listens, ?_, ?_, ?_, fun _ _ => rfl⟩, (promised_pending rfl).2 ⟨hopen, fun _ => rfl, hquiet, hjobs, hcalls⟩⟩
  · simpa [waitingCloses, awaiting, hpromise] using hbase.closes
  · intro hq
    exact absurd (hquiet.symm.trans hq) nofun
  · intro hmem
    exact absurd (hopen ▸ hmem) List.not_mem_nil
  · intro hne
    exact absurd hopen hne

theorem fulfills (h : state.Kept) (hpromise : state.listenPromise = .pending true calls) :
    Kept { state with
      listenPromise := .settled none, jobs := state.jobs ++ [⟨calls, none⟩], listening := true, lifecycleState := .ready } := by
  obtain ⟨hbase, hpromised⟩ := h
  have hcloses := hbase.closes
  obtain ⟨hopen, hbound, -, hjobs, listens, closes, rfl⟩ := (promised_pending hpromise).1 hpromised
  have haccepts := hbound rfl
  refine ⟨⟨?_, hbase.listens, hbase.quiet, hbase.effected, hbase.released, fun _ _ => (accepts_iff.1 haccepts).1⟩, (promised_fulfilled rfl).2 ?_⟩
  · simp [waitingCloses, awaiting, hpromise] at hcloses ⊢
    omega
  · exact ⟨hopen, haccepts, rfl, state.jobs, listens, closes, [], rfl, hjobs, nofun⟩

theorem rejects (h : state.Kept) (hpromise : state.listenPromise = .pending bound calls)
    (hnone : Awaiting.close ∉ calls) (message : String) :
    Kept { state with listenPromise := .settled (some message), jobs := state.jobs ++ [⟨calls, some message⟩] } := by
  obtain ⟨hbase, hpromised⟩ := h
  have hcloses := hbase.closes
  obtain ⟨-, -, -, hjobs, listens, closes, rfl⟩ := (promised_pending hpromise).1 hpromised
  obtain rfl : closes = 0 := by
    rw [← List.count_eq_zero, count_lined] at hnone
    exact hnone
  refine ⟨⟨?_, hbase.listens, hbase.quiet, hbase.effected, hbase.released, hbase.listening⟩, (promised_rejected rfl).2 ?_⟩
  · simp [waitingCloses, awaiting, hpromise] at hcloses ⊢
    omega
  · exact ⟨state.jobs, listens, [], rfl, hjobs, nofun⟩

theorem unbinds (h : state.Kept) (hindex : state.closing[index]? = some false) :
    Kept { state with closing := state.closing.set index true, bound := false } := by
  obtain ⟨hbase, hpromised⟩ := h
  have hclosing : state.closing ≠ [] := List.ne_nil_of_mem (List.mem_of_getElem? hindex)
  have hreleased := hbase.released hclosing
  refine ⟨⟨hbase.closes, hbase.listens, fun _ => rfl, fun _ => rfl, fun _ => hreleased, fun _ hkept => ?_⟩, hpromised.of_closing hclosing rfl rfl⟩
  exact absurd (hreleased.symm.trans hkept) nofun

theorem closes (h : state.Kept) (hindex : state.closing[index]? = some true) :
    Kept { state with closing := state.closing.eraseIdx index, listening := false, lifecycleState := .stopped, quiet := true } := by
  obtain ⟨hbase, hpromised⟩ := h
  have hmem := List.mem_of_getElem? hindex
  have hbound := hbase.effected hmem
  refine ⟨⟨hbase.closes, hbase.listens, fun _ => hbound, fun _ => hbound, fun _ => hbase.released (List.ne_nil_of_mem hmem), nofun⟩, ?_⟩
  exact hpromised.of_closing (List.ne_nil_of_mem hmem) rfl rfl

theorem fails (h : state.Kept) {effected : Bool} (hindex : state.closing[index]? = some effected) (message : String) :
    ({ state with closing := state.closing.eraseIdx index }.fail message).Kept := by
  obtain ⟨hbase, hpromised⟩ := h
  have hclosing : state.closing ≠ [] := List.ne_nil_of_mem (List.mem_of_getElem? hindex)
  refine ⟨⟨hbase.closes, hbase.listens, hbase.quiet, fun hmem => hbase.effected (List.mem_of_mem_eraseIdx hmem), fun _ => hbase.released hclosing,
    hbase.listening⟩, ?_⟩
  exact hpromised.of_closing hclosing rfl rfl

theorem skips (h : state.Kept) {job : Resumption} (hjobs : state.jobs = job :: jobs) (hrejects : Rejects job)
    (hpromised : Promised { state with jobs }) : (job.awaiting.foldl (resume job.failure) { state with jobs }).Kept := by
  rw [resume_rejects hrejects]
  refine ⟨⟨?_, h.base.listens, h.base.quiet, h.base.effected, h.base.released, h.base.listening⟩, hpromised⟩
  have hcloses := h.base.closes
  rw [waitingCloses_cons hjobs] at hcloses
  obtain ⟨message, rfl⟩ := hrejects
  simpa using hcloses

theorem closes_transport (h : state.Kept) (hjobs : state.jobs = ⟨[.close], none⟩ :: jobs)
    (hpromise : state.listenPromise = .absent) : ({ state with jobs }.closeTransport).Kept := by
  have hbase : Base (waitingCloses { state with jobs } + 1) { state with jobs } := by
    refine ⟨?_, h.base.listens, h.base.quiet, h.base.effected, h.base.released, h.base.listening⟩
    have hcloses := h.base.closes
    rw [waitingCloses_cons hjobs] at hcloses
    simpa [Nat.add_comm] using hcloses
  refine ⟨hbase.closeTransport, ?_⟩
  have hall := (promised_absent hpromise).1 h.promised
  rw [hjobs] at hall
  refine (promised_absent ?_).2 fun job hmem => hall job (List.mem_cons_of_mem _ hmem)
  exact hpromise

theorem of_absent (hpromise : state.listenPromise = .absent) (hjobs : state.jobs = jobs)
    (hbase : state.Base ((jobs.flatMap Resumption.awaiting).count .close)) (hall : ∀ job ∈ jobs, Rejects job ∨ job = ⟨[.close], none⟩) :
    state.Kept := by
  subst hjobs
  refine ⟨?_, (promised_absent hpromise).2 hall⟩
  rwa [waitingCloses_absent hpromise]

/-- The calls that awaited a fulfilled promise: the `listen()` calls find the transport listening, then the `close()` calls come to it. -/
theorem resumes_fulfilled (h : state.Kept) (haccepts : state.accepts = true) (hpromise : state.listenPromise = .settled none)
    {listens closes : Nat} (hjobs : state.jobs = ⟨lined listens closes, none⟩ :: jobs)
    (hlater : ∀ job ∈ jobs, job = ⟨[.close], none⟩) : ((lined listens closes).foldl (resume none) { state with jobs }).Kept := by
  have hcount : state.waitingCloses = closes + (jobs.flatMap Resumption.awaiting).count .close := by
    rw [waitingCloses_cons hjobs, count_lined]
    simp [waitingCloses, awaiting, hpromise]
  have hcleared : Base (closes + (jobs.flatMap Resumption.awaiting).count .close) { state with jobs, listenPromise := .absent } := by
    rw [← hcount]
    exact ⟨h.base.closes, h.base.listens, h.base.quiet, h.base.effected, h.base.released, h.base.listening⟩
  have hopened := (hcleared.resolveListen haccepts).resume_listens haccepts listens
  have hbase := hopened.resume_closes
  rw [← List.foldl_append] at hbase
  rw [lined, List.foldl_cons]
  exact of_absent (foldl_resume_listenPromise none (opener_notMem listens closes) _) (foldl_resume_jobs none _ _) hbase
    fun job hmem => .inr (hlater job hmem)

theorem resumes_rejected (h : state.Kept) {message : String} (hpromise : state.listenPromise = .settled (some message)) {listens : Nat}
    (hjobs : state.jobs = ⟨lined listens 0, some message⟩ :: jobs) (hlater : ∀ job ∈ jobs, Rejects job) :
    ((lined listens 0).foldl (resume (some message)) { state with jobs }).Kept := by
  have hcount : state.waitingCloses = (jobs.flatMap Resumption.awaiting).count .close := by
    rw [waitingCloses_cons hjobs, count_lined]
    simp [waitingCloses, awaiting, hpromise]
  have hcleared : Base ((jobs.flatMap Resumption.awaiting).count .close) ({ state with jobs, listenPromise := .absent }.fail message) := by
    rw [← hcount]
    exact ⟨h.base.closes, h.base.listens, h.base.quiet, h.base.effected, h.base.released, h.base.listening⟩
  have hbase := hcleared.resume_rejected message listens
  rw [lined, List.foldl_cons, List.replicate_zero, List.append_nil]
  have hopener : Awaiting.opener ∉ List.replicate listens .listen := fun hmem => absurd (List.eq_of_mem_replicate hmem) nofun
  exact of_absent (foldl_resume_listenPromise _ hopener _) (foldl_resume_jobs _ _ _) hbase fun job hmem => .inl (hlater job hmem)

theorem resumes (h : state.Kept) {job : Resumption} (hjobs : state.jobs = job :: jobs) :
    (job.awaiting.foldl (resume job.failure) { state with jobs }).Kept := by
  rcases h.promised.head hjobs with ⟨hrejects, hrest⟩ | ⟨rfl, habsent⟩ | ⟨listens, closes, rfl, hpromise, haccepts, hlater⟩ |
    ⟨listens, message, rfl, hpromise, hlater⟩
  · exact h.skips hjobs hrejects hrest
  · exact h.closes_transport hjobs habsent
  · exact h.resumes_fulfilled haccepts hpromise hjobs hlater
  · exact h.resumes_rejected hpromise hjobs hlater

theorem step (h : state.Kept) {label : MicroserviceLabel} {state' : MicroserviceState} (horderly : state.Orderly label)
    (hstep : state.step label = some state') : state'.Kept := by
  cases label with
  | listen failure =>
    cases hstep
    exact h.listen horderly
  | close =>
    cases hstep
    exact h.close horderly
  | binds =>
    dsimp only [MicroserviceState.step] at hstep
    split at hstep
    next hpromise =>
      cases hstep
      exact h.binds hpromise
    · cases hstep
  | listenSettles failure =>
    dsimp only [MicroserviceState.step] at hstep
    split at hstep
    next bound calls hpromise =>
      cases failure with
      | none =>
        obtain ⟨rfl, rfl⟩ := Option.ite_none_right_eq_some.1 hstep |>.imp id Option.some.inj
        exact h.fulfills hpromise
      | some message =>
        cases hstep
        have hnone : Awaiting.close ∉ state.awaiting := horderly
        rw [awaiting, hpromise] at hnone
        exact h.rejects hpromise hnone message
    · cases hstep
  | unbinds index =>
    obtain ⟨hindex, rfl⟩ := Option.ite_none_right_eq_some.1 hstep |>.imp id Option.some.inj
    exact h.unbinds hindex
  | closeSettles index failure =>
    dsimp only [MicroserviceState.step] at hstep
    split at hstep
    · cases hstep
    next effected hindex =>
      cases failure with
      | none =>
        obtain ⟨rfl, rfl⟩ := Option.ite_none_right_eq_some.1 hstep |>.imp id Option.some.inj
        exact h.closes hindex
      | some message =>
        cases hstep
        exact h.fails hindex message
  | resumes =>
    dsimp only [MicroserviceState.step] at hstep
    split at hstep
    · cases hstep
    next hjobs =>
      cases hstep
      exact h.resumes hjobs

end Kept
end MicroserviceState

/-- In an orderly run `close()` comes to the transport, `listen()` resolves on a listening transport, and a `close()` that has
resolved leaves the transport released. -/
theorem lifecycle_sound {labels : List MicroserviceLabel} {state : MicroserviceState}
    (h : Run MicroserviceState.step MicroserviceState.Orderly {} labels state) : state.Sound := by
  have hbase : MicroserviceState.Base 0 {} := ⟨rfl, nofun, nofun, nofun, nofun, nofun⟩
  have hstart : MicroserviceState.Kept {} := ⟨hbase, (MicroserviceState.promised_absent rfl).2 nofun⟩
  exact (h.keeps MicroserviceState.Kept (fun _ _ _ horderly hkept hstep => hkept.step horderly hstep) hstart).sound

/-- Two `listen()` calls and two `close()` calls overlap, then a `listen()` fails. -/
private def overlapping : List MicroserviceLabel :=
  [.listen none, .listen none, .close, .binds, .listenSettles none, .close, .resumes, .resumes, .unbinds 0, .closeSettles 1 (some "reset"),
    .closeSettles 0 none, .listen none, .listenSettles (some "refused"), .listen none, .resumes, .resumes, .close]

theorem lifecycle_sound_overlapping : (after MicroserviceState.step {} overlapping).Sound :=
  lifecycle_sound (Run.of_passes (p := fun state label => decide (state.Orderly label)) (fun _ _ h => of_decide_eq_true h)
    (by decide : passes MicroserviceState.step (fun state label => decide (state.Orderly label)) {} overlapping = true))

/-- A `close()` that awaits a failing `listen()` never comes to the transport; a `listen()` during a `close()` resolves on a transport
that is closed; and a `close()` that resolves after such a `listen()` leaves the transport listening. -/
theorem lifecycle_unsound :
    (∃ state, Run MicroserviceState.step (fun _ _ => True) {} [.listen none, .close, .binds, .listenSettles (some "refused"), .resumes] state ∧
      state.closeCalls = 1 ∧ state.waitingCloses = 0 ∧ state.transportCloses = 0 ∧ state.bound = true ∧ ¬ state.Sound) ∧
    (∃ state, Run MicroserviceState.step (fun _ _ => True) {}
        [.listen none, .binds, .listenSettles none, .resumes, .close, .unbinds 0, .listen none] state ∧
      state.resolvedListens = [true, false] ∧ ¬ state.Sound) ∧
    ∃ state, Run MicroserviceState.step (fun _ _ => True) {}
        [.close, .unbinds 0, .listen none, .binds, .listenSettles none, .resumes, .closeSettles 0 none] state ∧
      state.quiet = true ∧ state.bound = true ∧ ¬ state.Sound := by
  refine ⟨⟨_, Run.of_passes (p := fun _ _ => true) (fun _ _ _ => trivial) (by decide), by decide, by decide, by decide, by decide, fun hsound => ?_⟩,
    ⟨_, Run.of_passes (p := fun _ _ => true) (fun _ _ _ => trivial) (by decide), by decide, fun hsound => ?_⟩,
    ⟨_, Run.of_passes (p := fun _ _ => true) (fun _ _ _ => trivial) (by decide), by decide, by decide, fun hsound => ?_⟩⟩
  · exact absurd hsound.closes (by decide)
  · exact absurd (hsound.listens false (by decide)) (by decide)
  · exact absurd (hsound.quiet (by decide)) (by decide)

end Fluo.Microservices
