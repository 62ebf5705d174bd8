import Fluo.Lib.Runs
/-!
# The application lifecycle

`FluoApplication.listen`, `ready` and `close`. Every `await` is a step, so the
calls interleave in any order; the adapter, the shutdown hooks, the platform
shell and the container answer as the label says.

`close` drops its promise when it fails and leaves the state as it was, so
that it can be retried. What it has closed by then stays closed.
-/

namespace Fluo.Runtime

open Lib (Run after passes)

inductive ApplicationState
  | bootstrapped
  | ready
  | closed
  deriving DecidableEq

inductive AppError
  | invariant (message : String)
  /-- Thrown by the adapter, a hook, the shell or the container. -/
  | thrown (message : String)
  | aggregate (errors : List AppError) (message : String)

abbrev Result := Except AppError Unit

def createLifecycleCloseError : List AppError → AppError
  | [e] => e
  | es => .aggregate es "Application close failed for one or more shutdown steps."

/-- What one `try` around a shutdown step adds to the errors. -/
def caught : List AppError → List AppError
  | [] => []
  | es => [createLifecycleCloseError es]

def listenAfterClose : AppError := .invariant "Application cannot listen after it has been closed."
def readyAfterClose : AppError := .invariant "Application cannot become ready after it has been closed."
def noHttpAdapter : AppError := .invariant "Application cannot listen without an HTTP adapter. Provide options.adapter for HTTP startup, or use createApplicationContext() for adapterless DI-only bootstrap."
def interrupted : AppError := .invariant "Application startup was interrupted by shutdown."

/-- What `listenPromise` awaits. -/
inductive ListenStage
  | readiness
  | adapterListen
  | settled (result : Result)

/-- What `closingPromise` awaits. -/
inductive CloseStage
  | listening
  | microservices
  | runtimeCleanup
  | shutdownHooks
  | adapterClose
  | disposeContainer
  /-- Nothing is left to await but the promises of `closeRuntimeResources`. -/
  | finishing
  | settled (result : Result)

structure Closing where
  stage : CloseStage
  errors : List AppError := []
  /-- The errors of `closeRuntimeResources`. -/
  resourceErrors : List AppError := []

inductive Outcome
  | pending
  | fulfilled
  | rejected (e : AppError)

def Outcome.of : Result → Outcome
  | .ok _ => .fulfilled
  | .error e => .rejected e

inductive Method
  | listen
  | ready
  | close
  deriving DecidableEq

structure Call where
  method : Method
  outcome : Outcome

structure Application where
  hasHttpAdapter : Bool := true
  applicationState : ApplicationState := .bootstrapped
  closed : Bool := false
  closingPromise : Option Closing := none
  listenPromise : Option ListenStage := none
  containerDisposed : Bool := false
  calls : List Call := []

inductive Label
  | listen
  | ready
  | close
  /-- The platform shell answers `ready()` call `k`. -/
  | readiness (k : Nat) (result : Result)
  /-- The platform shell answers `startListening`. -/
  | listenReadiness (result : Result)
  | adapterListen (result : Result)
  /-- The `finally` of `listen`. -/
  | listenFinally
  /-- The `close` in progress goes on; its current step has thrown `errors`. -/
  | closeNext (errors : List AppError)

/-! ## Methods -/

def Application.call (s : Application) (m : Method) (o : Outcome) : Application := { s with calls := s.calls ++ [⟨m, o⟩] }

/-- The calls that await the promise of a method settle with it. -/
def settle (m : Method) (result : Result) (calls : List Call) : List Call :=
  calls.map fun c => match c.outcome with
    | .pending => if c.method = m then { c with outcome := .of result } else c
    | _ => c

def Application.shuttingDown (s : Application) : Bool :=
  s.closed || s.closingPromise.isSome || s.applicationState = .closed

/-- `startListening` up to its first `await` -/
def Application.startListening (s : Application) : ListenStage :=
  if s.shuttingDown then .settled (.error listenAfterClose)
  else if !s.hasHttpAdapter then .settled (.error noHttpAdapter)
  else if s.applicationState = .closed then .settled (.error readyAfterClose)
  else .readiness

/-- What a call that awaits `listenPromise` has of it so far. -/
def ListenStage.outcome : ListenStage → Outcome
  | .settled r => .of r
  | _ => .pending

def CloseStage.outcome : CloseStage → Outcome
  | .settled r => .of r
  | _ => .pending

def Application.listen (s : Application) : Application :=
  if s.shuttingDown then s.call .listen (.rejected listenAfterClose)
  else if s.applicationState = .ready then s.call .listen .fulfilled
  else match s.listenPromise with
    | some stage => s.call .listen stage.outcome
    | none => { s with listenPromise := some s.startListening }.call .listen s.startListening.outcome

def Application.ready (s : Application) : Application :=
  if s.applicationState = .closed then s.call .ready (.rejected readyAfterClose) else s.call .ready .pending

def Application.close (s : Application) : Application :=
  if s.closed then s.call .close .fulfilled
  else match s.closingPromise with
    | some c => s.call .close c.stage.outcome
    | none => { s with closingPromise := some { stage := if s.listenPromise.isSome then .listening else .microservices } }.call
        .close .pending

def Application.settleListen (s : Application) (result : Result) : Application :=
  { s with listenPromise := some (.settled result), calls := settle .listen result s.calls }

/-- `startListening` after `adapter.listen` -/
def Application.afterListen (s : Application) : Result → Application
  | .error e => s.settleListen (.error e)
  | .ok _ =>
    if s.closed || s.closingPromise.isSome then s.settleListen (.error interrupted)
    else { s with applicationState := .ready }.settleListen (.ok ())

/-- The next part of the `close` in progress. -/
def Application.closeNext (s : Application) (c : Closing) (errors : List AppError) : Option Application :=
  match c.stage with
  | .listening => match s.listenPromise with
    | none | some (.settled _) => some { s with closingPromise := some { c with stage := .microservices } }
    | _ => none
  | .microservices => some { s with closingPromise := some { c with stage := .runtimeCleanup, errors := caught errors } }
  | .runtimeCleanup => some { s with closingPromise := some { c with stage := .shutdownHooks, resourceErrors := errors } }
  | .shutdownHooks => some { s with
      closingPromise := some { c with stage := .adapterClose, resourceErrors := c.resourceErrors ++ caught errors } }
  | .adapterClose => some { s with
      closingPromise := some { c with stage := .disposeContainer, resourceErrors := c.resourceErrors ++ caught errors } }
  | .disposeContainer => some { s with
      closingPromise := some { c with stage := .finishing, resourceErrors := c.resourceErrors ++ caught errors }
      containerDisposed := s.containerDisposed || errors.isEmpty }
  | .finishing => match c.errors ++ caught c.resourceErrors with
    | [] => some { s with
        closed := true, applicationState := .closed
        closingPromise := some { c with stage := .settled (.ok ()) }, calls := settle .close (.ok ()) s.calls }
    | es => some { s with
        closingPromise := some { c with stage := .settled (.error (createLifecycleCloseError es)) }
        calls := settle .close (.error (createLifecycleCloseError es)) s.calls }
  -- the `catch` of `close` drops the promise
  | .settled (.error _) => some { s with closingPromise := none }
  | .settled (.ok _) => none

def step (s : Application) : Label → Option Application
  | .listen => some s.listen
  | .ready => some s.ready
  | .close => some s.close
  | .readiness k result => match s.calls[k]? with
    | some ⟨.ready, .pending⟩ => some { s with calls := s.calls.set k ⟨.ready, .of result⟩ }
    | _ => none
  | .listenReadiness result => match s.listenPromise, result with
    | some .readiness, .ok _ => some { s with listenPromise := some .adapterListen }
    | some .readiness, .error e => some (s.settleListen (.error e))
    | _, _ => none
  | .adapterListen result => match s.listenPromise with
    | some .adapterListen => some (s.afterListen result)
    | _ => none
  | .listenFinally => match s.listenPromise with
    | some (.settled _) => some { s with listenPromise := none }
    | _ => none
  | .closeNext errors => s.closingPromise.bind fun c => s.closeNext c errors

/-! ## What a close leaves behind -/

/-- The close in progress has disposed the container and nothing has failed,
or a close has succeeded before. -/
def Application.ShutDown (s : Application) : Prop :=
  s.closed = true ∨ ∃ c, s.closingPromise = some c ∧ c.stage = .finishing ∧ c.errors = [] ∧ c.resourceErrors = []

structure Inv (s : Application) : Prop where
  state : s.closed = true → s.applicationState = .closed
  closeFulfilled : ∀ c ∈ s.calls, c.method = .close → c.outcome = .fulfilled → s.closed = true
  closeSettled : ∀ c r, s.closingPromise = some c → c.stage = .settled (.ok r) → s.closed = true

/-- From the `n`-th on, every call of the method is rejected. -/
def Rejected (m : Method) (n : Nat) (calls : List Call) : Prop :=
  ∀ (k : Nat) (c : Call), n ≤ k → calls[k]? = some c → c.method = m → ∃ e, c.outcome = .rejected e

section
variable {s s' : Application} {m m' : Method} {n : Nat} {calls : List Call}

theorem Rejected.append (h : Rejected m n calls) {o : Outcome} (ho : m' = m → ∃ e, o = .rejected e) :
    Rejected m n (calls ++ [⟨m', o⟩]) := by
  intro k c hk hc hm
  rcases Nat.lt_or_ge k calls.length with hlt | hge
  · rw [List.getElem?_append_left hlt] at hc
    exact h k c hk hc hm
  · rw [List.getElem?_append_right hge, List.getElem?_singleton] at hc
    split at hc
    · cases hc
      exact ho hm
    · cases hc

theorem mem_settle {r : Result} {c : Call} (h : c ∈ settle m r calls) :
    c ∈ calls ∨ c.method = m ∧ c.outcome = .of r := by
  obtain ⟨d, hd, rfl⟩ := List.mem_map.1 h
  split
  · split
    · exact .inr ⟨‹_›, rfl⟩
    · exact .inl hd
  · exact .inl hd

theorem Rejected.settle (h : Rejected m n calls) (m' : Method) (r : Result) : Rejected m n (settle m' r calls) := by
  intro k c hk hc hm
  rw [Runtime.settle, List.getElem?_map, Option.map_eq_some_iff] at hc
  obtain ⟨d, hd, rfl⟩ := hc
  have hdm : d.method = m := by
    rw [← hm]
    split
    · split <;> rfl
    · rfl
  obtain ⟨e, he⟩ := h k d hk hd hdm
  exact ⟨e, by simp only [he]⟩

theorem Rejected.set (h : Rejected m n calls) {k : Nat} (hk : calls[k]? = some ⟨.ready, .pending⟩) (r : Result) :
    Rejected m n (calls.set k ⟨.ready, .of r⟩) := by
  intro j c hj hc hm
  rw [List.getElem?_set] at hc
  split at hc
  · rename_i hkj
    subst hkj
    split at hc
    · cases hc
      obtain ⟨e, he⟩ := h k _ hj hk hm
      cases he
    · cases hc
  · exact h j c hj hc hm

theorem Application.ShutDown.shuttingDown (h : s.ShutDown) : s.shuttingDown = true := by
  rcases h with h | ⟨c, hc, _⟩
  · simp [Application.shuttingDown, h]
  · simp [Application.shuttingDown, hc]

/-! ## Steps -/

theorem Application.closeNext_effect {c : Closing} {errors : List AppError} (hs : s.closeNext c errors = some s') :
    (s.closed = true → s'.closed = true) ∧ (s'.calls = s.calls ∨ ∃ r, s'.calls = settle .close r s.calls) := by
  unfold Application.closeNext at hs
  split at hs
  · split at hs <;> cases hs <;> exact ⟨id, .inl rfl⟩
  · cases hs; exact ⟨id, .inl rfl⟩
  · cases hs; exact ⟨id, .inl rfl⟩
  · cases hs; exact ⟨id, .inl rfl⟩
  · cases hs; exact ⟨id, .inl rfl⟩
  · cases hs; exact ⟨id, .inl rfl⟩
  · split at hs <;> cases hs
    · exact ⟨fun _ => rfl, .inr ⟨_, rfl⟩⟩
    · exact ⟨id, .inr ⟨_, rfl⟩⟩
  · cases hs; exact ⟨id, .inl rfl⟩
  · cases hs

theorem Rejected.closeNext (h : Rejected m n s.calls) {c : Closing} {errors : List AppError}
    (hs : s.closeNext c errors = some s') : Rejected m n s'.calls := by
  rcases (Application.closeNext_effect hs).2 with he | ⟨r, he⟩
  · exact he ▸ h
  · exact he ▸ h.settle _ _

theorem Inv.calls_append (h : Inv s) {o : Outcome} (ho : m = .close → o = .fulfilled → s.closed = true) : Inv (s.call m o) := by
  refine { h with closeFulfilled := fun c hc hm hf => ?_ }
  rcases List.mem_append.1 hc with hc | hc
  · exact h.closeFulfilled c hc hm hf
  · rw [List.mem_singleton.1 hc] at hm hf
    exact ho hm hf

theorem Inv.settleListen (h : Inv s) (r : Result) : Inv (s.settleListen r) := by
  refine { h with closeFulfilled := fun c hc hm hf => ?_ }
  rcases mem_settle hc with hc | ⟨hm', _⟩
  · exact h.closeFulfilled c hc hm hf
  · rw [hm] at hm'; cases hm'

theorem Inv.closeNext (h : Inv s) {c : Closing} {errors : List AppError} (hs : s.closeNext c errors = some s') : Inv s' := by
  have hgo : ∀ {d : Closing} {b : Bool}, (∀ r, d.stage ≠ .settled r) →
      Inv { s with closingPromise := some d, containerDisposed := b } := fun hd =>
    { h with closeSettled := fun _ _ he hr => by cases he; exact absurd hr (hd _) }
  unfold Application.closeNext at hs
  split at hs
  · split at hs <;> cases hs <;> exact hgo (by simp)
  · cases hs; exact hgo (by simp)
  · cases hs; exact hgo (by simp)
  · cases hs; exact hgo (by simp)
  · cases hs; exact hgo (by simp)
  · cases hs; exact hgo (by simp)
  · split at hs <;> cases hs
    · exact ⟨fun _ => rfl, fun _ _ _ _ => rfl, fun _ _ _ _ => rfl⟩
    · refine { h with closeFulfilled := fun d hd hm hf => ?_, closeSettled := fun _ _ he hr => by cases he; cases hr }
      rcases mem_settle hd with hd | ⟨_, hd⟩
      · exact h.closeFulfilled d hd hm hf
      · rw [hd] at hf; cases hf
  · cases hs; exact { h with closeSettled := fun _ _ he => by cases he }
  · cases hs

theorem Inv.step (h : Inv s) {l : Label} (hs : Runtime.step s l = some s') : Inv s' := by
  cases l with
  | listen =>
    cases hs
    unfold Application.listen
    split
    · exact h.calls_append (by simp)
    · split
      · exact h.calls_append (by simp)
      · split
        · exact h.calls_append (by simp)
        · exact Inv.calls_append (s := { s with listenPromise := some s.startListening }) { h with } (by simp)
  | ready =>
    cases hs
    unfold Application.ready
    split <;> exact h.calls_append (by simp)
  | close =>
    cases hs
    unfold Application.close
    split
    · exact h.calls_append fun _ _ => ‹_›
    · split
      · rename_i c hc
        refine h.calls_append fun _ hf => ?_
        cases hst : c.stage with
        | settled r =>
          rw [hst] at hf
          cases r with
          | ok => exact h.closeSettled c _ hc hst
          | error e => cases hf
        | _ => rw [hst] at hf; cases hf
      · refine Inv.calls_append (s := { s with closingPromise := some _ }) { h with closeSettled := fun c r he hr => ?_ } (by simp)
        cases he
        dsimp only at hr
        split at hr <;> cases hr
  | readiness k result =>
    simp only [Runtime.step] at hs
    split at hs
    · cases hs
      refine { h with closeFulfilled := fun c hc hm hf => ?_ }
      rcases List.mem_or_eq_of_mem_set hc with hc | rfl
      · exact h.closeFulfilled c hc hm hf
      · cases hm
    · cases hs
  | listenReadiness result =>
    simp only [Runtime.step] at hs
    split at hs <;> cases hs
    · exact { h with }
    · exact h.settleListen _
  | adapterListen result =>
    simp only [Runtime.step] at hs
    split at hs <;> cases hs
    unfold Application.afterListen
    split
    · exact h.settleListen _
    · split
      · exact h.settleListen _
      · rename_i hn
        refine Inv.settleListen (s := { s with applicationState := .ready }) { h with state := fun hc => ?_ } _
        have hclosed : s.closed = true := hc
        exact absurd (by simp [hclosed]) hn
  | listenFinally =>
    simp only [Runtime.step] at hs
    split at hs <;> cases hs
    exact { h with }
  | closeNext errors =>
    obtain ⟨c, -, hs⟩ := Option.bind_eq_some_iff.1 hs
    exact h.closeNext hs

theorem Application.ShutDown.step (h : s.ShutDown) {l : Label} (hs : Runtime.step s l = some s') (hr : Rejected .listen n s.calls) :
    s'.ShutDown ∧ Rejected .listen n s'.calls := by
  cases l with
  | listen =>
    cases hs
    rw [Application.listen, if_pos h.shuttingDown]
    exact ⟨h, hr.append fun _ => ⟨_, rfl⟩⟩
  | ready =>
    cases hs
    unfold Application.ready
    split <;> exact ⟨h, hr.append (by simp)⟩
  | close =>
    cases hs
    unfold Application.close
    split
    · exact ⟨h, hr.append (by simp)⟩
    · rename_i hclosed
      obtain ⟨c, hc, hrest⟩ := h.resolve_left hclosed
      rw [hc]
      exact ⟨.inr ⟨c, hc, hrest⟩, hr.append (by simp)⟩
  | readiness k result =>
    simp only [Runtime.step] at hs
    split at hs
    · rename_i hk
      cases hs
      exact ⟨h, hr.set hk _⟩
    · cases hs
  | listenReadiness result =>
    simp only [Runtime.step] at hs
    split at hs <;> cases hs
    · exact ⟨h, hr⟩
    · exact ⟨h, hr.settle _ _⟩
  | adapterListen result =>
    simp only [Runtime.step] at hs
    split at hs <;> cases hs
    unfold Application.afterListen
    split
    · exact ⟨h, hr.settle _ _⟩
    · split
      · exact ⟨h, hr.settle _ _⟩
      · exact ⟨h, hr.settle _ _⟩
  | listenFinally =>
    simp only [Runtime.step] at hs
    split at hs <;> cases hs
    exact ⟨h, hr⟩
  | closeNext errors =>
    obtain ⟨c, hc, hs⟩ := Option.bind_eq_some_iff.1 hs
    rcases h with hclosed | ⟨d, hd, hst, he, hre⟩
    · exact ⟨.inl ((Application.closeNext_effect hs).1 hclosed), hr.closeNext hs⟩
    · rw [hd] at hc
      cases hc
      simp only [Application.closeNext, hst, he, hre, caught, List.append_nil, Option.some.injEq] at hs
      subst hs
      exact ⟨.inl rfl, hr.settle _ _⟩

theorem Inv.step_closed (h : Inv s) (hclosed : s.closed = true) {l : Label} (hs : Runtime.step s l = some s')
    (hr : Rejected .ready n s.calls) : s'.closed = true ∧ Rejected .ready n s'.calls := by
  cases l with
  | listen =>
    cases hs
    rw [Application.listen, if_pos (Application.ShutDown.shuttingDown (.inl hclosed))]
    exact ⟨hclosed, hr.append (by simp)⟩
  | ready =>
    cases hs
    rw [Application.ready, if_pos (h.state hclosed)]
    exact ⟨hclosed, hr.append fun _ => ⟨_, rfl⟩⟩
  | close =>
    cases hs
    rw [Application.close, if_pos hclosed]
    exact ⟨hclosed, hr.append (by simp)⟩
  | readiness k result =>
    simp only [Runtime.step] at hs
    split at hs
    · rename_i hk
      cases hs
      exact ⟨hclosed, hr.set hk _⟩
    · cases hs
  | listenReadiness result =>
    simp only [Runtime.step] at hs
    split at hs <;> cases hs
    · exact ⟨hclosed, hr⟩
    · exact ⟨hclosed, hr.settle _ _⟩
  | adapterListen result =>
    simp only [Runtime.step] at hs
    split at hs <;> cases hs
    unfold Application.afterListen
    split
    · exact ⟨hclosed, hr.settle _ _⟩
    · rw [if_pos (by simp [hclosed])]
      exact ⟨hclosed, hr.settle _ _⟩
  | listenFinally =>
    simp only [Runtime.step] at hs
    split at hs <;> cases hs
    exact ⟨hclosed, hr⟩
  | closeNext errors =>
    obtain ⟨c, hc, hs⟩ := Option.bind_eq_some_iff.1 hs
    exact ⟨(Application.closeNext_effect hs).1 hclosed, hr.closeNext hs⟩

end

/-! ## No readiness after close -/

/-- Once a close has disposed the container and none of its steps has failed,
every later `listen()` is rejected; once a close is fulfilled, every later
`ready()` is rejected as well. -/
theorem no_readiness_after_close (app : Application) (hcalls : app.calls = []) (hopen : app.closed = false)
    (hnot : app.closingPromise = none) {ls₁ ls₂ : List Label} {s₁ s₂ : Application}
    (hr₁ : Run step (fun _ _ => True) app ls₁ s₁) (hr₂ : Run step (fun _ _ => True) s₁ ls₂ s₂) :
    (s₁.ShutDown → Rejected .listen s₁.calls.length s₂.calls) ∧
    ((∃ c ∈ s₁.calls, c.method = .close ∧ c.outcome = .fulfilled) →
      Rejected .listen s₁.calls.length s₂.calls ∧ Rejected .ready s₁.calls.length s₂.calls) := by
  have hinit : Inv app := ⟨by simp [hopen], by simp [hcalls], by simp [hnot]⟩
  have hinv : Inv s₁ := hr₁.keeps Inv (fun _ _ _ _ h hs => h.step hs) hinit
  have hnone : ∀ m, Rejected m s₁.calls.length s₁.calls := by
    intro m k c hk hc
    rw [List.getElem?_eq_none hk] at hc
    cases hc
  have hlisten : s₁.ShutDown → Rejected .listen s₁.calls.length s₂.calls := fun h =>
    (hr₂.keeps (fun s => s.ShutDown ∧ Rejected .listen s₁.calls.length s.calls)
      (fun _ _ _ _ h hs => h.1.step hs h.2) ⟨h, hnone _⟩).2
  refine ⟨hlisten, fun ⟨c, hc, hm, hf⟩ => ?_⟩
  have hclosed := hinv.closeFulfilled c hc hm hf
  refine ⟨hlisten (.inl hclosed), ?_⟩
  have hlater := hr₂.keeps (fun s => Inv s ∧ s.closed = true ∧ Rejected .ready s₁.calls.length s.calls)
    (fun _ _ _ _ h hs => ⟨h.1.step hs, h.1.step_closed h.2.1 hs h.2.2⟩) ⟨hinv, hclosed, hnone _⟩
  exact hlater.2.2

private def served : List Label := [.listen, .listenReadiness (.ok ()), .adapterListen (.ok ()), .listenFinally]

/-- A close whose `adapter.close` throws what is given. -/
private def closing (errors : List AppError) : List Label :=
  [.close, .closeNext [], .closeNext [], .closeNext [], .closeNext errors, .closeNext [], .closeNext []]

private def reach (ls : List Label) : Application := after step {} ls

private theorem run_reach (ls : List Label) (h : passes step (fun _ _ => true) {} ls = true) :
    Run step (fun _ _ => True) {} ls (reach ls) := Run.of_passes (p := fun _ _ => true) (fun _ _ _ => trivial) h

private theorem run_from (s : Application) (ls : List Label) (h : passes step (fun _ _ => true) s ls = true) :
    Run step (fun _ _ => True) s ls (after step s ls) := Run.of_passes (p := fun _ _ => true) (fun _ _ _ => trivial) h

private def Outcome.isFulfilled : Outcome → Bool
  | .fulfilled => true
  | _ => false

private theorem outcome_fulfilled {o : Outcome} (h : o.isFulfilled = true) : o = .fulfilled := by
  cases o <;> first | rfl | cases h

private def afterClose : Application := reach (served ++ closing [])

/-- `listen` and `close`, and after them `listen` and `ready` again. -/
theorem no_readiness_after_close_served : Rejected .listen afterClose.calls.length (after step afterClose [.listen, .ready]).calls ∧
    Rejected .ready afterClose.calls.length (after step afterClose [.listen, .ready]).calls := by
  have hclose : afterClose.calls.any (fun c => c.method = .close && c.outcome.isFulfilled) = true := by decide
  have hrun : passes step (fun _ _ => true) afterClose [.listen, .ready] = true := by decide
  have hpre : Run step (fun _ _ => True) {} (served ++ closing []) afterClose := by
    unfold afterClose
    exact run_reach _ (by decide)
  obtain ⟨c, hc, hf⟩ := List.any_eq_true.1 hclose
  simp only [Bool.and_eq_true, decide_eq_true_eq] at hf
  exact (no_readiness_after_close {} rfl rfl rfl hpre (run_from _ _ hrun)).2 ⟨c, hc, hf.1, outcome_fulfilled hf.2⟩

/-- The adapter fails to close; the container is disposed all the same, and the
application stays ready. -/
private def afterFailedClose : Application := reach (served ++ closing [.thrown "close failed"] ++ [.closeNext []])

theorem no_readiness_after_close_failed : ¬ ∀ (ls₁ ls₂ : List Label) (s₁ s₂ : Application), Run step (fun _ _ => True) {} ls₁ s₁ →
    s₁.containerDisposed = true → Run step (fun _ _ => True) s₁ ls₂ s₂ → ∀ (k : Nat) (c : Call), s₁.calls.length ≤ k →
      s₂.calls[k]? = some c → c.method = .listen ∨ c.method = .ready → c.outcome ≠ .fulfilled := by
  intro h
  have hpre : Run step (fun _ _ => True) {} (served ++ closing [.thrown "close failed"] ++ [.closeNext []]) afterFailedClose := by
    unfold afterFailedClose
    exact run_reach _ (by decide)
  have hdisposed : afterFailedClose.containerDisposed = true := by decide
  have hlength : afterFailedClose.calls.length = 2 := by decide
  have hrun : passes step (fun _ _ => true) afterFailedClose [.listen] = true := by decide
  have hlisten : (after step afterFailedClose [.listen]).calls[2]?.any (fun c => c.method = .listen && c.outcome.isFulfilled) = true := by
    decide
  obtain ⟨c, hc, hf⟩ := (Option.any_eq_true _ _).1 hlisten
  simp only [Bool.and_eq_true, decide_eq_true_eq] at hf
  exact h _ _ _ _ hpre hdisposed (run_from _ _ hrun) 2 c (Nat.le_of_eq hlength) hc (.inl hf.1) (outcome_fulfilled hf.2)

end Fluo.Runtime
