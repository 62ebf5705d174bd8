import Fluo.Mongoose.Connection
/-!
# Shutdown of the Mongoose connection

`dispose` and the transaction boundaries. A boundary is tracked by its request or by its
session, and a shutdown waits for all that it finds tracked. Only `transaction` is tracked
by neither while it awaits `startSession`.
-/

namespace Fluo.Mongoose
open Fluo.Lib

/-- The call has a transaction of its own, or is a request's. -/
def Call.isBoundary (call : Call) : Bool :=
  match call.mode with
  | .connection | .manual => true
  | .direct | .nested => call.isRequest

/-- `dispose` has been invoked. -/
def State.isDisposed (s : State) : Bool := s.shutdowns.any fun shutdown => shutdown.phase ≠ .draining

/-- No boundary is open, and none is being opened. -/
def State.allSettled (s : State) : Bool := s.calls.all fun call => !call.isBoundary || call.phase = .settled

def Label.isDispose : Label → Bool
  | .dispose _ => true
  | _ => false

/-- From the invocation of `dispose` on no boundary is open, before the step and after it. -/
def Drained (config : Config) (s : State) (l : Label) : Prop :=
  s.isDisposed || l.isDispose → s.allSettled ∧ ∀ s', step config s l = some s' → s'.allSettled

/-- `transaction` awaits `startSession`. -/
def Call.isUntracked (call : Call) : Bool :=
  !call.isRequest && call.mode = .manual && (call.phase = .starting || call.phase = .started)

/-- No `onApplicationShutdown` begins while a `transaction` awaits its session. -/
def Timely (s : State) : Label → Bool
  | .shutdown => s.calls.all fun call => !call.isUntracked
  | _ => true

/-! ## Steps -/

inductive Call.Next (call : Call) : Call → Prop
  | start : call.phase = .starting → Call.Next call { call with phase := .started }
  | session (result : SessionResult) : call.phase = .started ∨ call.phase = .abandoned → Call.Next call (call.session result)
  | begin_ (ok : Bool) : call.phase = .opening → Call.Next call (call.begin_ ok)
  | return_ : call.phase = .running → Call.Next call call.return_
  | abort : call.isRequest ∨ call.isActiveRequest → Call.Next call call.abort
  | close : call.phase = .closing → Call.Next call { call with phase := .ending }
  | end_ : Call.Next call call.settle

structure Call.IsTracked (call : Call) : Prop where
  tracked : call.isBoundary → call.phase ≠ .settled → call.isActiveRequest ∨ call.isActiveSession ∨ call.isUntracked
  waiting : call.phase = .starting ∨ call.phase = .started ∨ call.phase = .abandoned →
    call.mode = .manual ∧ call.isActiveSession = false ∧ (call.isActiveRequest ∨ call.isUntracked)
  connection : call.mode = .connection → call.phase ≠ .settled → call.isActiveSession

inductive Call.New (s : State) : Call → Prop
  | nested : Call.New s { isRequest := false, mode := .nested, phase := .running, hasStarted := true }
  | ready (call : Call) : s.lifecycleState = .ready → call.IsTracked → Call.New s call

inductive Stepped (s : State) : Label → State → Prop
  | unchanged (l : Label) : l.isDispose = false → Stepped s l s
  | added (l : Label) (call : Call) : l.isDispose = false → call.New s → Stepped s l (s.add call)
  | updated (l : Label) (i : Nat) (call next : Call) : l.isDispose = false → s.calls[i]? = some call → call.Next next →
      Stepped s l (s.setCall i next)
  | shutdown : Stepped s .shutdown s.shutdown
  | dispose (k : Nat) (shutdown : Shutdown) : s.shutdowns[k]? = some shutdown → s.isDrained shutdown →
      Stepped s (.dispose k) { s with shutdowns := s.shutdowns.set k { shutdown with phase := .disposing } }
  | stop (k : Nat) (shutdown : Shutdown) : s.shutdowns[k]? = some shutdown → shutdown.phase = .disposing →
      Stepped s (.stop k) { s with lifecycleState := .stopped, shutdowns := s.shutdowns.set k { shutdown with phase := .stopped } }

variable {config : Config} {s s' : State}

variable {l : Label} {i k : Nat} {call next : Call} {new old : Shutdown}

theorem stepped_transaction (hl : l.isDispose = false) (within : Option Nat) : Stepped s l (s.orElse (transaction config s within)) := by
  simp only [transaction]
  split
  · exact .added l _ hl .nested
  · split
    · exact .unchanged l hl
    · next hready =>
      have hready : s.lifecycleState = .ready := by simpa using hready
      split
      · exact .added l _ hl (.ready _ hready ⟨by simp, by simp, by simp⟩)
      · split
        · exact .added l _ hl (.ready _ hready ⟨by simp [Call.isUntracked], by simp [Call.isUntracked], by simp⟩)
        · split
          · exact .unchanged l hl
          · exact .added l _ hl (.ready _ hready ⟨by simp [Call.isBoundary], by simp, by simp⟩)

theorem stepped_requestTransaction (hl : l.isDispose = false) (within : Option Nat) (aborted : Bool) :
    Stepped s l (s.orElse (requestTransaction config s within aborted)) := by
  simp only [requestTransaction]
  split
  · exact .unchanged l hl
  · next hready =>
    have hready : s.lifecycleState = .ready := by simpa using hready
    have settled (mode : Mode) : Stepped s l (s.add { isRequest := true, mode, phase := .settled, aborted }) :=
      .added l _ hl (.ready _ hready ⟨by simp, by simp, by simp⟩)
    have running (mode : Mode) (hmode : mode ≠ .connection) :
        Stepped s l (s.add { isRequest := true, mode, phase := .running, hasStarted := true, isActiveRequest := true }) :=
      .added l _ hl (.ready _ hready ⟨by simp, by simp, by simp [hmode]⟩)
    split
    · split
      · exact settled .nested
      · exact running .nested (by simp)
    · split
      · split
        · exact settled .connection
        · exact .added l _ hl (.ready _ hready ⟨by simp, by simp, by simp⟩)
      · split
        · exact .added l _ hl (.ready _ hready ⟨by simp, by simp, by simp⟩)
        · split
          · exact settled .direct
          · split
            · exact .unchanged l hl
            · exact running .direct (by simp)

theorem stepped_update {enabled : Call → Bool} {next : Call → Call}
    (hl : l.isDispose = false) (h : s.update i enabled next = some s') (hn : ∀ call, enabled call → call.Next (next call)) : Stepped s l s' := by
  obtain ⟨call, hi, h⟩ := Option.bind_eq_some_iff.1 h
  split at h
  · next he =>
    cases h
    exact .updated l i call (next call) hl hi (hn call he)
  · cases h

theorem step_cases (h : step config s l = some s') : Stepped s l s' := by
  cases l with
  | transaction within =>
    simp only [step] at h
    split at h
    · cases h
      exact stepped_transaction rfl within
    · cases h
  | requestTransaction within aborted =>
    simp only [step] at h
    split at h
    · cases h
      exact stepped_requestTransaction rfl within aborted
    · cases h
  | start i => exact stepped_update rfl h fun call he => .start (by simpa using he)
  | session i result => exact stepped_update rfl h fun call he => .session result (by simpa using he)
  | begin_ i ok => exact stepped_update rfl h fun call he => .begin_ ok (by simpa using he)
  | return_ i => exact stepped_update rfl h fun call he => .return_ (by simpa using he)
  | abort i => exact stepped_update rfl h fun call he => .abort (.inl he)
  | close i => exact stepped_update rfl h fun call he => .close (by simpa using he)
  | end_ i => exact stepped_update rfl h fun call _ => .end_
  | shutdown =>
    cases h
    exact .shutdown
  | dispose k =>
    obtain ⟨shutdown, hk, h⟩ := Option.bind_eq_some_iff.1 h
    split at h
    · next hd =>
      cases h
      exact .dispose k shutdown hk hd.2
    · cases h
  | stop k =>
    obtain ⟨shutdown, hk, h⟩ := Option.bind_eq_some_iff.1 h
    split at h
    · next hp =>
      cases h
      exact .stop k shutdown hk hp
    · cases h

/-! ## Calls -/

structure Call.Ok (shutdowns : List Shutdown) (i : Nat) (call : Call) : Prop extends call.IsTracked where
  request : call.isActiveRequest → ∀ shutdown ∈ shutdowns, i ∈ shutdown.activeRequestTransactions
  /-- A request that has got its session in a shutdown is waited for as a request. -/
  session : call.isActiveSession →
    (∀ shutdown ∈ shutdowns, i ∈ shutdown.activeSessions) ∨ call.mode = .manual ∧ call.isActiveRequest
  untracked : call.isUntracked → shutdowns = []

namespace Call.Ok
variable {shutdowns : List Shutdown} {i : Nat} {call next : Call}

theorem settle (call : Call) : Call.Ok shutdowns i call.settle where
  tracked    := by simp [Call.settle]
  waiting    := by simp [Call.settle]
  connection := by simp [Call.settle]
  request    := by simp [Call.settle]
  session    := by simp [Call.settle]
  untracked  := by simp [Call.settle, Call.isUntracked]

theorem goOn (h : Call.Ok shutdowns i call) (hr : next.isRequest = call.isRequest) (hm : next.mode = call.mode)
    (har : next.isActiveRequest = call.isActiveRequest) (has : next.isActiveSession = call.isActiveSession)
    (hc : call.phase ≠ .settled) (hu : call.isUntracked = false)
    (hn : next.phase ≠ .starting ∧ next.phase ≠ .started ∧ next.phase ≠ .abandoned) : Call.Ok shutdowns i next where
  tracked := by
    intro hb _
    rw [har, has]
    rcases h.tracked (by simpa [Call.isBoundary, hm, hr] using hb) hc with hact | hact | hact
    · exact .inl hact
    · exact .inr (.inl hact)
    · simp [hu] at hact
  waiting    := by simp [hn]
  connection := fun hmode _ => by simpa [has] using h.connection (hm ▸ hmode) hc
  request    := by simpa [har] using h.request
  session    := by simpa [hm, har, has] using h.session
  untracked  := by simp [Call.isUntracked, hn]

theorem start (h : Call.Ok shutdowns i call) (hp : call.phase = .starting) : Call.Ok shutdowns i { call with phase := .started } := by
  obtain ⟨hm, ha, hw⟩ := h.waiting (.inl hp)
  have hu : ({ call with phase := .started } : Call).isUntracked = call.isUntracked := by simp [Call.isUntracked, hp]
  constructor
  · constructor
    · intro _ _
      rw [hu]
      exact hw.imp_right .inr
    · intro _
      rw [hu]
      exact ⟨hm, ha, hw⟩
    · simp [hm]
  · exact h.request
  · exact h.session
  · rw [hu]
    exact h.untracked

theorem takeSession (h : Call.Ok shutdowns i call) (result : SessionResult) (hp : call.phase = .started ∨ call.phase = .abandoned) :
    Call.Ok shutdowns i (call.session result) := by
  obtain ⟨hm, ha, hw⟩ := h.waiting (.inr hp)
  rcases hp with hp | hp
  · cases result with
    | session =>
      have hwaited : (∀ shutdown ∈ shutdowns, i ∈ shutdown.activeSessions) ∨ call.isActiveRequest := by
        rcases hw with hr | hu
        · exact .inr hr
        · simp [h.untracked hu]
      simp only [Call.session, hp]
      exact ⟨⟨by simp, by simp, by simp⟩, h.request, fun _ => hwaited.imp_right fun hr => ⟨hm, hr⟩, by simp [Call.isUntracked]⟩
    | none =>
      simp only [Call.session, hp]
      split
      · exact settle call
      · refine ⟨⟨?_, by simp, by simp⟩, h.request, by simp [ha], by simp [Call.isUntracked]⟩
        intro hb _
        have hr : call.isRequest := by simpa [Call.isBoundary] using hb
        have hu : call.isUntracked = false := by simp [Call.isUntracked, hr]
        exact .inl (by simpa [hu] using hw)
    | failed =>
      simp only [Call.session, hp]
      exact settle call
  · have hu : call.isUntracked = false := by simp [Call.isUntracked, hp]
    have hr : call.isActiveRequest := by simpa [hu] using hw
    cases result with
    | session =>
      simp only [Call.session, hp]
      exact ⟨⟨by simp [hr], by simp, by simp [hm]⟩, h.request, h.session, by simp [Call.isUntracked]⟩
    | none =>
      simp only [Call.session, hp]
      exact settle call
    | failed =>
      simp only [Call.session, hp]
      exact settle call

theorem abort (h : Call.Ok shutdowns i call) (hr : call.isRequest ∨ call.isActiveRequest) : Call.Ok shutdowns i call.abort := by
  simp only [Call.abort]
  split
  · exact h
  · next hm hp =>
    have hact : call.isActiveRequest := by
      obtain ⟨_, _, hw | hu⟩ := h.waiting (.inl hp)
      · exact hw
      · exact hr.resolve_left fun hreq => by simp [Call.isUntracked, hreq] at hu
    exact ⟨⟨by simp [hact], by simp [hm, hact, (h.waiting (.inl hp)).2.1], by simp [hm]⟩, h.request, h.session, by simp [Call.isUntracked]⟩
  · next hm hp => exact h.goOn rfl rfl rfl rfl (by simp [hp]) (by simp [Call.isUntracked, hp]) (by simp)
  · exact ⟨⟨h.tracked, h.waiting, h.connection⟩, h.request, h.session, h.untracked⟩
  · next hm _ =>
    refine ⟨⟨?_, ?_, h.connection⟩, by simp, ?_, h.untracked⟩
    · intro _ hp
      exact .inr (.inl (h.connection hm hp))
    · intro hw
      have hmanual := (h.waiting hw).1
      simp [hm] at hmanual
    · intro ha
      rcases h.session ha with hs | ⟨hmanual, _⟩
      · exact .inl hs
      · simp [hm] at hmanual
  · exact settle { call with aborted := true }
  · exact settle { call with aborted := true }

theorem goesOn (h : Call.Ok shutdowns i call) (hn : call.Next next) : Call.Ok shutdowns i next := by
  cases hn with
  | start hp => exact h.start hp
  | session result hp => exact h.takeSession result hp
  | begin_ ok hp =>
    have hu : call.isUntracked = false := by simp [Call.isUntracked, hp]
    simp only [Call.begin_]
    split
    · split <;> exact h.goOn rfl rfl rfl rfl (by simp [hp]) hu (by simp)
    · exact h.goOn rfl rfl rfl rfl (by simp [hp]) hu (by simp)
  | return_ hp =>
    have hu : call.isUntracked = false := by simp [Call.isUntracked, hp]
    simp only [Call.return_]
    split
    · exact h.goOn rfl rfl rfl rfl (by simp [hp]) hu (by simp)
    · exact h.goOn rfl rfl rfl rfl (by simp [hp]) hu (by simp)
    · exact settle call
  | abort hr => exact h.abort hr
  | close hp =>
    have hu : call.isUntracked = false := by simp [Call.isUntracked, hp]
    exact h.goOn rfl rfl rfl rfl (by simp [hp]) hu (by simp)
  | end_ => exact settle call

end Call.Ok

/-! ## States -/

structure State.Ok (s : State) : Prop where
  notReady : s.shutdowns ≠ [] → s.lifecycleState ≠ .ready
  calls    : ∀ i (call : Call), s.calls[i]? = some call → call.Ok s.shutdowns i
  disposed : s.isDisposed → s.allSettled

theorem State.allSettled_iff : s.allSettled ↔ ∀ call ∈ s.calls, call.isBoundary → call.phase = .settled := by
  simp [State.allSettled, Classical.or_iff_not_imp_left]

theorem State.shutdowns_ne_nil (h : s.isDisposed) : s.shutdowns ≠ [] := by
  intro he
  simp [State.isDisposed, he] at h

theorem Call.isBoundary_session {result : SessionResult} : (call.session result).isBoundary → call.isBoundary := by
  simp only [Call.session]
  split
  · exact id
  · exact id
  · exact id
  · split
    · exact id
    · simp only [Call.isBoundary]
      intro hr
      split <;> simp_all
  · exact id

theorem Call.Next.isBoundary (hn : call.Next next) : next.isBoundary → call.isBoundary := by
  cases hn with
  | start      => exact id
  | session    => exact Call.isBoundary_session
  | begin_ ok  =>
    simp only [Call.begin_]
    split
    · split <;> exact id
    · exact id
  | return_    =>
    simp only [Call.return_]
    split <;> exact id
  | abort      =>
    simp only [Call.abort]
    split <;> exact id
  | close      => exact id
  | end_       => exact id

theorem Call.Next.settled (hn : call.Next next) (hp : call.phase = .settled) : next.phase = .settled := by
  cases hn with
  | abort          => simp [Call.abort, hp]
  | end_           => rfl
  | session _ hp'  => simp [hp] at hp'
  | start hp'      => simp [hp] at hp'
  | begin_ _ hp'   => simp [hp] at hp'
  | return_ hp'    => simp [hp] at hp'
  | close hp'      => simp [hp] at hp'

theorem Call.New.ok (h : call.New s) (hi : s.Ok) : call.Ok s.shutdowns i := by
  cases h with
  | nested =>
    exact ⟨⟨by simp [Call.isBoundary], by simp, by simp⟩, by simp, by simp, by simp [Call.isUntracked]⟩
  | ready _ hr ht =>
    have hs : s.shutdowns = [] := by
      by_contra hne
      exact hi.notReady hne hr
    exact { ht with request := by simp [hs], session := by simp [hs], untracked := fun _ => hs }

theorem Call.New.isBoundary (h : call.New s) (hi : s.Ok) (hd : s.isDisposed) : call.isBoundary = false := by
  cases h with
  | nested       => rfl
  | ready _ hr _ => exact absurd hr (hi.notReady (s.shutdowns_ne_nil hd))

theorem State.Ok.drained (hi : s.Ok) {shutdown : Shutdown} (hk : s.shutdowns[k]? = some shutdown)
    (hd : s.isDrained shutdown) : s.allSettled := by
  have hmem := List.mem_of_getElem? hk
  simp only [State.isDrained, Bool.and_eq_true, List.all_eq_true] at hd
  rw [State.allSettled_iff]
  intro call hcall hb
  obtain ⟨i, hcall⟩ := List.mem_iff_getElem?.1 hcall
  have hc := hi.calls i call hcall
  by_contra hp
  have hr : call.isActiveRequest = false := by
    by_contra hr
    have := hd.1 i (hc.request (by simpa using hr) shutdown hmem)
    simp_all
  have ha : call.isActiveSession = false := by
    by_contra ha
    rcases hc.session (by simpa using ha) with hs | ⟨_, hs⟩
    · have := hd.2 i (hs shutdown hmem)
      simp_all
    · simp [hr] at hs
  rcases hc.tracked hb hp with h | h | h
  · simp [hr] at h
  · simp [ha] at h
  · simp [hc.untracked h] at hmem

theorem isDisposed_set (hk : s.shutdowns[k]? = some old) (hp : new.phase ≠ .draining) :
    ({ s with shutdowns := s.shutdowns.set k new } : State).isDisposed := by
  obtain ⟨hlt, _⟩ := List.getElem?_eq_some_iff.1 hk
  simp only [State.isDisposed, List.any_eq_true]
  exact ⟨new, List.mem_set hlt new, by simpa using hp⟩

theorem Stepped.isDisposed (h : Stepped s l s') (hd : s.isDisposed || l.isDispose) : s'.isDisposed := by
  cases h with
  | unchanged _ hl         => simpa [hl] using hd
  | added _ _ hl           => simpa [hl, State.add, State.isDisposed] using hd
  | updated _ _ _ _ hl     => simpa [hl, State.setCall, State.isDisposed] using hd
  | shutdown               => simpa [State.shutdown, State.isDisposed, Label.isDispose] using hd
  | dispose k shutdown hk  => exact isDisposed_set hk (by simp)
  | stop k shutdown hk     => exact isDisposed_set (s := { s with lifecycleState := .stopped }) hk (by simp)

theorem Call.Ok.set {shutdowns : List Shutdown} (h : call.Ok shutdowns i)
    (hk : shutdowns[k]? = some old) (hr : new.activeRequestTransactions = old.activeRequestTransactions)
    (ha : new.activeSessions = old.activeSessions) : call.Ok (shutdowns.set k new) i := by
  have hmem := List.mem_of_getElem? hk
  refine ⟨h.toIsTracked, fun hact => ?_, fun hact => (h.session hact).imp_left fun hs => ?_, fun hu => ?_⟩
  · exact forall_mem_set (h.request hact) (by rw [hr]; exact h.request hact old hmem) k
  · exact forall_mem_set hs (by rw [ha]; exact hs old hmem) k
  · simp [h.untracked hu]

theorem State.Ok.set (hi : s.Ok) (hs : s.allSettled) {lifecycleState : LifecycleState}
    (hk : s.shutdowns[k]? = some old) (hr : new.activeRequestTransactions = old.activeRequestTransactions)
    (ha : new.activeSessions = old.activeSessions) (hl : lifecycleState ≠ .ready) :
    State.Ok { s with lifecycleState, shutdowns := s.shutdowns.set k new } where
  notReady := fun _ => hl
  calls    := fun i call hcall => (hi.calls i call hcall).set hk hr ha
  disposed := fun _ => hs

theorem State.Ok.shutdown (hi : s.Ok) (ht : s.calls.all fun call => !call.isUntracked) : s.shutdown.Ok where
  notReady := by simp [State.shutdown]
  calls := by
    intro i call hcall
    simp only [State.shutdown, List.getElem?_map, Option.map_eq_some_iff] at hcall
    obtain ⟨old, hold, rfl⟩ := hcall
    have hc := hi.calls i old hold
    obtain ⟨hlt, hget⟩ := List.getElem?_eq_some_iff.1 hold
    have hu : old.isUntracked = false := by simpa using List.all_eq_true.1 ht old (List.mem_of_getElem? hold)
    have hok : old.Ok s.shutdown.shutdowns i := by
      refine ⟨hc.toIsTracked, fun hr => forall_mem_concat (hc.request hr) (by simp [hlt, hget, hr]), fun ha => ?_, by simp [hu]⟩
      exact (hc.session ha).imp_left fun hs => forall_mem_concat hs (by simp [hlt, hget, ha])
    split
    · next hr => exact hok.abort (.inr hr)
    · exact hok
  disposed := by
    intro hd
    have hs := State.allSettled_iff.1 (hi.disposed (by simpa [State.shutdown, State.isDisposed] using hd))
    rw [State.allSettled_iff]
    intro call hcall hb
    obtain ⟨old, hold, rfl⟩ := List.mem_map.1 hcall
    by_cases hr : old.isActiveRequest
    · rw [if_pos hr] at hb ⊢
      have hn : old.Next old.abort := .abort (.inr hr)
      exact hn.settled (hs old hold (hn.isBoundary hb))
    · rw [if_neg hr] at hb ⊢
      exact hs old hold hb

theorem State.Ok.add (hi : s.Ok) (hc : call.New s) : (s.add call).Ok where
  notReady := hi.notReady
  calls := by
    intro i call' hcall
    rcases getElem?_concat_iff.1 hcall with ⟨rfl, rfl⟩ | hcall
    · exact hc.ok hi
    · exact hi.calls i call' hcall
  disposed := by
    intro hd
    rw [State.allSettled_iff]
    exact forall_mem_concat (State.allSettled_iff.1 (hi.disposed hd)) (by simp [hc.isBoundary hi hd])

theorem State.Ok.setCall (hi : s.Ok) (hcall : s.calls[i]? = some call) (hn : call.Next next) :
    (s.setCall i next).Ok where
  notReady := hi.notReady
  calls := by
    intro j call' hj
    rcases (getElem?_set_iff hcall).1 hj with ⟨rfl, rfl⟩ | ⟨_, hj⟩
    · exact (hi.calls j call hcall).goesOn hn
    · exact hi.calls j call' hj
  disposed := by
    intro hd
    have hs := State.allSettled_iff.1 (hi.disposed hd)
    rw [State.allSettled_iff]
    exact forall_mem_set hs (fun hb => hn.settled (hs call (List.mem_of_getElem? hcall) (hn.isBoundary hb))) i

theorem State.Ok.keeps (hi : s.Ok) (ht : Timely s l) (h : step config s l = some s') : s'.Ok := by
  cases step_cases h with
  | unchanged                       => exact hi
  | added _ call _ hc               => exact hi.add hc
  | updated _ i call next _ hc hn   => exact hi.setCall hc hn
  | shutdown                        => exact hi.shutdown ht
  | dispose k shutdown hk hd        => exact hi.set (hi.drained hk hd) hk rfl rfl (hi.notReady (List.ne_nil_of_mem (List.mem_of_getElem? hk)))
  | stop k shutdown hk hp           =>
    have hd : s.isDisposed := by
      simp only [State.isDisposed, List.any_eq_true]
      exact ⟨shutdown, List.mem_of_getElem? hk, by simp [hp]⟩
    exact hi.set (hi.disposed hd) hk rfl rfl (by simp)

theorem State.Ok.empty : State.Ok {} := ⟨by simp, by simp, by simp [State.isDisposed]⟩

theorem State.Ok.isDrained (hi : s.Ok) (ht : Timely s l) (h : step config s l = some s') : Drained config s l := by
  intro hd
  have hs : s.allSettled := by
    by_cases hs : s.isDisposed
    · exact hi.disposed hs
    · cases step_cases h with
      | unchanged _ hl                 => simp [hl, hs] at hd
      | added _ _ hl                   => simp [hl, hs] at hd
      | updated _ _ _ _ hl             => simp [hl, hs] at hd
      | shutdown                       => simp [Label.isDispose, hs] at hd
      | dispose k shutdown hk hdrained => exact hi.drained hk hdrained
      | stop                           => simp [Label.isDispose, hs] at hd
  refine ⟨hs, fun s'' h'' => ?_⟩
  rw [h] at h''
  cases h''
  exact (hi.keeps ht h).disposed ((step_cases h).isDisposed hd)

/-! ## Runs -/

/-- Where no shutdown begins while a `transaction` awaits its session, `dispose` comes after
every boundary, and none is open after it. -/
theorem dispose_after_boundaries {config : Config} {ls : List Label} {s : State}
    (h : Run (step config) (fun s l => Timely s l) {} ls s) : Run (step config) (Drained config) {} ls s :=
  h.mono_of_inv State.Ok (fun _ _ _ ht hi hs => hi.keeps ht hs) (fun _ _ _ ht hi hs => hi.isDrained ht hs) .empty

private def sessions : Config := { strictTransactions := true, hasTransaction := false, hasStartSession := true }

private def requestInTransaction : List Label :=
  [.transaction none, .start 0, .session 0 .session, .begin_ 0 true, .requestTransaction (some 0) false, .requestTransaction none false,
    .shutdown, .return_ 0, .close 0, .end_ 0, .session 2 .session, .end_ 2, .dispose 0, .stop 0]

theorem dispose_after_request : ∃ s, Run (step sessions) (Drained sessions) {} requestInTransaction s :=
  ⟨_, dispose_after_boundaries (Run.of_passes (p := Timely) (fun _ _ h => h) (by decide))⟩

private def shutdownInStartSession : List Label := [.transaction none, .shutdown, .dispose 0, .start 0, .session 0 .session]

/-- `transaction` opens its boundary after `dispose`. -/
theorem boundary_after_dispose : ∃ config ls s, Run (step config) (fun _ _ => True) {} ls s ∧ ¬ Run (step config) (Drained config) {} ls s := by
  refine ⟨sessions, shutdownInStartSession, _, Run.of_passes (p := fun _ _ => true) (fun _ _ _ => trivial) (by decide), fun h => ?_⟩
  have hp := h.passes (p := fun s l => !(s.isDisposed || l.isDispose) || s.allSettled) fun s l hd => by
    by_cases hs : s.isDisposed || l.isDispose
    · simp [(hd hs).1]
    · simp [Bool.eq_false_iff.2 hs]
  revert hp
  decide

end Fluo.Mongoose
