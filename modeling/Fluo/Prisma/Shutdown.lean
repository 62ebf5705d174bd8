import Fluo.Prisma.Service
/-!
# Shutdown of the Prisma service

When `$disconnect` is invoked, in any order of request transactions and shutdowns.
-/

namespace Fluo.Prisma
open Fluo.Lib

/-- The call opens a request transaction boundary: it does not just go on in that of another request. -/
def Call.isBoundary (call : Call) : Bool :=
  match call.mode with
  | .reused _ => false
  | _ => call.isRequest

/-- The boundary of the call has settled: of one in a plain transaction, with that transaction. -/
def State.HasSettled (s : State) (call : Call) : Prop :=
  match call.mode with
  | .inPlain holder => ∃ plain, s.calls[holder]? = some plain ∧ plain.hasSettled = true
  | _ => call.hasSettled = true

def State.isDisconnected (s : State) : Bool := s.shutdowns.any fun shutdown => shutdown.phase ≠ .draining

/-- `$disconnect` is invoked once all boundaries have settled, and none begins after. -/
def Drained (settled : State → Call → Prop) (config : Config) (s : State) : Label → Prop
  | .disconnect _ => ∀ (i : Nat) call, s.calls[i]? = some call → call.isBoundary = true → settled s call
  | .requestTransaction within signal options => s.isDisconnected = true → ∀ s', requestTransaction config s within signal options = .ok s' →
      ∃ call, s' = s.add call ∧ call.isBoundary = false
  | _ => True

/-! ## What is tracked -/

structure Tracks (s : State) : Prop where
  settled : ∀ (i : Nat) call, s.calls[i]? = some call → call.isBoundary = true → call.tracked = false → s.HasSettled call
  waits : ∀ shutdown ∈ s.shutdowns, ∀ (i : Nat) call, s.calls[i]? = some call → call.tracked = true → i ∈ shutdown.waitsFor
  closed : s.shutdowns ≠ [] → s.isAvailable = false

structure Goes (s s' : State) : Prop where
  forth : ∀ (i : Nat) call, s.calls[i]? = some call → ∃ call', s'.calls[i]? = some call' ∧ (call.hasSettled = true → call'.hasSettled = true)
  back : ∀ (i : Nat) call', s'.calls[i]? = some call' → ∃ call, s.calls[i]? = some call ∧ call'.mode = call.mode ∧
    call'.isRequest = call.isRequest ∧ (call.hasSettled = true → call'.hasSettled = true) ∧ (call'.tracked = true → call.tracked = true) ∧
    (call'.tracked = false → call.tracked = false ∨ s'.HasSettled call')

section Steps
variable {config : Config} {s s' : State} {i : Nat} {call : Call}

theorem Tracks.init : Tracks {} where
  settled := by
    intro i call hi
    cases hi
  waits := by
    intro shutdown hmem
    cases hmem
  closed hne := absurd rfl hne

theorem Tracks.goes (h : Tracks s) (hgoes : Goes s s')
    (hshutdowns : ∀ shutdown ∈ s'.shutdowns, ∃ shutdown' ∈ s.shutdowns, shutdown'.waitsFor = shutdown.waitsFor)
    (hclosed : s'.shutdowns ≠ [] → s'.isAvailable = false) : Tracks s' where
  settled j call' hj hboundary huntracked := by
    obtain ⟨call, hcall, hmode, hrequest, hsettles, -, hwhy⟩ := hgoes.back j call' hj
    rcases hwhy huntracked with huntracked | hdone
    · have hbefore : s.HasSettled call := by
        refine h.settled j call hcall ?_ huntracked
        rw [← hboundary, Call.isBoundary, Call.isBoundary, hmode, hrequest]
      unfold State.HasSettled at hbefore ⊢
      rw [hmode]
      split
      · next holder heq =>
        rw [heq] at hbefore
        obtain ⟨plain, hplain, hdone⟩ := hbefore
        obtain ⟨plain', hplain', hkeeps⟩ := hgoes.forth holder plain hplain
        exact ⟨plain', hplain', hkeeps hdone⟩
      · next hne =>
        split at hbefore
        · next holder heq => exact absurd heq (hne holder)
        · exact hsettles hbefore
    · exact hdone
  waits shutdown hmem j call' hj htracked := by
    obtain ⟨shutdown', hmem', heq⟩ := hshutdowns shutdown hmem
    obtain ⟨call, hcall, -, -, -, hkeeps, -⟩ := hgoes.back j call' hj
    rw [← heq]
    exact h.waits shutdown' hmem' j call hcall (hkeeps htracked)
  closed := hclosed

theorem goes_setCall (hi : s.calls[i]? = some call) {call' : Call} (hmode : call'.mode = call.mode) (hrequest : call'.isRequest = call.isRequest)
    (htracked : call'.tracked = call.tracked) (hsettled : call.hasSettled = true → call'.hasSettled = true) : Goes s (s.setCall i call') where
  forth j c hj := by
    by_cases hji : j = i
    · subst hji
      rw [hi] at hj
      cases hj
      exact ⟨call', (getElem?_set_iff hi).2 (.inl ⟨rfl, rfl⟩), hsettled⟩
    · exact ⟨c, (getElem?_set_iff hi).2 (.inr ⟨hji, hj⟩), id⟩
  back j c hj := by
    rcases (getElem?_set_iff hi).1 hj with ⟨rfl, rfl⟩ | ⟨-, hj⟩
    · exact ⟨call, hi, hmode, hrequest, hsettled, fun h => htracked ▸ h, fun h => .inl (htracked ▸ h)⟩
    · exact ⟨c, hj, rfl, rfl, id, id, .inl⟩

theorem Tracks.setCall (h : Tracks s) (hi : s.calls[i]? = some call) {call' : Call} (hmode : call'.mode = call.mode)
    (hrequest : call'.isRequest = call.isRequest) (htracked : call'.tracked = call.tracked)
    (hsettled : call.hasSettled = true → call'.hasSettled = true) : Tracks (s.setCall i call') :=
  h.goes (goes_setCall hi hmode hrequest htracked hsettled) (fun shutdown hmem => ⟨shutdown, hmem, rfl⟩) h.closed

theorem Tracks.add (h : Tracks s) (hcall : call.isBoundary = false ∧ call.tracked = false ∨ call.tracked = true ∧ s.isAvailable = true) :
    Tracks (s.add call) where
  settled j c hj hboundary huntracked := by
    rcases getElem?_concat_iff.1 hj with ⟨-, rfl⟩ | hj
    · rcases hcall with ⟨hnot, -⟩ | ⟨htracked, -⟩
      · rw [hnot] at hboundary
        cases hboundary
      · rw [htracked] at huntracked
        cases huntracked
    · have hbefore := h.settled j c hj hboundary huntracked
      unfold State.HasSettled at hbefore ⊢
      split
      · next holder heq =>
        rw [heq] at hbefore
        obtain ⟨plain, hplain, hdone⟩ := hbefore
        exact ⟨plain, getElem?_concat_iff.2 (.inr hplain), hdone⟩
      · next hne =>
        split at hbefore
        · next holder heq => exact absurd heq (hne holder)
        · exact hbefore
  waits shutdown hmem j c hj htracked := by
    rcases getElem?_concat_iff.1 hj with ⟨-, rfl⟩ | hj
    · rcases hcall with ⟨-, huntracked⟩ | ⟨-, havailable⟩
      · rw [huntracked] at htracked
        cases htracked
      · rw [h.closed (List.ne_nil_of_mem hmem)] at havailable
        cases havailable
    · exact h.waits shutdown hmem j c hj htracked
  closed := h.closed

theorem start_spec (call : Call) : call.start.mode = call.mode ∧ call.start.isRequest = call.isRequest ∧ call.start.tracked = call.tracked := by
  unfold Call.start
  split
  · exact ⟨rfl, rfl, rfl⟩
  · exact ⟨rfl, rfl, rfl⟩

theorem isBoundary_start (call : Call) : call.start.isBoundary = call.isBoundary := by
  obtain ⟨hmode, hrequest, -⟩ := start_spec call
  rw [Call.isBoundary, Call.isBoundary, hmode, hrequest]

theorem requestTransaction_adds {within : Option Nat} {signal : Option Bool} {options : OptionsArgument}
    (h : requestTransaction config s within signal options = .ok s') : ∃ call, s' = s.add call ∧
      (call.isBoundary = false ∧ call.tracked = false ∨ call.tracked = true ∧ s.isAvailable = true) := by
  unfold requestTransaction at h
  dsimp only at h
  split at h
  · next context hstore =>
    split at h
    · cases h
    · split at h
      · cases h
        refine ⟨_, rfl, .inl ⟨?_, ?_⟩⟩
        · rw [isBoundary_start]
          rfl
        · rw [(start_spec _).2.2]
      · split at h
        · next havailable =>
          cases h
          exact ⟨_, rfl, .inr ⟨rfl, havailable⟩⟩
        · cases h
  · split at h
    · cases h
    · next havailable =>
      have havailable : s.isAvailable = true := by simpa using havailable
      split at h
      · cases h
        exact ⟨_, rfl, .inr ⟨rfl, havailable⟩⟩
      · split at h
        · cases h
          exact ⟨_, rfl, .inr ⟨rfl, havailable⟩⟩
        · cases h
          exact ⟨_, rfl, .inr ⟨rfl, havailable⟩⟩

theorem transaction_adds {within : Option Nat} {options : OptionsArgument} (h : transaction config s within options = .ok s') :
    ∃ call, s' = s.add call ∧ call.isBoundary = false ∧ call.tracked = false := by
  unfold transaction at h
  split at h
  · split at h
    · cases h
    · cases h
      refine ⟨_, rfl, ?_, ?_⟩
      · rw [isBoundary_start]
        rfl
      · rw [(start_spec _).2.2]
  · split at h
    · cases h
      exact ⟨_, rfl, rfl, rfl⟩
    · split at h
      · cases h
      · cases h
        refine ⟨_, rfl, ?_, ?_⟩
        · rw [isBoundary_start]
          rfl
        · rw [(start_spec _).2.2]

theorem Tracks.orElse (h : Tracks s) {result : Except String State} (hok : ∀ s', result = .ok s' → Tracks s') : Tracks (s.orElse result) := by
  cases result with
  | error error => exact h
  | ok s' => exact hok s' rfl

theorem abort_spec (call : Call) : call.abort.mode = call.mode ∧ call.abort.isRequest = call.isRequest ∧ call.abort.tracked = call.tracked ∧
    (call.hasSettled = true → call.abort.hasSettled = true) := by
  unfold Call.abort
  split
  · exact ⟨rfl, rfl, rfl, id⟩
  · next hunsettled => exact ⟨rfl, rfl, rfl, fun h => absurd h hunsettled⟩

theorem goes_settle (hi : s.calls[i]? = some call) (settlement : Settlement) : Goes s (s.settle i call settlement) := by
  have hget : ∀ j, (s.settle i call settlement).calls[j]? =
      ((s.setCall i { call with phase := .settled settlement }).calls[j]?).map fun (call : Call) => call.untrackedBy i j := fun j => List.getElem?_mapIdx
  have hset : Goes s (s.setCall i { call with phase := .settled settlement }) := goes_setCall hi rfl rfl rfl fun _ => rfl
  have huntracked : ∀ (call : Call) j, (call.untrackedBy i j).mode = call.mode ∧ (call.untrackedBy i j).isRequest = call.isRequest ∧
      (call.untrackedBy i j).hasSettled = call.hasSettled ∧ ((call.untrackedBy i j).tracked = true → call.tracked = true) := by
    intro call j
    unfold Call.untrackedBy
    split
    · exact ⟨rfl, rfl, rfl, nofun⟩
    · exact ⟨rfl, rfl, rfl, id⟩
  have hself : ∃ call', (s.settle i call settlement).calls[i]? = some call' ∧ call'.hasSettled = true := by
    have hcall : (s.setCall i { call with phase := .settled settlement }).calls[i]? = some { call with phase := .settled settlement } :=
      (getElem?_set_iff hi).2 (.inl ⟨rfl, rfl⟩)
    refine ⟨({ call with phase := .settled settlement } : Call).untrackedBy i i, ?_, ?_⟩
    · rw [hget, hcall, Option.map_some]
    · rw [(huntracked _ i).2.2.1]
      rfl
  constructor
  · intro j c hj
    obtain ⟨c', hj', hkeeps⟩ := hset.forth j c hj
    refine ⟨c'.untrackedBy i j, ?_, fun h => ?_⟩
    · rw [hget, hj', Option.map_some]
    · rw [(huntracked c' j).2.2.1]
      exact hkeeps h
  · intro j c' hj
    rw [hget] at hj
    obtain ⟨c, hc, rfl⟩ := Option.map_eq_some_iff.1 hj
    obtain ⟨before, hbefore, hmode, hrequest, hkeeps, htracked⟩ : ∃ before, s.calls[j]? = some before ∧ c.mode = before.mode ∧
        c.isRequest = before.isRequest ∧ (before.hasSettled = true → c.hasSettled = true) ∧ c.tracked = before.tracked := by
      rcases (getElem?_set_iff hi).1 hc with ⟨rfl, rfl⟩ | ⟨-, hc⟩
      · exact ⟨call, hi, rfl, rfl, fun _ => rfl, rfl⟩
      · exact ⟨c, hc, rfl, rfl, id, rfl⟩
    obtain ⟨hmode', hrequest', hsettled', htracked'⟩ := huntracked c j
    refine ⟨before, hbefore, hmode'.trans hmode, hrequest'.trans hrequest, fun h => ?_, fun h => htracked ▸ htracked' h, fun h => ?_⟩
    · rw [hsettled']
      exact hkeeps h
    · -- what the end of the call untracks has settled with it
      by_cases hends : c.mode = .inPlain i ∨ j = i ∧ (c.mode = .own ∨ c.mode = .direct)
      · right
        unfold State.HasSettled
        rw [hmode']
        rcases hends with hplain | ⟨rfl, hown⟩
        · rw [hplain]
          exact hself
        · have hdone : (c.untrackedBy j j).hasSettled = true := by
            obtain ⟨call', hcall', hdone⟩ := hself
            rw [hget, hc, Option.map_some] at hcall'
            cases hcall'
            exact hdone
          rcases hown with hown | hown
          · rw [hown]
            exact hdone
          · rw [hown]
            exact hdone
      · left
        rw [Call.untrackedBy, if_neg hends] at h
        rw [← htracked, h]

theorem goes_shutdown (s : State) : Goes s s.shutdown where
  forth j c hj := by
    refine ⟨if c.tracked then c.abort else c, ?_, fun h => ?_⟩
    · change (s.calls.map _)[j]? = _
      rw [List.getElem?_map, hj]
      rfl
    · split
      · exact (abort_spec c).2.2.2 h
      · exact h
  back j c' hj := by
    change (s.calls.map _)[j]? = _ at hj
    rw [List.getElem?_map] at hj
    obtain ⟨c, hc, rfl⟩ := Option.map_eq_some_iff.1 hj
    obtain ⟨hmode, hrequest, htracked, hkeeps⟩ := abort_spec c
    refine ⟨c, hc, ?_⟩
    split
    · exact ⟨hmode, hrequest, hkeeps, fun h => htracked ▸ h, fun h => .inl (htracked ▸ h)⟩
    · exact ⟨rfl, rfl, id, id, .inl⟩

theorem Tracks.shutdown (h : Tracks s) : Tracks s.shutdown := by
  have hgoes := goes_shutdown s
  have hbefore : Tracks { s.shutdown with shutdowns := s.shutdowns } :=
    h.goes ⟨hgoes.forth, hgoes.back⟩ (fun sd hmem => ⟨sd, hmem, rfl⟩) fun _ => rfl
  refine ⟨hbefore.settled, ?_, fun _ => rfl⟩
  · intro shutdown hmem j call' hj htracked
    obtain ⟨call, hcall, -, -, -, hkeeps, -⟩ := hgoes.back j call' hj
    rcases List.mem_append.1 hmem with hmem | hmem
    · exact h.waits shutdown hmem j call hcall (hkeeps htracked)
    · rw [List.mem_singleton.1 hmem]
      refine List.mem_filter.2 ⟨List.mem_range.2 ?_, ?_⟩
      · exact (List.getElem?_eq_some_iff.1 hcall).1
      · rw [hcall]
        exact hkeeps htracked

theorem Tracks.setShutdown (h : Tracks s) {k : Nat} {shutdown : Shutdown} (hk : s.shutdowns[k]? = some shutdown) (phase : ShutdownPhase)
    {lifecycleState : LifecycleState} (hstate : lifecycleState = s.lifecycleState ∨ lifecycleState = .stopped) :
    Tracks { s with lifecycleState, shutdowns := s.shutdowns.set k { shutdown with phase } } where
  settled := h.settled
  waits := by
    have hnext : ∀ (i : Nat) call, s.calls[i]? = some call → call.tracked = true → i ∈ ({ shutdown with phase } : Shutdown).waitsFor :=
      h.waits shutdown (List.mem_of_getElem? hk)
    exact forall_mem_set h.waits hnext k
  closed _ := by
    rcases hstate with rfl | rfl
    · exact h.closed (List.ne_nil_of_mem (List.mem_of_getElem? hk))
    · rfl

theorem step_tracks {l : Label} (h : Tracks s) (hstep : step config s l = some s') : Tracks s' := by
  cases l with
  | ready =>
    simp only [step] at hstep
    split at hstep
    · next hcreated =>
      cases hstep
      refine ⟨h.settled, h.waits, fun hne => ?_⟩
      have hclosed := h.closed hne
      rw [State.isAvailable, hcreated] at hclosed
      cases hclosed
    · cases hstep
  | transaction within options =>
    simp only [step] at hstep
    split at hstep
    · cases hstep
      refine h.orElse fun s' hs' => ?_
      obtain ⟨call, rfl, hadded⟩ := transaction_adds hs'
      exact h.add (.inl hadded)
    · cases hstep
  | requestTransaction within signal options =>
    simp only [step] at hstep
    split at hstep
    · cases hstep
      refine h.orElse fun s' hs' => ?_
      obtain ⟨call, rfl, hadded⟩ := requestTransaction_adds hs'
      exact h.add hadded
    · cases hstep
  | invoke i =>
    obtain ⟨call, hi, hphase, rfl⟩ := bind_guarded_eq_some hstep
    obtain ⟨hmode, hrequest, htracked⟩ := start_spec call
    refine h.setCall hi hmode hrequest htracked fun hdone => ?_
    rw [Call.hasSettled, hphase] at hdone
    cases hdone
  | refuse i aboutSignal =>
    obtain ⟨call, hi, hphase, rfl⟩ := bind_guarded_eq_some hstep
    unfold State.refuse
    split
    · have hset : Tracks (s.setCall i { call with withSignal := false }) := h.setCall hi (by rfl) (by rfl) (by rfl) id
      exact ⟨hset.settled, hset.waits, hset.closed⟩
    · refine h.setCall hi (by rfl) (by rfl) (by rfl) fun hdone => ?_
      rw [Call.hasSettled, hphase] at hdone
      cases hdone
  | return_ i ok =>
    obtain ⟨call, hi, hphase, rfl⟩ := bind_guarded_eq_some hstep
    refine h.setCall hi (by rfl) (by rfl) (by rfl) fun hdone => ?_
    rw [Call.hasSettled, hphase] at hdone
    cases hdone
  | abort i =>
    obtain ⟨call, hi, -, rfl⟩ := bind_guarded_eq_some hstep
    obtain ⟨hmode, hrequest, htracked, hsettled⟩ := abort_spec call
    exact h.setCall hi hmode hrequest htracked hsettled
  | commit i =>
    obtain ⟨call, hi, ⟨-, hphase⟩, rfl⟩ := bind_guarded_eq_some hstep
    have hset : Tracks (s.setCall i { call with transaction := .committed, phase := .finished .ok }) := by
      refine h.setCall hi (by rfl) (by rfl) (by rfl) fun hdone => ?_
      rw [Call.hasSettled, hphase] at hdone
      cases hdone
    unfold State.commit
    dsimp only
    split
    · exact ⟨hset.settled, hset.waits, hset.closed⟩
    · exact hset
  | rollBack i settlement =>
    obtain ⟨call, hi, ⟨-, -, hphase⟩, rfl⟩ := bind_guarded_eq_some hstep
    refine h.setCall hi (by rfl) (by rfl) (by rfl) fun hdone => ?_
    rcases hphase with hphase | hphase | hphase <;> rw [Call.hasSettled, hphase] at hdone <;> cases hdone
  | settle i =>
    obtain ⟨call, hi, hstep⟩ := Option.bind_eq_some_iff.1 hstep
    obtain ⟨settlement, -, hstep⟩ := Option.bind_eq_some_iff.1 hstep
    cases hstep
    exact h.goes (goes_settle hi settlement) (fun sd hmem => ⟨sd, hmem, rfl⟩) h.closed
  | shutdown =>
    cases hstep
    exact h.shutdown
  | disconnect k =>
    obtain ⟨shutdown, hk, -, rfl⟩ := bind_guarded_eq_some hstep
    exact h.setShutdown hk _ (.inl rfl)
  | stop k =>
    obtain ⟨shutdown, hk, -, rfl⟩ := bind_guarded_eq_some hstep
    exact h.setShutdown hk _ (.inr rfl)

theorem step_drained {l : Label} (h : Tracks s) (hstep : step config s l = some s') : Drained State.HasSettled config s l := by
  cases l with
  | disconnect k =>
    intro i call hi hboundary
    obtain ⟨shutdown, hk, ⟨-, hwaits⟩, -⟩ := bind_guarded_eq_some hstep
    cases htracked : call.tracked with
    | false => exact h.settled i call hi hboundary htracked
    | true =>
      have hdone := hwaits i (h.waits shutdown (List.mem_of_getElem? hk) i call hi htracked)
      rw [hi, Option.all_some, htracked] at hdone
      cases hdone
  | requestTransaction within signal options =>
    intro hdisconnected s' hs'
    obtain ⟨call, rfl, hadded⟩ := requestTransaction_adds hs'
    rcases hadded with ⟨hnot, -⟩ | ⟨-, havailable⟩
    · exact ⟨call, rfl, hnot⟩
    · obtain ⟨shutdown, hmem, -⟩ := List.any_eq_true.1 hdisconnected
      rw [h.closed (List.ne_nil_of_mem hmem)] at havailable
      cases havailable
  | _ => trivial

end Steps

/-- In any run `$disconnect` is invoked once all boundaries have settled, and none begins after. -/
theorem drained_of_run {config : Config} {ls : List Label} {s : State} (h : Run (step config) (fun _ _ => True) {} ls s) :
    Run (step config) (Drained State.HasSettled config) {} ls s :=
  h.mono_of_inv Tracks (fun _ _ _ _ htracks hstep => step_tracks htracks hstep) (fun _ _ _ _ htracks hstep => step_drained htracks hstep) .init

/-- A request transaction is aborted by the shutdown, and drained; the next one is refused. -/
def aborted : List Label :=
  [.ready, .requestTransaction none none .absent, .invoke 0, .shutdown, .requestTransaction none none .absent, .rollBack 0 .aborted, .settle 0,
    .disconnect 0, .requestTransaction none none .absent, .stop 0]

theorem drained_of_run_aborted :
    Run (step ⟨false, true⟩) (Drained State.HasSettled ⟨false, true⟩) {} aborted (after (step ⟨false, true⟩) {} aborted) :=
  drained_of_run (Run.of_passes (fun _ _ _ => trivial) (by decide : passes (step ⟨false, true⟩) (fun _ _ => true) {} aborted = true))

/-- The callback of a plain transaction does not await its request transaction, which goes on after `$disconnect`. -/
def unawaited : List Label :=
  [.ready, .transaction none .absent, .invoke 0, .requestTransaction (some 0) none .absent, .return_ 0 true, .commit 0, .settle 0, .shutdown,
    .disconnect 0]

private def drains (s : State) : Label → Bool
  | .disconnect _ => s.calls.all fun call => !call.isBoundary || call.hasSettled
  | _ => true

theorem not_drained_unawaited : ¬ ∀ (config : Config) (ls : List Label) (s : State), Run (step config) (fun _ _ => True) {} ls s →
    Run (step config) (Drained (fun _ call => call.hasSettled = true) config) {} ls s := by
  intro h
  have hrun : Run (step ⟨false, true⟩) (fun _ _ => True) {} unawaited (after (step ⟨false, true⟩) {} unawaited) :=
    Run.of_passes (fun _ _ _ => trivial) (by decide : passes (step ⟨false, true⟩) (fun _ _ => true) {} unawaited = true)
  have hpasses := (h _ _ _ hrun).passes (p := drains) fun s l hdrained => by
    cases l with
    | disconnect k =>
      refine List.all_eq_true.2 fun call hmem => ?_
      obtain ⟨i, hi⟩ := List.mem_iff_getElem?.1 hmem
      cases hboundary : call.isBoundary with
      | false => rfl
      | true => exact hdrained i call hi hboundary
    | _ => rfl
  exact absurd hpasses (by decide)

end Fluo.Prisma
