import Mathlib.Data.Prod.Lex
import Mathlib.Algebra.Order.Ring.Int
import Fluo.Lib.Waits
import Fluo.Cqrs.SagaOrder
/-!
# Waiting sagas

An invocation waits for the one before it in the chain of its saga, and for those that its own events have started. Two dispatches
can wait for each other; where each saga publishes only to itself and to sagas behind it, none do.
-/

namespace Fluo.Cqrs
open Fluo.Lib

variable {Token EventType Event : Type}

namespace CqrsSagaLifecycleService

/-- What an invocation waits for, if a saga awaits all that it publishes. -/
inductive Waits (s : CqrsSagaLifecycleService Token EventType) : Nat → Nat → Prop
  | chain {i j : Nat} {a : Invocation Token EventType} (ha : s.Invoked i a) (hphase : a.phase = .waiting (some j)) (hj : s.hasSettled j = false) :
    Waits s i j
  | publish {i j : Nat} {a : Invocation Token EventType} (dispatch : Dispatch) (ha : s.Invoked i a) (hphase : a.phase = .running)
    (hdispatch : dispatch ∈ s.dispatches) (hcaller : dispatch.caller = some i) (hopen : s.isSettled dispatch = false)
    (hsaga : .ok j ∈ dispatch.sagas) (hj : s.hasSettled j = false) : Waits s i j

/-- Each of the invocations waits for one of them. -/
def Deadlocked (s : CqrsSagaLifecycleService Token EventType) (D : Set Nat) : Prop := D.Nonempty ∧ ∀ i ∈ D, ∃ j ∈ D, s.Waits i j

/-- A saga publishes events for itself, or for sagas of a higher level. -/
def Upward [DecidableEq Token] [DecidableEq EventType] (level : Token → Nat) (instanceOf : Event → EventType → Bool)
    (s : CqrsSagaLifecycleService Token EventType) : Label Event → Prop
  | .dispatch (some i) event => ∀ a, s.Invoked i a → ∀ descriptor ∈ s.matchSagaDescriptors instanceOf event,
      descriptor.token = a.token ∨ level a.token < level descriptor.token
  | _ => True

/-- The steps that need no more events. -/
def isProgress : Label Event → Bool
  | .begin _ | .settle _ _ => true
  | .dispatch _ _ | .stopping | .stopped _ => false

/-- The steps that the invocations are away from their ends. -/
def distance (s : CqrsSagaLifecycleService Token EventType) : Nat :=
  s.invocations.countP (!·.phase.hasBegun) + s.invocations.countP (!·.phase.hasSettled)

/-! ## Invariant -/

variable {level : Token → Nat} {s s' : CqrsSagaLifecycleService Token EventType} {i j : Nat} {a b : Invocation Token EventType}
  {origin : Nat} {context : SagaDispatchContext Token EventType} {phase : Phase}

def Handles (s : CqrsSagaLifecycleService Token EventType) (token : Token) (i : Nat) : Prop := ∃ r, s.Invoked i r ∧ r.token = token

structure Leveled [DecidableEq Token] (level : Token → Nat) (s : CqrsSagaLifecycleService Token EventType) : Prop where
  own : ∀ i a, s.Invoked i a → ∃ route ∈ a.context.activeRoutes, route.token = a.token
  active : ∀ i a, s.Invoked i a → ∀ route ∈ a.context.activeRoutes, level route.token ≤ level a.token
  chains : ∀ token p, s.executionChains.get token = some p → s.Handles token p
  queued : ∀ j b p, s.Invoked j b → b.phase = .waiting (some p) → p < j ∧ s.Handles b.token p
  published : ∀ dispatch ∈ s.dispatches, ∀ j, .ok j ∈ dispatch.sagas → ∃ b, s.Invoked j b ∧ ∀ i, dispatch.caller = some i →
    i < j ∧ ∃ a, s.Invoked i a ∧ (level a.token < level b.token ∨ b.token = a.token ∧ b.phase.hasBegun = true)

section Leveled
variable [DecidableEq Token]

/-- The level of the saga, and in it what waits before what runs; an invocation that waits waits for an earlier one, and one that
runs for a later one. -/
def rank (level : Token → Nat) (s : CqrsSagaLifecycleService Token EventType) (i : Nat) : Nat ×ₗ ℤ :=
  match s.invocations[i]? with
  | none => toLex (0, 0)
  | some a => toLex (level a.token, if a.phase.hasBegun then (i : ℤ) else -(i : ℤ) - 1)

omit [DecidableEq Token] in
theorem rank_of_invoked (ha : s.Invoked i a) :
    rank level s i = toLex (level a.token, if a.phase.hasBegun then (i : ℤ) else -(i : ℤ) - 1) := by
  rw [rank, show s.invocations[i]? = some a from ha]

theorem Leveled.rank_lt (h : Leveled level s) {i j : Nat} (hw : s.Waits i j) : rank level s i < rank level s j := by
  cases hw with
  | chain ha hphase hj =>
    obtain ⟨hlt, r, hr, htoken⟩ := h.queued _ _ _ ha hphase
    rw [rank_of_invoked ha, rank_of_invoked hr, htoken, hphase]
    refine Prod.Lex.toLex_lt_toLex.2 (.inr ⟨rfl, ?_⟩)
    simp only [Phase.hasBegun_waiting, Bool.false_eq_true, if_false]
    split <;> omega
  | publish dispatch ha hphase hdispatch hcaller _ hsaga _ =>
    obtain ⟨b, hb, hcalled⟩ := h.published _ hdispatch _ hsaga
    obtain ⟨hlt, c, hc, hlevel⟩ := hcalled _ hcaller
    cases ha.unique hc
    rw [rank_of_invoked ha, rank_of_invoked hb]
    refine Prod.Lex.toLex_lt_toLex.2 (hlevel.imp_right fun ⟨htoken, hbegun⟩ => ⟨by rw [htoken], ?_⟩)
    simp only [hphase, Phase.hasBegun_running, hbegun, if_true]
    omega

theorem Leveled.not_deadlocked (h : Leveled level s) (D : Set Nat) : ¬s.Deadlocked D := by
  rintro ⟨hne, hwait⟩
  have hfin : D.Finite := by
    refine (Set.finite_lt_nat s.invocations.length).subset fun i hi => ?_
    obtain ⟨j, -, hw⟩ := hwait i hi
    cases hw with
    | chain ha => exact ha.lt
    | publish _ ha => exact ha.lt
  obtain ⟨i, hi, hfree⟩ := (Acyclic.of_lt (rank level s) fun _ _ hw => h.rank_lt hw).exists_free hfin hne
  obtain ⟨j, hj, hw⟩ := hwait i hi
  exact hfree j hj hw

/-! ## Steps -/

theorem Leveled.set (h : Leveled level s) (ha : s.Invoked i a) (hbegun : phase.hasBegun = true)
    (hsettled : a.phase.hasSettled = true → phase.hasSettled = true) (pendingDispatches : List Nat) :
    Leveled level { s with invocations := s.invocations.set i { a with phase }, pendingDispatches } := by
  have hlater {j : Nat} {b : Invocation Token EventType} (hb : s.Invoked j b) := later_set ha hbegun hsettled hb
  have hearlier {j : Nat} {b' : Invocation Token EventType} (hb : (s.invocations.set i { a with phase })[j]? = some b') :=
    earlier_of_set ha hbegun hsettled hb
  have hhandles {token : Token} {p : Nat} (hp : s.Handles token p) :
      Handles { s with invocations := s.invocations.set i { a with phase }, pendingDispatches } token p := by
    obtain ⟨r, hr, htoken⟩ := hp
    obtain ⟨r', hr', hl⟩ := hlater hr
    exact ⟨r', hr', by rw [Invocation.token, hl.descriptor]; exact htoken⟩
  refine ⟨?_, ?_, fun token p hp => hhandles (h.chains token p hp), ?_, ?_⟩
  · intro j b' hb'
    obtain ⟨b, hb, hl, -⟩ := hearlier hb'
    rw [hl.context, Invocation.token, hl.descriptor]
    exact h.own j b hb
  · intro j b' hb'
    obtain ⟨b, hb, hl, -⟩ := hearlier hb'
    rw [hl.context, Invocation.token, hl.descriptor]
    exact h.active j b hb
  · intro j b' p hb' hwaiting
    obtain ⟨b, hb, hl, hsame, hphase⟩ := hearlier hb'
    have hji : j ≠ i := by
      intro heq
      rw [hphase heq] at hwaiting
      simp [hwaiting] at hbegun
    rw [hsame hji] at hwaiting ⊢
    obtain ⟨hlt, hp⟩ := h.queued j b p hb hwaiting
    exact ⟨hlt, hhandles hp⟩
  · intro dispatch hdispatch j hsaga
    obtain ⟨c, hc, hcalled⟩ := h.published dispatch hdispatch j hsaga
    obtain ⟨c', hc', hlc⟩ := hlater hc
    refine ⟨c', hc', fun k hcaller => ?_⟩
    obtain ⟨hlt, b, hb, hlevel⟩ := hcalled k hcaller
    obtain ⟨b', hb', hl⟩ := hlater hb
    refine ⟨hlt, b', hb', ?_⟩
    simp only [Invocation.token, hl.descriptor, hlc.descriptor]
    exact hlevel.imp_right (And.imp_right hlc.begun)

variable {new : Invocation Token EventType} {executionChains : OrderedMap Token Nat}

theorem Leveled.concat (h : Leveled level s) (hown : ∃ route ∈ new.context.activeRoutes, route.token = new.token)
    (hactive : ∀ route ∈ new.context.activeRoutes, level route.token ≤ level new.token)
    (hphase : ∀ p, new.phase = .waiting (some p) → s.executionChains.get new.token = some p)
    (hchains : ∀ token p, executionChains.get token = some p →
      s.executionChains.get token = some p ∨ p = s.invocations.length ∧ new.token = token) (pendingDispatches : List Nat) :
    Leveled level { s with invocations := s.invocations ++ [new], executionChains, pendingDispatches } := by
  have hold {j : Nat} {b : Invocation Token EventType} (hb : s.Invoked j b) : (s.invocations ++ [new])[j]? = some b :=
    getElem?_concat_iff.2 (.inr hb)
  have hhandles {token : Token} {p : Nat} (hp : s.Handles token p) :
      Handles { s with invocations := s.invocations ++ [new], executionChains, pendingDispatches } token p := by
    obtain ⟨r, hr, htoken⟩ := hp
    exact ⟨r, hold hr, htoken⟩
  refine ⟨?_, ?_, ?_, ?_, ?_⟩
  · intro j b hb
    rcases getElem?_concat_iff.1 hb with ⟨rfl, rfl⟩ | hb
    · exact hown
    · exact h.own j b hb
  · intro j b hb
    rcases getElem?_concat_iff.1 hb with ⟨rfl, rfl⟩ | hb
    · exact hactive
    · exact h.active j b hb
  · intro token p hp
    rcases hchains token p hp with hp | ⟨rfl, htoken⟩
    · exact hhandles (h.chains token p hp)
    · exact ⟨new, getElem?_concat_iff.2 (.inl ⟨rfl, rfl⟩), htoken⟩
  · intro j b p hb hwaiting
    rcases getElem?_concat_iff.1 hb with ⟨rfl, rfl⟩ | hb
    · have hp := h.chains b.token p (hphase p hwaiting)
      exact ⟨hp.elim fun r hr => hr.1.lt, hhandles hp⟩
    · obtain ⟨hlt, hp⟩ := h.queued j b p hb hwaiting
      exact ⟨hlt, hhandles hp⟩
  · intro dispatch hdispatch j hsaga
    obtain ⟨c, hc, hcalled⟩ := h.published dispatch hdispatch j hsaga
    refine ⟨c, hold hc, fun k hcaller => ?_⟩
    obtain ⟨hlt, b, hb, hlevel⟩ := hcalled k hcaller
    exact ⟨hlt, b, hold hb, hlevel⟩

variable [DecidableEq EventType] {descriptor : SagaDescriptor Token EventType}

theorem Leveled.dispatchWithOrdering (h : Leveled level s) (hbelow : ∀ route ∈ context.activeRoutes, level route.token ≤ level descriptor.token) :
    Leveled level (s.dispatchWithOrdering origin context descriptor).1 := by
  have hown (turn : Nat) : ∃ route ∈ (context.next descriptor turn).activeRoutes, route.token = descriptor.token :=
    ⟨_, List.mem_concat_self, rfl⟩
  have hactive (turn : Nat) : ∀ route ∈ (context.next descriptor turn).activeRoutes, level route.token ≤ level descriptor.token := by
    intro route hroute
    rcases List.mem_append.1 hroute with hroute | hroute
    · exact hbelow route hroute
    · cases List.mem_singleton.1 hroute
      exact le_rfl
  unfold CqrsSagaLifecycleService.dispatchWithOrdering
  split
  · exact h
  · exact h.concat (hown _) (hactive _) (fun p hp => by cases hp) (fun token p hp => .inl hp) s.pendingDispatches
  · refine h.concat (hown _) (hactive _) (fun p hp => Phase.waiting.inj hp) (fun token p hp => ?_) _
    by_cases heq : token = descriptor.token
    · subst heq
      rw [OrderedMap.get_set_self] at hp
      exact .inr ⟨(Option.some.inj hp).symm, rfl⟩
    · rw [OrderedMap.get_set_of_ne _ heq] at hp
      exact .inl hp

variable {descriptors : List (SagaDescriptor Token EventType)}

theorem Leveled.dispatchEach (h : Leveled level s)
    (hbelow : ∀ descriptor ∈ descriptors, ∀ route ∈ context.activeRoutes, level route.token ≤ level descriptor.token) :
    Leveled level (s.dispatchEach origin context descriptors).1 := by
  induction descriptors generalizing s with
  | nil => exact h
  | cons descriptor rest ih =>
    exact ih (h.dispatchWithOrdering (hbelow descriptor List.mem_cons_self)) fun other hother => hbelow other (List.mem_cons_of_mem _ hother)

omit [DecidableEq Token] [DecidableEq EventType] in
theorem Extends.trans {s'' : CqrsSagaLifecycleService Token EventType} (h : Extends s s') (h' : Extends s' s'') : Extends s s'' :=
  ⟨fun i a ha => h'.invoked i a (h.invoked i a ha)⟩

theorem dispatchEach_extends (descriptors : List (SagaDescriptor Token EventType)) (s : CqrsSagaLifecycleService Token EventType) :
    Extends s (s.dispatchEach origin context descriptors).1 := by
  induction descriptors generalizing s with
  | nil => exact ⟨fun i a ha => ha⟩
  | cons descriptor rest ih => exact (s.dispatchWithOrdering_extends origin context descriptor).trans (ih _)

/-- An invocation of a saga that is not active, or one that begins at once because it is. -/
def Enters (context : SagaDispatchContext Token EventType) (b : Invocation Token EventType) : Prop :=
  (∀ route ∈ context.activeRoutes, route.token ≠ b.token) ∨ b.phase.hasBegun = true ∧ ∃ route ∈ context.activeRoutes, route.token = b.token

theorem dispatchWithOrdering_ok (h : (s.dispatchWithOrdering origin context descriptor).2 = .ok j) :
    j = s.invocations.length ∧ ∃ b, (s.dispatchWithOrdering origin context descriptor).1.Invoked j b ∧ b.descriptor = descriptor ∧
      Enters context b := by
  unfold dispatchWithOrdering at h ⊢
  split at h
  · cases h
  · next route hadmit =>
    cases h
    obtain ⟨hroute, htoken⟩ := admission_eq_some hadmit
    exact ⟨rfl, _, getElem?_concat_iff.2 (.inl ⟨rfl, rfl⟩), rfl, .inr ⟨rfl, route, hroute, htoken⟩⟩
  · next hadmit =>
    cases h
    refine ⟨rfl, _, getElem?_concat_iff.2 (.inl ⟨rfl, rfl⟩), rfl, .inl fun route hroute => ?_⟩
    unfold SagaDispatchContext.admission at hadmit
    split at hadmit
    · cases hadmit
    · split at hadmit
      · cases hadmit
      · simpa using List.find?_eq_none.1 (Except.ok.inj hadmit) route hroute

theorem dispatchEach_ok (h : .ok j ∈ (s.dispatchEach origin context descriptors).2) :
    s.invocations.length ≤ j ∧ ∃ b, (s.dispatchEach origin context descriptors).1.Invoked j b ∧ b.descriptor ∈ descriptors ∧ Enters context b := by
  induction descriptors generalizing s with
  | nil => cases h
  | cons descriptor rest ih =>
    rcases List.mem_cons.1 h with h | h
    · obtain ⟨rfl, b, hb, hdescriptor, henters⟩ := dispatchWithOrdering_ok h.symm
      exact ⟨le_rfl, b, (dispatchEach_extends rest _).invoked _ _ hb, hdescriptor ▸ List.mem_cons_self, henters⟩
    · obtain ⟨hle, b, hb, hdescriptor, henters⟩ := ih h
      have hext := s.dispatchWithOrdering_extends origin context descriptor
      refine ⟨?_, b, hb, List.mem_cons_of_mem _ hdescriptor, henters⟩
      by_contra hlt
      have hlast : s.Invoked j _ := List.getElem?_eq_getElem (Nat.lt_of_not_le hlt)
      exact absurd (hext.invoked _ _ hlast).lt (Nat.not_lt.2 hle)

variable {instanceOf : Event → EventType → Bool}

theorem Leveled.dispatch (h : Leveled level s) (ha : s.Invoked i a) {event : Event}
    (hup : ∀ descriptor ∈ s.matchSagaDescriptors instanceOf event, descriptor.token = a.token ∨ level a.token < level descriptor.token) :
    Leveled level (s.dispatch instanceOf (some i) a.origin a.context event) := by
  have hbelow : ∀ descriptor ∈ s.matchSagaDescriptors instanceOf event, ∀ route ∈ a.context.activeRoutes,
      level route.token ≤ level descriptor.token := by
    intro descriptor hdescriptor route hroute
    refine (h.active i a ha route hroute).trans ?_
    rcases hup descriptor hdescriptor with heq | hlt
    · rw [heq]
    · exact hlt.le
  have heach : Leveled level (s.dispatchEach a.origin a.context (s.matchSagaDescriptors instanceOf event)).1 := h.dispatchEach hbelow
  refine ⟨heach.own, heach.active, heach.chains, heach.queued, ?_⟩
  intro dispatch hdispatch j hsaga
  rcases List.mem_append.1 hdispatch with hold | hnew
  · exact heach.published dispatch hold j hsaga
  · cases List.mem_singleton.1 hnew
    obtain ⟨hle, b, hb, hdescriptor, henters⟩ := dispatchEach_ok hsaga
    refine ⟨b, hb, fun k hcaller => ?_⟩
    cases hcaller
    refine ⟨ha.lt.trans_le hle, a, (dispatchEach_extends _ s).invoked i a ha, ?_⟩
    rcases hup b.descriptor hdescriptor with heq | hlt
    · -- the saga itself is active, so it has begun at once
      refine .inr ⟨heq, ?_⟩
      rcases henters with hnone | ⟨hbegun, -⟩
      · obtain ⟨route, hroute, htoken⟩ := h.own i a ha
        exact absurd (htoken.trans heq.symm) (hnone route hroute)
      · exact hbegun
    · exact .inl hlt

theorem step_leveled {l : Label Event} (hok : s.Upward level instanceOf l) (h : Leveled level s) (hs : s.step instanceOf l = some s') :
    Leveled level s' := by
  cases l with
  | dispatch caller event =>
    cases caller with
    | none =>
      cases hs
      have heach : Leveled level (s.dispatchEach s.dispatches.length {} (s.matchSagaDescriptors instanceOf event)).1 :=
        h.dispatchEach fun descriptor _ route hroute => by simp at hroute
      refine ⟨heach.own, heach.active, heach.chains, heach.queued, ?_⟩
      intro dispatch hdispatch j hsaga
      rcases List.mem_append.1 hdispatch with hold | hnew
      · exact heach.published dispatch hold j hsaga
      · cases List.mem_singleton.1 hnew
        obtain ⟨-, b, hb, -⟩ := dispatchEach_ok hsaga
        exact ⟨b, hb, fun k hcaller => by cases hcaller⟩
    | some i =>
      obtain ⟨a, ha, -, rfl⟩ := bind_guarded_eq_some (p := fun a : Invocation Token EventType => a.phase.hasBegun = true) hs
      exact h.dispatch ha (hok a ha)
  | begin i =>
    obtain ⟨a, ha, hready, rfl⟩ := bind_guarded_eq_some (p := fun a : Invocation Token EventType => s.isReady a = true) hs
    refine h.set ha rfl (fun hsettled => ?_) s.pendingDispatches
    unfold isReady at hready
    split at hready <;> simp_all [Phase.hasSettled]
  | settle i handled =>
    obtain ⟨a, ha, -, rfl⟩ := bind_guarded_eq_some (p := fun a : Invocation Token EventType => a.phase = .running) hs
    exact h.set ha rfl (fun _ => rfl) _
  | stopping =>
    simp only [step] at hs
    split at hs
    · cases hs
      exact ⟨h.own, h.active, h.chains, h.queued, h.published⟩
    · cases hs
  | stopped timedOut =>
    obtain ⟨work, -, hs⟩ := Option.bind_eq_some_iff.1 hs
    split at hs
    · cases hs
      exact ⟨h.own, h.active, fun token p hp => absurd hp (by simp [OrderedMap.get]), h.queued, h.published⟩
    · cases hs

omit [DecidableEq EventType] in
theorem leveled_empty (level : Token → Nat) (descriptorsByEvent : List (EventType × List (SagaDescriptor Token EventType))) :
    Leveled level { descriptorsByEvent : CqrsSagaLifecycleService Token EventType } := by
  refine ⟨?_, ?_, ?_, ?_, ?_⟩ <;> simp [Invoked, OrderedMap.get]

/-! ## Progress -/

variable (instanceOf) in
/-- Where something has not settled, and nobody waits in a circle, an invocation can begin, or one can settle that has waited
for what it has published. -/
theorem Leveled.progress (h : Leveled level s) (ha : s.Invoked i a) (hopen : a.phase.hasSettled = false) :
    ∃ l, isProgress l = true ∧ s.Awaits l ∧ (s.step instanceOf l).isSome = true := by
  by_contra hstuck
  refine h.not_deadlocked { i | ∃ a, s.Invoked i a ∧ a.phase.hasSettled = false } ⟨⟨i, a, ha, hopen⟩, ?_⟩
  rintro j ⟨b, hb, hbopen⟩
  have hmem {k : Nat} (hk : k < s.invocations.length) (hkopen : s.hasSettled k = false) :
      k ∈ { i | ∃ a, s.Invoked i a ∧ a.phase.hasSettled = false } := by
    have hlast : s.Invoked k _ := List.getElem?_eq_getElem hk
    exact ⟨_, hlast, (hasSettled_of_invoked hlast).symm.trans hkopen⟩
  cases hphase : b.phase with
  | waiting previous =>
    have hnot : s.isReady b = false := by
      by_contra hready
      have hb' : s.invocations[j]? = some b := hb
      refine hstuck ⟨.begin j, rfl, trivial, ?_⟩
      simp [step, hb', Bool.of_not_eq_false hready]
    cases previous with
    | none => simp [isReady, hphase] at hnot
    | some p =>
      have hp : s.hasSettled p = false := by simpa [isReady, hphase] using hnot
      obtain ⟨hlt, -⟩ := h.queued j b p hb hphase
      exact ⟨p, hmem (hlt.trans hb.lt) hp, .chain hb hphase hp⟩
  | running =>
    have hb' : s.invocations[j]? = some b := hb
    have hnot : ¬s.Awaits (.settle j .returned : Label Event) := fun hawaits =>
      hstuck ⟨.settle j .returned, rfl, hawaits, by simp [step, hb', hphase]⟩
    simp only [Awaits, not_forall] at hnot
    obtain ⟨dispatch, hdispatch, hcaller, hunsettled⟩ := hnot
    have hunsettled : s.isSettled dispatch = false := by simpa using hunsettled
    have hall := (Bool.or_eq_false_iff.1 hunsettled).2
    rw [List.all_eq_false] at hall
    obtain ⟨saga, hsaga, hnot⟩ := hall
    cases saga with
    | error e => exact absurd rfl hnot
    | ok k =>
      obtain ⟨c, hc, -⟩ := h.published dispatch hdispatch k hsaga
      have hk : s.hasSettled k = false := by simpa using hnot
      exact ⟨k, hmem hc.lt hk, .publish dispatch hb hphase hdispatch hcaller hunsettled hsaga hk⟩
  | settled result => simp [hphase, Phase.hasSettled] at hbopen

theorem step_distance {l : Label Event} (hl : isProgress l = true) (hs : s.step instanceOf l = some s') : s'.distance + 1 = s.distance := by
  cases l with
  | begin i =>
    obtain ⟨a, ha, hready, rfl⟩ := bind_guarded_eq_some (p := fun a : Invocation Token EventType => s.isReady a = true) hs
    obtain ⟨previous, hphase⟩ : ∃ previous, a.phase = .waiting previous := by
      unfold isReady at hready
      split at hready
      · next h => exact ⟨_, h⟩
      · next h => exact ⟨_, h⟩
      · cases hready
      · cases hready
    have hbegun := countP_set_add (p := (!·.phase.hasBegun)) ha { a with phase := .running }
    have hsettled := countP_set_add (p := (!·.phase.hasSettled)) ha { a with phase := .running }
    simp [hphase] at hbegun hsettled
    simp only [distance]
    omega
  | settle i handled =>
    obtain ⟨a, ha, hphase, rfl⟩ := bind_guarded_eq_some (p := fun a : Invocation Token EventType => a.phase = .running) hs
    have hbegun := countP_set_add (p := (!·.phase.hasBegun)) ha { a with phase := .settled (invokeSaga a.descriptor handled) }
    have hsettled := countP_set_add (p := (!·.phase.hasSettled)) ha { a with phase := .settled (invokeSaga a.descriptor handled) }
    simp [hphase] at hbegun hsettled
    simp only [distance]
    omega
  | dispatch | stopping | stopped => cases hl

end Leveled

/-! ## Runs -/

variable [DecidableEq Token] [DecidableEq EventType] {instanceOf : Event → EventType → Bool}

/-- Where each saga publishes to itself and upward, nobody waits in a circle; and when no more events come, the invocations take a
bounded number of steps, and cannot stop before every dispatch has settled. -/
theorem sagas_settle (level : Token → Nat) (descriptorsByEvent : List (EventType × List (SagaDescriptor Token EventType)))
    (ls : List (Label Event)) (s : CqrsSagaLifecycleService Token EventType)
    (run : Run (step instanceOf) (fun s l => s.Upward level instanceOf l) { descriptorsByEvent } ls s) :
    (∀ D, ¬s.Deadlocked D) ∧ ∀ ls' s', Run (step instanceOf) (fun s l => isProgress l = true ∧ s.Awaits l) s ls' s' →
      ls'.length ≤ s.distance ∧ ((∀ l, isProgress l = true → s'.Awaits l → s'.step instanceOf l = none) →
        ∀ dispatch ∈ s'.dispatches, s'.isSettled dispatch = true) := by
  have hleveled : Leveled level s :=
    run.keeps (fun s => Leveled level s) (fun _ _ _ hok h hs => step_leveled hok h hs) (leveled_empty level descriptorsByEvent)
  refine ⟨hleveled.not_deadlocked, fun ls' s' hrun => ?_⟩
  have hupward {t : CqrsSagaLifecycleService Token EventType} {l : Label Event} (hl : isProgress l = true) : t.Upward level instanceOf l := by
    cases l with
    | dispatch => cases hl
    | begin | settle | stopping | stopped => trivial
  have hleveled' : Leveled level s' :=
    hrun.keeps (fun s => Leveled level s) (fun _ _ _ hok h hs => step_leveled (hupward hok.1) h hs) hleveled
  constructor
  · have hlength := hrun.length_le (fun _ => True) distance (fun _ => 0)
      (fun _ _ _ hok _ hs => ⟨trivial, (step_distance hok.1 hs).le⟩) trivial
    simp at hlength
    omega
  · intro hstuck dispatch hdispatch
    have hall : ∀ i a, s'.Invoked i a → a.phase.hasSettled = true := by
      intro i a ha
      by_contra hopen
      obtain ⟨l, hl, hawaits, henabled⟩ := hleveled'.progress instanceOf ha (Bool.eq_false_iff.2 hopen)
      rw [hstuck l hl hawaits] at henabled
      cases henabled
    refine Bool.or_eq_true_iff.2 (.inr (List.all_eq_true.2 fun saga hsaga => ?_))
    cases saga with
    | error e => rfl
    | ok j =>
      obtain ⟨b, hb, -⟩ := hleveled'.published dispatch hdispatch j hsaga
      exact (hasSettled_of_invoked hb).trans (hall j b hb)

/-- Each of two sagas has an event that the other publishes, and one that it does not. -/
private def routing : List (Nat × List (SagaDescriptor String Nat)) :=
  [(0, [⟨0, "OrderSubmitted", "order", "OrderSaga"⟩]), (1, [⟨1, "InvoiceImported", "billing", "BillingSaga"⟩]),
    (2, [⟨2, "PaymentRequested", "billing", "BillingSaga"⟩]), (3, [⟨3, "OrderImported", "order", "OrderSaga"⟩])]

private def levelOf (token : String) : Nat := if token = "billing" then 1 else 0

private def isUpward (s : CqrsSagaLifecycleService String Nat) : Label Nat → Bool
  | .dispatch (some i) event => (s.invocations[i]?).all fun a =>
      (s.matchSagaDescriptors (· == ·) event).all fun descriptor => descriptor.token = a.token || levelOf a.token < levelOf descriptor.token
  | _ => true

private theorem upward_of (s : CqrsSagaLifecycleService String Nat) (l : Label Nat) (h : isUpward s l = true) : s.Upward levelOf (· == ·) l := by
  cases l with
  | dispatch caller event =>
    cases caller with
    | none => trivial
    | some i =>
      intro a ha descriptor hdescriptor
      have ha : s.invocations[i]? = some a := ha
      simp only [isUpward, ha, Option.all_some, List.all_eq_true] at h
      simpa using h descriptor hdescriptor
  | begin | settle | stopping | stopped => trivial

/-- The order saga requests a payment while the billing saga handles another event. -/
theorem sagas_settle_payment : ∃ s : CqrsSagaLifecycleService String Nat, (∀ D, ¬s.Deadlocked D) ∧ s.distance = 4 :=
  ⟨after (step (· == ·)) { descriptorsByEvent := routing } [.dispatch none 0, .dispatch none 1, .begin 0, .begin 1, .dispatch (some 0) 2],
    (sagas_settle levelOf routing _ _ (Run.of_passes (p := isUpward) upward_of (by decide +kernel))).1, by decide +kernel⟩

private def isSettle : Label Nat → Bool
  | .settle .. => true
  | _ => false

private def crossed : List (Label Nat) :=
  [.dispatch none 0, .dispatch none 1, .begin 0, .begin 1, .dispatch (some 0) 2, .dispatch (some 1) 3]

/-- No dispatch context has a cycle, and the two dispatches wait for each other. -/
theorem sagas_settle_counterexample : ∃ s : CqrsSagaLifecycleService String Nat,
    Run (step (· == ·)) (fun s l => s.Awaits l) { descriptorsByEvent := routing } crossed s ∧
      (s.dispatches.all fun dispatch => dispatch.sagas.all (·.isOk)) = true ∧ ∃ D, s.Deadlocked D := by
  refine ⟨after (step (· == ·)) { descriptorsByEvent := routing } crossed,
    Run.of_passes (p := fun _ l => !isSettle l) (fun s l h => ?_) (by decide +kernel), by decide +kernel,
    {0, 1, 2, 3}, ⟨0, by simp⟩, ?_⟩
  · cases l with
    | settle => cases h
    | dispatch | begin | stopping | stopped => trivial
  · rintro i (rfl | rfl | rfl | rfl)
    · exact ⟨2, by simp, .publish ⟨some 0, [.ok 2]⟩ rfl rfl (by decide +kernel) rfl (by decide +kernel) (by decide) (by decide +kernel)⟩
    · exact ⟨3, by simp, .publish ⟨some 1, [.ok 3]⟩ rfl rfl (by decide +kernel) rfl (by decide +kernel) (by decide) (by decide +kernel)⟩
    · exact ⟨1, by simp, .chain rfl rfl (by decide +kernel)⟩
    · exact ⟨0, by simp, .chain rfl rfl (by decide +kernel)⟩

end CqrsSagaLifecycleService

end Fluo.Cqrs
