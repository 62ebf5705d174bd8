import Fluo.Cqrs.SagaBus
/-!
# Turns in the chain of a saga

The invocations of a saga run in the order in which they have come to its chain, those of one dispatch inside of one another.
-/

namespace Fluo.Cqrs
open Fluo.Lib

variable {Token EventType Event : Type}

namespace CqrsSagaLifecycleService

/-- The invocation `i` is `a`. -/
abbrev Invoked (s : CqrsSagaLifecycleService Token EventType) (i : Nat) (a : Invocation Token EventType) : Prop := s.invocations[i]? = some a

variable (s : CqrsSagaLifecycleService Token EventType)

/-- An invocation has a turn of its own, or runs in that of an invocation of the same saga in the same dispatch. -/
def Placed : Prop := ∀ i a, s.Invoked i a →
  ∃ r, s.Invoked a.turn r ∧ r.token = a.token ∧ r.origin = a.origin ∧ r.turn = a.turn ∧ a.turn ≤ i

/-- Invocations of a saga that belong to different dispatches do not run at the same time. -/
def Exclusive : Prop := ∀ i j a b, s.Invoked i a → s.Invoked j b → a.token = b.token → a.origin ≠ b.origin →
  a.phase = .running → b.phase ≠ .running

/-- What has come to the chain of a saga earlier has settled before what has come later begins. -/
def InOrder : Prop := ∀ i j a b, s.Invoked i a → s.Invoked j b → a.token = b.token → a.turn < b.turn →
  b.phase.hasBegun = true → a.phase.hasSettled = true

/-- An invocation can begin once the earlier ones of its saga have settled, rejected or not. -/
def Unblocked : Prop := ∀ j b, s.Invoked j b → b.phase.hasBegun = false →
  (∀ i a, i < j → s.Invoked i a → a.token = b.token → a.phase.hasSettled = true) → s.isReady b = true

variable [DecidableEq Token] [DecidableEq EventType] in
/-- An invocation settles after those that run in its turn, and none starts in its turn later; and the chains are forgotten only
when everything has settled. -/
def Nested (instanceOf : Event → EventType → Bool) : Label Event → Prop
  | .settle i _ => ∀ j b, j ≠ i → s.Invoked j b → b.turn = i → b.phase.hasSettled = true
  | .dispatch (some i) event => ∀ a, s.Invoked i a → ∀ descriptor ∈ s.matchSagaDescriptors instanceOf event, ∀ route,
      a.context.admission descriptor = .ok (some route) → s.hasSettled route.turn = false
  | .stopped _ => ∀ i a, s.Invoked i a → a.phase.hasSettled = true
  | _ => True

/-! ## Invariant -/

def IsTurn (token : Token) (i : Nat) : Prop := ∃ r, s.Invoked i r ∧ r.token = token ∧ r.turn = i

structure Ordered [DecidableEq Token] : Prop where
  placed : s.Placed
  /-- What runs in another's turn has begun at once, and not after that has settled. -/
  inside : ∀ i a, s.Invoked i a → a.turn ≠ i → a.phase.hasBegun = true ∧
    ∀ r, s.Invoked a.turn r → r.phase.hasBegun = true ∧ (r.phase.hasSettled = true → a.phase.hasSettled = true)
  /-- A context holds the turns of invocations that have begun, and that of its own. -/
  routes : ∀ i a, s.Invoked i a → ∀ route ∈ a.context.activeRoutes,
    ∃ r, s.Invoked route.turn r ∧ r.token = route.token ∧ r.origin = a.origin ∧ r.turn = route.turn ∧
      (route.turn ≠ i → r.phase.hasBegun = true)
  chains : ∀ token p, s.executionChains.get token = some p → s.IsTurn token p
  latest : ∀ i a, s.Invoked i a → a.turn = i → a.phase.hasSettled = true ∨
    ∃ p, s.executionChains.get a.token = some p ∧ i ≤ p
  queued : ∀ j b p, s.Invoked j b → b.phase = .waiting (some p) → p < j ∧ s.IsTurn b.token p
  order : ∀ i j a b, s.Invoked i a → s.Invoked j b → a.turn = i → b.turn = j → a.token = b.token → i < j →
    a.phase.hasSettled = true ∨ ∃ p, b.phase = .waiting (some p) ∧ i ≤ p

variable {s}

variable {b : Invocation Token EventType}

theorem Invoked.unique {i : Nat} {a : Invocation Token EventType} (ha : s.Invoked i a) (hb : s.Invoked i b) : a = b :=
  Option.some.inj (ha.symm.trans hb)

theorem phase_of_not_hasBegun {phase : Phase} (h : phase.hasBegun = false) : ∃ previous, phase = .waiting previous := by
  cases phase with
  | waiting previous => exact ⟨previous, rfl⟩
  | running | settled => cases h

section Laws
variable [DecidableEq Token]

theorem Ordered.turn (h : s.Ordered) {i : Nat} {a : Invocation Token EventType} (ha : s.Invoked i a) :
    ∃ r, s.Invoked a.turn r ∧ r.token = a.token ∧ r.origin = a.origin ∧ r.turn = a.turn ∧
      (a.phase.hasBegun = true → r.phase.hasBegun = true) ∧ (r.phase.hasSettled = true → a.phase.hasSettled = true) := by
  obtain ⟨r, hr, htoken, horigin, hturn, -⟩ := h.placed i a ha
  refine ⟨r, hr, htoken, horigin, hturn, ?_⟩
  by_cases hself : a.turn = i
  · rw [hself] at hr
    cases ha.unique hr
    exact ⟨id, id⟩
  · obtain ⟨-, hbegun⟩ := h.inside i a ha hself
    exact ⟨fun _ => (hbegun r hr).1, (hbegun r hr).2⟩

theorem Ordered.inOrder (h : s.Ordered) : s.InOrder := by
  intro i j a b ha hb htoken hlt hbegun
  obtain ⟨r, hr, hrtoken, -, hrturn, -, hsettled⟩ := h.turn ha
  obtain ⟨q, hq, hqtoken, -, hqturn, hqbegun, -⟩ := h.turn hb
  have hcases := h.order _ _ r q hr hq hrturn hqturn (by rw [hrtoken, hqtoken, htoken]) hlt
  rcases hcases with hrsettled | ⟨p, hwaiting, -⟩
  · exact hsettled hrsettled
  · have hbegun := hqbegun hbegun
    rw [hwaiting] at hbegun
    cases hbegun

theorem Ordered.exclusive (h : s.Ordered) : s.Exclusive := by
  intro i j a b ha hb htoken horigin hrun hrun'
  rcases Nat.lt_trichotomy a.turn b.turn with hlt | heq | hgt
  · have hsettled := h.inOrder i j a b ha hb htoken hlt (by rw [hrun']; rfl)
    rw [hrun] at hsettled
    cases hsettled
  · obtain ⟨r, hr, -, hrorigin, -⟩ := h.turn ha
    obtain ⟨q, hq, -, hqorigin, -⟩ := h.turn hb
    rw [heq] at hr
    cases hr.unique hq
    exact horigin (hrorigin.symm.trans hqorigin)
  · have hsettled := h.inOrder j i b a hb ha htoken.symm hgt (by rw [hrun]; rfl)
    rw [hrun'] at hsettled
    cases hsettled

theorem Ordered.unblocked (h : s.Ordered) : s.Unblocked := by
  intro j b hb hbegun hall
  obtain ⟨previous, hwaiting⟩ := phase_of_not_hasBegun hbegun
  cases previous with
  | none => simp [isReady, hwaiting]
  | some p =>
    obtain ⟨hlt, r, hr, htoken, -⟩ := h.queued j b p hb hwaiting
    have hsettled := hall p r hlt hr htoken
    simp [isReady, hwaiting, hasSettled, hr, hsettled]

end Laws

/-! ## Steps -/

structure Later (a a' : Invocation Token EventType) : Prop where
  descriptor : a'.descriptor = a.descriptor
  context : a'.context = a.context
  origin : a'.origin = a.origin
  turn : a'.turn = a.turn
  begun : a.phase.hasBegun = true → a'.phase.hasBegun = true
  settled : a.phase.hasSettled = true → a'.phase.hasSettled = true

theorem Later.refl (a : Invocation Token EventType) : Later a a := ⟨rfl, rfl, rfl, rfl, id, id⟩

variable {i : Nat} {a : Invocation Token EventType} {phase : Phase}

theorem later_set (ha : s.Invoked i a) (hbegun : phase.hasBegun = true) (hsettled : a.phase.hasSettled = true → phase.hasSettled = true)
    {j : Nat} (hb : s.Invoked j b) :
    ∃ b', (s.invocations.set i { a with phase })[j]? = some b' ∧ Later b b' := by
  by_cases hj : j = i
  · subst hj
    cases ha.unique hb
    exact ⟨_, (getElem?_set_iff ha).2 (.inl ⟨rfl, rfl⟩), rfl, rfl, rfl, rfl, fun _ => hbegun, hsettled⟩
  · exact ⟨b, (getElem?_set_iff ha).2 (.inr ⟨hj, hb⟩), .refl b⟩

theorem earlier_of_set (ha : s.Invoked i a) (hbegun : phase.hasBegun = true)
    (hsettled : a.phase.hasSettled = true → phase.hasSettled = true) {j : Nat} {b' : Invocation Token EventType}
    (hb : (s.invocations.set i { a with phase })[j]? = some b') :
    ∃ b, s.Invoked j b ∧ Later b b' ∧ (j ≠ i → b' = b) ∧ (j = i → b'.phase = phase) := by
  rcases (getElem?_set_iff ha).1 hb with ⟨rfl, rfl⟩ | ⟨hj, hb⟩
  · exact ⟨a, ha, ⟨rfl, rfl, rfl, rfl, fun _ => hbegun, hsettled⟩, fun hne => absurd rfl hne, fun _ => rfl⟩
  · exact ⟨b', hb, .refl b', fun _ => rfl, fun heq => absurd heq hj⟩

section Steps
variable [DecidableEq Token]

omit [DecidableEq Token] in
theorem hasSettled_of_invoked (ha : s.Invoked i a) : s.hasSettled i = a.phase.hasSettled := by
  rw [hasSettled, ha]
  rfl

theorem Ordered.set (h : s.Ordered) (ha : s.Invoked i a) (hbegun : phase.hasBegun = true)
    (hsettled : a.phase.hasSettled = true → phase.hasSettled = true)
    (hready : ∀ p, a.phase = .waiting (some p) → s.hasSettled p = true)
    (hinside : phase.hasSettled = true → ∀ j b, j ≠ i → s.Invoked j b → b.turn = i → b.phase.hasSettled = true) (pendingDispatches : List Nat) :
    Ordered { s with invocations := s.invocations.set i { a with phase }, pendingDispatches } := by
  have hlater {j : Nat} {b : Invocation Token EventType} (hb : s.Invoked j b) := later_set ha hbegun hsettled hb
  have hearlier {j : Nat} {b' : Invocation Token EventType} (hb : (s.invocations.set i { a with phase })[j]? = some b') :=
    earlier_of_set ha hbegun hsettled hb
  have hturn {token : Token} {p : Nat} (hp : s.IsTurn token p) :
      IsTurn { s with invocations := s.invocations.set i { a with phase }, pendingDispatches } token p := by
    obtain ⟨r, hr, htoken, hrturn⟩ := hp
    obtain ⟨r', hr', hl⟩ := hlater hr
    exact ⟨r', hr', by rw [Invocation.token, hl.descriptor]; exact htoken, hl.turn.trans hrturn⟩
  refine ⟨?_, ?_, ?_, fun token p hp => hturn (h.chains token p hp), ?_, ?_, ?_⟩
  · intro j b' hb'
    obtain ⟨b, hb, hl, -⟩ := hearlier hb'
    obtain ⟨r, hr, htoken, horigin, hrturn, hle⟩ := h.placed j b hb
    obtain ⟨r', hr', hlr⟩ := hlater hr
    exact ⟨r', by rw [hl.turn]; exact hr', by simp only [Invocation.token, hl.descriptor, hlr.descriptor]; exact htoken,
      by rw [hlr.origin, hl.origin, horigin], by rw [hlr.turn, hl.turn, hrturn], by rw [hl.turn]; exact hle⟩
  · intro j b' hb' hne
    obtain ⟨b, hb, hl, hsame, -⟩ := hearlier hb'
    rw [hl.turn] at hne
    obtain ⟨hbbegun, hin⟩ := h.inside j b hb hne
    refine ⟨hl.begun hbbegun, fun r' hr' => ?_⟩
    rw [hl.turn] at hr'
    obtain ⟨r, hr, hlr, hrsame, hrphase⟩ := hearlier hr'
    refine ⟨hlr.begun (hin r hr).1, fun hrsettled => ?_⟩
    by_cases hri : b.turn = i
    · -- the turn that has come to its end is waited for by what runs in it
      rw [hrphase hri] at hrsettled
      exact hl.settled (hinside hrsettled j b (fun hji => hne (hri.trans hji.symm)) hb hri)
    · rw [hrsame hri] at hrsettled
      exact hl.settled ((hin r hr).2 hrsettled)
  · intro j b' hb' route hroute
    obtain ⟨b, hb, hl, -⟩ := hearlier hb'
    rw [hl.context] at hroute
    obtain ⟨r, hr, htoken, horigin, hrturn, hrbegun⟩ := h.routes j b hb route hroute
    obtain ⟨r', hr', hlr⟩ := hlater hr
    exact ⟨r', hr', by rw [Invocation.token, hlr.descriptor]; exact htoken, by rw [hlr.origin, hl.origin, horigin], hlr.turn.trans hrturn,
      fun hne => hlr.begun (hrbegun hne)⟩
  · intro j b' hb' hself
    obtain ⟨b, hb, hl, -⟩ := hearlier hb'
    rw [Invocation.token, hl.descriptor]
    exact (h.latest j b hb (hl.turn.symm.trans hself)).imp_left hl.settled
  · intro j b' p hb' hwaiting
    obtain ⟨b, hb, hl, hsame, hphase⟩ := hearlier hb'
    have hji : j ≠ i := by
      intro heq
      rw [hphase heq] at hwaiting
      rw [hwaiting] at hbegun
      cases hbegun
    rw [hsame hji] at hwaiting ⊢
    obtain ⟨hlt, hp⟩ := h.queued j b p hb hwaiting
    exact ⟨hlt, hturn hp⟩
  · intro j k b' c' hb' hc' hbself hcself htoken hlt
    obtain ⟨b, hb, hl, -⟩ := hearlier hb'
    obtain ⟨c, hc, hlc, hcsame, -⟩ := hearlier hc'
    rw [hl.turn] at hbself
    rw [hlc.turn] at hcself
    have htokens : b.token = c.token := by simpa only [Invocation.token, hl.descriptor, hlc.descriptor] using htoken
    have hcases := h.order j k b c hb hc hbself hcself htokens hlt
    rcases hcases with hbsettled | ⟨p, hwaiting, hle⟩
    · exact .inl (hl.settled hbsettled)
    · by_cases hki : k = i
      · -- what it has waited for has settled, and what is before that as well
        subst hki
        cases ha.unique hc
        obtain ⟨-, r, hr, hrtoken, hrturn⟩ := h.queued k a p hc hwaiting
        have hrsettled := hready p hwaiting
        rw [hasSettled_of_invoked hr] at hrsettled
        rcases Nat.lt_or_eq_of_le hle with hlt' | rfl
        · rcases h.order j p b r hb hr hbself hrturn (htokens.trans hrtoken.symm) hlt' with hbsettled | ⟨q, hrwaiting, -⟩
          · exact .inl (hl.settled hbsettled)
          · rw [hrwaiting] at hrsettled
            cases hrsettled
        · cases hb.unique hr
          exact .inl (hl.settled hrsettled)
      · exact .inr ⟨p, by rw [hcsame hki]; exact hwaiting, hle⟩

omit [DecidableEq Token] in
theorem Invoked.lt (ha : s.Invoked i a) : i < s.invocations.length := (List.getElem?_eq_some_iff.1 ha).1

variable {new : Invocation Token EventType} {executionChains : OrderedMap Token Nat}

/-- What a new invocation may be: one that waits behind the last of its chain, or one in the turn of another that runs. -/
def Fits (s : CqrsSagaLifecycleService Token EventType) (new : Invocation Token EventType) : Prop :=
  new.turn = s.invocations.length ∧ new.phase = .waiting (s.executionChains.get new.token) ∨
    ∃ r, s.Invoked new.turn r ∧ r.token = new.token ∧ r.origin = new.origin ∧ r.turn = new.turn ∧ r.phase = .running ∧ new.phase = .running

theorem Ordered.concat (h : s.Ordered) (hfits : s.Fits new)
    (hroutes : ∀ route ∈ new.context.activeRoutes, (route.turn = s.invocations.length ∧ new.turn = s.invocations.length ∧ new.token = route.token) ∨
      ∃ r, s.Invoked route.turn r ∧ r.token = route.token ∧ r.origin = new.origin ∧ r.turn = route.turn ∧ r.phase.hasBegun = true)
    (hchains : ∀ token p, executionChains.get token = some p →
      s.executionChains.get token = some p ∨ p = s.invocations.length ∧ new.token = token ∧ new.turn = s.invocations.length)
    (hkept : ∀ token p, s.executionChains.get token = some p → p < s.invocations.length → ∃ q, executionChains.get token = some q ∧ p ≤ q)
    (hlatest : new.turn = s.invocations.length → executionChains.get new.token = some s.invocations.length) (pendingDispatches : List Nat) :
    Ordered { s with invocations := s.invocations ++ [new], executionChains, pendingDispatches } := by
  have hold {j : Nat} {b : Invocation Token EventType} (hb : s.Invoked j b) : (s.invocations ++ [new])[j]? = some b :=
    getElem?_concat_iff.2 (.inr hb)
  have hnew : (s.invocations ++ [new])[s.invocations.length]? = some new := getElem?_concat_iff.2 (.inl ⟨rfl, rfl⟩)
  have hturn {token : Token} {p : Nat} (hp : s.IsTurn token p) :
      IsTurn { s with invocations := s.invocations ++ [new], executionChains, pendingDispatches } token p := by
    obtain ⟨r, hr, htoken, hrturn⟩ := hp
    exact ⟨r, hold hr, htoken, hrturn⟩
  refine ⟨?_, ?_, ?_, ?_, ?_, ?_, ?_⟩
  · intro j b hb
    rcases getElem?_concat_iff.1 hb with ⟨rfl, rfl⟩ | hb
    · rcases hfits with ⟨hself, -⟩ | ⟨r, hr, htoken, horigin, hrturn, -⟩
      · exact ⟨b, by rw [hself]; exact hnew, rfl, rfl, rfl, hself.le⟩
      · exact ⟨r, hold hr, htoken, horigin, hrturn, hr.lt.le⟩
    · obtain ⟨r, hr, hrest⟩ := h.placed j b hb
      exact ⟨r, hold hr, hrest⟩
  · intro j b hb hne
    rcases getElem?_concat_iff.1 hb with ⟨rfl, rfl⟩ | hb
    · obtain ⟨r, hr, -, -, -, hrun, hnewrun⟩ := hfits.resolve_left fun hself => hne hself.1
      refine ⟨by rw [hnewrun]; rfl, fun r' hr' => ?_⟩
      have heq : r = r' := Option.some.inj ((hold hr).symm.trans hr')
      rw [← heq, hrun]
      exact ⟨rfl, fun hsettled => by cases hsettled⟩
    · obtain ⟨hbegun, hin⟩ := h.inside j b hb hne
      obtain ⟨r, hr, -⟩ := h.placed j b hb
      refine ⟨hbegun, fun r' hr' => ?_⟩
      have heq : r = r' := Option.some.inj ((hold hr).symm.trans hr')
      exact heq ▸ hin r hr
  · intro j b hb route hroute
    rcases getElem?_concat_iff.1 hb with ⟨rfl, rfl⟩ | hb
    · rcases hroutes route hroute with ⟨hself, hturn, htoken⟩ | ⟨r, hr, htoken, horigin, hrturn, hbegun⟩
      · exact ⟨b, by rw [hself]; exact hnew, htoken, rfl, hturn.trans hself.symm, fun hne => absurd hself hne⟩
      · exact ⟨r, hold hr, htoken, horigin, hrturn, fun _ => hbegun⟩
    · obtain ⟨r, hr, hrest⟩ := h.routes j b hb route hroute
      exact ⟨r, hold hr, hrest⟩
  · intro token p hp
    rcases hchains token p hp with hp | ⟨rfl, htoken, hself⟩
    · exact hturn (h.chains token p hp)
    · exact ⟨new, hnew, htoken, hself⟩
  · intro j b hb hself
    rcases getElem?_concat_iff.1 hb with ⟨rfl, rfl⟩ | hb
    · exact .inr ⟨_, hlatest hself, le_rfl⟩
    · rcases h.latest j b hb hself with hsettled | ⟨p, hp, hle⟩
      · exact .inl hsettled
      · obtain ⟨r, hr, -⟩ := h.chains _ p hp
        obtain ⟨q, hq, hpq⟩ := hkept _ p hp hr.lt
        exact .inr ⟨q, hq, hle.trans hpq⟩
  · intro j b p hb hwaiting
    rcases getElem?_concat_iff.1 hb with ⟨rfl, rfl⟩ | hb
    · rcases hfits with ⟨-, hphase⟩ | ⟨r, -, -, -, -, -, hrun⟩
      · rw [hphase] at hwaiting
        have hp := h.chains b.token p (Phase.waiting.inj hwaiting)
        have hlt : p < s.invocations.length := hp.elim fun r hr => hr.1.lt
        exact ⟨hlt, hturn hp⟩
      · rw [hrun] at hwaiting
        cases hwaiting
    · obtain ⟨hlt, hp⟩ := h.queued j b p hb hwaiting
      exact ⟨hlt, hturn hp⟩
  · intro j k b c hb hc hbself hcself htoken hlt
    rcases getElem?_concat_iff.1 hc with ⟨rfl, rfl⟩ | hc
    · have hb : s.Invoked j b := (getElem?_concat_iff.1 hb).resolve_left fun heq => absurd heq.1 hlt.ne
      obtain ⟨-, hphase⟩ := hfits.resolve_right fun ⟨r, hr, _⟩ => absurd hcself hr.lt.ne
      refine (h.latest j b hb hbself).imp_right fun ⟨p, hp, hle⟩ => ⟨p, ?_, hle⟩
      rw [hphase, ← htoken, hp]
    · have hb : s.Invoked j b := (getElem?_concat_iff.1 hb).resolve_left fun heq => absurd (heq.1 ▸ hlt) (not_lt_of_gt (Invoked.lt hc))
      exact h.order j k b c hb hc hbself hcself htoken hlt

/-! ### Dispatch -/

def Carries (s : CqrsSagaLifecycleService Token EventType) (origin : Nat) (context : SagaDispatchContext Token EventType) : Prop :=
  ∀ route ∈ context.activeRoutes, ∃ r, s.Invoked route.turn r ∧ r.token = route.token ∧ r.origin = origin ∧ r.turn = route.turn ∧
    r.phase.hasBegun = true

structure Extends (s s' : CqrsSagaLifecycleService Token EventType) : Prop where
  invoked : ∀ i a, s.Invoked i a → s'.Invoked i a

variable {s' : CqrsSagaLifecycleService Token EventType} {origin : Nat} {context : SagaDispatchContext Token EventType}

omit [DecidableEq Token] in
theorem Carries.mono (hc : s.Carries origin context) (he : Extends s s') : s'.Carries origin context := by
  intro route hroute
  obtain ⟨r, hr, hrest⟩ := hc route hroute
  exact ⟨r, he.invoked _ _ hr, hrest⟩

variable {route : Route Token EventType} {descriptor : SagaDescriptor Token EventType}

omit [DecidableEq Token] in
theorem Carries.hasSettled (hc : s.Carries origin context) (he : Extends s s')
    (hroute : route ∈ context.activeRoutes) : s'.hasSettled route.turn = s.hasSettled route.turn := by
  obtain ⟨r, hr, -⟩ := hc route hroute
  rw [hasSettled_of_invoked hr, hasSettled_of_invoked (he.invoked _ _ hr)]

variable [DecidableEq EventType]

theorem admission_eq_some
    (h : context.admission descriptor = .ok (some route)) : route ∈ context.activeRoutes ∧ route.token = descriptor.token := by
  unfold SagaDispatchContext.admission at h
  split at h
  · cases h
  · split at h
    · cases h
    · have hfind := Except.ok.inj h
      exact ⟨List.mem_of_find?_eq_some hfind, by simpa using List.find?_some hfind⟩

theorem dispatchWithOrdering_extends (s : CqrsSagaLifecycleService Token EventType) (origin : Nat) (context : SagaDispatchContext Token EventType)
    (descriptor : SagaDescriptor Token EventType) : Extends s (s.dispatchWithOrdering origin context descriptor).1 := by
  unfold dispatchWithOrdering
  split
  · exact ⟨fun i a ha => ha⟩
  · exact ⟨fun i a ha => getElem?_concat_iff.2 (.inr ha)⟩
  · exact ⟨fun i a ha => getElem?_concat_iff.2 (.inr ha)⟩

theorem Ordered.dispatchWithOrdering (h : s.Ordered) (hc : s.Carries origin context)
    (hopen : ∀ route, context.admission descriptor = .ok (some route) → s.hasSettled route.turn = false) :
    (s.dispatchWithOrdering origin context descriptor).1.Ordered := by
  unfold CqrsSagaLifecycleService.dispatchWithOrdering
  split
  · exact h
  · -- in the turn of the saga that is active, which has not settled
    next route hadmit =>
    obtain ⟨hroute, htoken⟩ := admission_eq_some hadmit
    obtain ⟨r, hr, hrtoken, horigin, hrturn, hbegun⟩ := hc route hroute
    have hrun : r.phase = .running := by
      have hopen := hopen route hadmit
      rw [hasSettled_of_invoked hr] at hopen
      cases hphase : r.phase with
      | waiting p => rw [hphase] at hbegun; cases hbegun
      | running => rfl
      | settled result => rw [hphase] at hopen; cases hopen
    refine h.concat (.inr ⟨r, hr, hrtoken.trans htoken, horigin, hrturn, hrun, rfl⟩) ?_ (fun token p hp => .inl hp) (fun token p hp _ => ⟨p, hp, le_rfl⟩)
      (fun hself => absurd hself hr.lt.ne) s.pendingDispatches
    intro active hactive
    rcases List.mem_append.1 hactive with hactive | hactive
    · exact .inr (hc active hactive)
    · cases List.mem_singleton.1 hactive
      exact .inr ⟨r, hr, hrtoken.trans htoken, horigin, hrturn, hbegun⟩
  · -- behind the last of the chain
    refine h.concat (.inl ⟨rfl, rfl⟩) ?_ ?_ ?_ (fun _ => OrderedMap.get_set_self ..) _
    · intro active hactive
      rcases List.mem_append.1 hactive with hactive | hactive
      · exact .inr (hc active hactive)
      · cases List.mem_singleton.1 hactive
        exact .inl ⟨rfl, rfl, rfl⟩
    · intro token p hp
      by_cases heq : token = descriptor.token
      · subst heq
        rw [OrderedMap.get_set_self] at hp
        exact .inr ⟨(Option.some.inj hp).symm, rfl, rfl⟩
      · rw [OrderedMap.get_set_of_ne _ heq] at hp
        exact .inl hp
    · intro token p hp hlt
      by_cases heq : token = descriptor.token
      · subst heq
        exact ⟨_, OrderedMap.get_set_self .., hlt.le⟩
      · exact ⟨p, by rw [OrderedMap.get_set_of_ne _ heq]; exact hp, le_rfl⟩

theorem Ordered.dispatchEach (h : s.Ordered) (hc : s.Carries origin context) {descriptors : List (SagaDescriptor Token EventType)}
    (hopen : ∀ descriptor ∈ descriptors, ∀ route, context.admission descriptor = .ok (some route) → s.hasSettled route.turn = false) :
    (s.dispatchEach origin context descriptors).1.Ordered := by
  induction descriptors generalizing s with
  | nil => exact h
  | cons descriptor rest ih =>
    have hext := s.dispatchWithOrdering_extends origin context descriptor
    refine ih (h.dispatchWithOrdering hc (hopen descriptor List.mem_cons_self)) (hc.mono hext) fun other hother route hroute => ?_
    have hrest := hopen other (List.mem_cons_of_mem _ hother) route hroute
    exact (hc.hasSettled hext (admission_eq_some hroute).1).trans hrest

variable {instanceOf : Event → EventType → Bool}

theorem Ordered.dispatch (h : s.Ordered) (hc : s.Carries origin context) {event : Event}
    (hopen : ∀ descriptor ∈ s.matchSagaDescriptors instanceOf event, ∀ route, context.admission descriptor = .ok (some route) →
      s.hasSettled route.turn = false) (caller : Option Nat) : (s.dispatch instanceOf caller origin context event).Ordered := by
  have heach := h.dispatchEach hc hopen
  exact ⟨heach.placed, heach.inside, heach.routes, heach.chains, heach.latest, heach.queued, heach.order⟩

omit [DecidableEq EventType] in
theorem Ordered.carries (h : s.Ordered) (ha : s.Invoked i a) (hbegun : a.phase.hasBegun = true) : s.Carries a.origin a.context := by
  intro route hroute
  obtain ⟨r, hr, htoken, horigin, hturn, hrbegun⟩ := h.routes i a ha route hroute
  refine ⟨r, hr, htoken, horigin, hturn, ?_⟩
  by_cases hself : route.turn = i
  · rw [hself] at hr
    cases ha.unique hr
    exact hbegun
  · exact hrbegun hself

theorem step_ordered {l : Label Event} (hok : s.Nested instanceOf l) (h : s.Ordered) (hs : s.step instanceOf l = some s') : s'.Ordered := by
  cases l with
  | dispatch caller event =>
    cases caller with
    | none =>
      cases hs
      refine h.dispatch (fun route hroute => by simp at hroute) (fun descriptor _ route hroute => ?_) none
      have hmem := (admission_eq_some hroute).1
      simp at hmem
    | some i =>
      obtain ⟨a, ha, hbegun, rfl⟩ := bind_guarded_eq_some (p := fun a : Invocation Token EventType => a.phase.hasBegun = true) hs
      exact h.dispatch (h.carries ha hbegun) (hok a ha) (some i)
  | begin i =>
    obtain ⟨a, ha, hready, rfl⟩ := bind_guarded_eq_some (p := fun a : Invocation Token EventType => s.isReady a = true) hs
    refine h.set ha rfl (fun hsettled => ?_) (fun p hp => ?_) (fun hsettled => by cases hsettled) s.pendingDispatches
    · unfold isReady at hready
      split at hready <;> simp_all [Phase.hasSettled]
    · simpa [isReady, hp] using hready
  | settle i handled =>
    obtain ⟨a, ha, hrun, rfl⟩ := bind_guarded_eq_some (p := fun a : Invocation Token EventType => a.phase = .running) hs
    refine h.set ha rfl (fun _ => rfl) (fun p hp => ?_) (fun _ j b hj hb hturn => hok j b hj hb hturn) _
    rw [hrun] at hp
    cases hp
  | stopping =>
    simp only [step] at hs
    split at hs
    · cases hs
      exact ⟨h.placed, h.inside, h.routes, h.chains, h.latest, h.queued, h.order⟩
    · cases hs
  | stopped timedOut =>
    obtain ⟨work, -, hs⟩ := Option.bind_eq_some_iff.1 hs
    split at hs
    · cases hs
      exact ⟨h.placed, h.inside, h.routes, fun token p hp => absurd hp (by simp [OrderedMap.get]),
        fun j b hb _ => .inl (hok j b hb), h.queued, h.order⟩
    · cases hs

omit [DecidableEq EventType] in
theorem ordered_empty (descriptorsByEvent : List (EventType × List (SagaDescriptor Token EventType))) :
    Ordered { descriptorsByEvent : CqrsSagaLifecycleService Token EventType } := by
  refine ⟨?_, ?_, ?_, ?_, ?_, ?_, ?_⟩ <;> simp [Placed, Invoked, OrderedMap.get]

end Steps

/-! ## Runs -/

/-- What the chains are for. -/
structure Serializes : Prop where
  placed : s.Placed
  exclusive : s.Exclusive
  inOrder : s.InOrder
  unblocked : s.Unblocked

variable [DecidableEq Token] [DecidableEq EventType] {instanceOf : Event → EventType → Bool}

/-- The sagas take turns, however the dispatches interleave and whatever the invocations come to, if no turn ends too early. -/
theorem saga_turns (descriptorsByEvent : List (EventType × List (SagaDescriptor Token EventType))) (ls : List (Label Event))
    (s : CqrsSagaLifecycleService Token EventType)
    (run : Run (step instanceOf) (fun s l => s.Nested instanceOf l) { descriptorsByEvent } ls s) : s.Serializes := by
  have hordered : s.Ordered := run.keeps (fun s => s.Ordered) (fun _ _ _ hok h hs => step_ordered hok h hs) (ordered_empty descriptorsByEvent)
  exact ⟨hordered.placed, hordered.exclusive, hordered.inOrder, hordered.unblocked⟩

/-- An order saga for the events 0 and 1, and a billing saga for the second. -/
private def sagas : List (Nat × List (SagaDescriptor String Nat)) :=
  [(0, [⟨0, "OrderSubmitted", "order", "OrderSaga"⟩]),
    (1, [⟨1, "PaymentRequested", "order", "OrderSaga"⟩, ⟨1, "PaymentRequested", "billing", "BillingSaga"⟩])]

private def isNested (s : CqrsSagaLifecycleService String Nat) : Label Nat → Bool
  | .settle i _ => s.invocations.zipIdx.all fun (b, j) => j = i || b.turn ≠ i || b.phase.hasSettled
  | .dispatch (some i) event => (s.invocations[i]?).all fun a =>
      (s.matchSagaDescriptors (· == ·) event).all fun descriptor => match a.context.admission descriptor with
        | .ok (some route) => !s.hasSettled route.turn
        | _ => true
  | .stopped _ => s.invocations.all (·.phase.hasSettled)
  | _ => true

private theorem nested_of (s : CqrsSagaLifecycleService String Nat) (l : Label Nat) (h : isNested s l = true) : s.Nested (· == ·) l := by
  cases l with
  | dispatch caller event =>
    cases caller with
    | none => trivial
    | some i =>
      intro a ha descriptor hdescriptor route hroute
      have ha : s.invocations[i]? = some a := ha
      simp only [isNested, ha, Option.all_some, List.all_eq_true] at h
      simpa [hroute] using h descriptor hdescriptor
  | settle i handled =>
    intro j b hj hb hturn
    have hmem : (b, j) ∈ s.invocations.zipIdx := List.mem_zipIdx_iff_getElem?.2 hb
    simpa [hj, hturn] using List.all_eq_true.1 h _ hmem
  | stopped timedOut =>
    intro i a ha
    exact List.all_eq_true.1 h a (List.mem_of_getElem? ha)
  | begin | stopping => trivial

/-- A saga publishes an event of its own, and its billing fails; it settles when both have. -/
theorem saga_turns_order : ∃ s : CqrsSagaLifecycleService String Nat, s.Serializes ∧ s.executionChains = [] ∧ s.invocations.length = 4 :=
  ⟨after (step (· == ·)) { descriptorsByEvent := sagas }
      [.dispatch none 0, .begin 0, .dispatch none 0, .dispatch (some 0) 1, .begin 3, .settle 3 (.threw "declined"), .settle 2 .returned,
        .settle 0 (.threwFluoError "declined"), .begin 1, .settle 1 .returned, .stopping, .stopped false],
    saga_turns sagas _ _ (Run.of_passes (p := isNested) nested_of (by decide +kernel)), by decide +kernel, by decide +kernel⟩

/-- The billing fails first, and the saga with the dispatch that it awaits, while it still handles its own event. -/
private def overtaken : List (Label Nat) :=
  [.dispatch none 0, .begin 0, .dispatch none 0, .dispatch (some 0) 1, .begin 3, .settle 3 (.threw "declined"),
    .settle 0 (.threwFluoError "declined"), .begin 1]

private def isAwaiting (s : CqrsSagaLifecycleService String Nat) : Label Nat → Bool
  | .settle i _ => s.dispatches.all fun dispatch => dispatch.caller ≠ some i || s.isSettled dispatch
  | _ => true

private theorem awaits_of (s : CqrsSagaLifecycleService String Nat) (l : Label Nat) (h : isAwaiting s l = true) : s.Awaits l := by
  cases l with
  | settle i handled =>
    intro dispatch hdispatch hcaller
    simpa [hcaller] using List.all_eq_true.1 h dispatch hdispatch
  | dispatch | begin | stopping | stopped => trivial

/-- Sagas that await what they publish still overlap with those of another dispatch. -/
theorem saga_turns_counterexample : ∃ s : CqrsSagaLifecycleService String Nat,
    Run (step (· == ·)) (fun s l => s.Awaits l) { descriptorsByEvent := sagas } overtaken s ∧ ¬s.Exclusive := by
  refine ⟨_, Run.of_passes (p := isAwaiting) awaits_of (by decide +kernel), fun h => ?_⟩
  have hrun := h 1 2 _ _ rfl rfl rfl (by decide) rfl
  exact hrun rfl

end CqrsSagaLifecycleService

end Fluo.Cqrs
