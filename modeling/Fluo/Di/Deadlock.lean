import Fluo.Lib.Waits
import Fluo.Di.Walks
/-!
# Waiting calls

A call waits for another when it awaits a cached promise that the other
constructs. The container looks for cycles in the chain of one call only, so
two calls that enter a cycle at different tokens can wait for each other. They
do not as long as every step is `Careful`: no call starts to wait for a
construction that depends on one of its own.
-/

namespace Fluo.Di

open Relation (ReflTransGen TransGen)
open Lib (Acyclic)

variable {τ : Type} [DecidableEq τ] {s s' base : State τ} {g : Graph τ} {k : CallId} {v w : Call τ} {sync : Bool}

/-- Call `k` awaits a cached promise that call `j` constructs. -/
def State.Waits (s : State τ) (k j : CallId) : Prop :=
  ∃ v q, s.call k = some v ∧ v.control = .cached q ∧ ∃ b ∈ s.buildsOf j, b.2.2 = q

/-- What the running call takes from a cache constructs the provider it looked
up, and if it is still pending, it does not depend on what the call constructs. -/
structure Heeds (s : State τ) (v : Call τ) : Prop where
  own : TakesOwn s v
  noBack : ∀ d key p st q, Enters s.graph v d key p st → s.cached d key = some q → s.status q = some .pending →
    ∀ b ∈ builds v.stack, ∀ n, s.graph.Below d p n → ¬ s.graph.Offers n b.1 b.2.1

/-- A step of calls alone that takes only safe promises from the caches. -/
def Careful (s : State τ) : Label τ → Prop
  | .resolve _ _ | .resume _ | .settle _ _ => True
  | .advance => ∀ k v, s.running = some k → s.call k = some v → Heeds s v
  | _ => False

/-! ## What a call awaits -/

theorem Enters.isSync {d key p st} (h : Enters g v d key p st) : v.control.isSync = true := by
  cases h with
  | single hctl => rw [hctl]; rfl
  | multi hctl => rw [hctl]; rfl

variable {p : NormalizedProvider τ} {q : PromiseId}

theorem NextDep.notCached {c : ContainerId} {promise st rest deps st' ctl}
    (h : NextDep g c p promise st rest deps st' ctl sync) (q : PromiseId) : ctl ≠ .cached q := by
  cases h <;> simp

theorem Instantiate.notCached {classes : JsMap τ (ClassMetadata τ)} {c : ContainerId}
    {promise st st' ctl} (h : Instantiate g classes c p promise st st' ctl sync) (q : PromiseId) : ctl ≠ .cached q := by
  cases h with
  | scope | value => simp
  | deps _ _ hn => exact hn.notCached q

theorem Turn.awaits (h : Turn s v base sync w) (hq : w.control = .cached q) :
    ∃ d key p st, Enters s.graph v d key p st ∧ s.cached d key = some q := by
  cases h with
  | hit hctl ht hs hne hsc hcache =>
    cases hq
    exact ⟨_, _, _, _, .single hctl ht hs hne (by rw [hsc]; decide), hcache⟩
  | wait he hcache => cases hq; exact ⟨_, _, _, _, he, hcache⟩
  | transient _ hi => exact absurd hq (hi.notCached q)
  | build _ _ _ hi => exact absurd hq (hi.notCached q)
  | nextDep _ _ hn => exact absurd hq (hn.notCached q)
  | leaveChain hctl | fail hctl | unwind hctl => change v.control = _ at hq; rw [hctl] at hq; cases hq
  | _ => cases hq

theorem Controlled.awaiting {n : Node τ} {st : List (Frame τ)} (hst : Typed s.graph n st)
    (h : Controlled s n st (.cached q)) : ∃ m d p, s.Constructs q d p ∧
    s.graph.Offers m d p ∧ ∀ b ∈ builds st, s.graph.Below b.1 b.2.1 m := by
  cases h with
  | hit hw hs hne hsc hcon =>
    have ho := Graph.Offers.single hs
    rw [if_neg hsc] at ho
    exact ⟨_, _, _, hcon, ho, fun b hb => (hst.above b hb).1 _ hw⟩
  | wait hs hne hcon => exact ⟨_, _, _, hcon, hs.offers, fun b hb => (hst.above b hb).2 _ hs.topNode⟩

theorem Walks.awaiting (h : Walks s v) (hq : v.control = .cached q) : ∃ m d p, s.Constructs q d p ∧
    s.graph.Offers m d p ∧ ∀ b ∈ builds v.stack, s.graph.Below b.1 b.2.1 m :=
  (hq ▸ h.control).awaiting h.stack

/-! ## The walk invariant -/

structure Walking (s : State τ) : Prop where
  walks : ∀ k v, s.call k = some v → Walks s v
  founded : PromisesFounded s
  acyclic : Acyclic s.Waits

theorem Walking.below (h : ∀ k v, s.call k = some v → Walks s v) (hi : WF s) {j k : CallId} (hp : TransGen s.Waits j k) :
    ∀ b ∈ s.buildsOf j, ∃ n, s.graph.Below b.1 b.2.1 n ∧ ∃ b' ∈ s.buildsOf k, s.graph.Offers n b'.1 b'.2.1 := by
  have hone : ∀ {j k}, s.Waits j k → ∀ b ∈ s.buildsOf j,
      ∃ n, s.graph.Below b.1 b.2.1 n ∧ ∃ b' ∈ s.buildsOf k, s.graph.Offers n b'.1 b'.2.1 := by
    rintro j k ⟨v, q, hv, hq, b', hb', rfl⟩ b hb
    obtain ⟨m, d, p, ⟨r, hr, rfl, rfl⟩, ho, hbelow⟩ := (h j v hv).awaiting hq
    obtain ⟨key, hr', _⟩ := hi.building k b' hb'
    rw [hr] at hr'
    cases hr'
    rw [buildsOf_eq hv] at hb
    exact ⟨m, hbelow b hb, b', hb', ho⟩
  induction hp with
  | single he => exact hone he
  | tail _ he ih =>
    intro b hb
    obtain ⟨n, hn, b', hb', ho⟩ := ih b hb
    obtain ⟨n', hn', b'', hb'', ho'⟩ := hone he b' hb'
    exact ⟨n', hn.trans ho hn', b'', hb'', ho'⟩

theorem PromisesFounded.turn (h : PromisesFounded s) (hi : WF s) (hv : s.call k = some v) (hw : Walks s v)
    (hbase : base.graph = s.graph) (ht : Turn s v base sync w) : PromisesFounded base := by
  have hset : ∀ {c p rest deps promise st} (σ : Status τ), v.stack = .build c p rest deps promise :: st →
      (∀ x, σ = .fulfilled x → p.Constructed → ∀ e ∈ p.inject, s.graph.EntryFounded c e) → ∀ q', promise = some q' →
      ∀ r', s.promise q' = some r' → ∀ q r, Function.update s.promise q' (some { r' with status := σ }) q = some r →
      ∀ x, r.status = .fulfilled x → r.provider.Constructed → ∀ e ∈ r.provider.inject, s.graph.EntryFounded r.container e := by
    rintro c p rest deps promise st σ hstack hf q' rfl r' hr' q r hr x hx
    by_cases hq : q = q'
    · subst hq
      rw [Function.update_self] at hr
      cases hr
      obtain ⟨key, hb, _⟩ := hi.building k (c, p, q) (by rw [buildsOf_eq hv, hstack]; simp)
      rw [hr'] at hb
      cases hb
      exact hf x hx
    · rw [Function.update_of_ne hq] at hr
      exact h q r hr x hx
  have hcomplete : ∀ {c p rest deps promise st} (x : Value), v.stack = .build c p rest deps promise :: st →
      (p.Constructed → ∀ e ∈ p.inject, s.graph.EntryFounded c e) → ∀ q r, (s.complete promise x).promise q = some r →
      ∀ x, r.status = .fulfilled x → r.provider.Constructed → ∀ e ∈ r.provider.inject, s.graph.EntryFounded r.container e := by
    intro c p rest deps promise st x hstack hf q r hr
    cases promise with
    | none => exact h q r hr
    | some q' =>
      obtain ⟨key, hb, _⟩ := hi.building k (c, p, q') (by rw [buildsOf_eq hv, hstack]; simp)
      simp only [State.complete, State.fulfil, hb] at hr
      exact hset (.fulfilled x) hstack (fun _ _ => hf) q' rfl _ hb q r hr
  have huser : ∀ {d p rest deps promise st}, v.control = .user → v.stack = .build d p rest deps promise :: st →
      ∀ e ∈ p.inject, s.graph.EntryFounded d e := by
    intro d p rest deps promise st hctl hstack
    have hc := hw.control
    rw [hctl, hstack] at hc
    cases hc with
    | user hd => exact hd
  cases ht with
  | build =>
    intro q r hr x hx
    by_cases hq : q = s.promises
    · subst hq
      simp only [State.allocate, Function.update_self] at hr
      cases hr
      cases hx
    · exact h q r ((Function.update_of_ne hq _ _).symm.trans hr) x hx
  | value hctl hstack =>
    have htype := hw.control
    rw [hctl, hstack] at htype
    unfold PromisesFounded
    rw [hbase]
    cases htype with
    | value htype => exact hcomplete _ hstack fun hcon => absurd htype (hcon.notValue _)
  | created hctl hstack | returned hctl hstack =>
    unfold PromisesFounded
    rw [hbase]
    exact hcomplete _ hstack fun _ => huser hctl hstack
  | @fail e c p rest deps promise st hctl hstack =>
    unfold PromisesFounded
    rw [hbase]
    cases promise with
    | none => exact h
    | some q' =>
      obtain ⟨key, hb, _⟩ := hi.building k (c, p, q') (by rw [buildsOf_eq hv, hstack]; simp)
      simp only [State.fail, State.reject, hb]
      exact hset (.rejected e) hstack (fun _ h => by cases h) q' rfl _ hb
  | wait => rw [ensureTracked_eq]; exact h
  | _ => exact h

/-! ## Steps -/

theorem TakesOwn.of_async (h : v.control.isSync = false) : TakesOwn s v := by
  intro d key p st q he
  rw [he.isSync] at h
  cases h

theorem Heeds.of_async (h : v.control.isSync = false) : Heeds s v := by
  refine ⟨.of_async h, fun d key p st q he => ?_⟩
  rw [he.isSync] at h
  cases h

theorem Effect.builds_mem {ctl : Control τ} {bs bs' : List (Build τ)} (h : Effect s ctl bs bs' base) {b : Build τ}
    (hb : b ∈ bs') : b ∈ bs ∨ b.2.2 = s.promises := by
  cases h with
  | quiet => exact .inl hb
  | allocate =>
    rcases List.mem_cons.1 hb with rfl | hb
    · exact .inr rfl
    · exact .inl hb
  | fulfil | reject => exact .inl (List.mem_cons_of_mem _ hb)

theorem Waits.turn (h : Walking s) (hi : Inv s) (hv : s.call k = some v) (ht : Turn s v base sync w) {i j : CallId}
    (hij : (base.goOn sync k w).Waits i j) :
    s.Waits i j ∨ i = k ∧ ∃ q, w.control = .cached q ∧ ∃ b ∈ s.buildsOf j, b.2.2 = q := by
  obtain ⟨u, q, hu, hq, b, hb, rfl⟩ := hij
  have he := hi.turn_effect hv ht
  rw [goOn_call, he.call] at hu
  -- a promise that some call awaits is not new
  have hold : b.2.2 ≠ s.promises → b ∈ s.buildsOf j := by
    intro hne
    unfold State.buildsOf at hb
    rw [goOn_call, he.call] at hb
    by_cases hj : j = k
    · subst hj
      rw [Function.update_self] at hb
      exact (buildsOf_eq hv) ▸ (he.builds_mem hb).resolve_right hne
    · rwa [Function.update_of_ne hj] at hb
  by_cases hik : i = k
  · subst hik
    obtain rfl : w = u := by simpa using hu
    obtain ⟨d, key, p, st, _, hcache⟩ := ht.awaits hq
    obtain ⟨r, hr, _⟩ := hi.cached d key _ hcache
    exact .inr ⟨rfl, _, hq, b, hold (Nat.ne_of_lt (hi.promiseBound _ r hr)), rfl⟩
  · rw [Function.update_of_ne hik] at hu
    obtain ⟨m, d, p, ⟨r, hr, _⟩, _⟩ := (h.walks i u hu).awaiting hq
    exact .inl ⟨u, _, hu, hq, b, hold (Nat.ne_of_lt (hi.promiseBound _ r hr)), rfl⟩

theorem acyclic_turn (h : Walking s) (hi : Inv s) (hv : s.call k = some v) (hh : Heeds s v)
    (ht : Turn s v base sync w) : Acyclic (base.goOn sync k w).Waits := by
  by_cases hown : ∃ j q, w.control = .cached q ∧ ∃ b ∈ s.buildsOf j, b.2.2 = q
  · obtain ⟨j, q, hq, b, hb, rfl⟩ := hown
    obtain ⟨d, key, p, st, he, hcache⟩ := ht.awaits hq
    obtain ⟨r, hr, rfl, _⟩ := hi.cached d key _ hcache
    obtain ⟨key', hr', _⟩ := hi.building j b hb
    obtain rfl : r.provider = p := hh.own _ key p st _ he hcache r hr
    rw [hr] at hr'
    cases hr'
    have hnoBack := hh.noBack _ key _ st _ he hcache (by simp [State.status, hr])
    -- the owner of the promise does not wait for `k`
    refine h.acyclic.insert (k := k) (j := j) (fun hback => ?_) fun x y hxy => ?_
    · rcases Relation.reflTransGen_iff_eq_or_transGen.1 hback with hkj | hback
      · subst hkj
        obtain ⟨hst, hc⟩ := h.walks _ v hv
        obtain ⟨hst', ⟨m, hs⟩, _⟩ := he.site hst hc
        rw [buildsOf_eq hv] at hb
        have hbm := (hst'.above b (by rwa [(he.entered hi.keyed (hi.shape _ v hv).1 (hi.shape _ v hv).2).builds])).2 m hs.topNode
        exact hnoBack b hb m hbm hs.offers
      · obtain ⟨n, hn, b', hb', ho⟩ := Walking.below h.walks hi.toWF hback b hb
        rw [buildsOf_eq hv] at hb'
        exact hnoBack b' hb' n hn ho
    · rcases Waits.turn h hi hv ht hxy with hxy | ⟨rfl, q', hq', b', hb', rfl⟩
      · exact .inl hxy
      · exact .inr ⟨rfl, hi.owner y j b' hb' b hb (Control.cached.inj (hq'.symm.trans hq))⟩
  · refine h.acyclic.mono fun x y hxy => ?_
    rcases Waits.turn h hi hv ht hxy with hxy | ⟨_, hq⟩
    · exact hxy
    · exact absurd ⟨y, hq⟩ hown

theorem Walking.turn (h : Walking s) (hi : Inv s) (hv : s.call k = some v) (hh : Heeds s v)
    (ht : Turn s v base sync w) : Walking (base.goOn sync k w) := by
  have he := hi.turn_effect hv ht
  have hbase := he.graph.1
  have hpromise : ∀ q r, s.promise q = some r →
      ∃ r', base.promise q = some r' ∧ r'.container = r.container ∧ r'.provider = r.provider := by
    intro q r hr
    obtain ⟨r', hr', hc, _, hp, _⟩ := he.promise hi.toWF (buildsOf_eq hv).symm hr
    exact ⟨r', hr', hc, hp⟩
  have hgo : ∀ q r, base.promise q = some r →
      ∃ r', (base.goOn sync k w).promise q = some r' ∧ r'.container = r.container ∧ r'.provider = r.provider :=
    fun q r hr => ⟨r, by rwa [goOn_promise], rfl, rfl⟩
  have hall : ∀ {u : Call τ} {s₁ s₂ : State τ}, s₂.graph = s₁.graph → (∀ q r, s₁.promise q = some r →
      ∃ r', s₂.promise q = some r' ∧ r'.container = r.container ∧ r'.provider = r.provider) → Walks s₁ u → Walks s₂ u :=
    fun hg hp hw => ⟨by rw [hg]; exact hw.stack, hw.control.mono hg hp⟩
  refine ⟨fun j u hu => ?_, ?_, acyclic_turn h hi hv hh ht⟩
  · refine hall (goOn_graph _ _ _ _) hgo ?_
    rw [goOn_call, he.call] at hu
    by_cases hj : j = k
    · subst hj
      obtain rfl : w = u := by simpa using hu
      exact (h.walks _ v hv).turn h.founded hi.toWF hh.own hbase (fun _ _ _ hc => hc.mono hpromise) ht
    · rw [Function.update_of_ne hj] at hu
      exact hall hbase hpromise (h.walks j u hu)
  · unfold PromisesFounded
    rw [goOn_graph, goOn_promise]
    exact h.founded.turn hi.toWF hv (h.walks k v hv) hbase ht

theorem Walking.startResolve (h : Walking s) (hi : Inv s) (c : ContainerId) (t : τ) : Walking (s.startResolve c t) := by
  have hnone : s.call s.calls = none := by
    cases hv : s.call s.calls with
    | none => rfl
    | some v => exact absurd (hi.callBound _ v hv) (Nat.lt_irrefl _)
  obtain ⟨ctl, hctl, hcall⟩ : ∃ ctl, (Controlled s (c, t) [] ctl ∧ ∀ q, ctl ≠ .cached q) ∧
      (s.startResolve c t).call = Function.update s.call s.calls (some ⟨c, t, [], ctl⟩) := by
    unfold State.startResolve
    dsimp only
    split
    · exact ⟨_, ⟨.rejected, by simp⟩, rfl⟩
    · exact ⟨_, ⟨.resolve .start, by simp⟩, rfl⟩
  have hB : (s.startResolve c t).buildsOf = s.buildsOf := by
    funext j
    unfold State.buildsOf
    rw [hcall]
    by_cases hj : j = s.calls
    · subst hj; simp [hnone]
    · simp [hj]
  have hcalls : ∀ {j u}, (s.startResolve c t).call j = some u → u = ⟨c, t, [], ctl⟩ ∨ s.call j = some u := by
    intro j u hu
    rw [hcall] at hu
    by_cases hj : j = s.calls
    · subst hj; exact .inl (by simpa using hu.symm)
    · rw [Function.update_of_ne hj] at hu; exact .inr hu
  have hmono : ∀ {n st ctl}, Controlled s n st ctl → Controlled (s.startResolve c t) n st ctl := by
    rw [startResolve_eq]
    exact fun h => h.mono rfl fun q r hr => ⟨r, hr, rfl, rfl⟩
  refine ⟨fun j u hu => ?_, by rw [startResolve_eq]; exact h.founded, h.acyclic.mono fun x y hxy => ?_⟩
  · rcases hcalls hu with rfl | hu
    · exact ⟨.nil, hmono hctl.1⟩
    · have hw := h.walks j u hu
      exact ⟨by rw [startResolve_eq]; exact hw.stack, hmono hw.control⟩
  · obtain ⟨u, q, hu, hq, b, hb, hbq⟩ := hxy
    rw [hB] at hb
    rcases hcalls hu with rfl | hu
    · exact absurd hq (hctl.2 q)
    · exact ⟨u, q, hu, hq, b, hb, hbq⟩

theorem Walking.step (h : Walking s) (hi : Inv s) {l : Label τ} (hc : Careful s l) (hs : Di.step s l = some s') :
    Walking s' := by
  have hasync : ∀ {k v}, s.running = none → s.call k = some v → Heeds s v := by
    intro k v hr hv
    refine .of_async ?_
    cases hsync : v.control.isSync with
    | false => rfl
    | true => rw [(hi.scheduled k v hv).1 hsync] at hr; cases hr
  cases step_cases hs with
  | resolve => exact h.startResolve hi _ _
  | advance hr hv ht => obtain ⟨ht⟩ := ht; exact h.turn hi hv (hc _ _ hr hv) ht
  | resume hr hv ht => obtain ⟨ht⟩ := ht; exact h.turn hi hv (hasync hr hv) ht
  | settle hr hv _ ht => obtain ⟨ht⟩ := ht; exact h.turn hi hv (hasync hr hv) ht
  | register | override | createRequestScope | dispose | stale | disposal => exact hc.elim

end Fluo.Di
