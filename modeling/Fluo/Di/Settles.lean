import Fluo.Di.Budget
/-!
# Every call settles

In a run whose steps are all `Careful` no set of calls waits for itself, every
call settles after a bounded number of turns, and a call for a token that
leads to a cycle of the graph is rejected.
-/

namespace Fluo.Di

open Relation (ReflTransGen TransGen)
open Lib (Acyclic Run after passes)

variable {τ : Type} [DecidableEq τ] {s s' base : State τ} {g : Graph τ} {k : CallId} {v w : Call τ} {sync : Bool}

/-! ## Progress -/

/-- Call `k` can go on by itself, or with the end of a factory. -/
def State.Ready (s : State τ) (k : CallId) : Prop := ∃ v, s.call k = some v ∧
  ((s.advance k v).isSome ∨ (s.resume k v).isSome ∨ v.control = .user ∧ ∀ o, (s.settle k v o).isSome)

theorem Walking.ready_or_waits (h : Walking s) (hi : Inv s) (hv : s.call k = some v) (hr : s.result k = none) :
    s.Ready k ∨ ∃ j, s.Waits k j := by
  obtain ⟨hst, hc⟩ := h.walks k v hv
  obtain ⟨c, t, st, ctl⟩ := v
  unfold State.result at hr
  rw [hv] at hr
  cases ctl with
  | resolve => exact .inl ⟨_, hv, .inl rfl⟩
  | multi => exact .inl ⟨_, hv, .inl rfl⟩
  | cached q =>
    obtain ⟨m, d, p, ⟨r, hq, _⟩, _⟩ := hc.awaiting hst
    cases hσ : r.status with
    | pending =>
      obtain ⟨j, b, hb, hbq⟩ := hi.pending q r hq hσ
      exact .inr ⟨j, _, q, hv, rfl, b, hb, hbq⟩
    | fulfilled x => exact .inl ⟨_, hv, .inr (.inl (by simp [State.resume, State.status, hq, hσ]))⟩
    | rejected e => exact .inl ⟨_, hv, .inr (.inl (by simp [State.resume, State.status, hq, hσ]))⟩
  | user =>
    cases hc with
    | user => exact .inl ⟨_, hv, .inr (.inr ⟨rfl, fun o => by cases o <;> rfl⟩)⟩
  | value o =>
    cases hc with
    | value => exact .inl ⟨_, hv, .inr (.inl rfl)⟩
  | fulfilled x =>
    cases st with
    | nil => cases hr
    | cons f st =>
      cases f with
      | chain => exact .inl ⟨_, hv, .inr (.inl rfl)⟩
      | multi c ps xs => cases ps <;> exact .inl ⟨_, hv, .inr (.inl rfl)⟩
      | build => exact .inl ⟨_, hv, .inr (.inl rfl)⟩
  | rejected e =>
    cases st with
    | nil => cases hr
    | cons f st => cases f <;> exact .inl ⟨_, hv, .inr (.inl rfl)⟩

omit [DecidableEq τ] in
theorem result_of_builds {b : Build τ} (hb : b ∈ s.buildsOf k) : s.result k = none := by
  unfold State.buildsOf at hb
  unfold State.result
  split
  · rename_i hv; simp [hv] at hb
  · rename_i hv; simp [hv] at hb
  · rfl

theorem Walking.no_deadlock (h : Walking s) (hi : Inv s) {D : Set CallId} (hne : D.Nonempty) :
    ¬ ∀ k ∈ D, ∃ j ∈ D, s.Waits k j := by
  intro hD
  have hfin : D.Finite := (Set.finite_lt_nat s.calls).subset fun k hk => by
    obtain ⟨j, _, v, q, hv, _⟩ := hD k hk
    exact hi.callBound k v hv
  obtain ⟨k, hk, hfree⟩ := h.acyclic.exists_free hfin hne
  obtain ⟨j, hj, hw⟩ := hD k hk
  exact hfree j hj hw

theorem Walking.progress (h : Walking s) (hi : Inv s) (hk : (s.call k).isSome) (hr : s.result k = none) :
    ∃ j, ReflTransGen s.Waits k j ∧ s.Ready j := by
  have hmem : ∀ j, ReflTransGen s.Waits k j → (∃ v, s.call j = some v) ∧ s.result j = none := by
    intro j hj
    rcases Relation.ReflTransGen.cases_tail hj with rfl | ⟨i, _, u, q, hu, hq, b, hb, _⟩
    · exact ⟨Option.isSome_iff_exists.1 hk, hr⟩
    · refine ⟨?_, result_of_builds hb⟩
      unfold State.buildsOf at hb
      cases hj : s.call j with
      | none => simp [hj] at hb
      | some v => exact ⟨v, rfl⟩
  obtain ⟨j, hj, hfree⟩ := h.acyclic.exists_free (D := {j | ReflTransGen s.Waits k j})
    ((Set.finite_lt_nat s.calls).subset fun j hj => by
      obtain ⟨v, hv⟩ := (hmem j hj).1
      exact hi.callBound j v hv) ⟨k, .refl⟩
  obtain ⟨⟨v, hv⟩, hj'⟩ := hmem j hj
  refine ⟨j, hj, (h.ready_or_waits hi hv hj').resolve_right ?_⟩
  rintro ⟨i, hw⟩
  exact hfree i (hj.tail hw) hw

/-! ## Registered trees -/

/-- The steps that build a tree of containers. -/
def Setup (_ : State τ) : Label τ → Prop
  | .register _ _ | .override _ _ | .createRequestScope _ => True
  | _ => False

/-- A tree of containers in which nothing has been resolved or disposed yet. -/
structure Unused (s : State τ) : Prop where
  calls : ∀ k, s.call k = none
  count : s.calls = 0
  promises : ∀ q, s.promise q = none
  disposed : ∀ d, (s.container d).disposed = false
  finite : s.graph.Finite s.containers

omit [DecidableEq τ] in
theorem Unused.init (classes : JsMap τ (ClassMetadata τ)) : Unused (State.init classes) :=
  ⟨fun _ => rfl, rfl, fun _ => rfl, fun _ => rfl, fun _ _ => rfl⟩

theorem Unused.step (h : Unused s) (hi : Inv s) {l : Label τ} (hl : Setup s l) (hs : Di.step s l = some s') : Unused s' := by
  have hfinite := hi.step_finite h.finite hs
  have hwrites : ∀ {c}, Outside s s' → WritesOn c s s' → Unused s' := fun ho hw =>
    ⟨by rw [ho.call]; exact h.calls, by rw [ho.calls]; exact h.count, by rw [ho.promise]; exact h.promises,
      fun d => by rw [hw.disposed]; exact h.disposed d, hfinite⟩
  cases step_cases hs with
  | register => exact hwrites (register_outside hi.keyed _ _).1 (register_writesOn s _ _)
  | override => exact hwrites (override_outside hi.keyed _ _).1 (override_writesOn s _ _)
  | createRequestScope => exact ⟨h.calls, h.count, h.promises, h.disposed, hfinite⟩
  | resolve | dispose | advance | resume | settle | stale | disposal => exact hl.elim

theorem Unused.walking (h : Unused s) : Walking s := by
  refine ⟨fun k v hv => ?_, fun q r hr => ?_, fun k hk => ?_⟩
  · rw [h.calls k] at hv; cases hv
  · rw [h.promises q] at hr; cases hr
  · obtain ⟨j, ⟨v, q, hv, _⟩, _⟩ := TransGen.head'_iff.1 hk
    rw [h.calls k] at hv
    cases hv

/-! ## Runs without faults -/

/-- Every token that node `n` leads to has a provider, and no scope rule
rejects it. -/
structure Graph.Sound (g : Graph τ) (classes : JsMap τ (ClassMetadata τ)) (n : Node τ) : Prop where
  found : ∀ m, ReflTransGen g.Edge n m → (g.lookupProvider m.1 m.2).isSome ∨ g.collectMultiProviders m.1 m.2 ≠ []
  requested : ∀ m d p, ReflTransGen g.Edge n m → g.Offers m d p → p.scope = .request → g.requestScopeEnabled d = true
  admitted : ∀ m d p e, ReflTransGen g.Edge n m → g.Offers m d p → g.scopeError classes d p = some e →
    ∃ chain f, e = .circularDependency chain f

/-- A step that resolves a sound token, or in which no factory rejects. -/
def Faultless (s : State τ) : Label τ → Prop
  | .resolve c t => s.graph.Sound s.classes (c, t)
  | .settle _ outcome => ∀ e, outcome ≠ .threw e
  | _ => True

theorem Typed.reach {n : Node τ} {st : List (Frame τ)} (h : Typed g n st) :
    (∀ m, Wants g n st m → ReflTransGen g.Edge n m) ∧ ∀ m, topNode st = some m → ReflTransGen g.Edge n m := by
  induction h with
  | nil =>
    refine ⟨fun m hm => ?_, fun m hm => by cases hm⟩
    cases hm with
    | start => exact .refl
    | existing hs => cases hs
  | chain _ hw ih =>
    have ht := ih.1 _ hw
    refine ⟨fun m hm => ?_, fun m hm => by cases hm; exact ht⟩
    cases hm with
    | existing hs htype =>
      cases hs with
      | single hp => exact ht.tail (.existing (.single hp) htype)
  | multi _ hr ih =>
    have ht := ih.2 _ rfl
    refine ⟨fun m hm => ?_, fun m hm => by cases hm; exact ht⟩
    cases hm with
    | existing hs htype =>
      have ho := hs.offers
      cases hs with
      | multi => exact ht.tail (.existing ho htype)
  | @build d p rest deps promise st m' _ hs hne ih =>
    refine ⟨fun m hm => ?_, fun m hm => by cases hm⟩
    cases hm with
    | existing hs' => cases hs'
    | @dep _ _ done e _ _ _ _ hp hi hd hf =>
      have he : e ∈ p.inject := by rw [hi]; exact List.mem_append_right _ List.mem_cons_self
      exact (ih.2 _ hs.topNode).tail (.dep hs.offers hp he hf)

structure OnlyCircular (s : State τ) : Prop where
  sound : ∀ k v, s.call k = some v → s.graph.Sound s.classes (v.container, v.token)
  calls : ∀ k v e, s.call k = some v → v.control = .rejected e → ∃ chain f, e = .circularDependency chain f
  promises : ∀ q e, s.status q = some (.rejected e) → ∃ chain f, e = .circularDependency chain f
  disposed : ∀ d, (s.container d).disposed = false

theorem Turn.origin (h : Turn s v base sync w) : w.container = v.container ∧ w.token = v.token := by
  cases h <;> exact ⟨rfl, rfl⟩

variable {p : NormalizedProvider τ} {e : DiError τ}

theorem NextDep.error {c : ContainerId} {promise st rest deps st' ctl}
    (h : NextDep g c p promise st rest deps st' ctl sync) (e : DiError τ) : ctl ≠ .rejected e := by
  cases h <;> simp

theorem Instantiate.error {classes : JsMap τ (ClassMetadata τ)} {c : ContainerId}
    {promise st st' ctl e} (h : Instantiate g classes c p promise st st' ctl sync) (he : ctl = .rejected e) :
    g.scopeError classes c p = some e := by
  subst he
  cases h with
  | scope h => exact h
  | deps _ _ hn => exact absurd rfl (hn.error e)

theorem Turn.error (hw : Walks s v) (hsound : s.graph.Sound s.classes (v.container, v.token))
    (hcall : ∀ e, v.control = .rejected e → ∃ chain f, e = .circularDependency chain f)
    (hpromise : ∀ q e, s.status q = some (.rejected e) → ∃ chain f, e = .circularDependency chain f)
    (h : Turn s v base sync w) (he : w.control = .rejected e) :
    (∃ chain f, e = .circularDependency chain f) ∨ v.control = .user := by
  cases h with
  | circular => cases he; exact .inl ⟨_, _, rfl⟩
  | missing hctl ht hl hc =>
    have hwant := hw.control
    rw [hctl] at hwant
    rcases hsound.found _ (hw.stack.reach.1 _ hwant.wants) with hs | hs
    · simp [hl] at hs
    · exact absurd hc hs
  | transient henter hi =>
    obtain ⟨hst, ⟨m, hs⟩, _⟩ := henter.site hw.stack hw.control
    exact .inl (hsound.admitted m _ _ e (hst.reach.2 _ hs.topNode) hs.offers (hi.error he))
  | build henter _ _ hi =>
    obtain ⟨hst, ⟨m, hs⟩, _⟩ := henter.site hw.stack hw.control
    exact .inl (hsound.admitted m _ _ e (hst.reach.2 _ hs.topNode) hs.offers (hi.error he))
  | @outside d key p st henter hsc hen =>
    obtain ⟨hst, ⟨m, hs⟩, _, htr⟩ := henter.site hw.stack hw.control
    have hreq : p.scope = .request := by
      cases hp : p.scope with
      | singleton => exact absurd hp hsc
      | request => rfl
      | transient => exact absurd hp htr
    rw [hsound.requested m d p (hst.reach.2 _ hs.topNode) hs.offers hreq] at hen
    cases hen
  | awaitedError hctl hq => cases he; exact .inl (hpromise _ _ hq)
  | fail hctl | unwind hctl => exact .inl (hcall e he)
  | threw hctl => exact .inr hctl
  | leaveChain hctl => change v.control = _ at he; rw [hctl] at he; cases he
  | nextDep _ _ hn => exact absurd he (hn.error e)
  | _ => cases he

omit [DecidableEq τ] in
theorem rejected_complete {promise : Option PromiseId} {x : Value} {q : PromiseId}
    (h : (s.complete promise x).status q = some (.rejected e)) : s.status q = some (.rejected e) := by
  cases promise with
  | none => exact h
  | some q' =>
    unfold State.complete State.fulfil State.status at h
    unfold State.status
    cases hr : s.promise q' with
    | none => simpa [hr] using h
    | some r =>
      by_cases hq : q = q'
      · subst hq; simp [hr, State.setPromise] at h
      · simpa [hr, State.setPromise, hq] using h

theorem Turn.rejects (h : Turn s v base sync w) {q : PromiseId}
    (hq : base.status q = some (.rejected e)) : s.status q = some (.rejected e) ∨ v.control = .rejected e := by
  cases h with
  | wait => rw [ensureTracked_eq] at hq; exact .inl hq
  | build =>
    left
    unfold State.status State.allocate at hq
    by_cases h : q = s.promises
    · subst h; simp at hq
    · simpa [State.status, h] using hq
  | value | created | returned => exact .inl (rejected_complete hq)
  | @fail e' c p rest deps promise st hctl =>
    cases promise with
    | none => exact .inl hq
    | some q' =>
      unfold State.fail State.reject State.status at hq
      unfold State.status
      cases hr : s.promise q' with
      | none => left; simpa [hr] using hq
      | some r =>
        by_cases h : q = q'
        · subst h
          simp only [hr, State.setPromise, State.modifyCache, State.setContainer, Function.update_self, Option.map_some,
            Option.some.injEq, Status.rejected.injEq] at hq
          exact .inr (hq ▸ hctl)
        · left; simpa [hr, State.setPromise, State.modifyCache, State.setContainer, h] using hq
  | _ => exact .inl hq

theorem OnlyCircular.turn (h : OnlyCircular s) (hi : Inv s) (hw : Walking s) (hv : s.call k = some v)
    (hthrew : v.control = .user → ∀ e, w.control ≠ .rejected e) (ht : Turn s v base sync w) :
    OnlyCircular (base.goOn sync k w) := by
  have he := hi.turn_effect hv ht
  obtain ⟨hgraph, hclasses, _⟩ := he.graph
  have hcalls : ∀ j u, (base.goOn sync k w).call j = some u → j = k ∧ u = w ∨ s.call j = some u := by
    intro j u hu
    rw [goOn_call, he.call] at hu
    by_cases hj : j = k
    · subst hj; exact .inl ⟨rfl, by simpa using hu.symm⟩
    · rw [Function.update_of_ne hj] at hu; exact .inr hu
  refine ⟨fun j u hu => ?_, fun j u e hu he' => ?_, fun q e hq => ?_, fun d => ?_⟩
  · rw [goOn_graph, goOn_classes, hgraph, hclasses]
    rcases hcalls j u hu with ⟨_, rfl⟩ | hu
    · rw [ht.origin.1, ht.origin.2]; exact h.sound k v hv
    · exact h.sound j u hu
  · rcases hcalls j u hu with ⟨_, rfl⟩ | hu
    · rcases ht.error (hw.walks k v hv) (h.sound k v hv) (fun e => h.calls k v e hv) h.promises he' with hc | hu
      · exact hc
      · exact absurd he' (hthrew hu e)
    · exact h.calls j u e hu he'
  · rw [goOn_status] at hq
    rcases ht.rejects hq with hq | hctl
    · exact h.promises q e hq
    · exact h.calls k v e hv hctl
  · rw [goOn_container]
    exact (ht.disposal d).1.trans (h.disposed d)

theorem settle_ok {outcome : Outcome} (h : s.settle k v outcome = some s') (ho : ∀ e, outcome ≠ .threw e) :
    ∃ base w, Turn s v base false w ∧ s' = base.goOn false k w ∧ ∀ e, w.control ≠ .rejected e := by
  unfold State.settle at h
  split at h
  · rename_i hctl hst
    cases outcome with
    | created => cases h; exact ⟨_, _, .created hctl hst, rfl, by simp⟩
    | returned => cases h; exact ⟨_, _, .returned hctl hst, rfl, by simp⟩
    | threw e => exact absurd rfl (ho e)
  · cases h

theorem OnlyCircular.step (h : OnlyCircular s) (hi : Inv s) (hw : Walking s) {l : Label τ} (hc : Careful s l)
    (hf : Faultless s l) (hs : Di.step s l = some s') : OnlyCircular s' := by
  have hturn : ∀ {k v}, s.call k = some v → v.control ≠ .user → CallStep s k v s' → OnlyCircular s' := by
    rintro k v hv hu ⟨ht⟩
    exact h.turn hi hw hv (fun h => absurd h hu) ht
  cases hlab : l with
  | resolve c t =>
    subst hlab
    cases step_cases hs with
    | resolve =>
      have hlive : s.isDisposedInHierarchy c = false := by
        unfold State.isDisposedInHierarchy
        rw [List.any_eq_false]
        exact fun d _ => by simp [h.disposed d]
      have hcalls : ∀ j u, (s.startResolve c t).call j = some u → u = ⟨c, t, [], .resolve c t false⟩ ∨ s.call j = some u := by
        intro j u hu
        unfold State.startResolve at hu
        simp only [hlive, Bool.false_eq_true, if_false, State.setCall] at hu
        by_cases hj : j = s.calls
        · subst hj; exact .inl (by simpa using hu.symm)
        · rw [Function.update_of_ne hj] at hu; exact .inr hu
      refine ⟨fun j u hu => ?_, fun j u e hu he => ?_, by rw [startResolve_eq]; exact h.promises,
        by rw [startResolve_eq]; exact h.disposed⟩
      · rw [startResolve_eq]
        rcases hcalls j u hu with rfl | hu
        · exact hf
        · exact h.sound j u hu
      · rcases hcalls j u hu with rfl | hu
        · cases he
        · exact h.calls j u e hu he
  | advance =>
    subst hlab
    cases step_cases hs with
    | advance hr hv ht =>
      refine hturn hv (fun hu => ?_) ht
      have := (hi.scheduled _ _ hv).2 hr
      rw [hu] at this
      cases this
  | resume j =>
    subst hlab
    cases hr : s.running with
    | some i => rw [Di.step, hr] at hs; cases hs
    | none =>
      rw [Di.step, hr] at hs
      obtain ⟨v, hv, hres⟩ := Option.bind_eq_some_iff.1 hs
      refine hturn hv (fun hu => ?_) (callStep_resume hres)
      unfold State.resume at hres
      rw [hu] at hres
      cases hres
  | settle j outcome =>
    subst hlab
    cases hr : s.running with
    | some i => rw [Di.step, hr] at hs; cases hs
    | none =>
      rw [Di.step, hr] at hs
      obtain ⟨v, hv, hset⟩ := Option.bind_eq_some_iff.1 hs
      obtain ⟨base, w, ht, rfl, hok⟩ := settle_ok hset hf
      exact h.turn hi hw hv (fun _ => hok) ht
  | register | override | createRequestScope | dispose | stale | disposal => subst hlab; exact hc.elim

/-! ## The result -/

def Label.isResolve : Label τ → Bool
  | .resolve _ _ => true
  | _ => false

omit [DecidableEq τ] in
theorem gain_sum (N L : Nat) (ls : List (Label τ)) :
    (ls.map (Label.gain N L)).sum = (resolveCost L N + 1) * ls.countP Label.isResolve := by
  induction ls with
  | nil => rfl
  | cons l ls ih =>
    rw [List.map_cons, List.sum_cons, ih, List.countP_cons]
    cases l <;> simp [Label.gain, Label.isResolve, Nat.mul_add, Nat.add_comm]

theorem Walking.not_cyclic (h : Walking s) (hv : s.call k = some v) {x : Value} (hx : s.result k = some (.ok x)) :
    ¬ s.graph.Cyclic (v.container, v.token) := by
  obtain ⟨_, hc⟩ := h.walks k v hv
  unfold State.result at hx
  rw [hv] at hx
  split at hx
  · rename_i heq
    cases heq
    exact hc.delivered.done.not_cyclic
  · cases hx
  · cases hx

/-- No deadlock: on every tree of containers, in every run of calls whose steps
are all careful, no set of calls waits for itself, every call settles after a
bounded number of turns, and a call for a token that leads to a cycle is
rejected, with a circular dependency unless something else fails. -/
theorem resolves_settle {classes : JsMap τ (ClassMetadata τ)} {ls₀ : List (Label τ)} {s₀ : State τ}
    (h₀ : Run step Setup (State.init classes) ls₀ s₀) : ∃ B, ∀ ls s, Run step Careful s₀ ls s →
      (∀ D : Set CallId, D.Nonempty → ¬ ∀ k ∈ D, ∃ j ∈ D, s.Waits k j) ∧
      (∀ k v, s.call k = some v → s.result k = none → ∃ j, ReflTransGen s.Waits k j ∧ s.Ready j) ∧
      ls.length ≤ B * ls.countP Label.isResolve ∧
      ∀ k v r, s.call k = some v → s.graph.Cyclic (v.container, v.token) → s.result k = some r →
        ∃ e, r = .error e ∧ (Run step Faultless s₀ ls s → ∃ chain f, e = .circularDependency chain f) := by
  obtain ⟨hi₀, hu₀⟩ : Inv s₀ ∧ Unused s₀ :=
    h₀.keeps (fun s => Inv s ∧ Unused s) (fun _ _ _ hl hi hs => ⟨hi.1.step hs, hi.2.step hi.1 hl hs⟩)
      ⟨.init classes, .init classes⟩
  obtain ⟨L, hb⟩ := hu₀.finite.bounded
  generalize s₀.graph.tokens s₀.containers = tokens at hb
  refine ⟨resolveCost L tokens.length + 1, fun ls s h => ?_⟩
  have hstart : Budgeted s₀.graph tokens s₀ :=
    ⟨hi₀, hu₀.walking, rfl, fun k v hv => by rw [hu₀.calls k] at hv; cases hv⟩
  have hs : Budgeted s₀.graph tokens s := h.keeps _ (fun _ _ _ hc hi hs => (hi.step hb hc hs).1) hstart
  refine ⟨fun D hD => hs.walking.no_deadlock hs.inv hD, fun k v hv hr => ?_, ?_, fun k v r hv hcyc hr => ?_⟩
  · exact hs.walking.progress hs.inv (by rw [hv]; rfl) hr
  · have hlen := h.length_le _ (State.budget tokens.length L) _ (fun _ _ _ hc hi hs => hi.step hb hc hs) hstart
    have hzero : s₀.budget tokens.length L = 0 := by simp [State.budget, hu₀.count]
    rw [hzero, gain_sum] at hlen
    omega
  · cases r with
    | ok x => exact absurd hcyc (hs.walking.not_cyclic hv hr)
    | error e =>
      refine ⟨e, rfl, fun hf => ?_⟩
      have hcirc₀ : OnlyCircular s₀ := by
        refine ⟨fun k v hv => ?_, fun k v e hv => ?_, fun q e hq => ?_, hu₀.disposed⟩
        · rw [hu₀.calls k] at hv; cases hv
        · rw [hu₀.calls k] at hv; cases hv
        · simp [State.status, hu₀.promises q] at hq
      have hcirc : Budgeted s₀.graph tokens s ∧ OnlyCircular s :=
        (h.and hf).keeps (fun s => Budgeted s₀.graph tokens s ∧ OnlyCircular s)
          (fun _ _ _ hc hi hs => ⟨(hi.1.step hb hc.1 hs).1, hi.2.step hi.1.inv hi.1.walking hc.1 hc.2 hs⟩)
          ⟨hstart, hcirc₀⟩
      unfold State.result at hr
      rw [hv] at hr
      split at hr
      · cases hr
      · rename_i heq
        cases heq
        cases hr
        exact hcirc.2.calls k _ e hv rfl
      · cases hr

/-! ## Two runs -/

private def factoryOf (token : Nat) (inject : List Nat) : Provider Nat :=
  .object { provide := some token, useFactory := some true, inject := some (inject.map fun t => some (.token t)) }

private def isSetup : State Nat → Label Nat → Bool
  | _, .register _ _ => true
  | _, _ => false

private theorem isSetup_ok (s : State Nat) (l : Label Nat) (h : isSetup s l = true) : Setup s l := by
  cases l <;> simp_all [isSetup, Setup]

/-- A step of calls; the running one finds nothing in the caches. -/
private def findsNothing (s : State Nat) : Label Nat → Bool
  | .resolve _ _ | .resume _ | .settle _ _ => true
  | .advance => match s.running.bind s.call with
    | some ⟨_, _, _, .resolve c t _⟩ => match s.graph.lookupProvider c t with
      | some p => (s.cached (s.graph.singleSite c p) (.token p.provide)).isNone
      | none => true
    | _ => false
  | _ => false

private theorem findsNothing_ok (s : State Nat) (l : Label Nat) (h : findsNothing s l = true) : Careful s l := by
  cases l with
  | advance =>
    intro k v hr hv
    have hnone : ∀ d key p st q, Enters s.graph v d key p st → s.cached d key ≠ some q := by
      intro d key p st q he hq
      simp only [findsNothing, hr, Option.bind_some, hv] at h
      obtain ⟨_, _, stack, ctl⟩ := v
      cases he with
      | single hctl _ hp =>
        dsimp only at hctl
        subst hctl
        simp only [hp.lookup] at h
        rw [hq] at h
        cases h
      | multi hctl =>
        dsimp only at hctl
        subst hctl
        cases h
    exact ⟨fun d key p st q he hq => absurd hq (hnone d key p st q he),
      fun d key p st q he hq => absurd hq (hnone d key p st q he)⟩
  | resolve | resume | settle => trivial
  | _ => cases h

/-- Two factories that inject each other. -/
private def ringSetup : List (Label Nat) := [.register root [factoryOf 0 [1], factoryOf 1 [0]]]
private def ringRun : List (Label Nat) :=
  [.resolve root 0, .advance, .advance, .advance, .resume 0, .resume 0, .resume 0, .resume 0]
private def ringS₀ : State Nat := after step (State.init ∅) ringSetup
private def ringS₁ : State Nat := after step ringS₀ ringRun

private theorem ring_edge {t u : Nat} (id : Nat)
    (hl : ringS₁.graph.lookupProvider root t = some ⟨id, t, [.token u], .default, .factory, false⟩)
    (hm : ringS₁.graph.collectMultiProviders root t = []) : ringS₁.graph.Edge (root, t) (root, u) := by
  have ho := Graph.Offers.single ⟨fun _ => hm, hl⟩
  have hsite : ringS₁.graph.singleSite root ⟨id, t, [.token u], .default, .factory, false⟩ = root := by
    simp [Graph.singleSite]
  rw [if_neg (by simp), hsite] at ho
  exact .dep ho ⟨by simp, by simp⟩ List.mem_cons_self (by rintro _ ⟨⟩)

theorem resolves_settle_ring : ∃ e, Run step Setup (State.init ∅) ringSetup ringS₀ ∧ Run step Careful ringS₀ ringRun ringS₁ ∧
    ringS₁.result 0 = some (.error e) := by
  have h₀ : Run step Setup (State.init ∅) ringSetup ringS₀ := Run.of_passes isSetup_ok (by decide)
  have h₁ : Run step Careful ringS₀ ringRun ringS₁ := Run.of_passes findsNothing_ok (by decide)
  have hab : ringS₁.graph.Edge (root, 0) (root, 1) := ring_edge 0 (by decide) (by decide)
  have hba : ringS₁.graph.Edge (root, 1) (root, 0) := ring_edge 1 (by decide) (by decide)
  have hcyc : ringS₁.graph.Cyclic (root, 0) := ⟨_, .refl, .head hab (.single hba)⟩
  obtain ⟨B, h⟩ := resolves_settle h₀
  obtain ⟨r, hr⟩ := Option.isSome_iff_exists.1 (show (ringS₁.result 0).isSome = true by decide)
  obtain ⟨v, hv, hnode⟩ : ∃ v, ringS₁.call 0 = some v ∧ (v.container, v.token) = (root, 0) := by
    have hcall : (ringS₁.call 0).map (fun v => (v.container, v.token)) = some (root, 0) := by decide
    exact Option.map_eq_some_iff.1 hcall
  obtain ⟨e, rfl, _⟩ := (h _ _ h₁).2.2.2 0 v r hv (hnode ▸ hcyc) hr
  exact ⟨e, h₀, h₁, hr⟩

/-- `A` injects `X` and then `B`, `B` injects `Y` and then `A`. -/
private def crossSetup : List (Label Nat) :=
  [.register root [factoryOf 0 [2, 1], factoryOf 1 [3, 0], factoryOf 2 [], factoryOf 3 []]]
/-- While `X` and `Y` are under construction, one call enters the cycle at `A` and another at `B`. -/
private def crossRun : List (Label Nat) :=
  [.resolve root 0, .advance, .advance, .resolve root 1, .advance, .advance,
   .settle 0 (.created false), .settle 1 (.created false),
   .resume 0, .resume 0, .advance, .resume 1, .resume 1, .advance]
private def crossS₀ : State Nat := after step (State.init ∅) crossSetup
private def crossS₁ : State Nat := after step crossS₀ crossRun

private def isCall : State Nat → Label Nat → Bool
  | _, .resolve c _ => c = root
  | _, .advance | _, .resume _ | _, .settle _ (.created _) => true
  | _, _ => false

private def awaits (s : State Nat) (k j : CallId) : Bool :=
  match s.call k with
  | some ⟨_, _, _, .cached q⟩ => (s.buildsOf j).any (·.2.2 = q)
  | _ => false

private theorem waits_of_awaits {s : State Nat} {k j : CallId} (h : awaits s k j = true) : s.Waits k j := by
  unfold awaits at h
  split at h
  · rename_i q hv
    obtain ⟨b, hb, hq⟩ := List.any_eq_true.1 h
    exact ⟨_, q, hv, rfl, b, hb, of_decide_eq_true hq⟩
  · cases h

/-- Two calls on one container enter a cycle at different tokens and wait for each other. -/
theorem resolves_settle_crossed : ∃ ls₀ ls s₀ s, Run step Setup (State.init (∅ : JsMap Nat (ClassMetadata Nat))) ls₀ s₀ ∧
    Run step (fun s l => isCall s l = true) s₀ ls s ∧ s.result 0 = none ∧ s.result 1 = none ∧
    ∃ D : Set CallId, D.Nonempty ∧ ∀ k ∈ D, ∃ j ∈ D, s.Waits k j := by
  have h₀ : Run step Setup (State.init ∅) crossSetup crossS₀ := Run.of_passes isSetup_ok (by decide)
  have h₁ : Run step (fun s l => isCall s l = true) crossS₀ crossRun crossS₁ :=
    Run.of_passes (fun _ _ => id) (by decide)
  have h01 : crossS₁.Waits 0 1 := waits_of_awaits (by decide +kernel)
  have h10 : crossS₁.Waits 1 0 := waits_of_awaits (by decide +kernel)
  obtain ⟨v, q, hv, hq, b, hb, _⟩ := h01
  obtain ⟨v', q', hv', hq', b', hb', _⟩ := h10
  refine ⟨_, _, _, _, h₀, h₁, result_of_builds hb', result_of_builds hb, {0, 1}, ⟨0, by simp⟩, ?_⟩
  rintro k (rfl | rfl)
  · exact ⟨1, by simp, waits_of_awaits (by decide +kernel)⟩
  · exact ⟨0, by simp, waits_of_awaits (by decide +kernel)⟩

end Fluo.Di
