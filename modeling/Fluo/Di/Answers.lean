import Fluo.Di.Identity
/-!
# What a resolution answers

While the program neither overrides a provider nor disposes a container, a
token that the root registers with one default-scope provider keeps its
instance: once a call has returned it, every later call returns it.
-/

namespace Fluo.Di

open Lib (Run)

variable {τ : Type} [DecidableEq τ] {s s' base : State τ} {k : CallId} {v w : Call τ} {sync : Bool} {t : τ} {q : PromiseId}
  {x : Value} {l : Label τ}

/-- The program neither overrides a provider nor disposes a container. -/
def KeepsProviders (_ : State τ) : Label τ → Prop
  | .override _ _ | .dispose _ => False
  | _ => True

/-- Every call is settled. -/
structure Quiet (s : State τ) : Prop where
  running : s.running = none
  settled : ∀ k, (s.call k).isSome → (s.result k).isSome

/-- `container.resolve(token)`, called in `s`, may settle with `answer`. -/
def Resolves (s : State τ) (t : τ) (answer : Except (DiError τ) Value) : Prop :=
  ∃ ls s', Run step KeepsProviders (s.startResolve root t) ls s' ∧ Quiet s' ∧ s'.result s.calls = some answer

/-- The root registers one default-scope provider of `t`, and it is no alias. -/
def Graph.Direct (g : Graph τ) (t : τ) : Prop :=
  ∃ p, g.registration root t = some p ∧ p.scope = .default ∧ ∀ u, p.type ≠ .existing u

/-! ## Registrations -/

variable {c d : ContainerId} {p : NormalizedProvider τ} {providers : List (Provider τ)} {ps : List (NormalizedProvider τ)} {ls : List (Label τ)}

theorem registerOne_registration {provider : Provider τ}
    (h : s.registerOne c provider = .ok s') (hp : s.graph.registration d t = some p) : s'.graph.registration d t = some p := by
  by_cases hd : d = c
  swap
  · rw [Graph.registration, (registerOne_writesOn h).graph d hd]
    exact hp
  subst hd
  unfold State.registerOne at h
  cases hn : normalizeProvider s.classes s.nextProvider provider with
  | error e => rw [hn] at h; cases h
  | ok n =>
    rw [hn] at h
    simp only [bind, Except.bind, pure, Except.pure] at h
    split at h
    · cases h
    split at h
    · cases h
    rename_i hconflict
    cases h
    simp only [Graph.registration, State.setRegistry, Function.update_self]
    split
    · exact hp
    · rename_i hmulti
      have hne : t ≠ n.provide := by
        rintro rfl
        refine hconflict ?_
        have hmem : n.provide ∈ (s.graph d).registrations := AList.lookup_isSome.1 (by
          rw [show (s.graph d).registrations.lookup n.provide = some p from hp]; rfl)
        simp [State.hasRegistrationConflict, hmulti, hmem]
      rw [AList.lookup_insert_ne hne]
      exact hp

theorem registerAll_registration
    (hp : s.graph.registration d t = some p) : (s.registerAll c providers).1.graph.registration d t = some p := by
  induction providers generalizing s with
  | nil => exact hp
  | cons provider rest ih =>
    simp only [State.registerAll]
    split
    · exact hp
    · rename_i s₁ h₁
      exact ih (registerOne_registration h₁ hp)

theorem register_registration
    (hp : s.graph.registration d t = some p) : (s.register c providers).1.graph.registration d t = some p := by
  unfold State.register
  split
  · exact hp
  · exact registerAll_registration hp

theorem registerAll_single (h : s.registerAll c providers = (s', none))
    {provider : Provider τ} (hm : provider ∈ providers) :
    ∃ id n, normalizeProvider s.classes id provider = .ok n ∧ (n.multi = false → s'.graph.registration c n.provide = some n) := by
  induction providers generalizing s with
  | nil => cases hm
  | cons p rest ih =>
    rw [State.registerAll] at h
    cases hp : s.registerOne c p with
    | error e => rw [hp] at h; cases h
    | ok s₁ =>
      rw [hp] at h
      dsimp only at h
      obtain ⟨hclasses, hfound⟩ : s₁.classes = s.classes ∧
          ∃ id n, normalizeProvider s.classes id p = .ok n ∧ (n.multi = false → s₁.graph.registration c n.provide = some n) := by
        unfold State.registerOne at hp
        cases hn : normalizeProvider s.classes s.nextProvider p with
        | error e => rw [hn] at hp; cases hp
        | ok n =>
          rw [hn] at hp
          simp only [bind, Except.bind, pure, Except.pure] at hp
          split at hp
          · cases hp
          split at hp
          · cases hp
          cases hp
          refine ⟨rfl, _, n, hn, fun hsingle => ?_⟩
          simp [Graph.registration, State.setRegistry, hsingle]
      rcases List.mem_cons.1 hm with rfl | hm
      · obtain ⟨id, n, hn, hreg⟩ := hfound
        refine ⟨id, n, hn, fun hsingle => ?_⟩
        have hkept : (s₁.registerAll c rest).1.graph.registration c n.provide = some n := registerAll_registration (hreg hsingle)
        rw [h] at hkept
        exact hkept
      · obtain ⟨id, n, hn, hreg⟩ := ih h hm
        exact ⟨id, n, hclasses ▸ hn, hreg⟩

theorem Inv.step_registration (h : Inv s) (hl : KeepsProviders s l) (hs : Di.step s l = some s')
    (hp : s.graph.registration root t = some p) : s'.graph.registration root t = some p := by
  have hturn : ∀ {k v}, s.call k = some v → CallStep s k v s' → s'.graph.registration root t = some p := by
    rintro k v hv ⟨ht⟩
    rw [goOn_graph, (h.turn_effect hv ht).graph.1]
    exact hp
  cases step_cases hs with
  | register => exact register_registration hp
  | override => exact hl.elim
  | createRequestScope =>
    have hne : root ≠ s.containers := Nat.ne_of_lt h.tree.pos
    simp only [Graph.registration, State.createRequestScope, State.setRegistry, Function.update_of_ne hne]
    exact hp
  | resolve => rw [startResolve_eq]; exact hp
  | dispose => exact hl.elim
  | advance _ hv ht | resume _ hv ht | settle _ hv _ ht => exact hturn hv ht
  | stale _ ht => rw [runStale_eq ht]; exact hp
  | disposal _ ht => rw [continueDisposal_eq ht]; exact hp

/-! ## Overrides -/

/-- The providers of one token that an override accepts. -/
def replaceable : List (NormalizedProvider τ) → Bool
  | [] => true
  | p :: rest => (p :: rest).all (·.multi) || (!p.multi && rest.isEmpty)

theorem overrideToken_error (hps : replaceable ps = false) :
    s.overrideToken c t ps = .error (.duplicateProvider t) := by
  cases ps with
  | nil => cases hps
  | cons p rest =>
    have hnot : ¬ ((p :: rest).all (·.multi) || (!p.multi && rest.isEmpty)) := by simpa [replaceable] using hps
    rw [State.overrideToken, if_neg hnot]

theorem overrideToken_ok (hps : replaceable ps = true) :
    ∃ s', s.overrideToken c t ps = .ok s' ∧ (∀ u, u ≠ t → s'.graph.registration c u = s.graph.registration c u) ∧
      ∀ p, ps = [p] → p.multi = false → s'.graph.registration c t = some p := by
  cases ps with
  | nil => exact ⟨s, rfl, fun _ _ => rfl, fun p hp => nomatch hp⟩
  | cons p rest =>
    have hok : (p :: rest).all (·.multi) || (!p.multi && rest.isEmpty) := hps
    have hgraph : (s.invalidateInHierarchy c t).graph = s.graph := (invalidateAll_outside (s.invalidationScope c) t s).2
    refine ⟨_, by rw [State.overrideToken, if_pos hok], fun u hu => ?_, fun p' hp' hsingle => ?_⟩
    · simp only [Graph.registration, State.setRegistry, Function.update_self, hgraph, Registry.override]
      split
      · exact AList.lookup_erase_ne hu
      · exact AList.lookup_insert_ne hu
    · cases hp'
      simp only [Graph.registration, State.setRegistry, Function.update_self, Registry.override, hsingle, Bool.false_eq_true, if_false]
      exact AList.lookup_insert _

theorem overrideAll_ok {groups : List (τ × List (NormalizedProvider τ))} (hall : ∀ e ∈ groups, replaceable e.2 = true)
    (hn : (groups.map (·.1)).Nodup) : (s.overrideAll c groups).2 = none ∧
      (∀ u, u ∉ groups.map (·.1) → (s.overrideAll c groups).1.graph.registration c u = s.graph.registration c u) ∧
      ∀ u p, (u, [p]) ∈ groups → p.multi = false → (s.overrideAll c groups).1.graph.registration c u = some p := by
  induction groups generalizing s with
  | nil => exact ⟨rfl, fun _ _ => rfl, fun _ _ h => nomatch h⟩
  | cons e groups ih =>
    obtain ⟨hnot, hn⟩ := List.nodup_cons.1 hn
    obtain ⟨s₁, h₁, hother, hsingle⟩ := overrideToken_ok (s := s) (t := e.1) (c := c) (hall e List.mem_cons_self)
    obtain ⟨hok, hout, hin⟩ := ih (s := s₁) (fun e' he' => hall e' (List.mem_cons_of_mem _ he')) hn
    simp only [State.overrideAll, h₁]
    refine ⟨hok, fun u hu => ?_, fun u p hup hp => ?_⟩
    · rw [List.map_cons, List.mem_cons, not_or] at hu
      rw [hout u hu.2, hother u hu.1]
    · rcases List.mem_cons.1 hup with rfl | hup
      · rw [hout _ hnot]
        exact hsingle p rfl hp
      · exact hin u p hup hp

theorem nodup_eraseDups (ts : List τ) : ts.eraseDups.Nodup := by
  induction hn : ts.length using Nat.strong_induction_on generalizing ts with
  | _ n ih =>
    cases ts with
    | nil => exact List.nodup_nil
    | cons t ts =>
      rw [List.eraseDups_cons, List.nodup_cons]
      refine ⟨by simp, ih _ ?_ _ rfl⟩
      rw [← hn]
      exact Nat.lt_succ_of_le (List.length_filter_le _ ts)

theorem normalizedByToken_nodup (ps : List (NormalizedProvider τ)) : ((normalizedByToken ps).map (·.1)).Nodup := by
  rw [normalizedByToken, List.map_map]
  simpa [Function.comp_def] using nodup_eraseDups _

/-! ## The root stays open -/

omit [DecidableEq τ] in
theorem disposed_update {u : Container τ} (hu : u.disposed = (s.container c).disposed) (d : ContainerId) :
    (Function.update s.container c u d).disposed = (s.container d).disposed := by
  by_cases hd : d = c
  · subst hd; simpa using hu
  · simp [hd]

omit [DecidableEq τ] in
theorem runStale_disposed {i : Nat} {error : Option Nat} (h : s.runStale i error = some s') (d : ContainerId) :
    (s'.container d).disposed = (s.container d).disposed := by
  unfold State.runStale at h
  obtain ⟨⟨c, q⟩, _, h⟩ := Option.bind_eq_some_iff.1 h
  obtain ⟨σ, _, h⟩ := Option.bind_eq_some_iff.1 h
  dsimp only at h
  split at h
  · cases h
  · cases h; exact disposed_update (by rfl) d
  · split at h <;> cases h
    · exact disposed_update (by rfl) d
    · rfl
  · cases h; rfl

omit [DecidableEq τ] in
theorem continueDisposal_disposed {error : Option Nat} (h : s.continueDisposal c error = some s') (d : ContainerId) :
    (s'.container d).disposed = (s.container d).disposed := by
  unfold State.continueDisposal at h
  dsimp only at h
  split at h
  · obtain ⟨errors, _, h⟩ := Option.bind_eq_some_iff.1 h
    cases h
    exact disposed_update (by rfl) d
  · split at h <;> cases h
    exact disposed_update (by rfl) d
  · obtain ⟨⟨values, reasons⟩, _, h⟩ := Option.bind_eq_some_iff.1 h
    cases h
    exact disposed_update (by rfl) d
  · cases h
    exact disposed_update (by rfl) d
  · cases h
    split
    · exact (disposed_update (by rfl) d).trans (disposed_update (by rfl) d)
    · exact disposed_update (by rfl) d
  · cases h

theorem step_disposed (hl : KeepsProviders s l) (hs : Di.step s l = some s') (d : ContainerId) :
    (s'.container d).disposed = (s.container d).disposed := by
  have hturn : ∀ {k v}, s.call k = some v → CallStep s k v s' → (s'.container d).disposed = (s.container d).disposed := by
    rintro k v hv ⟨ht⟩
    rw [goOn_container]
    exact (ht.disposal d).1
  cases step_cases hs with
  | register => exact (register_writesOn s _ _).disposed d
  | override => exact hl.elim
  | createRequestScope => rfl
  | resolve => rw [startResolve_eq]
  | dispose => exact hl.elim
  | advance _ hv ht | resume _ hv ht | settle _ hv _ ht => exact hturn hv ht
  | stale _ ht => exact runStale_disposed ht d
  | disposal _ ht => exact continueDisposal_disposed ht d

/-! ## Promises of one token -/

def Published (s : State τ) (t : τ) : Prop :=
  ∀ q, s.keyOf q = some (root, .token t) → s.status q = some .pending → q ∈ s.unpublished ∨ s.cached root (.token t) = some q

theorem Published.rejects (h : Inv s) (hp : Published s t) (hrun : s.running = none)
    {rest deps st} (hv : s.call k = some v) (hst : v.stack = .build c p rest deps (some q) :: st)
    (hk : s.keyOf q = some (root, .token t)) : s.cached root (.token t) = some q := by
  obtain ⟨key, hr, _⟩ := h.building k (c, p, q) (by rw [buildsOf_eq hv, hst]; exact List.mem_cons_self)
  refine (hp q hk (by simp [State.status, hr])).resolve_left fun hu => ?_
  rw [h.idle hrun] at hu
  cases hu

theorem Inv.step_pending (h : Inv s) (hs : Di.step s l = some s') (hk : s'.keyOf q = some (root, .token t))
    (hq : s'.status q = some .pending) : (s.keyOf q = some (root, .token t) ∧ s.status q = some .pending) ∨
      (s.cached root (.token t) = none ∧ (q ∈ s'.unpublished ∨ s'.cached root (.token t) = some q)) := by
  cases hr : s.promise q with
  | some r =>
    left
    obtain ⟨r', hr', hc, hkey, _, hst⟩ := h.step_promise hs hr
    have hpending : r.status = .pending := by
      by_contra hne
      rw [State.status, hr', Option.map_some, hst hne, Option.some.injEq] at hq
      exact hne hq
    refine ⟨?_, by simp [State.status, hr, hpending]⟩
    rw [State.keyOf, hr', Option.map_some, hc, hkey] at hk
    rw [State.keyOf, hr, Option.map_some, hk]
  | none =>
    right
    obtain ⟨r', hr', hrk⟩ := Option.map_eq_some_iff.1 hk
    cases h.kind hs with
    | turn hv hrun ht he =>
      subst he
      rw [goOn_promise] at hr'
      obtain ⟨d, key, p, st, _, hfree, hu, _, rfl⟩ := ht.creates hr hr'
      obtain ⟨rfl, rfl⟩ := Prod.mk.inj hrk
      exact ⟨hfree, (h.turn_wf hv hrun ht).publish_goOn hu (by rw [State.keyOf, hr']; rfl)⟩
    | start _ _ he => rw [he, startResolve_eq, hr] at hr'; cases hr'
    | outside _ ho => rw [ho.promise, hr] at hr'; cases hr'

theorem Published.step (h : Inv s) (hp : Published s t) (hlive : (s.container root).disposed = false) (hl : KeepsProviders s l)
    (hs : Di.step s l = some s') : Published s' t := by
  intro q hk hq
  rcases h.step_pending hs hk hq with ⟨hk₀, hq₀⟩ | ⟨_, hpub⟩
  swap
  · exact hpub
  rcases hp q hk₀ hq₀ with hu | hc
  · exact h.step_unpublished hs hu hk₀
  rcases h.step_cached hs hc with hc' | hloss
  · exact .inr hc'
  cases hloss with
  | override => exact hl.elim
  | disposed hd => rw [hlive] at hd; cases hd
  | rejects hv hctl hst hk' =>
    have hrun : s.running = none := by cases step_cases hs; assumption
    have heq := hp.rejects h hrun hv hst hk'
    rw [hc] at heq
    cases heq
    rw [step_reject h hs hv hctl hst] at hq
    cases hq

theorem Published.samePeriod (h : Inv s) (hp : Published s t) (hl : KeepsProviders s l) (hs : Di.step s l = some s') :
    SamePeriod t s l := by
  constructor
  · intro ho
    cases l with
    | override => exact hl
    | _ => exact ho
  · intro he
    cases l with
    | resume k =>
      obtain ⟨v, e, c, p, rest, deps, q, st, q', hv, _, hst, hk, hc, hne⟩ := he
      have hrun : s.running = none := by cases step_cases hs; assumption
      rw [hp.rejects h hrun hv hst hk] at hc
      exact hne (Option.some.inj hc).symm
    | _ => exact he

/-! ## Held instances -/

/-- The cache of the root holds the fulfilled promise `q` of `t`, and no other is
under construction. -/
structure Held (s : State τ) (t : τ) (q : PromiseId) (x : Value) : Prop where
  cached : s.cached root (.token t) = some q
  status : s.status q = some (.fulfilled x)
  settled : ∀ q, s.keyOf q = some (root, .token t) → s.status q ≠ some .pending

theorem Held.step (h : Inv s) (hq : Held s t q x) (hlive : (s.container root).disposed = false) (hl : KeepsProviders s l)
    (hs : Di.step s l = some s') : Held s' t q x := by
  refine ⟨?_, h.step_status hs hq.status (by simp), fun q' hk hp => ?_⟩
  · rcases h.step_cached hs hq.cached with hc | hloss
    · exact hc
    cases hloss with
    | override => exact hl.elim
    | disposed hd => rw [hlive] at hd; cases hd
    | @rejects k v e c p rest deps q' st hv hctl hst hk =>
      obtain ⟨key, hr, _⟩ := h.building k (c, p, q') (by rw [buildsOf_eq hv, hst]; exact List.mem_cons_self)
      exact absurd (by simp [State.status, hr]) (hq.settled q' hk)
  · rcases h.step_pending hs hk hp with ⟨hk₀, hp₀⟩ | ⟨hnone, _⟩
    · exact hq.settled q' hk₀ hp₀
    · rw [hq.cached] at hnone; cases hnone

omit [DecidableEq τ] in
theorem Quiet.builds (hs : Quiet s) (k : CallId) : s.buildsOf k = [] := by
  unfold State.buildsOf
  cases hv : s.call k with
  | none => rfl
  | some v =>
    have hr := hs.settled k (by rw [hv]; rfl)
    unfold State.result at hr
    rw [hv] at hr
    obtain ⟨c, t, st, ctl⟩ := v
    cases st with
    | nil => rfl
    | cons f st => split at hr <;> simp_all

theorem Inv.quiet (h : Inv s) (hr : s.running = none) (hs : (List.range s.calls).all fun k => (s.result k).isSome) : Quiet s := by
  refine ⟨hr, fun k hk => ?_⟩
  obtain ⟨v, hv⟩ := Option.isSome_iff_exists.1 hk
  exact List.all_eq_true.1 hs k (List.mem_range.2 (h.callBound k v hv))

theorem Quiet.not_pending (h : Inv s) (hs : Quiet s) (q : PromiseId) : s.status q ≠ some .pending := by
  intro hq
  obtain ⟨r, hr, hp⟩ := Option.map_eq_some_iff.1 hq
  obtain ⟨k, b, hb, _⟩ := h.pending q r hr hp
  rw [hs.builds k] at hb
  cases hb

/-! ## Answers -/

theorem Inv.step_result (h : Inv s) (hs : Di.step s l = some s') {answer : Except (DiError τ) Value}
    (hr : s.result k = some answer) : s'.result k = some answer := by
  obtain ⟨v, hv, hst, hctl⟩ : ∃ v, s.call k = some v ∧ v.stack = [] ∧ ((∃ x, v.control = .fulfilled x) ∨ ∃ e, v.control = .rejected e) := by
    unfold State.result at hr
    split at hr
    · exact ⟨_, ‹_›, rfl, .inl ⟨_, rfl⟩⟩
    · exact ⟨_, ‹_›, rfl, .inr ⟨_, rfl⟩⟩
    · cases hr
  rcases h.step_call hs hv with hv' | ⟨base, sync, w, ht, _⟩
  · rw [← hr, State.result, State.result, hv', hv]
  · exfalso
    cases ht with
    | transient he | outside he | wait he | build he => cases he <;> simp_all
    | _ => simp_all

omit [DecidableEq τ] in
theorem startResolve_live (hlive : s.isDisposedInHierarchy root = false) : s.startResolve root t =
    { s.setCall s.calls ⟨root, t, [], .resolve root t false⟩ with calls := s.calls + 1, running := some s.calls } := by
  unfold State.startResolve
  dsimp only
  rw [if_neg (by simp [hlive])]

theorem Inv.open (h : Inv s) (hlive : (s.container root).disposed = false) : s.isDisposedInHierarchy root = false := by
  simp [State.isDisposedInHierarchy, Graph.lineage, h.tree.root, hlive]

theorem Inv.step_resolve (h : Inv s) (hs : Quiet s) (t : τ) : Di.step s (.resolve root t) = some (s.startResolve root t) := by
  unfold Di.step
  rw [hs.running]
  exact if_pos h.tree.pos

structure Serves (s : State τ) (t : τ) : Prop where
  inv : Inv s
  live : (s.container root).disposed = false
  direct : s.graph.Direct t

theorem Serves.step (h : Serves s t) (hl : KeepsProviders s l) (hs : Di.step s l = some s') : Serves s' t := by
  obtain ⟨p, hp, hscope, hne⟩ := h.direct
  exact ⟨h.inv.step hs, (step_disposed hl hs root).trans h.live, p, h.inv.step_registration hl hs hp, hscope, hne⟩

theorem Graph.Direct.single {g : Graph τ} (h : g.Direct t) :
    ∃ p, g.Single root t p ∧ p.scope = .default ∧ ∀ u, p.type ≠ .existing u := by
  obtain ⟨p, hp, hscope, hne⟩ := h
  refine ⟨p, ⟨fun hn => absurd (hp.symm.trans hn) (by simp), ?_⟩, hscope, hne⟩
  rw [Graph.lookupProvider, Graph.lineage, List.findSome?_cons, hp]

inductive Finds (t : τ) (q : PromiseId) (x : Value) (v : Call τ) : Prop
  | asks {a} : v.stack = [] → v.control = .resolve root t a → Finds t q x v
  | waits : OnlyChains v.stack → v.control = .cached q → Finds t q x v
  | returns : OnlyChains v.stack → v.control = .fulfilled x → Finds t q x v

theorem Finds.turn (h : Serves s t) (hq : Held s t q x) (hv : Finds t q x v) (ht : Turn s v base sync w) : Finds t q x w := by
  cases hv with
  | asks hst hctl =>
    obtain ⟨p, hp, hscope, hne⟩ := h.direct.single
    have hpt : p.provide = t := h.inv.keyed.lookup hp.lookup
    have hsite : s.graph.singleSite root p = root := by unfold Graph.singleSite; split <;> rfl
    have hres : ∀ {c u a}, v.control = .resolve c u a → c = root ∧ u = t := by
      intro c u a h'
      rw [hctl] at h'
      cases h'
      exact ⟨rfl, rfl⟩
    have hone : ∀ {c u a p'}, v.control = .resolve c u a → s.graph.Single c u p' → c = root ∧ u = t ∧ p' = p := by
      intro c u a p' h' hp'
      obtain ⟨rfl, rfl⟩ := hres h'
      exact ⟨rfl, rfl, Option.some.inj (hp'.lookup.symm.trans hp.lookup)⟩
    cases ht with
    | circular _ hmem => rw [hst] at hmem; cases hmem
    | enterMulti hctl' _ hr hm =>
      obtain ⟨rfl, rfl⟩ := hres hctl'
      rw [hp.notMulti hr] at hm
      cases hm
    | missing hctl' _ hl =>
      obtain ⟨rfl, rfl⟩ := hres hctl'
      rw [hp.lookup] at hl
      cases hl
    | existing hctl' _ hp' htype =>
      obtain ⟨rfl, rfl, rfl⟩ := hone hctl' hp'
      exact absurd htype (hne _)
    | hit hctl' _ hp' _ _ hc =>
      obtain ⟨rfl, rfl, rfl⟩ := hone hctl' hp'
      rw [hsite, hpt] at hc
      obtain rfl := Option.some.inj (hq.cached.symm.trans hc)
      exact .waits (by rw [hst]; exact fun _ h => nomatch h) rfl
    | transient he =>
      cases he with
      | single hctl' _ hp' _ htr =>
        obtain ⟨rfl, rfl, rfl⟩ := hone hctl' hp'
        rw [hscope] at htr
        cases htr
      | multi hctl' => rw [hctl] at hctl'; cases hctl'
    | outside he hout =>
      cases he with
      | single hctl' _ hp' =>
        obtain ⟨rfl, rfl, rfl⟩ := hone hctl' hp'
        exact absurd hscope hout
      | multi hctl' => rw [hctl] at hctl'; cases hctl'
    | wait he hc =>
      cases he with
      | single hctl' _ hp' =>
        obtain ⟨rfl, rfl, rfl⟩ := hone hctl' hp'
        rw [hsite, hpt] at hc
        obtain rfl := Option.some.inj (hq.cached.symm.trans hc)
        exact .waits (by rw [hst]; exact OnlyChains.cons fun _ h => nomatch h) rfl
      | multi hctl' => rw [hctl] at hctl'; cases hctl'
    | build he hc =>
      cases he with
      | single hctl' _ hp' =>
        obtain ⟨rfl, rfl, rfl⟩ := hone hctl' hp'
        rw [hsite, hpt] at hc
        cases hc.symm.trans hq.cached
      | multi hctl' => rw [hctl] at hctl'; cases hctl'
    | _ => simp_all
  | waits hst hctl =>
    cases ht with
    | awaited hq' hx =>
      rw [hctl] at hq'
      cases hq'
      obtain rfl : _ = x := by have := hx.symm.trans hq.status; simpa using this
      exact .returns hst rfl
    | awaitedError hq' he =>
      rw [hctl] at hq'
      cases hq'
      rw [hq.status] at he
      cases he
    | transient he | outside he | wait he | build he => cases he <;> simp_all
    | _ => simp_all
  | returns hst hctl =>
    have htop : ∀ {f st}, v.stack = f :: st → ∃ c t, f = .chain c t := fun hs => hst _ (hs ▸ List.mem_cons_self)
    cases ht with
    | leaveChain _ hs => exact .returns (fun f hf => hst f (hs ▸ List.mem_cons_of_mem _ hf)) hctl
    | multiDone _ hs | multiNext _ hs | nextDep _ hs => obtain ⟨c, t, hf⟩ := htop hs; cases hf
    | transient he | outside he | wait he | build he => cases he <;> simp_all
    | _ => simp_all

theorem Held.run (h : Inv s) (hq : Held s t q x) (hlive : (s.container root).disposed = false)
    (hr : Run Di.step KeepsProviders s ls s') : Held s' t q x ∧ (s'.container root).disposed = false := by
  obtain ⟨_, hq', hlive'⟩ := hr.keeps (fun s => Inv s ∧ Held s t q x ∧ (s.container root).disposed = false)
    (fun _ _ _ hl hi hs => ⟨hi.1.step hs, hi.2.1.step hi.1 hi.2.2 hl hs, (step_disposed hl hs root).trans hi.2.2⟩) ⟨h, hq, hlive⟩
  exact ⟨hq', hlive'⟩

theorem Graph.Direct.run (h : Inv s) (hd : s.graph.Direct t) (hr : Run step KeepsProviders s ls s') :
    s'.graph.Direct t := by
  obtain ⟨p, hp, hscope, hne⟩ := hd
  obtain ⟨_, hp'⟩ := hr.keeps (fun s => Inv s ∧ s.graph.registration root t = some p)
    (fun _ _ _ hl hi hs => ⟨hi.1.step hs, hi.1.step_registration hl hs hi.2⟩) ⟨h, hp⟩
  exact ⟨p, hp', hscope, hne⟩

theorem Inv.run_result (h : Inv s) (hr : Run Di.step KeepsProviders s ls s') {answer : Except (DiError τ) Value}
    (ha : s.result k = some answer) : s'.result k = some answer :=
  (hr.keeps (fun s => Inv s ∧ s.result k = some answer) (fun _ _ _ _ hi hs => ⟨hi.1.step hs, hi.1.step_result hs hi.2⟩) ⟨h, ha⟩).2

theorem Held.answer (h : Serves s t) (hs : Quiet s) (hq : Held s t q x) {answer : Except (DiError τ) Value} (ha : Resolves s t answer) :
    answer = .ok x := by
  obtain ⟨ls, s', hrun, -, hr⟩ := ha
  have hstart := h.inv.step_resolve hs t
  have hcall : (s.startResolve root t).call s.calls = some ⟨root, t, [], .resolve root t false⟩ := by
    rw [startResolve_live (h.inv.open h.live)]
    exact Function.update_self _ _ _
  obtain ⟨-, -, v, hv, hfinds⟩ := hrun.keeps
    (fun s' => Serves s' t ∧ Held s' t q x ∧ ∃ v, s'.call s.calls = some v ∧ Finds t q x v) (fun s₁ l s₂ hl hi hs₁ => by
      obtain ⟨hserves, hheld, v, hv, hfinds⟩ := hi
      refine ⟨hserves.step hl hs₁, hheld.step hserves.inv hserves.live hl hs₁, ?_⟩
      rcases hserves.inv.step_call hs₁ hv with hv' | ⟨base, sync, w, ht, rfl, _⟩
      · exact ⟨v, hv', hfinds⟩
      · exact ⟨w, by simp, hfinds.turn hserves hheld ht⟩)
    ⟨h.step (l := .resolve root t) trivial hstart, hq.step (l := .resolve root t) h.inv h.live trivial hstart, _, hcall, .asks rfl rfl⟩
  unfold State.result at hr
  rw [hv] at hr
  cases hfinds with
  | asks hst hctl => split at hr <;> simp_all
  | waits hst hctl => split at hr <;> simp_all
  | returns hst hctl => split at hr <;> simp_all

theorem resolveWithChain_cached {a : Bool} {p' : NormalizedProvider τ} (ht : t ∉ chainTokens v.stack)
    (hreg : s.graph.registration c t = some p') (hp : s.graph.lookupProvider c t = some p) (hne : ∀ u, p.type ≠ .existing u)
    (hscope : p.scope = .default) (hq : s.getCached c p = some q) :
    s.resolveWithChain k v c t a = s.suspend k { v with control := .cached q } := by
  have htransient : p.scope ≠ .transient := by rw [hscope]; simp
  unfold State.resolveWithChain
  rw [if_neg ht, hreg]
  dsimp only
  rw [hp]
  dsimp only
  unfold State.resolveProvider
  split
  · exact absurd ‹_› (hne _)
  · rw [if_neg htransient, hq]

theorem Held.resolves (h : Serves s t) (hs : Quiet s) (hq : Held s t q x) : Resolves s t (.ok x) := by
  obtain ⟨p, hp, hscope, hne⟩ := h.direct.single
  obtain ⟨p', hreg, -⟩ := h.direct
  have hpt : p.provide = t := h.inv.keyed.lookup hp.lookup
  have hstart := startResolve_live (t := t) (h.inv.open h.live)
  generalize hs₁ : s.startResolve root t = s₁ at hstart
  have hcall : s₁.call = Function.update s.call s.calls (some ⟨root, t, [], .resolve root t false⟩) := by rw [hstart]; rfl
  have hgraph : s₁.graph = s.graph := by rw [hstart]; rfl
  have hcached : s₁.getCached root p = some q := by
    have hsite : s₁.graph.singleSite root p = root := by unfold Graph.singleSite; split <;> rfl
    rw [State.getCached, if_neg (not_not.2 hscope), hsite, hpt, hstart]
    exact hq.cached
  have hadvance : Di.step s₁ .advance = some (s₁.goOn false s.calls ⟨root, t, [], .cached q⟩) := by
    have hrun : s₁.running = some s.calls := by rw [hstart]
    have hresolve := resolveWithChain_cached (s := s₁) (k := s.calls) (v := ⟨root, t, [], .resolve root t false⟩) (a := false)
      (by simp [chainTokens]) (hgraph ▸ hreg) (hgraph ▸ hp.lookup) hne hscope hcached
    simp only [Di.step, hrun, hcall, Function.update_self, Option.bind_eq_bind, Option.bind_some, State.advance, hresolve]
    rfl
  generalize hs₂ : s₁.goOn false s.calls ⟨root, t, [], .cached q⟩ = s₂ at hadvance
  have hresume : Di.step s₂ (.resume s.calls) = some (s₂.goOn false s.calls ⟨root, t, [], .fulfilled x⟩) := by
    have hrun : s₂.running = none := by rw [← hs₂]; rfl
    have hstatus : s₂.status q = some (.fulfilled x) := by rw [← hs₂, goOn_status, hstart]; exact hq.status
    have hcall₂ : s₂.call s.calls = some ⟨root, t, [], .cached q⟩ := by rw [← hs₂, goOn_call]; exact Function.update_self _ _ _
    simp only [Di.step, hrun, hcall₂, Option.bind_eq_bind, Option.bind_some, State.resume, hstatus]
    rfl
  have hrun : Run Di.step KeepsProviders s₁ [.advance, .resume s.calls] (s₂.goOn false s.calls ⟨root, t, [], .fulfilled x⟩) :=
    .cons (l := Label.advance) trivial hadvance (.cons (l := Label.resume s.calls) trivial hresume .nil)
  refine ⟨_, _, hs₁ ▸ hrun, ⟨rfl, fun k hk => ?_⟩, ?_⟩
  · by_cases hks : k = s.calls
    · subst hks
      simp [State.result]
    · have hcall₃ : (s₂.goOn false s.calls ⟨root, t, [], .fulfilled x⟩).call k = s.call k := by
        simp [← hs₂, hcall, hks]
      rw [State.result, hcall₃]
      exact hs.settled k (hcall₃ ▸ hk)
  · simp [State.result]

theorem held_of_answer (h : Inv s) (hd : s.graph.Direct t) (hs : Quiet s) (hr : Run Di.step KeepsProviders (s.startResolve root t) ls s')
    (hs' : Quiet s') (hx : s'.result s.calls = some (.ok x)) : (s'.container root).disposed = false ∧ ∃ q, Held s' t q x := by
  obtain ⟨p, hp, hscope, hne⟩ := hd.single
  have hstart := h.step_resolve hs t
  cases hlive : (s.container root).disposed with
  | true =>
    have hfails : (s.startResolve root t).Fails s.calls := by
      unfold State.startResolve
      dsimp only
      rw [if_pos (by simp [State.isDisposedInHierarchy, Graph.lineage, hlive])]
      exact ⟨_, Function.update_self _ _ _, _, rfl, fun _ h => by cases h⟩
    obtain ⟨_, hfails⟩ := hr.keeps (fun s' => Inv s' ∧ s'.Fails s.calls) (fun _ _ _ _ hi hs => ⟨hi.1.step hs, fails_step hi.1 hi.2 hs⟩)
      ⟨h.step hstart, hfails⟩
    exact absurd hx (fails_result hfails)
  | false =>
  have hserves : Serves s t := ⟨h, hlive, hd⟩
  have hpub : Published s t := fun q _ hq => absurd hq (hs.not_pending h q)
  have hshared : s.graph.Shared root t t := .provider hp hne hscope (.inl rfl)
  obtain ⟨h', -, he⟩ := hr.keeps (fun s' => Serves s' t ∧ Published s' t ∧ Engaged s' s.calls t)
    (fun _ _ _ hl hi hs => ⟨hi.1.step hl hs, hi.2.1.step hi.1.inv hi.1.live hl hs,
      hi.2.2.step hi.1.inv (hi.2.1.samePeriod hi.1.inv hl hs) hs⟩)
    ⟨hserves.step (l := .resolve root t) trivial hstart, hpub.step (l := .resolve root t) h hlive trivial hstart,
      (seeking_of_resolve h hstart hshared).imp_right .inl⟩
  rcases he with hseek | hfail | ⟨q, hq, hstays⟩
  · cases hseek.running.symm.trans hs'.running
  · exact absurd hx (fails_result hfail)
  have hstatus := attached_result hq hx
  refine ⟨h'.live, q, ?_, hstatus, fun q' _ => hs'.not_pending h'.inv q'⟩
  rcases hstays.held with hu | hc | ⟨e, he⟩ | hd
  · rw [h'.inv.idle hs'.running] at hu; cases hu
  · exact hc
  · cases hstatus.symm.trans he
  · rw [h'.live] at hd; cases hd

end Fluo.Di
