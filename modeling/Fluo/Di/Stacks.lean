import Fluo.Di.Steps
/-!
# Stacks and turns

The shape of the stacks of calls, and what a turn of a call changes: its own
record, and at most one promise and the cache entry that goes with it.
-/

namespace Fluo.Di

variable {τ : Type}

/-! ## Stacks -/

/-- A construction in a stack: its container, its provider, its promise. -/
abbrev Build (τ : Type) := ContainerId × NormalizedProvider τ × PromiseId

/-- The constructions with a promise that a stack runs, innermost first. -/
def builds : List (Frame τ) → List (Build τ)
  | [] => []
  | .build c p _ _ (some q) :: st => (c, p, q) :: builds st
  | _ :: st => builds st

@[simp] theorem builds_nil : builds ([] : List (Frame τ)) = [] := rfl
@[simp] theorem builds_chain (c : ContainerId) (t : τ) (st) : builds (.chain c t :: st) = builds st := rfl
@[simp] theorem builds_multi (c) (ps : List (NormalizedProvider τ)) (xs st) :
    builds (.multi c ps xs :: st) = builds st := rfl
@[simp] theorem builds_build_some (c) (p : NormalizedProvider τ) (rest deps q st) :
    builds (.build c p rest deps (some q) :: st) = (c, p, q) :: builds st := rfl
@[simp] theorem builds_build_none (c) (p : NormalizedProvider τ) (rest deps st) :
    builds (.build c p rest deps none :: st) = builds st := rfl

theorem builds_build (c : ContainerId) (p : NormalizedProvider τ) (rest rest' deps deps' promise st) :
    builds (.build c p rest deps promise :: st) = builds (.build c p rest' deps' promise :: st) := by
  cases promise <;> rfl

def promisesOf (st : List (Frame τ)) : List PromiseId := (builds st).map (·.2.2)

@[simp] theorem chainTokens_chain (c : ContainerId) (t : τ) (st) : chainTokens (.chain c t :: st) = t :: chainTokens st := rfl
@[simp] theorem chainTokens_multi (c) (ps : List (NormalizedProvider τ)) (xs st) :
    chainTokens (.multi c ps xs :: st) = chainTokens st := rfl
@[simp] theorem chainTokens_build (c) (p : NormalizedProvider τ) (rest deps promise st) :
    chainTokens (.build c p rest deps promise :: st) = chainTokens st := rfl

def siteToken : List (Frame τ) → Option τ
  | .chain _ t :: _ => some t
  | .multi _ _ _ :: .chain _ t :: _ => some t
  | _ => none

/-- The stacks of calls: the chain repeats no token, and what runs above a
token's frame is a construction of that token. -/
inductive Shape : List (Frame τ) → Prop
  | nil : Shape []
  | chain {c t st} : Shape st → t ∉ chainTokens st → Shape (.chain c t :: st)
  | multi {c d t ps instances st} : Shape (.chain d t :: st) → (∀ p ∈ ps, p.provide = t) →
      Shape (.multi c ps instances :: .chain d t :: st)
  | build {c p rest deps promise st} : Shape st → siteToken st = some p.provide →
      Shape (.build c p rest deps promise :: st)

variable {st : List (Frame τ)} {c : ContainerId} {p : NormalizedProvider τ} {bs bs' : List (Build τ)} {ctl : Control τ}

theorem Shape.tail {f : Frame τ} (h : Shape (f :: st)) : Shape st := by
  cases h <;> assumption

theorem Shape.rebuild {rest rest' deps deps' promise promise' st}
    (h : Shape (.build c p rest deps promise :: st)) : Shape (.build c p rest' deps' promise' :: st) := by
  cases h with
  | build h ht => exact .build h ht

theorem Shape.builds_mem (h : Shape st) :
    (∀ b ∈ builds st, b.2.1.provide ∈ chainTokens st) ∧
    ∀ t, siteToken st = some t → ∀ b ∈ builds st, b.2.1.provide ≠ t := by
  induction h with
  | nil => simp [siteToken]
  | chain h ht ih =>
    refine ⟨fun b hb => ?_, fun t' ht' b hb => ?_⟩
    · exact List.mem_cons_of_mem _ (ih.1 b hb)
    · cases ht'
      rintro rfl
      exact ht (ih.1 b hb)
  | multi h hp ih => exact ⟨ih.1, fun t' ht' b hb => ih.2 t' ht' b hb⟩
  | @build c p rest deps promise st h ht ih =>
    refine ⟨fun b hb => ?_, fun t' ht' => by simp [siteToken] at ht'⟩
    have hp : p.provide ∈ chainTokens st := by
      unfold siteToken at ht
      split at ht <;> cases ht <;> simp
    cases promise with
    | none => exact ih.1 b hb
    | some q =>
      rcases List.mem_cons.1 hb with rfl | hb
      · exact hp
      · exact ih.1 b hb

theorem Shape.nodup (h : Shape st) : ((builds st).map (·.2.1.provide)).Nodup := by
  induction h with
  | nil => exact List.nodup_nil
  | chain _ _ ih => exact ih
  | multi _ _ ih => exact ih
  | @build c p rest deps promise st h ht ih =>
    cases promise with
    | none => exact ih
    | some q =>
      refine List.nodup_cons.2 ⟨fun hm => ?_, ih⟩
      obtain ⟨b, hb, he⟩ := List.mem_map.1 hm
      exact h.builds_mem.2 _ ht b hb he

def Control.isSync : Control τ → Bool
  | .resolve _ _ _ | .multi _ _ => true
  | _ => false

/-- A provider that is resolved by `resolveMultiProviderInstance` is one of the
token on top of the stack. -/
def MultiControl (v : Call τ) : Prop := ∀ c p, v.control = .multi c p → siteToken v.stack = some p.provide

/-! ## Turns -/

variable [DecidableEq τ] {s s' base : State τ} {g : Graph τ} {k : CallId} {v w : Call τ} {sync : Bool}

structure Registry.Keyed (v : Registry τ) : Prop where
  single : ∀ t p, v.registrations.lookup t = some p → p.provide = t
  multi : ∀ t p, p ∈ (v.multiRegistrations.lookup t).getD [] → p.provide = t

def Graph.Keyed (g : Graph τ) : Prop := ∀ c, (g c).Keyed

theorem Graph.Keyed.lookup (h : g.Keyed) {t : τ}
    (hp : g.lookupProvider c t = some p) : p.provide = t := by
  obtain ⟨d, _, hd⟩ := List.exists_of_findSome?_eq_some hp
  exact (h d).single t p hd

theorem Graph.Keyed.collect (h : g.Keyed) {t : τ}
    (hp : p ∈ g.collectMultiProviders c t) : p.provide = t := by
  unfold Graph.collectMultiProviders at hp
  generalize g.lineage c = ds at hp
  induction ds with
  | nil => cases hp
  | cons d ds ih =>
    simp only [Graph.collectFrom] at hp
    split at hp
    · exact (h d).multi t p hp
    · rcases List.mem_append.1 hp with hp | hp
      · exact ih hp
      · exact (h d).multi t p hp

theorem Graph.Keyed.collect_cons (h : g.Keyed) {t : τ}
    {ps : List (NormalizedProvider τ)} (hc : g.collectMultiProviders c t = p :: ps) :
    p.provide = t ∧ ∀ p' ∈ ps, p'.provide = t := by
  have hm : ∀ p' ∈ p :: ps, p'.provide = t := fun p' hp => h.collect (c := c) (by rw [hc]; exact hp)
  exact List.forall_mem_cons.1 hm

theorem NextDep.stack {promise st rest deps st' ctl sync}
    (h : NextDep g c p promise st rest deps st' ctl sync) :
    (∃ rest' deps', st' = .build c p rest' deps' promise :: st) ∧ (∀ d p', ctl ≠ .multi d p') ∧
      ctl.isSync = sync := by
  cases h <;> exact ⟨⟨_, _, rfl⟩, by simp, rfl⟩

theorem Instantiate.stack {classes : JsMap τ (ClassMetadata τ)}
    {promise st st' ctl sync} (h : Instantiate g classes c p promise st st' ctl sync) :
    (∃ rest deps, st' = .build c p rest deps promise :: st) ∧ (∀ d p', ctl ≠ .multi d p') ∧ ctl.isSync = sync := by
  cases h with
  | scope => exact ⟨⟨_, _, rfl⟩, by simp, rfl⟩
  | value => exact ⟨⟨_, _, rfl⟩, by simp, rfl⟩
  | deps _ _ hn => exact hn.stack

/-- What a call's stack is when it takes or constructs a provider. -/
structure Entered (v : Call τ) (p : NormalizedProvider τ) (st : List (Frame τ)) : Prop where
  shape : Shape st
  site : siteToken st = some p.provide
  builds : builds st = builds v.stack

theorem Enters.entered (hg : g.Keyed) (hv : Shape v.stack) (hm : MultiControl v) {d key p st}
    (h : Enters g v d key p st) : Entered v p st := by
  cases h with
  | single hctl ht hp => exact ⟨.chain hv ht, by rw [hg.lookup hp.lookup]; rfl, rfl⟩
  | multi hctl => exact ⟨hv, hm _ _ hctl, rfl⟩

theorem EntersTransient.entered (hg : g.Keyed) (hv : Shape v.stack) (hm : MultiControl v) {c p st}
    (h : EntersTransient g v c p st) : Entered v p st := by
  cases h with
  | single hctl ht hp => exact ⟨.chain hv ht, by rw [hg.lookup hp.lookup]; rfl, rfl⟩
  | multi hctl => exact ⟨hv, hm _ _ hctl, rfl⟩

theorem Enters.key_tok {d key p st} (h : Enters g v d key p st) : key.tok = p.provide := by
  cases h <;> rfl

theorem Turn.shape (hg : s.graph.Keyed) (hv : Shape v.stack) (hm : MultiControl v) (h : Turn s v base sync w) :
    Shape w.stack ∧ MultiControl w := by
  cases h with
  | circular | missing | awaited | awaitedError | threw | hit => exact ⟨hv, by intro c p h; cases h⟩
  | enterMulti _ ht _ hc =>
    obtain ⟨hp, hps⟩ := hg.collect_cons hc
    refine ⟨.multi (.chain hv ht) hps, ?_⟩
    rintro c p ⟨⟩
    exact congrArg some hp.symm
  | existing _ ht => exact ⟨.chain hv ht, by intro c p h; cases h⟩
  | existingMulti => exact ⟨hv, by intro c p h; cases h⟩
  | transient he hi =>
    obtain ⟨hst, hsite, _⟩ := he.entered hg hv hm
    obtain ⟨⟨rest, deps, rfl⟩, hctl, _⟩ := hi.stack
    exact ⟨.build hst hsite, fun c p h => absurd h (hctl c p)⟩
  | outside he | wait he => exact ⟨(he.entered hg hv hm).shape, by intro c p h; cases h⟩
  | build he _ _ hi =>
    obtain ⟨hst, hsite, _⟩ := he.entered hg hv hm
    obtain ⟨⟨rest, deps, rfl⟩, hctl, _⟩ := hi.stack
    exact ⟨.build hst hsite, fun c p h => absurd h (hctl c p)⟩
  | value _ hst | multiDone _ hst | created _ hst | returned _ hst =>
    rw [hst] at hv
    exact ⟨hv.tail, by intro c p h; cases h⟩
  | leaveChain hctl hst | fail hctl hst | unwind hctl hst =>
    rw [hst] at hv
    exact ⟨hv.tail, by intro c p h; rw [hctl] at h; cases h⟩
  | multiNext _ hst =>
    rw [hst] at hv
    cases hv with
    | multi hc hp =>
      refine ⟨.multi hc fun p h => hp p (List.mem_cons_of_mem _ h), ?_⟩
      rintro c p ⟨⟩
      exact congrArg some (hp _ List.mem_cons_self).symm
  | nextDep _ hst hn =>
    rw [hst] at hv
    obtain ⟨⟨rest, deps, rfl⟩, hctl, _⟩ := hn.stack
    exact ⟨hv.rebuild, fun c p h => absurd h (hctl c p)⟩

theorem Turn.isSync (h : Turn s v base sync w) : w.control.isSync = sync := by
  cases h with
  | transient _ hi => exact hi.stack.2.2
  | build _ _ _ hi => exact hi.stack.2.2
  | nextDep _ _ hn => exact hn.stack.2.2
  | leaveChain hctl | fail hctl | unwind hctl => simp only [hctl]; rfl
  | _ => rfl

/-- What a turn changes besides the call: nothing that the invariant is about,
or it starts a construction, or it settles the innermost one. -/
inductive Effect (s : State τ) (ctl : Control τ) : List (Build τ) → List (Build τ) → State τ → Prop
  | quiet {m log n bs} : (∀ d, (m d).cache = (s.container d).cache) →
      Effect s ctl bs bs { s with container := m, log := log, nextObject := n }
  | allocate {d key p bs} : (s.container d).cache.lookup key = none → key.tok = p.provide →
      Effect s ctl bs ((d, p, s.promises) :: bs) (s.allocate d key p)
  | fulfil {b bs x log n} : ctl.isSync = false →
      Effect s ctl (b :: bs) bs { s with promise := (s.fulfil b.2.2 x).promise, log := log, nextObject := n }
  | reject {b bs e} : ctl.isSync = false → Effect s ctl (b :: bs) bs (s.reject b.2.2 e)

theorem Effect.same : Effect s ctl bs bs s := .quiet (m := s.container) fun _ => rfl

theorem Effect.call (h : Effect s ctl bs bs' base) : base.call = s.call := by
  cases h with
  | reject => unfold State.reject; split <;> rfl
  | _ => rfl

theorem Effect.calls (h : Effect s ctl bs bs' base) : base.calls = s.calls := by
  cases h with
  | reject => unfold State.reject; split <;> rfl
  | _ => rfl

theorem Effect.nextProvider (h : Effect s ctl bs bs' base) :
    base.nextProvider = s.nextProvider := by
  cases h with
  | reject => unfold State.reject; split <;> rfl
  | _ => rfl

omit [DecidableEq τ] in
theorem fulfil_eq (q : PromiseId) (x : Value) : s.fulfil q x = { s with promise := (s.fulfil q x).promise } := by
  unfold State.fulfil; split <;> rfl

theorem effect_complete {rest deps promise st x} (hctl : ctl.isSync = false) (log n) :
    Effect s ctl (builds (.build c p rest deps promise :: st)) (builds st)
      { s.complete promise x with log := log, nextObject := n } := by
  cases promise with
  | none => exact .quiet (m := s.container) fun _ => rfl
  | some q => rw [show s.complete (some q) x = _ from fulfil_eq q x]; exact .fulfil hctl

theorem Turn.effect (hg : s.graph.Keyed) (hv : Shape v.stack) (hm : MultiControl v) (h : Turn s v base sync w) :
    Effect s v.control (builds v.stack) (builds w.stack) base := by
  cases h with
  | circular | missing | awaited | awaitedError | threw | enterMulti | existing | existingMulti | hit => exact .same
  | transient he hi =>
    obtain ⟨_, _, hb⟩ := he.entered hg hv hm
    obtain ⟨⟨rest, deps, rfl⟩, _⟩ := hi.stack
    rw [builds_build_none, hb]
    exact .same
  | outside he => rw [(he.entered hg hv hm).builds]; exact .same
  | wait he =>
    rw [(he.entered hg hv hm).builds, ensureTracked_eq]
    exact .quiet fun d => by rw [ensureTracked_container]
  | build he hc _ hi =>
    obtain ⟨⟨rest, deps, rfl⟩, _⟩ := hi.stack
    rw [builds_build_some, (he.entered hg hv hm).builds]
    exact .allocate hc he.key_tok
  | value hctl hst => rw [hst]; exact effect_complete (by rw [hctl]; rfl) (s.complete _ _).log (s.complete _ _).nextObject
  | created hctl hst => rw [hst]; exact effect_complete (by rw [hctl]; rfl) _ _
  | returned hctl hst => rw [hst]; exact effect_complete (by rw [hctl]; rfl) _ (s.complete _ _).nextObject
  | leaveChain _ hst | multiDone _ hst | multiNext _ hst => rw [hst]; exact .same
  | nextDep _ hst hn =>
    obtain ⟨⟨rest, deps, rfl⟩, _⟩ := hn.stack
    rw [hst, builds_build]
    exact .same
  | @fail e c p rest deps promise st hctl hst =>
    rw [hst]
    cases promise with
    | none => exact .same
    | some q => exact .reject (by rw [hctl]; rfl)
  | @unwind e f st _ hst hf =>
    rw [hst]
    cases f with
    | chain | multi => exact .same
    | build => exact absurd rfl (hf _ _ _ _ _)

theorem Effect.graph (h : Effect s ctl bs bs' base) : base.graph = s.graph ∧ base.classes = s.classes ∧
    base.containers = s.containers := by
  cases h with
  | reject => unfold State.reject; split <;> exact ⟨rfl, rfl, rfl⟩
  | _ => exact ⟨rfl, rfl, rfl⟩

theorem Turn.disposal (h : Turn s v base sync w) (d : ContainerId) :
    (base.container d).disposed = (s.container d).disposed ∧ (base.container d).disposal = (s.container d).disposal := by
  have hcomplete : ∀ (promise : Option PromiseId) (x : Value), (s.complete promise x).container = s.container := by
    intro promise x
    cases promise with
    | none => rfl
    | some q => show (s.fulfil q x).container = _; rw [fulfil_eq]
  cases h with
  | wait => rw [ensureTracked_container]; exact ⟨rfl, rfl⟩
  | build =>
    show ((s.ensureTracked _).container d).disposed = _ ∧ ((s.ensureTracked _).container d).disposal = _
    rw [ensureTracked_container]
    exact ⟨rfl, rfl⟩
  | value => rw [hcomplete]; exact ⟨rfl, rfl⟩
  | created | returned => simp only [State.built, hcomplete, and_self]
  | @fail e c p rest deps promise st =>
    cases promise with
    | none => exact ⟨rfl, rfl⟩
    | some q =>
      simp only [State.fail, State.reject]
      cases s.promise q with
      | none => exact ⟨rfl, rfl⟩
      | some r =>
        by_cases hd : d = r.container
        · subst hd
          simp only [State.modifyCache, State.setContainer, State.setPromise, Function.update_self, and_self]
        · simp [State.modifyCache, State.setContainer, State.setPromise, hd]
  | _ => exact ⟨rfl, rfl⟩

/-! ## Fields of `goOn` -/

section GoOn
variable (s : State τ) (sync : Bool) (k : CallId) (w : Call τ)

theorem goOn_eq : s.goOn sync k w = { s with
    container := (s.goOn sync k w).container, call := Function.update s.call k (some w)
    running := (s.goOn sync k w).running, unpublished := (s.goOn sync k w).unpublished } := by
  cases sync with
  | true => rfl
  | false => show (s.proceed k w).yield = _; rw [yield_eq]; rfl

@[simp] theorem goOn_call : (s.goOn sync k w).call = Function.update s.call k (some w) := by rw [goOn_eq]
@[simp] theorem goOn_running : (s.goOn sync k w).running = if sync then some k else none := by cases sync <;> rfl
@[simp] theorem goOn_graph : (s.goOn sync k w).graph = s.graph := by rw [goOn_eq]
@[simp] theorem goOn_classes : (s.goOn sync k w).classes = s.classes := by rw [goOn_eq]
@[simp] theorem goOn_containers : (s.goOn sync k w).containers = s.containers := by rw [goOn_eq]
@[simp] theorem goOn_promise : (s.goOn sync k w).promise = s.promise := by rw [goOn_eq]
@[simp] theorem goOn_promises : (s.goOn sync k w).promises = s.promises := by rw [goOn_eq]
@[simp] theorem goOn_calls : (s.goOn sync k w).calls = s.calls := by rw [goOn_eq]
@[simp] theorem goOn_staleTasks : (s.goOn sync k w).staleTasks = s.staleTasks := by rw [goOn_eq]
@[simp] theorem goOn_log : (s.goOn sync k w).log = s.log := by rw [goOn_eq]
@[simp] theorem goOn_destroyed : (s.goOn sync k w).destroyed = s.destroyed := by rw [goOn_eq]
@[simp] theorem goOn_nextObject : (s.goOn sync k w).nextObject = s.nextObject := by rw [goOn_eq]

theorem goOn_container (c : ContainerId) : (s.goOn sync k w).container c =
    { s.container c with cache := ((s.goOn sync k w).container c).cache } := by
  cases sync with
  | true => rfl
  | false =>
    show (s.proceed k w).yield.container c = _
    rw [yield_eq, publishAll_container]
    rfl

end GoOn

end Fluo.Di
