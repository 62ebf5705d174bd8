import Fluo.Di.Keeps
/-!
# No captive request scope

Whatever is constructed for a cache of the root is constructed on the root, and
so is everything it is constructed from; and the root constructs no
request-scoped provider.
-/

namespace Fluo.Di

open Lib (passes after)

variable {τ : Type} [DecidableEq τ] {s s' base : State τ} {k : CallId} {v w : Call τ} {sync : Bool}

def Frame.container {τ : Type} : Frame τ → ContainerId
  | .chain c _ | .multi c _ _ | .build c _ _ _ _ => c

/-- While a call constructs `q`, it obtains the instance of `q'` for it, directly
or through transients and aliases: it awaits `q'`, or `q'` is the construction
above `q` on its stack. -/
inductive Supplies (s : State τ) (q q' : PromiseId) : Prop
  | awaited {k v b bs} : s.call k = some v → v.control = .cached q' → builds v.stack = b :: bs → b.2.2 = q → Supplies s q q'
  | constructed {k v inner b' b outer} : s.call k = some v → builds v.stack = inner ++ b' :: b :: outer → b'.2.2 = q' →
      b.2.2 = q → Supplies s q q'

/-! ## Everything above the root is on the root -/

/-- What a call does next is on the root, as far as it is about the tree. -/
def State.AtRoot (s : State τ) : Control τ → Prop
  | .resolve c _ _ | .multi c _ => c = root
  | .cached q => ∃ key, s.keyOf q = some (root, key)
  | _ => True

def Under (st : List (Frame τ)) (c : ContainerId) : Prop := ∀ f ∈ st, f.container = root → c = root

def Level (st : List (Frame τ)) : Prop := st.Pairwise fun inner outer => outer.container = root → inner.container = root

structure Rooted (s : State τ) (v : Call τ) : Prop where
  level : Level v.stack
  control : (∃ f ∈ v.stack, f.container = root) → s.AtRoot v.control

variable {f : Frame τ} {st : List (Frame τ)} {c : ContainerId} {g : Graph τ} {p : NormalizedProvider τ} {q q' : PromiseId}
    {ok : State τ → Label τ → Prop}

omit [DecidableEq τ] in
theorem Level.cons (h : Level st) (hf : Under st f.container) : Level (f :: st) :=
  List.pairwise_cons.2 ⟨hf, h⟩

omit [DecidableEq τ] in
theorem Level.tail (h : Level (f :: st)) : Level st := (List.pairwise_cons.1 h).2

omit [DecidableEq τ] in
theorem Level.under (h : Level (f :: st)) : Under st f.container := (List.pairwise_cons.1 h).1

omit [DecidableEq τ] in
theorem Under.cons (h : Under st c) (hf : f.container = root → c = root) :
    Under (f :: st) c := List.forall_mem_cons.2 ⟨hf, h⟩

omit [DecidableEq τ] in
theorem mem_of_builds {b : Build τ} : ∀ {st : List (Frame τ)}, b ∈ builds st → ∃ f ∈ st, f.container = b.1
  | .build c p rest deps (some q) :: st, h => by
    rcases List.mem_cons.1 h with rfl | h
    · exact ⟨_, List.mem_cons_self, rfl⟩
    · obtain ⟨f, hf, hc⟩ := mem_of_builds h
      exact ⟨f, List.mem_cons_of_mem _ hf, hc⟩
  | .build c p rest deps none :: st, h | .chain c t :: st, h | .multi c ps xs :: st, h => by
    obtain ⟨f, hf, hc⟩ := @mem_of_builds _ st h
    exact ⟨f, List.mem_cons_of_mem _ hf, hc⟩

omit [DecidableEq τ] in
theorem Level.builds : ∀ {st : List (Frame τ)}, Level st →
    (builds st).Pairwise fun inner outer => outer.1 = root → inner.1 = root
  | [], _ => .nil
  | .build c p rest deps (some q) :: st, h => by
    refine List.pairwise_cons.2 ⟨fun b hb hroot => ?_, h.tail.builds⟩
    obtain ⟨f, hf, hc⟩ := mem_of_builds hb
    exact h.under f hf (hc.trans hroot)
  | .build c p rest deps none :: st, h | .chain c t :: st, h | .multi c ps xs :: st, h => @Level.builds st h.tail

omit [DecidableEq τ] in
theorem Rooted.under (h : Rooted s v) (hc : s.AtRoot v.control → c = root) : Under v.stack c :=
  fun f hf hroot => hc (h.control ⟨f, hf, hroot⟩)

theorem NextDep.rooted {promise st rest deps st' ctl sync} (hst : Level st)
    (hc : Under st c) (h : NextDep g c p promise st rest deps st' ctl sync) :
    Level st' ∧ ((∃ f ∈ st', f.container = root) → s.AtRoot ctl) := by
  cases h with
  | done => exact ⟨hst.cons hc, fun _ => trivial⟩
  | absent => exact ⟨hst.cons hc, fun _ => trivial⟩
  | dep =>
    refine ⟨hst.cons hc, ?_⟩
    rintro ⟨f, hf, hroot⟩
    exact hc.cons (f := .build c p _ _ promise) id f hf hroot

theorem Instantiate.rooted {classes : JsMap τ (ClassMetadata τ)} {promise st st' ctl sync}
    (hst : Level st) (hc : Under st c) (h : Instantiate g classes c p promise st st' ctl sync) :
    Level st' ∧ ((∃ f ∈ st', f.container = root) → s.AtRoot ctl) := by
  cases h with
  | scope => exact ⟨hst.cons hc, fun _ => trivial⟩
  | value => exact ⟨hst.cons hc, fun _ => trivial⟩
  | deps _ _ h => exact h.rooted hst hc

theorem Graph.singleSite_root (c : ContainerId) (p : NormalizedProvider τ) (hc : c = root) : g.singleSite c p = root := by
  unfold Graph.singleSite
  split
  · rfl
  · exact hc

theorem Graph.multiSite_root (c : ContainerId) (p : NormalizedProvider τ) (hc : c = root) : g.multiSite c p = root := by
  unfold Graph.multiSite
  split
  · rfl
  · exact hc

theorem Enters.rooted {d : ContainerId} {key : CacheKey τ} (hv : Rooted s v)
    (h : Enters g v d key p st) : Level st ∧ Under st d := by
  cases h with
  | @single c t a p hctl =>
    have hc : Under v.stack c := hv.under (by rw [hctl]; exact id)
    exact ⟨hv.level.cons hc, Under.cons (fun f hf hr => g.singleSite_root c p (hc f hf hr)) (g.singleSite_root c p)⟩
  | @multi c p hctl =>
    have hc : Under v.stack c := hv.under (by rw [hctl]; exact id)
    exact ⟨hv.level, fun f hf hr => g.multiSite_root c p (hc f hf hr)⟩

theorem EntersTransient.rooted (hv : Rooted s v)
    (h : EntersTransient g v c p st) : Level st ∧ Under st c := by
  cases h with
  | single hctl =>
    have hc : Under v.stack c := hv.under (by rw [hctl]; exact id)
    exact ⟨hv.level.cons hc, hc.cons id⟩
  | multi hctl =>
    have hc : Under v.stack c := hv.under (by rw [hctl]; exact id)
    exact ⟨hv.level, hc⟩

theorem WF.atRoot_cached (hw : WF s) {d : ContainerId} {key : CacheKey τ} (hq : (s.container d).cache.lookup key = some q)
    (hd : d = root) : s.AtRoot (.cached q) := by
  obtain ⟨r, hr, hc, -⟩ := hw.cached d key q hq
  exact ⟨r.key, by simp [State.keyOf, hr, hc, hd]⟩

theorem Rooted.turn (hw : WF s) (h : Rooted s v) (ht : Turn s v base sync w) : Rooted base w := by
  have hpop : ∀ {f st}, v.stack = f :: st → Level (f :: st) := fun hst => hst ▸ h.level
  cases ht with
  | circular | missing | awaited | awaitedError | threw => exact ⟨h.level, fun _ => trivial⟩
  | @enterMulti c t a p ps hctl =>
    have hc : Under v.stack c := h.under (by rw [hctl]; exact id)
    have hchain : Under (.chain c t :: v.stack) c := hc.cons id
    exact ⟨(Level.cons (f := .chain c t) h.level hc).cons hchain, fun ⟨f, hf, hr⟩ => hchain.cons (f := .multi c ps []) id f hf hr⟩
  | @existing c t a p target hctl =>
    have hc : Under v.stack c := h.under (by rw [hctl]; exact id)
    exact ⟨h.level.cons hc, fun ⟨f, hf, hr⟩ => hc.cons (f := .chain c t) id f hf hr⟩
  | existingMulti hctl => exact ⟨h.level, fun hr => by have := h.control hr; rw [hctl] at this; exact this⟩
  | transient he hi =>
    obtain ⟨hst, hc⟩ := he.rooted h
    obtain ⟨hl, hctl⟩ := hi.rooted hst hc
    exact ⟨hl, hctl⟩
  | @hit c t a p q hctl _ _ _ _ hq =>
    have hc : Under v.stack c := h.under (by rw [hctl]; exact id)
    exact ⟨h.level, fun ⟨f, hf, hr⟩ => hw.atRoot_cached hq (s.graph.singleSite_root c p (hc f hf hr))⟩
  | outside he =>
    exact ⟨(he.rooted h).1, fun _ => trivial⟩
  | wait he hq =>
    obtain ⟨hst, hd⟩ := he.rooted h
    refine ⟨hst, fun ⟨f, hf, hr⟩ => ?_⟩
    rw [ensureTracked_eq]
    exact hw.atRoot_cached hq (hd f hf hr)
  | build he _ _ hi =>
    obtain ⟨hst, hd⟩ := he.rooted h
    obtain ⟨hl, hctl⟩ := hi.rooted hst hd
    exact ⟨hl, hctl⟩
  | value _ hst => exact ⟨(hpop hst).tail, fun _ => trivial⟩
  | leaveChain hctl hst => exact ⟨(hpop hst).tail, fun _ => by rw [hctl]; trivial⟩
  | multiDone _ hst => exact ⟨(hpop hst).tail, fun _ => trivial⟩
  | @multiNext x c p ps instances st hctl hst =>
    have hl := hpop hst
    exact ⟨hl.tail.cons hl.under, fun ⟨f, hf, hr⟩ => hl.under.cons (f := .multi c ps (instances ++ [x])) id f hf hr⟩
  | nextDep _ hst hn =>
    have hl := hpop hst
    obtain ⟨hl, hctl⟩ := hn.rooted hl.tail hl.under
    exact ⟨hl, hctl⟩
  | fail hctl hst => exact ⟨(hpop hst).tail, fun _ => by rw [hctl]; trivial⟩
  | unwind hctl hst => exact ⟨(hpop hst).tail, fun _ => by rw [hctl]; trivial⟩
  | created _ hst => exact ⟨(hpop hst).tail, fun _ => trivial⟩
  | returned _ hst => exact ⟨(hpop hst).tail, fun _ => trivial⟩

/-! ## Runs -/

/-- The calls keep to the root above it, and the root constructs only what it caches for good. -/
structure Confined (s : State τ) : Prop where
  calls : ∀ k v, s.call k = some v → Rooted s v
  singletons : ∀ q r, s.promise q = some r → r.container = root → r.provider.scope = .default

omit [DecidableEq τ] in
theorem Confined.init (classes : JsMap τ (ClassMetadata τ)) : Confined (State.init classes) :=
  ⟨by simp [State.init], by simp [State.init]⟩

theorem Rooted.step (hi : Inv s) {u : Call τ} (hu : Rooted s u) {l : Label τ} (hs : Di.step s l = some s') : Rooted s' u := by
  refine ⟨hu.level, fun hr => ?_⟩
  have hctl := hu.control hr
  cases hc : u.control with
  | cached q =>
    rw [hc] at hctl
    obtain ⟨key, hq⟩ := hctl
    exact ⟨key, hi.step_keyOf hs hq⟩
  | _ => rw [hc] at hctl; exact hctl

theorem Confined.step (hi : Inv s) (h : Confined s) {l : Label τ} (hs : Di.step s l = some s') : Confined s' := by
  refine ⟨fun j u hu => ?_, fun q r' hr' hroot => ?_⟩
  · cases hi.kind hs with
    | @turn k v w base sync hv hrun ht he =>
      subst he
      rw [goOn_call, (hi.turn_effect hv ht).call] at hu
      by_cases hj : j = k
      · subst hj
        obtain rfl : w = u := by simpa using hu
        obtain ⟨hl, hctl⟩ := (h.calls j v hv).turn hi.toWF ht
        refine ⟨hl, fun hr => ?_⟩
        have := hctl hr
        unfold State.AtRoot at this ⊢
        rw [goOn_keyOf]
        exact this
      · rw [Function.update_of_ne hj] at hu
        exact (h.calls j u hu).step hi hs
    | @start c t _ _ he =>
      subst he
      by_cases hj : j = s.calls
      · subst hj
        unfold State.startResolve at hu
        dsimp only at hu
        split at hu <;> (simp [State.setCall] at hu; subst hu; exact ⟨.nil, fun hr => by obtain ⟨f, hf, -⟩ := hr; cases hf⟩)
      · have : s.call j = some u := by
          unfold State.startResolve at hu
          dsimp only at hu
          split at hu <;> simpa [State.setCall, hj] using hu
        exact (h.calls j u this).step hi hs
    | outside _ ho => exact (h.calls j u (ho.call ▸ hu)).step hi hs
  · cases hq : s.promise q with
    | some r =>
      obtain ⟨r'', hr'', hc, -, hp, -⟩ := hi.step_promise hs hq
      rw [hr'] at hr''
      cases hr''
      rw [hp]
      exact h.singletons q r hq (hc ▸ hroot)
    | none =>
      cases hi.kind hs with
      | turn hv _ ht he =>
        subst he
        rw [goOn_promise] at hr'
        obtain ⟨d, key, p, st, -, -, -, hen, rfl⟩ := ht.creates hq hr'
        by_contra hscope
        have henabled := hen hscope
        rw [show d = root from hroot] at henabled
        exact (hi.tree.requestScopeEnabled hi.tree.pos).1 henabled rfl
      | start _ _ he => rw [he, startResolve_eq, hq] at hr'; cases hr'
      | outside _ ho => rw [ho.promise, hq] at hr'; cases hr'

theorem Confined.supplies (hw : WF s) (h : Confined s) (hs : Supplies s q q')
    (hq : ∃ key, s.keyOf q = some (root, key)) : ∃ key, s.keyOf q' = some (root, key) := by
  have hsite : ∀ {k v b}, s.call k = some v → b ∈ builds v.stack → ∃ key, s.keyOf b.2.2 = some (b.1, key) := by
    intro k v b hv hb
    obtain ⟨key, hr, -⟩ := hw.building k b (by rw [buildsOf_eq hv]; exact hb)
    exact ⟨key, by simp [State.keyOf, hr]⟩
  have hroot : ∀ {k v b}, s.call k = some v → b ∈ builds v.stack → b.2.2 = q → b.1 = root := by
    intro k v b hv hb hbq
    obtain ⟨key, hkey⟩ := hsite hv hb
    obtain ⟨key', hkey'⟩ := hq
    rw [hbq, hkey', Option.some.injEq, Prod.mk.injEq] at hkey
    exact hkey.1.symm
  cases hs with
  | @awaited k v b bs hv hctl hst hb =>
    have hmem : b ∈ builds v.stack := by simp [hst]
    obtain ⟨f, hf, hc⟩ := mem_of_builds hmem
    have := (h.calls k v hv).control ⟨f, hf, hc.trans (hroot hv hmem hb)⟩
    rwa [hctl] at this
  | @constructed k v inner b' b outer hv hst hb' hb =>
    have hlevel := (h.calls k v hv).level.builds
    rw [hst] at hlevel
    have hinner := (List.pairwise_cons.1 (List.pairwise_append.1 hlevel).2.1).1 b List.mem_cons_self
    obtain ⟨key, hkey⟩ := hsite (b := b') hv (by simp [hst])
    rw [hb', hinner (hroot hv (by simp [hst]) hb)] at hkey
    exact ⟨key, hkey⟩

/-- In a run from `s₀` to `s`, the instance of `q` was constructed from that of
`q'`, directly or through other instances. -/
def ConstructedFrom (s₀ : State τ) (ls : List (Label τ)) (s : State τ) : PromiseId → PromiseId → Prop :=
  Relation.TransGen fun q q' => ∃ ls₁ ls₂ s₁, ls = ls₁ ++ ls₂ ∧ Lib.Run step (fun _ _ => True) s₀ ls₁ s₁ ∧
    Lib.Run step (fun _ _ => True) s₁ ls₂ s ∧ Supplies s₁ q q'

theorem Confined.run (hi : Inv s) (h : Confined s) {ls : List (Label τ)} (hs : Lib.Run Di.step ok s ls s') :
    Inv s' ∧ Confined s' :=
  hs.keeps (fun s => Inv s ∧ Confined s) (fun _ _ _ _ ⟨hi, h⟩ hs => ⟨hi.step hs, h.step hi hs⟩) ⟨hi, h⟩

theorem Inv.run_keyOf (hi : Inv s) {ls : List (Label τ)} (hs : Lib.Run Di.step ok s ls s')
    {at' : ContainerId × CacheKey τ} (hq : s.keyOf q = some at') : s'.keyOf q = some at' :=
  (hs.keeps (fun s => Inv s ∧ s.keyOf q = some at') (fun _ _ _ _ ⟨hi, hq⟩ hs => ⟨hi.step hs, hi.step_keyOf hs hq⟩) ⟨hi, hq⟩).2

theorem WF.supplies_keyOf (hw : WF s) (hs : Supplies s q q') : ∃ at', s.keyOf q = some at' := by
  have hsite : ∀ {k v b}, s.call k = some v → b ∈ builds v.stack → ∃ at', s.keyOf b.2.2 = some at' := by
    intro k v b hv hb
    obtain ⟨key, hr, -⟩ := hw.building k b (by rw [buildsOf_eq hv]; exact hb)
    exact ⟨(b.1, key), by simp [State.keyOf, hr]⟩
  cases hs with
  | awaited hv _ hst hb => exact hb ▸ hsite hv (by rw [hst]; exact List.mem_cons_self)
  | constructed hv hst _ hb => exact hb ▸ hsite hv (by simp [hst])

/-- In every run, an instance in a cache of the root was constructed from
instances of default-scope providers only, cached there too. -/
theorem no_captive_request_scope {classes : JsMap τ (ClassMetadata τ)} {ls : List (Label τ)} {s : State τ}
    {key : CacheKey τ} {q q' : PromiseId} (h : Lib.Run step (fun _ _ => True) (State.init classes) ls s)
    (hq : s.cached root key = some q) (hfrom : ConstructedFrom (State.init classes) ls s q q') :
    ∃ r, s.promise q' = some r ∧ r.container = root ∧ r.provider.scope = .default := by
  obtain ⟨hi, hconf⟩ := (Confined.init classes).run (Inv.init classes) h
  have hedge : ∀ {a b}, (∃ ls₁ ls₂ s₁, ls = ls₁ ++ ls₂ ∧ Lib.Run step (fun _ _ => True) (State.init classes) ls₁ s₁ ∧
      Lib.Run step (fun _ _ => True) s₁ ls₂ s ∧ Supplies s₁ a b) →
      (∃ key, s.keyOf a = some (root, key)) → ∃ key, s.keyOf b = some (root, key) := by
    rintro a b ⟨ls₁, ls₂, s₁, -, h₁, h₂, hsup⟩ ⟨key, ha⟩
    obtain ⟨hi₁, hconf₁⟩ := (Confined.init classes).run (Inv.init classes) h₁
    obtain ⟨at₁, ha₁⟩ := hi₁.supplies_keyOf hsup
    have heq := hi₁.run_keyOf h₂ ha₁
    rw [ha] at heq
    cases heq
    obtain ⟨key', hb⟩ := hconf₁.supplies hi₁.toWF hsup ⟨_, ha₁⟩
    exact ⟨key', hi₁.run_keyOf h₂ hb⟩
  have hroot : ∃ key, s.keyOf q = some (root, key) := ⟨key, hi.cached_keyOf hq⟩
  have hall : ∃ key, s.keyOf q' = some (root, key) := by
    induction hfrom with
    | single hab => exact hedge hab hroot
    | tail _ hbc ih => exact hedge hbc ih
  obtain ⟨key', hkey'⟩ := hall
  obtain ⟨r, hr, hat⟩ := Option.map_eq_some_iff.1 hkey'
  have hc : r.container = root := congrArg Prod.fst hat
  exact ⟨r, hr, hc, hconf.singletons q' r hr hc⟩

/-! ## A resolve on a request scope -/

omit [DecidableEq τ] in
theorem supplies_of_promises {inner outer : List PromiseId}
    (h : (s.call k).map (fun v => promisesOf v.stack) = some (inner ++ q' :: q :: outer)) : Supplies s q q' := by
  obtain ⟨v, hv, hp⟩ := Option.map_eq_some_iff.1 h
  obtain ⟨before, rest, hst, -, hp⟩ := List.map_eq_append_iff.1 hp
  obtain ⟨b', rest, rfl, hb', hp⟩ := List.map_eq_cons_iff.1 hp
  obtain ⟨b, rest, rfl, hb, -⟩ := List.map_eq_cons_iff.1 hp
  exact .constructed hv hst hb' hb

/-- A singleton (token 0) that takes a transient (token 1) that takes a singleton (token 2). -/
private def captiveStart : List (Label Nat) :=
  [.register root
    [.object { provide := some 0, useFactory := some true, inject := some [some (.token 1)] },
     .object { provide := some 1, useFactory := some true, inject := some [some (.token 2)], scope := some .transient },
     .object { provide := some 2, useFactory := some true }],
   .createRequestScope root, .resolve 1 0, .advance, .advance, .advance]
private def captiveRest : List (Label Nat) :=
  [.settle 0 (.created false), .resume 0, .resume 0, .settle 0 (.created false), .resume 0, .resume 0, .settle 0 (.created false),
   .resume 0]
private def captiveS₁ : State Nat := after step (State.init ∅) captiveStart
private def captiveS₂ : State Nat := after step captiveS₁ captiveRest

private theorem captive_run {s : State Nat} {ls : List (Label Nat)} (h : passes step (fun _ _ => true) s ls = true) :
    Lib.Run step (fun _ _ => True) s ls (after step s ls) := Lib.Run.of_passes (fun _ _ _ => trivial) h

theorem no_captive_request_scope_transient : captiveS₂.cached root (.token 0) = some 0 ∧
    ∃ r, captiveS₂.promise 1 = some r ∧ r.container = root ∧ r.provider.scope = .default := by
  have h₁ : Lib.Run step (fun _ _ => True) (State.init ∅) captiveStart captiveS₁ := captive_run (by decide)
  have h₂ : Lib.Run step (fun _ _ => True) captiveS₁ captiveRest captiveS₂ := captive_run (by decide)
  have hq : captiveS₂.cached root (.token 0) = some 0 := by decide
  have hsup : Supplies captiveS₁ 0 1 := @supplies_of_promises _ _ 0 0 1 [] [] (by decide)
  exact ⟨hq, no_captive_request_scope (h₁.append h₂) hq (.single ⟨_, _, _, rfl, h₁, h₂, hsup⟩)⟩

end Fluo.Di
