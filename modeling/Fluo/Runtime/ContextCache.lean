import Fluo.Di.Answers
import Fluo.Runtime.Bootstrap
/-!
# The resolution cache of an application

`Application.get` and `ApplicationContext.get` answer from a cache of their own,
which a wrapper around `container.override` invalidates. The cache holds calls:
the entry of a token is the call of `container.resolve` whose promise it is.
-/

namespace Fluo.Runtime.ContextCache
open Fluo.Lib Fluo.Di Bootstrap

variable {τ : Type} [DecidableEq τ]

/-! ## Cacheable tokens -/

def providerScope (classes : JsMap τ (ClassMetadata τ)) : Provider τ → Scope
  | .classConstructor cls => ((classes.lookup cls).bind (·.scope)).getD .singleton
  | .object provider =>
    if provider.useValue.isSome then .singleton
    else match provider.useClass with
      | some cls => (provider.scope <|> (cls.bind classes.lookup).bind (·.scope)).getD .singleton
      | none =>
        if provider.useFactory.isSome then (provider.scope <|> (provider.resolverClass.bind classes.lookup).bind (·.scope)).getD .singleton
        else .singleton
  | .unsupported => .singleton

def isDirectSingletonContextProvider (classes : JsMap τ (ClassMetadata τ)) (provider : Provider τ) : Bool :=
  if isMultiProvider provider then false
  else match provider with
    | .object p => if p.useExisting.isSome || p.useValue.isSome then false else providerScope classes provider = .singleton
    | _ => providerScope classes provider = .singleton

/-- A set of tokens is the list of its members. -/
def createContextCacheableTokenSet (classes : JsMap τ (ClassMetadata τ)) (effectiveProviders : BootstrapEffectiveProviders τ)
    (runtimeTokens : List τ) : List τ :=
  runtimeTokens ++ ((effectiveProviders.runtimeProviders ++ effectiveProviders.rootModuleProviders).filter
    (isDirectSingletonContextProvider classes)).filterMap providerToken

/-! ## The application -/

structure App (τ : Type) where
  container : State τ
  contextCacheableTokens : List τ
  contextResolutionCache : JsMap τ CallId := ∅
  closed : Bool := false

/-- One round of the loop of the wrapped `override`. -/
def updateCacheableTokens (classes : JsMap τ (ClassMetadata τ)) (tokens : List τ) (provider : Provider τ) : List τ :=
  match providerToken provider with
  | some token => if isDirectSingletonContextProvider classes provider then token :: tokens else tokens.filter (· ≠ token)
  | none => tokens

/-- `container.override` as `installContextCacheInvalidation` wraps it: nothing is
invalidated when the container's own `override` throws. -/
def App.override (a : App τ) (providers : List (Provider τ)) : App τ × Option (DiError τ) :=
  match a.container.override root providers with
  | (container, some e) => ({ a with container }, some e)
  | (container, none) => ({ a with
      container
      contextResolutionCache := ∅
      contextCacheableTokens := providers.foldl (updateCacheableTokens a.container.classes) a.contextCacheableTokens }, none)

/-- `get`, up to the promise it returns: the call whose outcome that is. -/
def App.get (a : App τ) (token : τ) : App τ × CallId :=
  let resolved := { a with container := a.container.startResolve root token }
  if a.closed || token ∉ a.contextCacheableTokens then (resolved, a.container.calls)
  else match a.contextResolutionCache.lookup token with
    | some cached => (a, cached)
    | none => ({ resolved with contextResolutionCache := a.contextResolutionCache.insert token a.container.calls }, a.container.calls)

/-- The `catch` handler of a call that `get` put in the cache. -/
def App.catchRejection (a : App τ) (token : τ) (k : CallId) : App τ :=
  match a.container.result k, a.contextResolutionCache.lookup token with
  | some (.error _), some cached =>
    if cached = k then { a with contextResolutionCache := a.contextResolutionCache.erase token } else a
  | _, _ => a

theorem App.override_container (a : App τ) (providers : List (Provider τ)) :
    (a.override providers).1.container = (a.container.override root providers).1 := by
  unfold App.override
  split <;> simp_all

theorem App.catchRejection_container (a : App τ) (token : τ) (k : CallId) : (a.catchRejection token k).container = a.container := by
  unfold App.catchRejection
  split
  · split <;> rfl
  · rfl

/-- `get(token)`, called on `a`, may settle with `answer`. -/
def App.Answers (a : App τ) (token : τ) (answer : Except (DiError τ) Value) : Prop :=
  ∃ ls s, Run Di.step KeepsProviders (a.get token).1.container ls s ∧ Quiet s ∧ s.result (a.get token).2 = some answer

/-! ## Runs -/

inductive Event (τ : Type)
  | get (token : τ)
  | override (providers : List (Provider τ))
  /-- Whatever else the program does with the container. -/
  | work

/-- An event, up to the moment when every call is settled again. -/
inductive App.Step (a : App τ) : Event τ → App τ → Prop
  | get {token ls s} : Run Di.step KeepsProviders (a.get token).1.container ls s → Quiet s →
      App.Step a (.get token) (App.catchRejection { (a.get token).1 with container := s } token (a.get token).2)
  | override {providers} : App.Step a (.override providers) (a.override providers).1
  | work {ls s} : Run Di.step KeepsProviders a.container ls s → Quiet s → App.Step a .work { a with container := s }

/-- The override replaces the providers of each of its tokens, or of none. -/
def Careful (a : App τ) : Event τ → Prop
  | .override providers => ∀ ps, normalizeAll a.container.classes a.container.nextProvider providers = .ok ps →
      ∀ first rest, normalizedByToken ps = first :: rest → replaceable first.2 = true → ∀ group ∈ rest, replaceable group.2 = true
  | _ => True

def runtimeTokenProviders (runtimeValues : List (τ × Obj)) : List (Provider τ) :=
  runtimeValues.map fun e => .object { provide := some e.1, useValue := some e.2 }

/-- What `bootstrapApplication` and `createApplicationContext` construct: the
effective providers, the controllers and the runtime tokens are registered, and
then the lifecycle hooks run, whose steps meet `ok`. -/
inductive Constructed (ok : State τ → Di.Label τ → Prop) : App τ → Prop
  | mk {tokenLabel classes modules runtimeProviders rootModule policy effectiveProviders warnings runtimeValues ls} {s₀ s container : State τ} :
      selectEffectiveBootstrapProviders tokenLabel modules runtimeProviders rootModule policy = .ok (effectiveProviders, warnings) →
      registerBootstrap classes effectiveProviders modules = (s₀, none) →
      s₀.register root (runtimeTokenProviders runtimeValues) = (s, none) →
      Run Di.step ok s ls container → Quiet container →
      Constructed ok { container, contextCacheableTokens := createContextCacheableTokenSet classes effectiveProviders (runtimeValues.map (·.1)) }

/-- The root registers each cacheable token with one default-scope provider that
is no alias. -/
def Faithful (a : App τ) : Prop := ∀ t ∈ a.contextCacheableTokens, a.container.graph.Direct t

/-! ## Direct providers -/

variable {classes : JsMap τ (ClassMetadata τ)} {providers : List (Provider τ)} {s : State τ} {e : BootstrapEffectiveProviders τ}
    {modules : List (CompiledModule τ)} {a : App τ}

theorem direct_of_normalize {id : Nat} {provider : Provider τ} {n : NormalizedProvider τ}
    (hd : isDirectSingletonContextProvider classes provider = true) (h : normalizeProvider classes id provider = .ok n) :
    n.multi = false ∧ n.scope = .default ∧ ∀ u, n.type ≠ .existing u := by
  obtain ⟨-, hmulti⟩ := normalizeProvider_ok h
  unfold isDirectSingletonContextProvider at hd
  split at hd
  · cases hd
  rename_i hnot
  unfold normalizeProvider at h
  split at h
  · obtain ⟨inject, _, h⟩ := bind_eq_ok.1 h
    cases h
    exact ⟨rfl, of_decide_eq_true hd, fun u h => by cases h⟩
  · cases h
  next p =>
    have hmulti' : n.multi = false := by
      rw [hmulti]
      simp_all [contributes, isMultiProvider]
    refine ⟨hmulti', ?_⟩
    dsimp only at hd
    have hv : p.useValue = none := by cases hv : p.useValue <;> simp_all
    have he : p.useExisting = none := by cases he : p.useExisting <;> simp_all
    simp only [hv, he, Option.isSome_none, Bool.or_false, Bool.false_eq_true, if_false, decide_eq_true_eq] at hd
    split at h
    next v hv' => cases hv.symm.trans hv'
    next isFunction hf _ =>
      obtain ⟨provide, hp, h⟩ := bind_eq_ok.1 h
      obtain ⟨ht, hone⟩ := assertObjectProvider_ok hp
      cases isFunction with
      | false => cases h
      | true =>
        obtain ⟨inject, _, h⟩ := bind_eq_ok.1 h
        cases h
        have hc : p.useClass = none := by cases hc : p.useClass <;> simp_all
        refine ⟨?_, fun u h => by cases h⟩
        simpa [providerScope, hf, hv, hc, Scope.default] using hd
    next cls hc _ _ =>
      obtain ⟨provide, hp, h⟩ := bind_eq_ok.1 h
      cases cls with
      | none => cases h
      | some cls =>
        obtain ⟨inject, _, h⟩ := bind_eq_ok.1 h
        cases h
        refine ⟨?_, fun u h => by cases h⟩
        simpa [providerScope, hc, hv, Scope.default] using hd
    next target he' _ _ _ => cases he.symm.trans he'
    · cases h

theorem direct_of_registered
    (h : (State.init classes).registerAll root providers = (s, none)) {provider : Provider τ} (hm : provider ∈ providers)
    (hd : ∀ id n, normalizeProvider classes id provider = .ok n → n.multi = false ∧ n.scope = .default ∧ ∀ u, n.type ≠ .existing u)
    {t : τ} (ht : providerToken provider = some t) : s.graph.Direct t := by
  obtain ⟨id, n, hn, hreg⟩ := registerAll_single h hm
  obtain ⟨hmulti, hscope, hne⟩ := hd id n hn
  obtain rfl : n.provide = t := Option.some.inj ((normalizeProvider_ok hn).1.symm.trans ht)
  exact ⟨n, hreg hmulti, hscope, hne⟩

theorem rootModuleProviders_subset {tokenLabel : Option τ → String} {runtimeProviders : List (Provider τ)}
    {rootModule : Nat} {policy : DuplicateProviderPolicy} {warnings : List String}
    (h : selectEffectiveBootstrapProviders tokenLabel modules runtimeProviders rootModule policy = .ok (e, warnings)) :
    e.rootModuleProviders ⊆ e.moduleProviders := by
  unfold selectEffectiveBootstrapProviders at h
  obtain ⟨runtime, _, h⟩ := bind_eq_ok.1 h
  obtain ⟨module, _, h⟩ := bind_eq_ok.1 h
  cases h
  exact List.map_subset _ List.filter_sublist.subset

theorem registered_eq
    {runtimeValues : List (τ × Obj)} {s₀ : State τ} (h₀ : registerBootstrap classes e modules = (s₀, none))
    (h : s₀.register root (runtimeTokenProviders runtimeValues) = (s, none)) :
    (State.init classes).registerAll root
      ((e.runtimeProviders ++ e.moduleProviders ++ controllersOf modules) ++ runtimeTokenProviders runtimeValues) = (s, none) := by
  rw [registerBootstrap_eq] at h₀
  rw [registerAll_append, h₀]
  dsimp only
  unfold State.register at h
  split at h
  · cases h
  · exact h

theorem inv_registered
    (h : (State.init classes).registerAll root providers = (s, none)) : Di.Inv s := by
  have hstep : Di.step (State.init classes) (.register root providers) = some s := by
    have hopen : (State.init classes).isDisposedInHierarchy root = false := rfl
    have hregister : (State.init classes).register root providers = (s, none) := by
      rw [State.register, if_neg (by simp [hopen]), h]
    simp [Di.step, State.init, State.isContainer] at hregister ⊢
    rw [hregister]
  exact (Di.Inv.init classes).step hstep

theorem Constructed.faithful (h : Constructed KeepsProviders a) : Faithful a := by
  obtain ⟨hselect, h₀, hs, hrun, -⟩ := h
  have hall := registered_eq h₀ hs
  have hinv := inv_registered hall
  intro t ht
  refine Graph.Direct.run hinv ?_ hrun
  rcases List.mem_append.1 ht with ht | ht
  · obtain ⟨e, he, rfl⟩ := List.mem_map.1 ht
    refine @direct_of_registered _ _ _ _ _ hall (.object { provide := some e.1, useValue := some e.2 })
      (List.mem_append_right _ (List.mem_map.2 ⟨e, he, rfl⟩)) (fun id n hn => ?_) _ rfl
    obtain ⟨provide, hp, hn⟩ := bind_eq_ok.1 hn
    cases hn
    exact ⟨rfl, rfl, fun u h => nomatch h⟩
  · obtain ⟨provider, hp, ht⟩ := List.mem_filterMap.1 ht
    obtain ⟨hp, hd⟩ := List.mem_filter.1 hp
    refine direct_of_registered hall (List.mem_append_left _ (List.mem_append_left _ ?_)) (fun id n hn => direct_of_normalize hd hn) ht
    exact (List.mem_append.1 hp).elim (List.mem_append_left _) fun hp => List.mem_append_right _ (rootModuleProviders_subset hselect hp)

/-! ## Overrides -/

theorem mem_updateCacheableTokens {tokens : List τ} {t : τ}
    (ht : t ∈ providers.foldl (updateCacheableTokens classes) tokens) :
    (∃ p ∈ providers, providerToken p = some t ∧ isDirectSingletonContextProvider classes p = true) ∨
      (t ∈ tokens ∧ ∀ p ∈ providers, providerToken p ≠ some t) := by
  induction providers generalizing tokens with
  | nil => exact .inr ⟨ht, fun _ h => nomatch h⟩
  | cons p rest ih =>
    rcases ih ht with ⟨p', hp', h⟩ | ⟨hmem, hrest⟩
    · exact .inl ⟨p', List.mem_cons_of_mem _ hp', h⟩
    unfold updateCacheableTokens at hmem
    split at hmem
    · rename_i token htoken
      split at hmem
      · rcases List.mem_cons.1 hmem with rfl | hmem
        · exact .inl ⟨p, List.mem_cons_self, htoken, ‹_›⟩
        · by_cases hp : providerToken p = some t
          · exact .inl ⟨p, List.mem_cons_self, hp, ‹_›⟩
          · exact .inr ⟨hmem, List.forall_mem_cons.2 ⟨hp, hrest⟩⟩
      · obtain ⟨hmem, hne⟩ := List.mem_filter.1 hmem
        refine .inr ⟨hmem, List.forall_mem_cons.2 ⟨?_, hrest⟩⟩
        rw [htoken]
        rintro ⟨⟩
        simp at hne
    · refine .inr ⟨hmem, List.forall_mem_cons.2 ⟨by simp [*], hrest⟩⟩

theorem normalizeAll_mem {id : Nat} {ps : List (NormalizedProvider τ)}
    (h : normalizeAll classes id providers = .ok ps) :
    (∀ p ∈ providers, ∃ id, ∃ n ∈ ps, normalizeProvider classes id p = .ok n) ∧
      ∀ n ∈ ps, ∃ id, ∃ p ∈ providers, normalizeProvider classes id p = .ok n := by
  induction providers generalizing id ps with
  | nil =>
    cases h
    exact ⟨fun _ h => (nomatch h), fun _ h => nomatch h⟩
  | cons p rest ih =>
    rw [normalizeAll] at h
    obtain ⟨n, hn, h⟩ := bind_eq_ok.1 h
    obtain ⟨ns, hns, h⟩ := bind_eq_ok.1 h
    cases h
    obtain ⟨hto, hfrom⟩ := ih hns
    refine ⟨List.forall_mem_cons.2 ⟨⟨id, n, List.mem_cons_self, hn⟩, fun p' hp' => ?_⟩,
      List.forall_mem_cons.2 ⟨⟨id, p, List.mem_cons_self, hn⟩, fun n' hn' => ?_⟩⟩
    · obtain ⟨id', n', hn', h'⟩ := hto p' hp'
      exact ⟨id', n', List.mem_cons_of_mem _ hn', h'⟩
    · obtain ⟨id', p', hp', h'⟩ := hfrom n' hn'
      exact ⟨id', p', List.mem_cons_of_mem _ hp', h'⟩

theorem override_cases (hc : Careful a (.override providers)) :
    (∃ e n, a.container.override root providers = ({ a.container with nextProvider := n }, some e)) ∨
      ∃ ps, normalizeAll a.container.classes a.container.nextProvider providers = .ok ps ∧
        (∀ group ∈ normalizedByToken ps, replaceable group.2 = true) ∧
        a.container.override root providers = (({ a.container with nextProvider := a.container.nextProvider + ps.length } : State τ).overrideAll root
          (normalizedByToken ps)) := by
  unfold State.override
  split
  · exact .inl ⟨_, a.container.nextProvider, rfl⟩
  cases hps : normalizeAll a.container.classes a.container.nextProvider providers with
  | error e => exact .inl ⟨e, a.container.nextProvider, rfl⟩
  | ok ps =>
    dsimp only
    cases hgroups : normalizedByToken ps with
    | nil => exact .inr ⟨ps, rfl, fun _ h => (by rw [hgroups] at h; cases h), by rw [hgroups]⟩
    | cons first rest =>
      cases hfirst : replaceable first.2 with
      | true =>
        refine .inr ⟨ps, rfl, ?_, by rw [hgroups]⟩
        rw [hgroups]
        exact List.forall_mem_cons.2 ⟨hfirst, hc ps hps first rest hgroups hfirst⟩
      | false => exact .inl ⟨_, _, by rw [State.overrideAll, overrideToken_error hfirst]⟩

theorem careful_single (provider : Provider τ) : Careful a (.override [provider]) := by
  intro ps hps first rest hgroups _ group hgroup
  rw [normalizeAll] at hps
  obtain ⟨n, _, hps⟩ := bind_eq_ok.1 hps
  obtain ⟨ns, hns, hps⟩ := bind_eq_ok.1 hps
  cases hns
  cases hps
  have hone : normalizedByToken [n] = [(n.provide, [n])] := by simp [normalizedByToken, List.eraseDups_cons]
  rw [hone] at hgroups
  cases hgroups
  cases hgroup

/-! ## Coherence -/

inductive App.Gets (a : App τ) (t : τ) : App τ × CallId → Prop
  | delegates : App.Gets a t ({ a with container := a.container.startResolve root t }, a.container.calls)
  | hits {k} : t ∈ a.contextCacheableTokens → a.contextResolutionCache.lookup t = some k → App.Gets a t (a, k)
  | misses : t ∈ a.contextCacheableTokens → App.Gets a t
      ({ a with
        container := a.container.startResolve root t
        contextResolutionCache := a.contextResolutionCache.insert t a.container.calls }, a.container.calls)

theorem App.get_cases (a : App τ) (t : τ) : a.Gets t (a.get t) := by
  unfold App.get
  dsimp only
  split
  · exact .delegates
  rename_i hcacheable
  have ht : t ∈ a.contextCacheableTokens := by
    by_contra hnot
    exact hcacheable (by simp [hnot])
  split
  · exact .hits ht ‹_›
  · exact .misses ht

structure Coherent (a : App τ) : Prop where
  inv : Di.Inv a.container
  quiet : Quiet a.container
  faithful : Faithful a
  cached : ∀ t k, a.contextResolutionCache.lookup t = some k → (a.container.container root).disposed = false ∧
    ∃ q x, Held a.container t q x ∧ a.container.result k = some (.ok x)

theorem Constructed.coherent {ok : State τ → Di.Label τ → Prop} (h : Constructed ok a) (hf : Faithful a) : Coherent a := by
  obtain ⟨-, h₀, hs, hrun, hquiet⟩ := h
  exact ⟨(inv_registered (registered_eq h₀ hs)).run hrun, hquiet, hf, fun t k hk => nomatch hk⟩

namespace Coherent
variable {a : App τ} {t : τ}

variable {ls : List (Di.Label τ)} {s : State τ} {providers : List (Provider τ)}

theorem work (h : Coherent a) (hr : Run Di.step KeepsProviders a.container ls s) (hs : Quiet s) :
    Coherent { a with container := s } where
  inv := h.inv.run hr
  quiet := hs
  faithful := fun t ht => (h.faithful t ht).run h.inv hr
  cached := fun t k hk => by
    obtain ⟨hlive, q, x, hq, hx⟩ := h.cached t k hk
    obtain ⟨hq', hlive'⟩ := hq.run h.inv hlive hr
    exact ⟨hlive', q, x, hq', h.inv.run_result hr hx⟩

theorem catchRejection (h : Coherent a) (t : τ) (k : CallId) : Coherent (a.catchRejection t k) := by
  unfold App.catchRejection
  split
  · split
    · refine { h with cached := fun u j hj => h.cached u j ?_ }
      by_cases hu : u = t
      · subst hu; rw [AList.lookup_erase] at hj; cases hj
      · rwa [AList.lookup_erase_ne hu] at hj
    · exact h
  · exact h

theorem started (h : Coherent a) (hr : Run Di.step KeepsProviders (a.container.startResolve root t) ls s) :
    Run Di.step KeepsProviders a.container (.resolve root t :: ls) s :=
  .cons (l := Di.Label.resolve root t) trivial (h.inv.step_resolve h.quiet t) hr

theorem answered (h : Coherent a) (hr : Run Di.step KeepsProviders (a.container.startResolve root t) ls s)
    (hs : Quiet s) : ∃ answer, s.result a.container.calls = some answer := by
  obtain ⟨_, hcall⟩ := hr.keeps (fun s => Di.Inv s ∧ (s.call a.container.calls).isSome) (fun s₁ l s₂ _ hi hs₁ => by
      obtain ⟨v, hv⟩ := Option.isSome_iff_exists.1 hi.2
      refine ⟨hi.1.step hs₁, ?_⟩
      rcases hi.1.step_call hs₁ hv with hv' | ⟨base, sync, w, _, rfl, _⟩
      · rw [hv']; rfl
      · simp)
    ⟨h.inv.step (h.inv.step_resolve h.quiet t), by unfold State.startResolve; dsimp only; split <;> simp [State.setCall]⟩
  exact Option.isSome_iff_exists.1 (hs.settled _ hcall)

theorem get (h : Coherent a) (hr : Run Di.step KeepsProviders (a.get t).1.container ls s) (hs : Quiet s) :
    Coherent (App.catchRejection { (a.get t).1 with container := s } t (a.get t).2) := by
  have hget := a.get_cases t
  generalize a.get t = called at hr hget ⊢
  cases hget with
  | delegates => exact (h.work (h.started hr) hs).catchRejection t _
  | hits => exact (h.work hr hs).catchRejection t _
  | misses ht =>
    have hwork := h.work (h.started hr) hs
    obtain ⟨answer, hanswer⟩ := h.answered hr hs
    dsimp only
    cases answer with
    | error e =>
      rw [App.catchRejection, hanswer, AList.lookup_insert]
      dsimp only
      rw [if_pos rfl]
      refine { hwork with cached := fun u j hj => hwork.cached u j ?_ }
      dsimp only at hj ⊢
      by_cases hu : u = t
      · subst hu; rw [AList.lookup_erase] at hj; cases hj
      · rwa [AList.lookup_erase_ne hu, AList.lookup_insert_ne hu] at hj
    | ok x =>
      rw [App.catchRejection, hanswer]
      dsimp only
      refine { hwork with cached := fun u j hj => ?_ }
      dsimp only at hj ⊢
      by_cases hu : u = t
      · subst hu
        rw [AList.lookup_insert] at hj
        cases hj
        obtain ⟨hlive, q, hq⟩ := held_of_answer h.inv (h.faithful _ ht) h.quiet hr hs hanswer
        exact ⟨hlive, q, x, hq, hanswer⟩
      · rw [AList.lookup_insert_ne hu] at hj
        exact hwork.cached u j hj

theorem direct_override (h : Coherent a) {ps : List (NormalizedProvider τ)} {t : τ}
    (hps : normalizeAll a.container.classes a.container.nextProvider providers = .ok ps)
    (hout : ∀ u, u ∉ (normalizedByToken ps).map (·.1) → s.graph.registration root u = a.container.graph.registration root u)
    (hin : ∀ u p, (u, [p]) ∈ normalizedByToken ps → p.multi = false → s.graph.registration root u = some p)
    (hall : ∀ group ∈ normalizedByToken ps, replaceable group.2 = true)
    (ht : t ∈ providers.foldl (updateCacheableTokens a.container.classes) a.contextCacheableTokens) : s.graph.Direct t := by
  obtain ⟨hto, hfrom⟩ := normalizeAll_mem hps
  rcases mem_updateCacheableTokens ht with ⟨p, hp, htoken, hdirect⟩ | ⟨hmem, hother⟩
  · obtain ⟨id, n, hn, hnormal⟩ := hto p hp
    obtain ⟨hsingle, hscope, hne⟩ := direct_of_normalize hdirect hnormal
    obtain rfl : n.provide = t := Option.some.inj ((normalizeProvider_ok hnormal).1.symm.trans htoken)
    have hgroup : (n.provide, ps.filter (·.provide = n.provide)) ∈ normalizedByToken ps :=
      List.mem_map.2 ⟨n.provide, List.mem_eraseDups.2 (List.mem_map_of_mem hn), rfl⟩
    have hmem : n ∈ ps.filter (·.provide = n.provide) := List.mem_filter.2 ⟨hn, by simp⟩
    have hone : ps.filter (·.provide = n.provide) = [n] := by
      have hreplace := hall _ hgroup
      dsimp only at hreplace
      generalize ps.filter (·.provide = n.provide) = group at hmem hreplace
      cases group with
      | nil => cases hmem
      | cons m rest =>
        rw [replaceable, Bool.or_eq_true] at hreplace
        rcases hreplace with hmulti | hone
        · rw [List.all_eq_true.1 hmulti n hmem] at hsingle
          cases hsingle
        · obtain ⟨-, hnil⟩ := Bool.and_eq_true_iff.1 hone
          rw [List.isEmpty_iff.1 hnil] at hmem ⊢
          rw [List.mem_singleton.1 hmem]
    exact ⟨n, hin _ n (hone ▸ hgroup) hsingle, hscope, hne⟩
  · obtain ⟨p, hp, hscope, hne⟩ := h.faithful t hmem
    refine ⟨p, (hout t fun hgroup => ?_).trans hp, hscope, hne⟩
    obtain ⟨group, hmember, rfl⟩ := List.mem_map.1 hgroup
    obtain ⟨u, hu, rfl⟩ := List.mem_map.1 hmember
    obtain ⟨n, hn, rfl⟩ := List.mem_map.1 (List.mem_eraseDups.1 hu)
    obtain ⟨id, p, hp, hnormal⟩ := hfrom n hn
    exact hother p hp (normalizeProvider_ok hnormal).1

theorem override (h : Coherent a) (hc : Careful a (.override providers)) :
    Coherent (a.override providers).1 := by
  have hinv : Di.Inv (a.container.override root providers).1 := by
    have hstep : Di.step a.container (.override root providers) = some (a.container.override root providers).1 := by
      unfold Di.step
      rw [h.quiet.running]
      exact if_pos h.inv.tree.pos
    exact h.inv.step hstep
  have hout := (override_outside h.inv.keyed root providers).1
  rcases override_cases hc with ⟨e, n, hover⟩ | ⟨ps, hps, hall, hover⟩
  · rw [App.override]
    rw [hover] at hinv ⊢
    refine ⟨hinv, ⟨h.quiet.running, h.quiet.settled⟩, h.faithful, fun t k hk => ?_⟩
    obtain ⟨hlive, q, x, hq, hx⟩ := h.cached t k hk
    exact ⟨hlive, q, x, ⟨hq.cached, hq.status, hq.settled⟩, hx⟩
  · obtain ⟨hok, hother, hsingle⟩ := overrideAll_ok (s := ({ a.container with nextProvider := a.container.nextProvider + ps.length } : State τ))
      (c := root) hall (normalizedByToken_nodup ps)
    rw [← hover] at hok hother hsingle
    rw [App.override]
    generalize a.container.override root providers = result at hinv hout hok hother hsingle ⊢
    obtain ⟨s, e⟩ := result
    dsimp only at hok
    subst hok
    refine ⟨hinv, ⟨hout.running.trans h.quiet.running, fun k hk => ?_⟩, fun t ht => h.direct_override hps hother hsingle hall ht, fun t k hk => nomatch hk⟩
    dsimp only at hk ⊢
    have hcall : s.call = a.container.call := hout.call
    rw [State.result, hcall]
    exact h.quiet.settled k (hcall ▸ hk)

end Coherent

theorem Coherent.answers_iff (h : Coherent a) (t : τ) (answer : Except (DiError τ) Value) :
    a.Answers t answer ↔ Resolves a.container t answer := by
  unfold App.Answers
  have hget := a.get_cases t
  generalize a.get t = called at hget ⊢
  cases hget with
  | delegates => exact Iff.rfl
  | misses => exact Iff.rfl
  | @hits k ht hk =>
    obtain ⟨hlive, q, x, hq, hx⟩ := h.cached t k hk
    have hserves : Serves a.container t := ⟨h.inv, hlive, h.faithful t ht⟩
    constructor
    · rintro ⟨ls, s, hr, -, ha⟩
      cases (h.inv.run_result hr hx).symm.trans ha
      exact hq.resolves hserves h.quiet
    · intro ha
      rw [hq.answer hserves h.quiet ha]
      exact ⟨[], a.container, .nil, h.quiet, hx⟩

/-- After every sequence of `get` calls and careful overrides, `get` returns the
instance that `container.resolve` would return then, or fails as it would. -/
theorem get_equals_resolve {ok : State τ → Di.Label τ → Prop} {a₀ a : App τ} (h₀ : Constructed ok a₀) (hf : Faithful a₀)
    (h : Relation.ReflTransGen (fun a a' => ∃ e, Careful a e ∧ a.Step e a') a₀ a) (t : τ) (answer : Except (DiError τ) Value) :
    a.Answers t answer ↔ Resolves a.container t answer := by
  have hcoherent : Coherent a := by
    induction h with
    | refl => exact h₀.coherent hf
    | tail _ hstep ih =>
      obtain ⟨e, hc, hstep⟩ := hstep
      cases hstep with
      | get hr hs => exact ih.get hr hs
      | override => exact ih.override hc
      | work hr hs => exact ih.work hr hs
  exact hcoherent.answers_iff t answer

/-! ## Two runs -/

/-- `T` (token 0) is a factory that takes `D` (token 1), a factory too. -/
private def shopProviders : List (Provider Nat) :=
  [.object { provide := some 0, useFactory := some true, inject := some [some (.token 1)] },
   .object { provide := some 1, useFactory := some true }]

private def shopModule : CompiledModule Nat := ⟨0, "ShopModule", shopProviders, []⟩
private def shopEffective : BootstrapEffectiveProviders Nat := ⟨shopProviders, shopProviders, []⟩
private def shopValues : List (Nat × Obj) := [(9, .given 0 false)]
private def shopRegistered : State Nat := (registerBootstrap ∅ shopEffective [shopModule]).1

private def shop : App Nat where
  container := (shopRegistered.register root (runtimeTokenProviders shopValues)).1
  contextCacheableTokens := createContextCacheableTokenSet ∅ shopEffective (shopValues.map (·.1))

private theorem shop_bootstrapped : registerBootstrap ∅ shopEffective [shopModule] = (shopRegistered, none) :=
  Prod.ext rfl (by decide)

private theorem shop_valued : shopRegistered.register root (runtimeTokenProviders shopValues) = (shop.container, none) :=
  Prod.ext rfl (by decide)

private theorem shop_inv : Di.Inv shop.container := inv_registered (registered_eq shop_bootstrapped shop_valued)

private theorem shop_quiet : Quiet shop.container := shop_inv.quiet (by decide) (by decide)

private theorem shop_constructed : Constructed KeepsProviders shop :=
  @Constructed.mk Nat _ KeepsProviders (fun _ => "token") ∅ [shopModule] [] 0 .warn shopEffective [] shopValues [] shopRegistered
    shop.container shop.container rfl shop_bootstrapped shop_valued .nil shop_quiet

private def keepsProviders : State Nat → Di.Label Nat → Bool
  | _, .override _ _ | _, .dispose _ => false
  | _, _ => true

private theorem keepsProviders_ok (s : State Nat) (l : Di.Label Nat) (h : keepsProviders s l = true) : KeepsProviders s l := by
  cases l <;> trivial

/-- The call constructs `D` and then `T`. -/
private def getLabels : List (Di.Label Nat) :=
  [.advance, .advance, .settle 0 (.created false), .resume 0, .resume 0, .settle 0 (.created false), .resume 0]

private def shopServed : State Nat := after Di.step (shop.get 0).1.container getLabels
private def shopUsed : App Nat := App.catchRejection { (shop.get 0).1 with container := shopServed } 0 0

private theorem shop_run : Run Di.step KeepsProviders (shop.get 0).1.container getLabels shopServed :=
  Run.of_passes keepsProviders_ok (by decide)

private theorem shopServed_inv : Di.Inv shopServed := (shop_inv.step (shop_inv.step_resolve shop_quiet 0)).run shop_run

private theorem shop_get : shop.Step (.get 0) shopUsed :=
  .get shop_run (shopServed_inv.quiet (by decide) (by decide))

/-- `T` is replaced by a value. -/
private def replacement : Provider Nat := .object { provide := some 0, useValue := some (.given 5 false) }

theorem get_equals_resolve_shop :
    (shopUsed.override [replacement]).1.Answers 0 (.ok (.object (.given 5 false))) ↔
      Resolves (shopUsed.override [replacement]).1.container 0 (.ok (.object (.given 5 false))) :=
  get_equals_resolve shop_constructed shop_constructed.faithful
    ((Relation.ReflTransGen.single ⟨.get 0, trivial, shop_get⟩).tail ⟨.override [replacement], careful_single replacement, .override⟩) 0 _

/-- The override of `T` takes effect, and then that of token 2 throws. -/
private def conflicting : List (Provider Nat) :=
  [replacement, .object { provide := some 2, useFactory := some true },
   .object { provide := some 2, useFactory := some true, multi := true }]

private def isGiven : Option (Except (DiError Nat) Value) → Bool
  | some (.ok (.object (.given 5 false))) => true
  | _ => false

private def isMade : Option (Except (DiError Nat) Value) → Bool
  | some (.ok (.object (.made 1 false))) => true
  | _ => false

private def resolveLabels : List (Di.Label Nat) := [.advance, .resume 1, .resume 1]
private def shopOverridden : App Nat := (shopUsed.override conflicting).1
private def shopResolved : State Nat := after Di.step (shopOverridden.container.startResolve root 0) resolveLabels

/-- After an override that throws midway, `get` returns the instance of before
and `container.resolve` the value that replaces it. -/
theorem get_after_failed_override :
    Constructed KeepsProviders shop ∧ shop.Step (.get 0) shopUsed ∧ (shopUsed.override conflicting).2 = some (.duplicateProvider 2) ∧
      Resolves shopOverridden.container 0 (.ok (.object (.given 5 false))) ∧
      ¬ shopOverridden.Answers 0 (.ok (.object (.given 5 false))) := by
  have hthrows : (shopUsed.override conflicting).2 = some (.duplicateProvider 2) := by decide
  have hinv : Di.Inv shopOverridden.container := by
    rw [shopOverridden, App.override_container, shopUsed, App.catchRejection_container]
    refine shopServed_inv.step (l := Di.Label.override root conflicting) ?_
    unfold Di.step
    rw [show shopServed.running = none by decide]
    exact if_pos shopServed_inv.tree.pos
  have hquiet : Quiet shopOverridden.container := hinv.quiet (by decide) (by decide)
  have hrun : Run Di.step KeepsProviders (shopOverridden.container.startResolve root 0) resolveLabels shopResolved :=
    Run.of_passes keepsProviders_ok (by decide)
  have hresolved : Quiet shopResolved :=
    ((hinv.step (hinv.step_resolve hquiet 0)).run hrun).quiet (by decide) (by decide)
  have hanswer : isGiven (shopResolved.result shopOverridden.container.calls) = true := by decide
  have hheld : isMade (shopOverridden.container.result 0) = true := by decide
  refine ⟨shop_constructed, shop_get, hthrows, ⟨resolveLabels, shopResolved, hrun, hresolved, ?_⟩, ?_⟩
  · unfold isGiven at hanswer
    split at hanswer
    · assumption
    · cases hanswer
  · rintro ⟨ls, s, hr, -, ha⟩
    have hget : shopOverridden.get 0 = (shopOverridden, 0) := by
      unfold App.get
      rw [if_neg (by decide), show shopOverridden.contextResolutionCache.lookup 0 = some 0 by decide]
    rw [hget] at hr ha
    unfold isMade at hheld
    split at hheld
    · cases (hinv.run_result hr ‹_›).symm.trans ha
    · cases hheld

end Fluo.Runtime.ContextCache
