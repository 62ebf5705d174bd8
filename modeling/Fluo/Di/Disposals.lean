import Fluo.Di.Handovers
/-!
# What a disposal goes through

`dispose` waits for the request scopes and for the stale disposals, takes the entries of the caches, waits until each of them
is settled, and destroys their instances one by one.
-/

namespace Fluo.Di

variable {τ : Type} {s s' : State τ} {c d : ContainerId}

inductive Moves (s s' : State τ) (c : ContainerId) : Prop
  | stays : (s'.container c).disposal = (s.container c).disposal → Moves s s' c
  | starts : (s.container c).disposal.started = false → (s'.container c).disposal = .stale (s.entryPromises c) [] → Moves s s' c
  | awaits {scopes} : c = root → (s.container c).disposal.started = false → (s'.container c).disposal = .children scopes → Moves s s' c
  | gathers {scopes errors} : (s.container c).disposal = .children scopes → (∀ d ∈ scopes, ∃ es, (s.container d).disposal = .settled es) →
      (s'.container c).disposal = .stale (s.entryPromises c) errors → Moves s s' c
  | goesOn {entries errors} : (s.container c).disposal = .stale entries errors → (s'.container c).disposal = .entries entries errors →
      Moves s s' c
  | lists {entries errors values reasons errors'} : (s.container c).disposal = .entries entries errors →
      s.allSettled entries = some (values, reasons) → (s'.container c).disposal = .destroying (disposables values) errors' → Moves s s' c
  | destroys {o rest errors errors'} : (s.container c).disposal = .destroying (o :: rest) errors →
      (s'.container c).disposal = .destroying rest errors' → s'.destroyed = s.destroyed ++ [o] → Moves s s' c
  | ends {errors} : (s.container c).disposal = .destroying [] errors → (s'.container c).disposal = .settled errors →
      (s'.container c).cache = ∅ → Moves s s' c

inductive Handles (s s' : State τ) : Prop
  | call : (∀ c, (s'.container c).disposal = (s.container c).disposal) → s'.destroyed = s.destroyed → Handles s s'
  | moves : (∀ c, Moves s s' c) → s'.promise = s.promise → s'.destroyed = s.destroyed → Handles s s'
  | destroys {c o rest errors errors'} : (s.container c).disposal = .destroying (o :: rest) errors →
      (s'.container c).disposal = .destroying rest errors' → (∀ d, d ≠ c → (s'.container d).disposal = (s.container d).disposal) →
      s'.promise = s.promise → s'.destroyed = s.destroyed ++ [o] → Handles s s'

theorem Handles.move (h : Handles s s') (c : ContainerId) : Moves s s' c := by
  cases h with
  | call hd => exact .stays (hd c)
  | moves hm => exact hm c
  | @destroys d _ _ _ _ hd hd' hother _ hdestroyed =>
    by_cases hc : c = d
    · subst hc
      exact .destroys hd hd' hdestroyed
    · exact .stays (hother c hc)

theorem Handles.mono (h : Handles s s') : ∀ o ∈ s.destroyed, o ∈ s'.destroyed := by
  intro o ho
  cases h with
  | call _ hd | moves _ _ hd => rwa [hd]
  | destroys _ _ _ _ hd => rw [hd]; exact List.mem_append_left _ ho

/-! ## Starting -/

theorem startDisposal_disposal (s : State τ) (c d : ContainerId) : ((s.startDisposal c).container d).disposal =
    if d = c ∧ (s.container d).disposal.started = false then .stale (s.entryPromises d) [] else (s.container d).disposal := by
  unfold State.startDisposal
  dsimp only
  by_cases hdc : d = c
  · subst hdc
    cases hs : (s.container d).disposal.started <;> simp [State.setContainer, State.entryPromises]
  · split <;> simp [State.setContainer, hdc]

theorem entryPromises_startDisposal (s : State τ) (c d : ContainerId) : (s.startDisposal c).entryPromises d = s.entryPromises d := by
  unfold State.entryPromises Container.cacheEntries
  rw [startDisposal_cache]

theorem startAll_disposal (d : ContainerId) : ∀ (cs : List ContainerId) (s : State τ),
    ((cs.foldl State.startDisposal s).container d).disposal =
      if d ∈ cs ∧ (s.container d).disposal.started = false then .stale (s.entryPromises d) [] else (s.container d).disposal := by
  intro cs
  induction cs with
  | nil => intro s; simp
  | cons c cs ih =>
    intro s
    rw [List.foldl_cons, ih, startDisposal_disposal, entryPromises_startDisposal]
    by_cases hdc : d = c
    · subst hdc
      have hstale : (Disposal.stale (s.entryPromises d) [] : Disposal τ).started = true := rfl
      cases hs : (s.container d).disposal.started <;> simp [hs, hstale]
    · simp [hdc]

theorem dispose_moves (ht : s.graph.Tree s.containers) (hc : s.isContainer c) (d : ContainerId) : Moves s (s.dispose c) d := by
  unfold State.dispose
  dsimp only
  split
  · exact .stays rfl
  rename_i hstarted
  have hstarted : (s.container c).disposal.started = false := by simpa using hstarted
  split
  · by_cases h : d = c ∧ (s.container d).disposal.started = false
    · exact .starts h.2 (by rw [startDisposal_disposal, if_pos h])
    · exact .stays (by rw [startDisposal_disposal, if_neg h])
  rename_i hroot
  generalize hu : ({ s.container c with disposed := true, disposal := .children (s.container c).childScopes } : Container τ) = u
  have hdis : u.disposal = .children (s.container c).childScopes := by rw [← hu]
  by_cases hdc : d = c
  · subst hdc
    have hd : ((((s.container d).childScopes.foldl State.startDisposal (s.setContainer d u)).container d).disposal) =
        .children (s.container d).childScopes := by
      rw [startAll_disposal]
      simp [State.setContainer, hdis, Disposal.started]
    refine .awaits ?_ hstarted hd
    by_contra hne
    simp [(ht.requestScopeEnabled hc).2 hne] at hroot
  · have hsame : (s.setContainer c u).container d = s.container d := by simp [State.setContainer, hdc]
    have hentries : (s.setContainer c u).entryPromises d = s.entryPromises d := by rw [State.entryPromises, hsame]; rfl
    by_cases h : d ∈ (s.container c).childScopes ∧ (s.container d).disposal.started = false
    · exact .starts h.2 (by rw [startAll_disposal, hsame, hentries, if_pos h])
    · exact .stays (by rw [startAll_disposal, hsame, if_neg h])

/-! ## Going on -/

theorem allSettled_values {entries : List PromiseId} {values : List Value} {reasons : List (DiError τ)}
    (h : s.allSettled entries = some (values, reasons)) :
    values = entries.filterMap s.valueOf ∧ ∀ q ∈ entries, s.status q ≠ some .pending := by
  induction entries generalizing values reasons with
  | nil => cases h; simp
  | cons q entries ih =>
    rw [State.allSettled] at h
    split at h
    · rename_i x xs es hq hall
      cases h
      obtain ⟨rfl, hsettled⟩ := ih hall
      simpa [State.valueOf, hq, Status.value?] using hsettled
    · rename_i e xs es hq hall
      cases h
      obtain ⟨rfl, hsettled⟩ := ih hall
      simpa [State.valueOf, hq, Status.value?] using hsettled
    · cases h

theorem disposables_values (entries : List PromiseId) :
    disposables (entries.filterMap s.valueOf) = (entries.filterMap s.instanceOf).reverse.dedup := by
  rw [disposables, List.filterMap_filterMap]
  rfl

theorem mapM_settled {scopes : List ContainerId} {errors : List (List (DiError τ))}
    (h : scopes.mapM (fun d => (s.container d).disposal.errors?) = some errors) :
    ∀ d ∈ scopes, ∃ es, (s.container d).disposal = .settled es := by
  induction scopes generalizing errors with
  | nil => nofun
  | cons e scopes ih =>
    simp only [List.mapM_cons, bind, Option.bind_eq_some_iff] at h
    obtain ⟨es, hes, rest, hrest, -⟩ := h
    intro d hd
    rcases List.mem_cons.1 hd with rfl | hd
    · refine ⟨es, ?_⟩
      unfold Disposal.errors? at hes
      split at hes <;> cases hes
      assumption
    · exact ih hrest d hd

theorem disposal_update {u : Container τ} (h : u.disposal = (s.container c).disposal) (d : ContainerId) :
    ((s.setContainer c u).container d).disposal = (s.container d).disposal := by
  by_cases hdc : d = c
  · subst hdc
    simpa [State.setContainer] using h
  · simp [State.setContainer, hdc]

theorem continueDisposal_handles {error : Option Nat} (h : s.continueDisposal c error = some s') : Handles s s' := by
  have hone {u : Container τ} (hs' : s' = s.setContainer c u) (hm : Moves s s' c) : Handles s s' := by
    refine .moves (fun d => ?_) (by rw [hs']; rfl) (by rw [hs']; rfl)
    by_cases hdc : d = c
    · exact hdc ▸ hm
    · exact .stays (by simp [hs', State.setContainer, hdc])
  have hself {u : Container τ} : (s.setContainer c u).container c = u := by simp [State.setContainer]
  unfold State.continueDisposal at h
  dsimp only at h
  split at h
  · rename_i scopes hd
    obtain ⟨errors, herrors, h⟩ := Option.bind_eq_some_iff.1 h
    cases h
    exact hone rfl (.gathers hd (mapM_settled herrors) (by rw [hself]; rfl))
  · rename_i hd
    split at h <;> cases h
    exact hone rfl (.goesOn hd (by rw [hself]))
  · rename_i hd
    obtain ⟨⟨values, reasons⟩, hall, h⟩ := Option.bind_eq_some_iff.1 h
    cases h
    exact hone rfl (.lists hd hall (by rw [hself]))
  · rename_i o rest errors hd
    cases h
    exact .destroys hd (by simp [State.setContainer]; rfl) (fun d hdc => by simp [State.setContainer, hdc]) rfl rfl
  · rename_i errors hd
    cases h
    generalize hu : ({ s.container c with cache := ∅, disposal := .settled errors, trackedByRoot := false } : Container τ) = u
    have hempty : u.cache = ∅ := by rw [← hu]
    have hsettled : u.disposal = .settled errors := by rw [← hu]
    refine .moves (fun d => ?_) ?_ ?_
    · by_cases hdc : d = c
      · subst hdc
        refine .ends hd ?_ ?_
        · split
          · exact (disposal_update (by rfl) d).trans (by rw [hself, hsettled])
          · rw [hself, hsettled]
        · split
          · exact (cache_update (by rfl) d).trans (by rw [hself, hempty])
          · rw [hself, hempty]
      · refine .stays ?_
        split
        · exact (disposal_update (by rfl) d).trans (by simp [State.setContainer, hdc])
        · simp [State.setContainer, hdc]
    · split <;> rfl
    · split <;> rfl
  · cases h

/-! ## Steps -/

section Steps
variable [DecidableEq τ]

theorem register_eq (s : State τ) (c : ContainerId) (ps : List (Provider τ)) : (s.register c ps).1 =
    { s with graph := (s.register c ps).1.graph, nextProvider := (s.register c ps).1.nextProvider } := by
  have hall : ∀ s : State τ, (s.registerAll c ps).1 =
      { s with graph := (s.registerAll c ps).1.graph, nextProvider := (s.registerAll c ps).1.nextProvider } := by
    induction ps with
    | nil => intro s; rfl
    | cons p ps ih =>
      intro s
      simp only [State.registerAll]
      split
      · rfl
      · rename_i s₁ h₁
        obtain ⟨p', -, -, rfl⟩ := registerOne_eq_ok.1 h₁
        rw [ih]
        rfl
  unfold State.register
  split
  · rfl
  · exact hall s

theorem Effect.disposals {ctl : Control τ} {bs bs' : List (Build τ)} {base : State τ} (h : Effect s ctl bs bs' base) :
    base.destroyed = s.destroyed ∧ base.staleTasks = s.staleTasks := by
  cases h with
  | reject => unfold State.reject; split <;> exact ⟨rfl, rfl⟩
  | _ => exact ⟨rfl, rfl⟩

theorem Inv.step_handles (hi : Inv s) {l : Label τ} (hl : s.InOrder l) (htasks : s.staleTasks = []) (hs : Di.step s l = some s') :
    Handles s s' ∧ s'.staleTasks = [] := by
  have hturn {k : CallId} {v : Call τ} (hv : s.call k = some v) (ht : CallStep s k v s') : Handles s s' ∧ s'.staleTasks = [] := by
    obtain ⟨ht⟩ := ht
    obtain ⟨hdestroyed, hstale⟩ := (hi.turn_effect hv ht).disposals
    refine ⟨.call (fun c => ?_) (by rw [goOn_destroyed, hdestroyed]), by rw [goOn_staleTasks, hstale, htasks]⟩
    rw [goOn_container]
    exact (ht.disposal c).2
  cases step_cases hs with
  | @register c ps => exact ⟨.call (fun d => by rw [register_container]) (by rw [register_eq]), by rw [register_eq]; exact htasks⟩
  | override => exact hl.elim
  | createRequestScope => exact ⟨.call (fun _ => rfl) rfl, htasks⟩
  | resolve => exact ⟨.call (fun _ => by rw [startResolve_eq]) (by rw [startResolve_eq]), by rw [startResolve_eq]; exact htasks⟩
  | dispose _ hc => exact ⟨.moves (dispose_moves hi.tree hc) (by rw [dispose_eq]) (by rw [dispose_eq]), by rw [dispose_eq]; exact htasks⟩
  | advance _ hv ht | resume _ hv ht | settle _ hv _ ht => exact hturn hv ht
  | stale _ ht => simp [State.runStale, htasks] at ht
  | disposal _ ht => exact ⟨continueDisposal_handles ht, by rw [continueDisposal_eq ht]; exact htasks⟩

end Steps

end Fluo.Di
