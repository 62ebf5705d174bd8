import Mathlib.Algebra.BigOperators.Group.Finset.Piecewise
import Mathlib.Data.Finset.Lattice.Fold
import Fluo.Di.Deadlock
/-!
# The budget of a call

No token stands twice in the chain of a call, so resolving costs a bounded
number of turns: `r` below is the number of registered tokens that are not in
the chain yet. Every turn uses up some of the budget of its call, and only
`resolve` adds to the budget of the tree.
-/

namespace Fluo.Di

variable {τ : Type} [DecidableEq τ] {s s' base : State τ} {g : Graph τ} {k : CallId} {v w : Call τ} {sync : Bool}

/-! ## Budgets -/

/-- At most `N` tokens are registered, and no inject list or multi provider is
longer than `L`. -/
structure Graph.Bounded (g : Graph τ) (tokens : List τ) (L : Nat) : Prop where
  registered : ∀ c t, (g.lookupProvider c t).isSome ∨ g.collectMultiProviders c t ≠ [] → t ∈ tokens
  inject : ∀ n d p, g.Offers n d p → p.inject.length ≤ L
  multi : ∀ c t, (g.collectMultiProviders c t).length ≤ L

/-- Turns that resolving a token takes, with `r` tokens left that are not in the chain. -/
def resolveCost (L : Nat) : Nat → Nat
  | 0 => 1
  | r + 1 =>
    let W := resolveCost L r
    let M := 5 + W + L * (W + 1)
    3 + L * (M + 1) + M

def multiCost (L r : Nat) : Nat := 5 + resolveCost L r + L * (resolveCost L r + 1)

theorem resolveCost_succ (L r : Nat) : resolveCost L (r + 1) = 3 + L * (multiCost L r + 1) + multiCost L r := rfl

def stackCost (N L : Nat) : List (Frame τ) → Nat
  | [] => 0
  | .chain _ _ :: st => 1 + stackCost N L st
  | .multi _ ps _ :: st => 1 + ps.length * (multiCost L (N - (chainTokens st).length) + 1) + stackCost N L st
  | .build _ _ rest _ _ :: st => 2 + rest.length * (resolveCost L (N - (chainTokens st).length) + 1) + stackCost N L st

def controlCost (L r : Nat) : Control τ → Nat
  | .resolve _ _ _ => resolveCost L r
  | .multi _ _ => multiCost L r
  | .cached _ => 3
  | .fulfilled _ => 2
  | .user | .value _ => 1
  | .rejected _ => 0

def Call.cost (N L : Nat) (v : Call τ) : Nat :=
  stackCost N L v.stack + controlCost L (N - (chainTokens v.stack).length) v.control

section Cost
variable {N L : Nat} {d : ContainerId} {p : NormalizedProvider τ} {promise : Option PromiseId}
  {st st' : List (Frame τ)} {ctl : Control τ}

attribute [local simp] stackCost in
theorem NextDep.cost {rest deps} (h : NextDep g d p promise st rest deps st' ctl sync) :
    stackCost N L st' + controlCost L (N - (chainTokens st').length) ctl <
      4 + rest.length * (resolveCost L (N - (chainTokens st).length) + 1) + stackCost N L st := by
  cases h with
  | done => simp only [stackCost, controlCost, List.length_nil]; omega
  | absent | dep =>
    simp only [stackCost, controlCost, chainTokens_build, List.length_cons, Nat.add_mul]
    omega

theorem Instantiate.cost {classes : JsMap τ (ClassMetadata τ)} (hL : p.inject.length ≤ L)
    (h : Instantiate g classes d p promise st st' ctl sync) :
    stackCost N L st' + controlCost L (N - (chainTokens st').length) ctl <
      multiCost L (N - (chainTokens st).length) + stackCost N L st := by
  unfold multiCost
  cases h with
  | scope | value => simp only [stackCost, controlCost, List.length_nil]; omega
  | deps _ _ hn =>
    have hc := hn.cost (N := N) (L := L)
    have hm := Nat.mul_le_mul_right (resolveCost L (N - (chainTokens st).length) + 1) hL
    omega

end Cost

def Registered (tokens : List τ) (v : Call τ) : Prop := ∀ t ∈ chainTokens v.stack, t ∈ tokens

omit [DecidableEq τ] in
theorem Shape.chain_nodup {st : List (Frame τ)} (h : Shape st) : (chainTokens st).Nodup := by
  induction h with
  | nil => exact List.nodup_nil
  | chain _ ht ih => exact List.nodup_cons.2 ⟨ht, ih⟩
  | multi _ _ ih => exact ih
  | build _ _ ih => exact ih

section Turn
variable {tokens : List τ} {L : Nat}

omit [DecidableEq τ] in
theorem room (hsh : Shape v.stack) (hT : Registered tokens v) {t : τ} (ht : t ∉ chainTokens v.stack) (htok : t ∈ tokens) :
    tokens.length - (chainTokens v.stack).length = tokens.length - ((chainTokens v.stack).length + 1) + 1 := by
  have hsub : t :: chainTokens v.stack ⊆ tokens := List.cons_subset.2 ⟨htok, hT⟩
  have hlen := (List.nodup_cons.2 ⟨ht, hsh.chain_nodup⟩).subperm hsub |>.length_le
  rw [List.length_cons] at hlen
  omega

theorem Graph.Bounded.single (hb : s.graph.Bounded tokens L) {c : ContainerId} {t : τ} {p : NormalizedProvider τ}
    (hp : s.graph.Single c t p) : t ∈ tokens ∧ p.inject.length ≤ L :=
  ⟨hb.registered c t (.inl (by simp [hp.lookup])), hb.inject _ _ _ (.single hp)⟩

theorem Enters.cost (hb : s.graph.Bounded tokens L) (hw : Walks s v) (hsh : Shape v.stack) (hT : Registered tokens v)
    {d key p st} (h : Enters s.graph v d key p st) : p.inject.length ≤ L ∧
      multiCost L (tokens.length - (chainTokens st).length) + stackCost tokens.length L st ≤ v.cost tokens.length L ∧
      ∀ t ∈ chainTokens st, t ∈ tokens := by
  unfold Call.cost
  cases h with
  | single hctl ht hp =>
    obtain ⟨htok, hL⟩ := hb.single hp
    refine ⟨hL, ?_, List.forall_mem_cons.2 ⟨htok, hT⟩⟩
    rw [hctl, room hsh hT ht htok]
    simp only [stackCost, controlCost, chainTokens_chain, List.length_cons, resolveCost_succ]
    omega
  | multi hctl =>
    have hs := hw.control
    rw [hctl] at hs
    obtain ⟨m, _, hs⟩ := hs.site
    refine ⟨hb.inject _ _ _ hs.offers, ?_, hT⟩
    rw [hctl, controlCost]
    omega

theorem EntersTransient.cost (hb : s.graph.Bounded tokens L) (hw : Walks s v) (hsh : Shape v.stack)
    (hT : Registered tokens v) {d p st} (h : EntersTransient s.graph v d p st) : p.inject.length ≤ L ∧
      multiCost L (tokens.length - (chainTokens st).length) + stackCost tokens.length L st ≤ v.cost tokens.length L ∧
      ∀ t ∈ chainTokens st, t ∈ tokens := by
  unfold Call.cost
  cases h with
  | single hctl ht hp =>
    obtain ⟨htok, hL⟩ := hb.single hp
    refine ⟨hL, ?_, List.forall_mem_cons.2 ⟨htok, hT⟩⟩
    rw [hctl, room hsh hT ht htok]
    simp only [stackCost, controlCost, chainTokens_chain, List.length_cons, resolveCost_succ]
    omega
  | multi hctl =>
    have hs := hw.control
    rw [hctl] at hs
    obtain ⟨m, _, hs⟩ := hs.site
    refine ⟨hb.inject _ _ _ hs.offers, ?_, hT⟩
    rw [hctl, controlCost]
    omega

theorem resolveCost_pos (L r : Nat) : 0 < resolveCost L r := by
  cases r with
  | zero => exact Nat.one_pos
  | succ r => rw [resolveCost_succ]; omega

theorem Turn.cost (hb : s.graph.Bounded tokens L) (hw : Walks s v) (hsh : Shape v.stack) (hT : Registered tokens v)
    (h : Turn s v base sync w) : w.cost tokens.length L < v.cost tokens.length L ∧ Registered tokens w := by
  have hpos := resolveCost_pos L (tokens.length - (chainTokens v.stack).length)
  have hmulti : ∀ r, 5 + resolveCost L r ≤ multiCost L r := fun r => by unfold multiCost; omega
  have hpop : ∀ {f st}, v.stack = f :: st → ∀ t ∈ chainTokens st, t ∈ tokens := by
    intro f st hst t ht
    refine hT t ?_
    rw [hst]
    cases f with
    | chain => exact List.mem_cons_of_mem _ ht
    | multi | build => exact ht
  cases h with
  | circular hctl | missing hctl =>
    refine ⟨?_, hT⟩
    simp only [Call.cost, hctl, controlCost]
    omega
  | threw hctl | awaited hctl | awaitedError hctl =>
    refine ⟨?_, hT⟩
    simp only [Call.cost, hctl, controlCost]
    omega
  | @enterMulti c t a p ps hctl ht hr hc =>
    have htok : t ∈ tokens := hb.registered c t (.inr (by rw [hc]; simp))
    have hlen := hb.multi c t
    rw [hc, List.length_cons] at hlen
    refine ⟨?_, List.forall_mem_cons.2 ⟨htok, hT⟩⟩
    simp only [Call.cost, hctl, room hsh hT ht htok, stackCost, controlCost, chainTokens_chain, chainTokens_multi,
      List.length_cons, resolveCost_succ]
    have hm := Nat.mul_le_mul_right
      (multiCost L (tokens.length - ((chainTokens v.stack).length + 1)) + 1) (Nat.le_of_succ_le hlen)
    omega
  | existing hctl ht hp =>
    obtain ⟨htok, _⟩ := hb.single hp
    refine ⟨?_, List.forall_mem_cons.2 ⟨htok, hT⟩⟩
    have hm := hmulti (tokens.length - ((chainTokens v.stack).length + 1))
    simp only [Call.cost, hctl, room hsh hT ht htok, stackCost, controlCost, chainTokens_chain, List.length_cons,
      resolveCost_succ]
    omega
  | existingMulti hctl =>
    refine ⟨?_, hT⟩
    have hm := hmulti (tokens.length - (chainTokens v.stack).length)
    simp only [Call.cost, hctl, controlCost]
    omega
  | transient he hi =>
    obtain ⟨hL, hle, htoks⟩ := he.cost hb hw hsh hT
    refine ⟨Nat.lt_of_lt_of_le (hi.cost hL) hle, ?_⟩
    obtain ⟨⟨rest, deps, rfl⟩, _⟩ := hi.stack
    exact htoks
  | hit hctl ht hp =>
    refine ⟨?_, hT⟩
    simp only [Call.cost, hctl, room hsh hT ht (hb.single hp).1, controlCost, resolveCost_succ]
    have hm := hmulti (tokens.length - ((chainTokens v.stack).length + 1))
    omega
  | outside he | wait he =>
    obtain ⟨_, hle, htoks⟩ := he.cost hb hw hsh hT
    refine ⟨Nat.lt_of_lt_of_le ?_ hle, htoks⟩
    simp only [Call.cost, controlCost, multiCost]
    omega
  | build he _ _ hi =>
    obtain ⟨hL, hle, htoks⟩ := he.cost hb hw hsh hT
    refine ⟨Nat.lt_of_lt_of_le (hi.cost hL) hle, ?_⟩
    obtain ⟨⟨rest, deps, rfl⟩, _⟩ := hi.stack
    exact htoks
  | value hctl hst | leaveChain hctl hst | multiDone hctl hst | fail hctl hst | created hctl hst | returned hctl hst =>
    refine ⟨?_, hpop hst⟩
    simp only [Call.cost, hctl, hst, stackCost, controlCost, List.length_nil]
    omega
  | @unwind e f st hctl hst hf =>
    refine ⟨?_, hpop hst⟩
    cases f with
    | chain | multi =>
      simp only [Call.cost, hctl, hst, stackCost, controlCost]
      omega
    | build => exact absurd rfl (hf _ _ _ _ _)
  | multiNext hctl hst =>
    refine ⟨?_, fun t ht => hT t (by rw [hst]; exact ht)⟩
    simp only [Call.cost, hctl, hst, stackCost, controlCost, chainTokens_multi, List.length_cons, Nat.add_mul]
    omega
  | nextDep hctl hst hn =>
    refine ⟨?_, ?_⟩
    · have hc := hn.cost (N := tokens.length) (L := L)
      simp only [Call.cost, hctl, hst, stackCost]
      rw [controlCost]
      omega
    · obtain ⟨⟨rest, deps, rfl⟩, _⟩ := hn.stack
      intro t ht
      exact hpop hst t ht

end Turn

/-! ## The budget of the tree -/

def State.budget (N L : Nat) (s : State τ) : Nat :=
  ∑ k ∈ Finset.range s.calls, ((s.call k).map (Call.cost N L)).getD 0

theorem budget_turn (hi : Inv s) (hv : s.call k = some v) (ht : Turn s v base sync w) (N L : Nat) :
    (base.goOn sync k w).budget N L + v.cost N L = s.budget N L + w.cost N L := by
  have he := hi.turn_effect hv ht
  have hk : k ∈ Finset.range s.calls := Finset.mem_range.2 (hi.callBound k v hv)
  have hupdate : ∀ j, ((Function.update s.call k (some w) j).map (Call.cost N L)).getD 0 =
      Function.update (fun j => ((s.call j).map (Call.cost N L)).getD 0) k (w.cost N L) j := by
    intro j
    by_cases hj : j = k
    · subst hj; simp
    · simp [hj]
  simp only [State.budget, goOn_calls, goOn_call, he.calls, he.call, hupdate]
  rw [Finset.sum_update_of_mem hk, Finset.sum_eq_add_sum_sdiff_singleton_of_mem hk]
  simp only [hv, Option.map_some, Option.getD_some]
  omega

omit [DecidableEq τ] in
theorem budget_startResolve (s : State τ) (c : ContainerId) (t : τ) (N L : Nat) :
    (s.startResolve c t).budget N L ≤ s.budget N L + resolveCost L N := by
  obtain ⟨ctl, hctl, hcall⟩ : ∃ ctl, controlCost L N ctl ≤ resolveCost L N ∧
      (s.startResolve c t).call = Function.update s.call s.calls (some ⟨c, t, [], ctl⟩) := by
    unfold State.startResolve
    dsimp only
    split
    · exact ⟨_, Nat.zero_le _, rfl⟩
    · exact ⟨_, Nat.le_refl _, rfl⟩
  have hrest : ∀ j ∈ Finset.range s.calls, (((s.startResolve c t).call j).map (Call.cost N L)).getD 0 =
      ((s.call j).map (Call.cost N L)).getD 0 := fun j hj => by
    rw [hcall, Function.update_of_ne (Nat.ne_of_lt (Finset.mem_range.1 hj))]
  have hcalls : (s.startResolve c t).calls = s.calls + 1 := by rw [startResolve_eq]
  simp only [State.budget, hcalls, Finset.sum_range_succ, Finset.sum_congr rfl hrest]
  rw [hcall]
  simpa [Call.cost, stackCost, chainTokens] using hctl

def Label.gain (N L : Nat) : Label τ → Nat
  | .resolve _ _ => resolveCost L N + 1
  | _ => 0

structure Budgeted (g : Graph τ) (tokens : List τ) (s : State τ) : Prop where
  inv : Inv s
  walking : Walking s
  graph : s.graph = g
  registered : ∀ k v, s.call k = some v → Registered tokens v

theorem Budgeted.turn {tokens : List τ} {L : Nat} (hb : g.Bounded tokens L) (h : Budgeted g tokens s)
    (hv : s.call k = some v) (ht : Turn s v base sync w) :
    (base.goOn sync k w).graph = g ∧ (∀ j u, (base.goOn sync k w).call j = some u → Registered tokens u) ∧
      (base.goOn sync k w).budget tokens.length L + 1 ≤ s.budget tokens.length L := by
  have he := h.inv.turn_effect hv ht
  have hb' : s.graph.Bounded tokens L := by rw [h.graph]; exact hb
  obtain ⟨hlt, hreg⟩ := ht.cost hb' (h.walking.walks k v hv) (h.inv.shape k v hv).1 (h.registered k v hv)
  refine ⟨by rw [goOn_graph, he.graph.1, h.graph], fun j u hu => ?_, ?_⟩
  · rw [goOn_call, he.call] at hu
    by_cases hj : j = k
    · subst hj
      obtain rfl : w = u := by simpa using hu
      exact hreg
    · rw [Function.update_of_ne hj] at hu
      exact h.registered j u hu
  · have := budget_turn h.inv hv ht tokens.length L
    omega

theorem Budgeted.step {tokens : List τ} {L : Nat} (hb : g.Bounded tokens L) (h : Budgeted g tokens s) {l : Label τ}
    (hc : Careful s l) (hs : Di.step s l = some s') : Budgeted g tokens s' ∧
      s'.budget tokens.length L + 1 ≤ s.budget tokens.length L + l.gain tokens.length L := by
  have hi := h.inv.step hs
  have hw := h.walking.step h.inv hc hs
  have hturn : ∀ {k v}, s.call k = some v → CallStep s k v s' →
      Budgeted g tokens s' ∧ s'.budget tokens.length L + 1 ≤ s.budget tokens.length L := by
    rintro k v hv ⟨ht⟩
    obtain ⟨hg, hr, hle⟩ := h.turn hb hv ht
    exact ⟨⟨hi, hw, hg, hr⟩, hle⟩
  cases step_cases hs with
  | @resolve c t =>
    refine ⟨⟨hi, hw, by rw [startResolve_eq]; exact h.graph, fun j u hu => ?_⟩, ?_⟩
    · have hnew : u.stack = [] ∨ s.call j = some u := by
        unfold State.startResolve at hu
        dsimp only at hu
        by_cases hj : j = s.calls
        · subst hj
          split at hu <;> simp only [State.setCall, Function.update_self, Option.some.injEq] at hu <;> subst hu <;>
            exact .inl rfl
        · split at hu <;> exact .inr ((Function.update_of_ne hj _ _).symm.trans hu)
      rcases hnew with hu | hu
      · intro t ht
        rw [hu] at ht
        cases ht
      · exact h.registered j u hu
    · have := budget_startResolve s c t tokens.length L
      simp only [Label.gain]
      omega
  | advance _ hv ht | resume _ hv ht | settle _ hv _ ht =>
    obtain ⟨h₁, h₂⟩ := hturn hv ht
    exact ⟨h₁, Nat.le_add_right_of_le h₂⟩
  | register | override | createRequestScope | dispose | stale | disposal => exact hc.elim

/-! ## Finite graphs -/

theorem Graph.Offers.mem {n : Node τ} {d : ContainerId} {p : NormalizedProvider τ} (h : g.Offers n d p) :
    p ∈ g.providersOf n.1 n.2 := by
  unfold Graph.providersOf
  cases h with
  | single hp => simp [hp.lookup]
  | multi _ hm => exact List.mem_append_right _ hm

theorem Graph.Finite.bounded {n : Nat} (h : g.Finite n) : ∃ L, g.Bounded (g.tokens n) L := by
  let f : Node τ → Nat := fun m =>
    (g.providersOf m.1 m.2).toFinset.sup (·.inject.length) + (g.collectMultiProviders m.1 m.2).length
  let nodes : Finset (Node τ) := Finset.range n ×ˢ (g.tokens n).toFinset
  have hf : ∀ m, g.providersOf m.1 m.2 ≠ [] → f m ≤ nodes.sup f := fun m hm => by
    obtain ⟨hc, ht⟩ := h.providersOf hm
    exact Finset.le_sup (Finset.mem_product.2 ⟨Finset.mem_range.2 hc, List.mem_toFinset.2 ht⟩)
  refine ⟨nodes.sup f, fun c t ht => ?_, fun m d p ho => ?_, fun c t => ?_⟩
  · rcases ht with ht | ht
    · obtain ⟨p, hp⟩ := Option.isSome_iff_exists.1 ht
      exact h.lookup hp
    · exact h.collect ht
  · have hm := ho.mem
    refine Nat.le_trans ?_ (hf m (List.ne_nil_of_mem hm))
    exact Nat.le_add_right_of_le (Finset.le_sup (f := (·.inject.length)) (List.mem_toFinset.2 hm))
  · by_cases hc : g.collectMultiProviders c t = []
    · rw [hc]; exact Nat.zero_le _
    · refine Nat.le_trans (Nat.le_add_left _ _) (hf (c, t) ?_)
      unfold Graph.providersOf
      simp [hc]

end Fluo.Di
