import Fluo.Di.Nodes
/-!
# Calls walk the graph

A turn keeps a call's stack typed and its control in step with the stack, as
long as a promise that it takes from a cache constructs the provider it looked
up. A call that returns has then walked a well-founded part of the graph.
-/

namespace Fluo.Di

open Relation (ReflTransGen TransGen)

variable {τ : Type} [DecidableEq τ] {s s' base : State τ} {g : Graph τ} {k : CallId} {v w : Call τ} {sync : Bool}

/-! ## What the loops do next -/

section Next
variable {n : Node τ} {d : ContainerId} {p : NormalizedProvider τ} {promise : Option PromiseId}
  {st st' : List (Frame τ)} {ctl : Control τ}

theorem NextDep.controlled {rest done deps} (h : NextDep s.graph d p promise st rest deps st' ctl sync)
    (hp : p.Constructed) (hi : p.inject = done ++ rest) (hd : ∀ e ∈ done, s.graph.EntryFounded d e) :
    Controlled s n st' ctl := by
  cases h with
  | done => exact .user (by rw [hi, List.append_nil]; exact hd)
  | absent hh =>
    refine .fulfilled (.absent hp hi hd fun hf => ?_)
    rw [hf _ rfl] at hh
    cases hh
  | dep hf => exact .resolve (.dep hp hi hd hf)

theorem Instantiate.walks {m : Node τ} (h : Instantiate s.graph s.classes d p promise st st' ctl sync)
    (hst : Typed s.graph n st) (hs : Site s.graph st m d p) (hne : ∀ t, p.type ≠ .existing t) :
    Typed s.graph n st' ∧ Controlled s n st' ctl := by
  obtain ⟨⟨rest, deps, rfl⟩, _⟩ := h.stack
  refine ⟨.build hst hs hne, ?_⟩
  cases h with
  | scope => exact .rejected
  | value hp => exact .value hp
  | deps _ hv hn => exact hn.controlled ⟨hne, hv⟩ (List.nil_append _).symm (by simp)

theorem Controlled.wants {c : ContainerId} {t : τ} {a : Bool} (h : Controlled s n st (.resolve c t a)) :
    Wants s.graph n st (c, t) := by
  cases h; assumption

theorem Controlled.delivered {x : Value} (h : Controlled s n st (.fulfilled x)) : Delivered s.graph n st := by
  cases h; assumption

theorem Controlled.site {c : ContainerId} (h : Controlled s n st (.multi c p)) : ∃ m : Node τ, m.1 = c ∧
    Site s.graph st m (if p.scope = .transient then c else s.graph.multiSite c p) p := by
  cases h with
  | multi hs =>
    cases hs with
    | multi hr hcoll hdone => exact ⟨_, rfl, .multi hr hcoll hdone⟩

theorem Enters.site {key : CacheKey τ} (h : Enters s.graph v d key p st) (hv : Typed s.graph n v.stack)
    (hc : Controlled s n v.stack v.control) :
    Typed s.graph n st ∧ (∃ m, Site s.graph st m d p) ∧ (∀ t, p.type ≠ .existing t) ∧ p.scope ≠ .transient := by
  cases h with
  | @single c t a _ hctl ht hp hne hsc =>
    rw [hctl] at hc
    have hs : Site s.graph (.chain _ _ :: v.stack) _ _ _ := .single hp
    rw [if_neg hsc] at hs
    exact ⟨.chain hv hc.wants, ⟨_, hs⟩, hne, hsc⟩
  | @multi c _ hctl hne hsc =>
    rw [hctl] at hc
    obtain ⟨m, _, hs⟩ := hc.site
    rw [if_neg hsc] at hs
    exact ⟨hv, ⟨m, hs⟩, hne, hsc⟩

theorem EntersTransient.site (h : EntersTransient s.graph v d p st) (hv : Typed s.graph n v.stack)
    (hc : Controlled s n v.stack v.control) :
    Typed s.graph n st ∧ (∃ m, Site s.graph st m d p) ∧ ∀ t, p.type ≠ .existing t := by
  cases h with
  | single hctl ht hp hne hsc =>
    rw [hctl] at hc
    have hs : Site s.graph (.chain _ _ :: v.stack) _ _ _ := .single hp
    rw [if_pos hsc] at hs
    exact ⟨.chain hv hc.wants, ⟨_, hs⟩, hne⟩
  | multi hctl hne hsc =>
    rw [hctl] at hc
    obtain ⟨m, _, hs⟩ := hc.site
    rw [if_pos hsc] at hs
    exact ⟨hv, ⟨m, hs⟩, hne⟩

end Next

/-! ## Turns -/

structure Walks (s : State τ) (v : Call τ) : Prop where
  stack : Typed s.graph (v.container, v.token) v.stack
  control : Controlled s (v.container, v.token) v.stack v.control

/-- A promise that the call takes from a cache constructs the provider it looked up. -/
def TakesOwn (s : State τ) (v : Call τ) : Prop := ∀ d key p st q, Enters s.graph v d key p st →
  s.cached d key = some q → ∀ r, s.promise q = some r → r.provider = p

variable {p : NormalizedProvider τ} {q : PromiseId} {n : Node τ}

omit [DecidableEq τ] in
theorem State.Constructs.mono {d : ContainerId} (h : s.Constructs q d p)
    (hp : ∀ q r, s.promise q = some r → ∃ r', s'.promise q = some r' ∧ r'.container = r.container ∧ r'.provider = r.provider) :
    s'.Constructs q d p := by
  obtain ⟨r, hr, rfl, rfl⟩ := h
  exact hp q r hr

theorem Controlled.mono {st : List (Frame τ)} {ctl : Control τ} (h : Controlled s n st ctl)
    (hg : s'.graph = s.graph)
    (hp : ∀ q r, s.promise q = some r → ∃ r', s'.promise q = some r' ∧ r'.container = r.container ∧ r'.provider = r.provider) :
    Controlled s' n st ctl := by
  cases h with
  | resolve hw => exact .resolve (by rwa [hg])
  | multi hs => exact .multi (by rwa [hg])
  | hit hw hs hne hsc hc => exact .hit (by rwa [hg]) (by rwa [hg]) hne hsc (by rw [hg]; exact hc.mono hp)
  | wait hs hne hc => exact .wait (by rwa [hg]) hne (hc.mono hp)
  | user hd => exact .user (by rwa [hg])
  | value ht => exact .value ht
  | fulfilled hd => exact .fulfilled (by rwa [hg])
  | rejected => exact .rejected

theorem PromisesFounded.provider (h : PromisesFounded s) {x : Value} {d : ContainerId}
    (hq : s.status q = some (.fulfilled x)) (hc : s.Constructs q d p)
    (hne : ∀ t, p.type ≠ .existing t) : s.graph.ProviderFounded n d p := by
  obtain ⟨r, hr, rfl, rfl⟩ := hc
  refine ⟨fun t ht => absurd ht (hne t), h q r hr x ?_⟩
  simpa [State.status, hr] using hq

theorem Controlled.awaited {st : List (Frame τ)} {x : Value}
    (h : Controlled s n st (.cached q)) (hp : PromisesFounded s) (hq : s.status q = some (.fulfilled x)) :
    Delivered s.graph n st := by
  cases h with
  | hit hw hs hne hsc hcon =>
    refine .node hw (hs.founded ?_)
    rw [if_neg hsc]
    exact hp.provider hq hcon hne
  | wait hs hne hcon => exact .provider hs (hp.provider hq hcon hne)

theorem Walks.turn (h : Walks s v) (hp : PromisesFounded s) (hwf : WF s) (hown : TakesOwn s v)
    (hbase : base.graph = s.graph) (hconstructs : ∀ q d p, s.Constructs q d p → base.Constructs q d p)
    (ht : Turn s v base sync w) : Walks base w := by
  obtain ⟨hst, hc⟩ := h
  have htaken : ∀ {d key p st q}, Enters s.graph v d key p st → s.cached d key = some q → base.Constructs q d p := by
    intro d key p st q he hq
    obtain ⟨r, hr, hd, _, _⟩ := hwf.cached d key q hq
    exact hconstructs q d p ⟨r, hr, hd, hown d key p st q he hq r hr⟩
  have hwant : ∀ {c t a}, v.control = .resolve c t a → Wants s.graph (v.container, v.token) v.stack (c, t) := by
    intro c t a hctl
    rw [hctl] at hc
    exact hc.wants
  have hdelivered : ∀ {x}, v.control = .fulfilled x → Delivered s.graph (v.container, v.token) v.stack := by
    intro x hctl
    rw [hctl] at hc
    exact hc.delivered
  -- the node is delivered on top of the stack below the construction
  have hbuilt : ∀ {d p rest deps promise st}, v.stack = .build d p rest deps promise :: st →
      (p.Constructed → ∀ e ∈ p.inject, s.graph.EntryFounded d e) →
      Typed s.graph (v.container, v.token) st ∧ Delivered s.graph (v.container, v.token) st := by
    intro d p rest deps promise st hstack hf
    rw [hstack] at hst
    cases hst with
    | build hst hs hne => exact ⟨hst, .provider hs ⟨fun t ht => absurd ht (hne t), hf⟩⟩
  have huser : ∀ {d p rest deps promise st}, v.control = .user → v.stack = .build d p rest deps promise :: st →
      ∀ e ∈ p.inject, s.graph.EntryFounded d e := by
    intro d p rest deps promise st hctl hstack
    rw [hctl, hstack] at hc
    cases hc with
    | user hd => exact hd
  cases ht with
  | circular | missing | threw => exact ⟨by rwa [hbase], .rejected⟩
  | awaitedError => exact ⟨by rwa [hbase], .rejected⟩
  | enterMulti hctl ht hr hcoll =>
    refine ⟨?_, ?_⟩
    · rw [hbase]; exact .multi (.chain hst (hwant hctl)) hr
    · exact .multi (.multi hr (show _ = [] ++ _ from hcoll) (fun _ hp => nomatch hp))
  | existing hctl ht hs htype =>
    refine ⟨.chain hst (hwant hctl), .resolve ?_⟩
    exact Wants.existing (Site.single hs) htype
  | existingMulti hctl htype =>
    rw [hctl] at hc
    obtain ⟨m, rfl, hs⟩ := hc.site
    exact ⟨hst, .resolve (Wants.existing hs htype)⟩
  | transient he hi =>
    obtain ⟨hst', ⟨m, hs⟩, hne⟩ := he.site hst hc
    obtain ⟨h₁, h₂⟩ := hi.walks hst' hs hne
    exact ⟨h₁, h₂⟩
  | hit hctl ht hs hne hsc hq =>
    have he : Enters s.graph v _ _ _ _ := .single hctl ht hs hne (by rw [hsc]; decide)
    exact ⟨hst, .hit (hwant hctl) hs hne (by rw [hsc]; decide) (htaken he hq)⟩
  | outside he => exact ⟨(he.site hst hc).1, .rejected⟩
  | wait he hq =>
    obtain ⟨hst', ⟨m, hs⟩, hne, _⟩ := he.site hst hc
    refine ⟨by rw [hbase]; exact hst', .wait (m := m) ?_ hne (htaken he hq)⟩
    rw [hbase]
    exact hs
  | build he _ _ hi =>
    obtain ⟨hst', ⟨m, hs⟩, hne, _⟩ := he.site hst hc
    obtain ⟨h₁, h₂⟩ := Instantiate.walks (s := s.allocate _ _ _) hi hst' hs hne
    exact ⟨h₁, h₂⟩
  | awaited hctl hq =>
    rw [hctl] at hc
    exact ⟨hst, .fulfilled (hc.awaited hp hq)⟩
  | value hctl hstack =>
    have htype := hc
    rw [hctl, hstack] at htype
    cases htype with
    | value htype =>
      obtain ⟨h₁, h₂⟩ := hbuilt hstack fun hcon => absurd htype (hcon.notValue _)
      exact ⟨by rw [hbase]; exact h₁, .fulfilled (by rw [hbase]; exact h₂)⟩
  | leaveChain hctl hstack =>
    have hd := hdelivered hctl
    rw [hstack] at hd hst
    cases hst with
    | chain hst hw =>
      refine ⟨hst, ?_⟩
      show Controlled s _ _ v.control
      rw [hctl]
      exact .fulfilled (.node hw hd.chain)
  | multiDone hctl hstack =>
    have hd := hdelivered hctl
    rw [hstack] at hd hst
    cases hst with
    | multi hst hr' =>
      obtain ⟨done, hcoll, hne, hr, hf⟩ := hd.multi
      rw [List.append_nil] at hcoll
      refine ⟨hst, .fulfilled (.token (Graph.founded_multi hr (by rw [hcoll]; exact hne) ?_))⟩
      rw [hcoll]
      exact hf
  | multiNext hctl hstack =>
    have hd := hdelivered hctl
    rw [hstack] at hd hst
    cases hst with
    | multi hst hr' =>
      obtain ⟨done, hcoll, _, hr, hf⟩ := hd.multi
      exact ⟨.multi hst hr, .multi (.multi hr hcoll hf)⟩
  | nextDep hctl hstack hn =>
    have hd := hdelivered hctl
    rw [hstack] at hd hst
    obtain ⟨hcon, done, hi, hf⟩ := hd.build
    obtain ⟨⟨rest, deps, rfl⟩, _⟩ := hn.stack
    cases hst with
    | build hst hs hne => exact ⟨.build hst hs hne, hn.controlled hcon hi hf⟩
  | fail hctl hstack =>
    rw [hstack] at hst
    refine ⟨by rw [hbase]; exact hst.tail, ?_⟩
    show Controlled _ _ _ v.control
    rw [hctl]
    exact .rejected
  | unwind hctl hstack =>
    rw [hstack] at hst
    refine ⟨hst.tail, ?_⟩
    show Controlled _ _ _ v.control
    rw [hctl]
    exact .rejected
  | created hctl hstack =>
    obtain ⟨h₁, h₂⟩ := hbuilt hstack fun _ => huser hctl hstack
    exact ⟨by rw [hbase]; exact h₁, .fulfilled (by rw [hbase]; exact h₂)⟩
  | returned hctl hstack =>
    obtain ⟨h₁, h₂⟩ := hbuilt hstack fun _ => huser hctl hstack
    exact ⟨by rw [hbase]; exact h₁, .fulfilled (by rw [hbase]; exact h₂)⟩

end Fluo.Di
