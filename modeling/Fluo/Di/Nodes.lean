import Fluo.Di.Keeps
/-!
# The graph a call walks

A node is a token on the container that resolves it. `Offers` says which
provider a node stands for and on which container it is constructed, and
`Edge` which nodes its resolution resolves in turn. A stack is `Typed` when
each frame does what the frame below it wants; every promise under
construction in a stack is then above the node that the call resolves now.
-/

namespace Fluo.Di

open Relation (ReflTransGen TransGen)

variable {τ : Type} [DecidableEq τ] {s s' base : State τ} {g : Graph τ} {k : CallId} {v w : Call τ} {sync : Bool}

abbrev Node (τ : Type) := ContainerId × τ

/-- A provider that is constructed rather than followed or read. -/
structure NormalizedProvider.Constructed (p : NormalizedProvider τ) : Prop where
  notAlias : ∀ t, p.type ≠ .existing t
  notValue : ∀ o, p.type ≠ .value o

/-- Resolving node `n` takes provider `p` on container `d`. -/
inductive Graph.Offers (g : Graph τ) : Node τ → ContainerId → NormalizedProvider τ → Prop
  | single {c t p} : g.Single c t p → Graph.Offers g (c, t) (if p.scope = .transient then c else g.singleSite c p) p
  | multi {c t p} : g.registration c t = none → p ∈ g.collectMultiProviders c t →
      Graph.Offers g (c, t) (if p.scope = .transient then c else g.multiSite c p) p

/-- The entry is resolved, not skipped as an absent optional one. -/
def Graph.Follows (g : Graph τ) (d : ContainerId) (e : InjectToken τ) : Prop := ∀ t, e = .optional t → g.has d t = true

/-- Resolving the first node resolves the second one. -/
inductive Graph.Edge (g : Graph τ) : Node τ → Node τ → Prop
  | existing {n d p t} : g.Offers n d p → p.type = .existing t → Graph.Edge g n (n.1, t)
  | dep {n d p e} : g.Offers n d p → p.Constructed → e ∈ p.inject → g.Follows d e → Graph.Edge g n (d, e.target)

/-- A node is well-founded: no path of edges from it is infinite. -/
def Graph.Founded (g : Graph τ) (n : Node τ) : Prop := Acc (fun m n => g.Edge n m) n

/-- The node reaches a cycle of the graph. -/
def Graph.Cyclic (g : Graph τ) (n : Node τ) : Prop := ∃ m, ReflTransGen g.Edge n m ∧ TransGen g.Edge m m

variable {n : Node τ} {d c : ContainerId} {p : NormalizedProvider τ} {st : List (Frame τ)}

theorem Graph.Founded.not_cyclic (h : g.Founded n) : ¬ g.Cyclic n := by
  rintro ⟨m, hnm, hmm⟩
  have hm : ∀ {m}, ReflTransGen g.Edge n m → g.Founded m := by
    intro m hnm
    induction hnm with
    | refl => exact h
    | tail _ he ih => exact ih.inv he
  have hf := hm hnm
  induction hf with
  | intro m _ ih =>
    -- the cycle through `m` is one through its first successor
    obtain ⟨m', he, hp⟩ := TransGen.head'_iff.1 hmm
    exact ih m' he (hnm.tail he) (.tail' hp he)

/-- Node `n` is a transitive dependency of `p`, which is constructed on `d`. -/
def Graph.Below (g : Graph τ) (d : ContainerId) (p : NormalizedProvider τ) (n : Node τ) : Prop :=
  p.Constructed ∧ ∃ e ∈ p.inject, g.Follows d e ∧ ReflTransGen g.Edge (d, e.target) n

theorem Graph.Below.tail {m : Node τ} (h : g.Below d p n)
    (he : g.Edge n m) : g.Below d p m := by
  obtain ⟨hp, e, hm, hf, hn⟩ := h
  exact ⟨hp, e, hm, hf, hn.tail he⟩

theorem Graph.Below.trans {d' : ContainerId} {p' : NormalizedProvider τ} {m : Node τ} (h : g.Below d p n)
    (ho : g.Offers n d' p') (h' : g.Below d' p' m) : g.Below d p m := by
  obtain ⟨hp, e, hm, hf, hn⟩ := h
  obtain ⟨hp', e', hm', hf', hn'⟩ := h'
  exact ⟨hp, e, hm, hf, (hn.tail (.dep ho hp' hm' hf')).trans hn'⟩

/-! ## Typed stacks -/

def Graph.EntryFounded (g : Graph τ) (d : ContainerId) (e : InjectToken τ) : Prop := g.Follows d e → g.Founded (d, e.target)

/-- Everything that provider `p` of node `n`, constructed on `d`, resolves is founded. -/
structure Graph.ProviderFounded (g : Graph τ) (n : Node τ) (d : ContainerId) (p : NormalizedProvider τ) : Prop where
  existing : ∀ t, p.type = .existing t → g.Founded (n.1, t)
  deps : p.Constructed → ∀ e ∈ p.inject, g.EntryFounded d e

/-- The stack is about to take provider `p` of node `n` on container `d`; of a
multi provider, what came before it has been resolved. -/
inductive Site (g : Graph τ) : List (Frame τ) → Node τ → ContainerId → NormalizedProvider τ → Prop
  | single {c t p st} : g.Single c t p →
      Site g (.chain c t :: st) (c, t) (if p.scope = .transient then c else g.singleSite c p) p
  | multi {c t p done ps xs st} : g.registration c t = none → g.collectMultiProviders c t = done ++ p :: ps →
      (∀ p' ∈ done, g.ProviderFounded (c, t) (if p'.scope = .transient then c else g.multiSite c p') p') →
      Site g (.multi c ps xs :: .chain c t :: st) (c, t) (if p.scope = .transient then c else g.multiSite c p) p

theorem Site.offers
    (h : Site g st n d p) : g.Offers n d p := by
  cases h with
  | single hp => exact .single hp
  | multi hr hc => exact .multi hr (by rw [hc]; simp)

/-- The top frame of the stack waits for node `m`; the call is for node `n`. -/
inductive Wants (g : Graph τ) (n : Node τ) : List (Frame τ) → Node τ → Prop
  | start : Wants g n [] n
  | existing {st m d p t} : Site g st m d p → p.type = .existing t → Wants g n st (m.1, t)
  | dep {d p done e rest deps promise st} : p.Constructed → p.inject = done ++ e :: rest →
      (∀ e' ∈ done, g.EntryFounded d e') → g.Follows d e →
      Wants g n (.build d p rest deps promise :: st) (d, e.target)

inductive Typed (g : Graph τ) (n : Node τ) : List (Frame τ) → Prop
  | nil : Typed g n []
  | chain {c t st} : Typed g n st → Wants g n st (c, t) → Typed g n (.chain c t :: st)
  | multi {c t ps xs st} : Typed g n (.chain c t :: st) → g.registration c t = none →
      Typed g n (.multi c ps xs :: .chain c t :: st)
  | build {d p rest deps promise st m} : Typed g n st → Site g st m d p → (∀ t, p.type ≠ .existing t) →
      Typed g n (.build d p rest deps promise :: st)

def topNode : List (Frame τ) → Option (Node τ)
  | .chain c t :: _ => some (c, t)
  | .multi _ _ _ :: .chain c t :: _ => some (c, t)
  | _ => none

theorem Site.topNode
    (h : Site g st n d p) : topNode st = some n := by
  cases h <;> rfl

theorem Typed.above (h : Typed g n st) : ∀ b ∈ builds st,
    (∀ m, Wants g n st m → g.Below b.1 b.2.1 m) ∧ ∀ m, topNode st = some m → g.Below b.1 b.2.1 m := by
  induction h with
  | nil => simp
  | @chain c t st _ hw ih =>
    intro b hb
    have ht := (ih b hb).1 _ hw
    refine ⟨fun m hm => ?_, fun m hm => by cases hm; exact ht⟩
    cases hm with
    | existing hs htype =>
      cases hs with
      | single hp => exact ht.tail (.existing (.single hp) htype)
  | @multi c t ps xs st _ hr ih =>
    intro b hb
    have ht := (ih b hb).2 _ rfl
    refine ⟨fun m hm => ?_, fun m hm => by cases hm; exact ht⟩
    cases hm with
    | existing hs htype =>
      have := hs.offers
      cases hs with
      | multi => exact ht.tail (.existing this htype)
  | @build d p rest deps promise st m hst hs hne ih =>
    intro b hb
    refine ⟨fun m' hm => ?_, fun m' hm => by cases hm⟩
    cases hm with
    | existing hs' => cases hs'
    | @dep _ _ done e _ _ _ _ hp hi hd hf =>
      have he : e ∈ p.inject := by rw [hi]; exact List.mem_append_right _ List.mem_cons_self
      have hold : ∀ b ∈ builds st, g.Below b.1 b.2.1 (d, e.target) := fun b hb =>
        ((ih b hb).2 _ hs.topNode).tail (.dep hs.offers hp he hf)
      cases promise with
      | none => exact hold b hb
      | some q =>
        rcases List.mem_cons.1 hb with rfl | hb
        · exact ⟨hp, e, he, hf, .refl⟩
        · exact hold b hb

theorem Typed.tail {f : Frame τ} (h : Typed g n (f :: st)) : Typed g n st := by
  cases h <;> assumption

/-! ## Founded nodes -/

theorem Graph.Single.founded {t : τ} (hp : g.Single c t p)
    (h : g.ProviderFounded (c, t) (if p.scope = .transient then c else g.singleSite c p) p) : g.Founded (c, t) := by
  have honly : ∀ {d p'}, g.Offers (c, t) d p' → p' = p ∧ d = if p.scope = .transient then c else g.singleSite c p := by
    intro d p' ho
    cases ho with
    | single hp' =>
      obtain rfl := Option.some.inj (hp'.lookup.symm.trans hp.lookup)
      exact ⟨rfl, rfl⟩
    | multi hr hm => rw [hp.notMulti hr] at hm; cases hm
  refine .intro _ fun m he => ?_
  cases he with
  | existing ho htype =>
    obtain ⟨rfl, rfl⟩ := honly ho
    exact h.existing _ htype
  | dep ho hc he hf =>
    obtain ⟨rfl, rfl⟩ := honly ho
    exact h.deps hc _ he hf

theorem Graph.founded_multi {t : τ} (hr : g.registration c t = none)
    (hne : g.collectMultiProviders c t ≠ []) (h : ∀ p ∈ g.collectMultiProviders c t,
      g.ProviderFounded (c, t) (if p.scope = .transient then c else g.multiSite c p) p) : g.Founded (c, t) := by
  refine .intro _ fun m he => ?_
  cases he with
  | existing ho htype =>
    cases ho with
    | single hp => exact absurd (hp.notMulti hr) hne
    | multi _ hm => exact (h _ hm).existing _ htype
  | dep ho hc he hf =>
    cases ho with
    | single hp => exact absurd (hp.notMulti hr) hne
    | multi _ hm => exact (h _ hm).deps hc _ he hf

/-! ## Typed controls -/

/-- The top frame of the stack has got what it waited for, and that is founded. -/
inductive Delivered (g : Graph τ) (n : Node τ) : List (Frame τ) → Prop
  | node {st m} : Wants g n st m → g.Founded m → Delivered g n st
  | provider {st m d p} : Site g st m d p → g.ProviderFounded m d p → Delivered g n st
  | token {c t st} : g.Founded (c, t) → Delivered g n (.chain c t :: st)
  | absent {d p done e rest deps promise st} : p.Constructed → p.inject = done ++ e :: rest →
      (∀ e' ∈ done, g.EntryFounded d e') → ¬ g.Follows d e → Delivered g n (.build d p rest deps promise :: st)

def State.Constructs (s : State τ) (q : PromiseId) (d : ContainerId) (p : NormalizedProvider τ) : Prop :=
  ∃ r, s.promise q = some r ∧ r.container = d ∧ r.provider = p

inductive Controlled (s : State τ) (n : Node τ) : List (Frame τ) → Control τ → Prop
  | resolve {st c t a} : Wants s.graph n st (c, t) → Controlled s n st (.resolve c t a)
  | multi {c t ps xs st d p} : Site s.graph (.multi c ps xs :: .chain c t :: st) (c, t) d p →
      Controlled s n (.multi c ps xs :: .chain c t :: st) (.multi c p)
  | hit {st c t p q} : Wants s.graph n st (c, t) → s.graph.Single c t p → (∀ t', p.type ≠ .existing t') →
      p.scope ≠ .transient → s.Constructs q (s.graph.singleSite c p) p → Controlled s n st (.cached q)
  | wait {st m d p q} : Site s.graph st m d p → (∀ t', p.type ≠ .existing t') → s.Constructs q d p →
      Controlled s n st (.cached q)
  | user {d p deps promise st} : (∀ e ∈ p.inject, s.graph.EntryFounded d e) →
      Controlled s n (.build d p [] deps promise :: st) .user
  | value {d p rest deps promise st o} : p.type = .value o → Controlled s n (.build d p rest deps promise :: st) (.value o)
  | fulfilled {st x} : Delivered s.graph n st → Controlled s n st (.fulfilled x)
  | rejected {st e} : Controlled s n st (.rejected e)

def PromisesFounded (s : State τ) : Prop := ∀ q r, s.promise q = some r → ∀ x, r.status = .fulfilled x →
  r.provider.Constructed → ∀ e ∈ r.provider.inject, s.graph.EntryFounded r.container e

theorem Delivered.chain {t : τ}
    (h : Delivered g n (.chain c t :: st)) : g.Founded (c, t) := by
  cases h with
  | node hw hm =>
    cases hw with
    | existing hs htype =>
      cases hs with
      | single hp =>
        refine hp.founded ⟨fun t' ht' => ?_, fun hc => absurd htype (hc.notAlias _)⟩
        rw [htype] at ht'
        cases ht'
        exact hm
  | provider hs hp =>
    cases hs with
    | single h => exact h.founded hp
  | token h => exact h

theorem Delivered.multi {t : τ} {ps : List (NormalizedProvider τ)} {xs st}
    (h : Delivered g n (.multi c ps xs :: .chain c t :: st)) : ∃ done, g.collectMultiProviders c t = done ++ ps ∧
      done ≠ [] ∧ g.registration c t = none ∧
      ∀ p ∈ done, g.ProviderFounded (c, t) (if p.scope = .transient then c else g.multiSite c p) p := by
  have hsite : ∀ {d p}, Site g (.multi c ps xs :: .chain c t :: st) (c, t) d p → g.ProviderFounded (c, t) d p →
      ∃ done, g.collectMultiProviders c t = done ++ ps ∧ done ≠ [] ∧ g.registration c t = none ∧
        ∀ p ∈ done, g.ProviderFounded (c, t) (if p.scope = .transient then c else g.multiSite c p) p := by
    intro d p hs hf
    cases hs with
    | @multi _ _ _ done _ _ _ hr hc hd =>
      refine ⟨done ++ [p], by simp [hc], by simp, hr, fun p' hp' => ?_⟩
      rcases List.mem_append.1 hp' with hp' | hp'
      · exact hd p' hp'
      · rw [List.mem_singleton.1 hp']; exact hf
  cases h with
  | node hw hm =>
    cases hw with
    | existing hs htype =>
      have hs' := hs
      cases hs' with
      | multi =>
        refine hsite hs ⟨fun t' ht' => ?_, fun hc => absurd htype (hc.notAlias _)⟩
        rw [htype] at ht'
        cases ht'
        exact hm
  | provider hs hp =>
    have hs' := hs
    cases hs' with
    | multi => exact hsite hs hp

theorem Delivered.build {rest deps promise st}
    (h : Delivered g n (.build d p rest deps promise :: st)) :
    p.Constructed ∧ ∃ done, p.inject = done ++ rest ∧ ∀ e ∈ done, g.EntryFounded d e := by
  have hadd : ∀ {done : List (InjectToken τ)} {e}, p.inject = done ++ e :: rest → (∀ e' ∈ done, g.EntryFounded d e') →
      g.EntryFounded d e → ∃ done, p.inject = done ++ rest ∧ ∀ e ∈ done, g.EntryFounded d e := by
    intro done e hi hd he
    refine ⟨done ++ [e], by simp [hi], fun e' he' => ?_⟩
    rcases List.mem_append.1 he' with he' | he'
    · exact hd e' he'
    · rw [List.mem_singleton.1 he']; exact he
  cases h with
  | node hw hm =>
    cases hw with
    | existing hs => cases hs
    | dep hp hi hd hf => exact ⟨hp, hadd hi hd fun _ => hm⟩
  | provider hs => cases hs
  | absent hp hi hd hf => exact ⟨hp, hadd hi hd fun h => absurd h hf⟩

theorem Delivered.done (h : Delivered g n []) : g.Founded n := by
  cases h with
  | node hw hm =>
    cases hw with
    | start => exact hm
    | existing hs => cases hs
  | provider hs => cases hs

end Fluo.Di
