import Fluo.Lib.Descent
import Fluo.Di.Records
import Fluo.Di.Verdict
/-!
# The two checks for request scope

`assertSingletonDependencyScopes` and `normalizedProviderRequiresRequestScope` walk one
graph: the second one through all providers of a token, the first one through the provider
at the end of its aliases, or else through the metadata of the class that it is.
-/

namespace Fluo.Di
open Fluo.Lib Relation

variable {τ : Type} [DecidableEq τ] (g : Graph τ) (classes : JsMap τ (ClassMetadata τ)) (c : ContainerId)

/-! ## What the checks look for -/

/-- The tokens of an inject list, without the optional ones that nobody provides. -/
def Graph.targets (es : List (InjectToken τ)) : List τ :=
  (es.filter fun | .optional t => g.has c t | _ => true).map InjectToken.target

def Graph.dependenciesOf (p : NormalizedProvider τ) : List τ :=
  match p.type with
  | .existing target => [target]
  | _ => g.targets c p.inject

/-- The provider at the end of the aliases, if there is one. -/
inductive Graph.Ends : τ → Option (NormalizedProvider τ) → Prop
  | missing {t} : g.lookupProvider c t = none → Graph.Ends t none
  | found {t p} : g.lookupProvider c t = some p → (∀ u, p.type ≠ .existing u) → Graph.Ends t (some p)
  | existing {t p u r} : g.lookupProvider c t = some p → p.type = .existing u → Graph.Ends u r → Graph.Ends t r

/-- A request-scoped provider is reachable, through all providers of each token. -/
inductive Graph.Requires : τ → Prop
  | request {t p} : p ∈ g.providersOf c t → p.scope = .request → Graph.Requires t
  | dependency {t p u} : p ∈ g.providersOf c t → u ∈ g.dependenciesOf c p → Graph.Requires u → Graph.Requires t

/-- A request-scoped provider is reachable through single providers and aliases alone. -/
inductive Graph.SingleRequires : τ → Prop
  | request {t p} : g.lookupProvider c t = some p → p.scope = .request → Graph.SingleRequires t
  | dependency {t p u} : g.lookupProvider c t = some p → u ∈ g.dependenciesOf c p → Graph.SingleRequires u → Graph.SingleRequires t

/-- Such a way leads to a token with a multi provider that is request-scoped or depends on a request-scoped one. -/
inductive Graph.MultiRequires : τ → Prop
  | entry {t p} : p ∈ g.collectMultiProviders c t → (p.scope = .request ∨ ∃ u ∈ g.dependenciesOf c p, g.Requires c u) → Graph.MultiRequires t
  | dependency {t p u} : g.lookupProvider c t = some p → u ∈ g.dependenciesOf c p → Graph.MultiRequires u → Graph.MultiRequires t

/-- What the check of a singleton finds: a token whose aliases end at no single provider stands for its class. -/
inductive Graph.Found : τ → Prop
  | request {t p} : g.Ends c t (some p) → p.scope = .request → Graph.Found t
  | dependency {t p u} : g.Ends c t (some p) → u ∈ g.targets c p.inject → Graph.Found u → Graph.Found t
  | classRequest {t metadata} : g.Ends c t none → classes.lookup t = some metadata → metadata.scope = some .request → Graph.Found t
  | classDependency {t metadata u} : g.Ends c t none → classes.lookup t = some metadata → u ∈ g.targets c (metadata.inject.filterMap id) →
      Graph.Found u → Graph.Found t

/-- A way through single providers leads to such a class, and its metadata makes the check find something. -/
inductive Graph.ClassRequires : τ → Prop
  | metadata {t metadata} : g.Ends c t none → classes.lookup t = some metadata →
      (metadata.scope = some .request ∨ ∃ u ∈ g.targets c (metadata.inject.filterMap id), g.Found classes c u) → Graph.ClassRequires t
  | dependency {t p u} : g.Ends c t (some p) → u ∈ g.targets c p.inject → Graph.ClassRequires u → Graph.ClassRequires t

/-- An edge that one of the checks follows. -/
inductive Graph.Leads : τ → τ → Prop
  | provider {t p u} : p ∈ g.providersOf c t → u ∈ g.dependenciesOf c p → Graph.Leads t u
  | metadata {t metadata u} : g.Ends c t none → classes.lookup t = some metadata → u ∈ g.targets c (metadata.inject.filterMap id) →
      Graph.Leads t u

/-- The dependency graph of a provider is acyclic and fully registered. -/
structure Graph.WellFounded (p : NormalizedProvider τ) : Prop where
  registered : ∀ t ∈ g.dependenciesOf c p, ∀ u, ReflTransGen (g.Leads classes c) t u → g.providersOf c u ≠ []
  acyclic    : ∀ t ∈ g.dependenciesOf c p, ∀ u, ReflTransGen (g.Leads classes c) t u → ¬ TransGen (g.Leads classes c) u u

/-- Where the two checks agree on a default-scope provider. An alias passes the first one in any case. For another provider, either
single providers alone lead to a request-scoped one, or a multi provider does exactly if the metadata of a class does. -/
def Graph.ChecksAgree (p : NormalizedProvider τ) : Prop :=
  match p.type with
  | .existing target => ¬ g.Requires c target
  | _ => (∃ t ∈ g.targets c p.inject, g.SingleRequires c t) ∨
      ((∃ t ∈ g.targets c p.inject, g.ClassRequires classes c t) ↔ ∃ t ∈ g.targets c p.inject, g.MultiRequires c t)

/-- `normalizedProviderRequiresRequestScope`, for a provider by itself. -/
def Graph.normalizedProviderRequiresRequestScope (p : NormalizedProvider τ) : Bool :=
  g.providerRequires c (g.graphRequires classes c (g.reach classes c) []) p

variable {g classes c} {t u : τ} {p : NormalizedProvider τ}

/-! ## Single providers and the others -/

theorem requires_iff : g.Requires c t ↔ g.SingleRequires c t ∨ g.MultiRequires c t := by
  constructor
  · intro h
    induction h with
    | request hp hr =>
      rcases List.mem_append.1 hp with hp | hp
      · exact .inl (.request (by simpa using hp) hr)
      · exact .inr (.entry hp (.inl hr))
    | dependency hp hu hreq ih =>
      rcases List.mem_append.1 hp with hp | hp
      · have hp := Option.mem_toList.1 hp
        rcases ih with ih | ih
        · exact .inl (.dependency hp hu ih)
        · exact .inr (.dependency hp hu ih)
      · exact .inr (.entry hp (.inr ⟨_, hu, hreq⟩))
  · have hsingle : ∀ {t p}, g.lookupProvider c t = some p → p ∈ g.providersOf c t := by
      intro t p hp
      simp [Graph.providersOf, hp]
    have hmulti : ∀ {t p}, p ∈ g.collectMultiProviders c t → p ∈ g.providersOf c t := fun hp => List.mem_append_right _ hp
    rintro (h | h)
    · induction h with
      | request hp hr => exact .request (hsingle hp) hr
      | dependency hp hu _ ih => exact .dependency (hsingle hp) hu ih
    · induction h with
      | entry hp hr =>
        rcases hr with hr | ⟨u, hu, hr⟩
        · exact .request (hmulti hp) hr
        · exact .dependency (hmulti hp) hu hr
      | dependency hp hu _ ih => exact .dependency (hsingle hp) hu ih

def Graph.AliasesPlain (g : Graph τ) (c : ContainerId) : Prop :=
  ∀ t, ∀ p ∈ g.providersOf c t, ∀ u, p.type = .existing u → p.scope = .default ∧ p.inject = []

theorem mem_providersOf (hp : g.lookupProvider c t = some p) : p ∈ g.providersOf c t := by simp [Graph.providersOf, hp]

theorem dependenciesOf_alias (hp : p.type = .existing u) : g.dependenciesOf c p = [u] := by simp [Graph.dependenciesOf, hp]

theorem dependenciesOf_inject (hp : ∀ u, p.type ≠ .existing u) : g.dependenciesOf c p = g.targets c p.inject := by
  unfold Graph.dependenciesOf
  split
  · next u hu => exact absurd hu (hp u)
  · rfl

theorem Graph.Ends.unique {r r' : Option (NormalizedProvider τ)} (h : g.Ends c t r) (h' : g.Ends c t r') : r = r' := by
  induction h with
  | missing hnone =>
    cases h' with
    | missing => rfl
    | found hp | existing hp => rw [hnone] at hp; cases hp
  | found hp hne =>
    cases h' with
    | missing hnone => rw [hnone] at hp; cases hp
    | found hp' => rw [hp] at hp'; exact hp'
    | existing hp' hu =>
      rw [hp] at hp'
      cases hp'
      exact absurd hu (hne _)
  | existing hp hu _ ih =>
    cases h' with
    | missing hnone => rw [hnone] at hp; cases hp
    | found hp' hne =>
      rw [hp] at hp'
      cases hp'
      exact absurd hu (hne _)
    | existing hp' hu' h' =>
      rw [hp] at hp'
      cases hp'
      rw [hu] at hu'
      cases hu'
      exact ih h'

theorem singleRequires_of_ends (h : g.Ends c t (some p)) (hp : p.scope = .request ∨ ∃ u ∈ g.targets c p.inject, g.SingleRequires c u) :
    g.SingleRequires c t := by
  generalize hr : some p = r at h
  induction h with
  | missing => cases hr
  | found hq hne =>
    cases hr
    rcases hp with hp | ⟨u, hu, hp⟩
    · exact .request hq hp
    · exact .dependency hq (by rwa [dependenciesOf_inject hne]) hp
  | existing hq hu _ ih => exact .dependency hq (by simp [dependenciesOf_alias hu]) (ih hr)

theorem found_of_single (classes : JsMap τ (ClassMetadata τ)) (hplain : g.AliasesPlain c) (h : g.SingleRequires c t) :
    ∃ p, g.Ends c t (some p) ∧ (p.scope = .request ∨ ∃ u ∈ g.targets c p.inject, g.Found classes c u) := by
  induction h with
  | @request t p hp hr =>
    refine ⟨p, .found hp fun u hu => ?_, .inl hr⟩
    have hscope := (hplain t p (mem_providersOf hp) u hu).1
    rw [hr] at hscope
    cases hscope
  | @dependency t p u hp hu _ ih =>
    obtain ⟨q, hends, hq⟩ := ih
    cases htype : p.type with
    | existing target =>
      rw [dependenciesOf_alias htype, List.mem_singleton] at hu
      subst hu
      exact ⟨q, .existing hp htype hends, hq⟩
    | _ =>
      have hne : ∀ u, p.type ≠ .existing u := by simp [htype]
      rw [dependenciesOf_inject hne] at hu
      refine ⟨p, .found hp hne, .inr ⟨u, hu, ?_⟩⟩
      rcases hq with hq | ⟨w, hw, hq⟩
      · exact .request hends hq
      · exact .dependency hends hw hq

theorem found_iff (hplain : g.AliasesPlain c) : g.Found classes c t ↔ g.SingleRequires c t ∨ g.ClassRequires classes c t := by
  constructor
  · intro h
    induction h with
    | request hends hr => exact .inl (singleRequires_of_ends hends (.inl hr))
    | dependency hends hu _ ih =>
      rcases ih with ih | ih
      · exact .inl (singleRequires_of_ends hends (.inr ⟨_, hu, ih⟩))
      · exact .inr (.dependency hends hu ih)
    | classRequest hends hm hr => exact .inr (.metadata hends hm (.inl hr))
    | classDependency hends hm hu hf => exact .inr (.metadata hends hm (.inr ⟨_, hu, hf⟩))
  · rintro (h | h)
    · obtain ⟨p, hends, hr | ⟨u, hu, hf⟩⟩ := found_of_single classes hplain h
      · exact .request hends hr
      · exact .dependency hends hu hf
    · induction h with
      | metadata hends hm hr =>
        rcases hr with hr | ⟨u, hu, hf⟩
        · exact .classRequest hends hm hr
        · exact .classDependency hends hm hu hf
      | dependency hends hu _ ih => exact .dependency hends hu ih

/-! ## The walks -/

def Graph.known (g : Graph τ) (c : ContainerId) : List τ :=
  (g.lineage c).flatMap fun d => (g d).registrations.keys ++ (g d).multiRegistrations.keys

omit [DecidableEq τ] in
theorem length_known : (g.known c).length < g.size c := by
  simp [Graph.known, Graph.size, List.length_flatMap]

theorem mem_known (h : g.providersOf c t ≠ []) : t ∈ g.known c := by
  have hmulti : ∀ ds : List ContainerId, ∀ p ∈ g.collectFrom t ds, ∃ d ∈ ds, t ∈ (g d).multiRegistrations.keys := by
    intro ds
    induction ds with
    | nil => simp [Graph.collectFrom]
    | cons d ds ih =>
      intro p hp
      have hown : p ∈ g.multiRegistration d t → t ∈ (g d).multiRegistrations.keys := by
        intro hp
        by_contra ht
        rw [Graph.multiRegistration, AList.lookup_eq_none.2 (mt AList.mem_keys.1 ht)] at hp
        cases hp
      rw [Graph.collectFrom] at hp
      split at hp
      · exact ⟨d, List.mem_cons_self, hown hp⟩
      · rcases List.mem_append.1 hp with hp | hp
        · obtain ⟨e, he, hk⟩ := ih p hp
          exact ⟨e, List.mem_cons_of_mem _ he, hk⟩
        · exact ⟨d, List.mem_cons_self, hown hp⟩
  obtain ⟨p, hp⟩ := List.exists_mem_of_ne_nil _ h
  rw [Graph.known, List.mem_flatMap]
  rcases List.mem_append.1 hp with hp | hp
  · obtain ⟨d, hd, hreg⟩ := Graph.lookup_mem (Option.mem_toList.1 hp)
    have hkey : t ∈ (g d).registrations := AList.lookup_isSome.1 (by rw [show (g d).registrations.lookup t = some p from hreg]; rfl)
    exact ⟨d, hd, List.mem_append_left _ (AList.mem_keys.1 hkey)⟩
  · obtain ⟨d, hd, hkey⟩ := hmulti _ p hp
    exact ⟨d, hd, List.mem_append_right _ hkey⟩

variable {nodes : List τ} {es : List (InjectToken τ)}

theorem resolveEffectiveProvider_eq {chain : List τ} {fuel : Nat} (h : Descent (g.Leads classes c) nodes chain t) (hlen : nodes.length ≤ fuel) :
    ∃ r, g.Ends c t r ∧ g.resolveEffectiveProvider c fuel chain t = .ok r := by
  induction fuel generalizing nodes chain t with
  | zero => exact absurd (List.length_pos_of_mem h.mem) (by omega)
  | succ fuel ih =>
    rw [Graph.resolveEffectiveProvider, if_neg h.notMem]
    cases hp : g.lookupProvider c t with
    | none => exact ⟨none, .missing hp, rfl⟩
    | some p =>
      cases htype : p.type with
      | existing u =>
        have hleads : g.Leads classes c t u := .provider (mem_providersOf hp) (by simp [dependenciesOf_alias htype])
        have hless := h.length_lt
        obtain ⟨r, hends, hr⟩ := ih ((h.child (.single hleads)).of_subset (chain ++ [t]) (by simp [or_comm])) (by omega)
        exact ⟨r, .existing hp htype hends, by simpa [htype] using hr⟩
      | _ => exact ⟨some p, .found hp (by simp [htype]), by simp [htype]⟩

theorem leads_of_ends (h : g.Ends c t (some p)) (hu : u ∈ g.targets c p.inject) : TransGen (g.Leads classes c) t u := by
  generalize hr : some p = r at h
  induction h with
  | missing => cases hr
  | found hp hne =>
    cases hr
    exact .single (.provider (mem_providersOf hp) (by rwa [dependenciesOf_inject hne]))
  | existing hp htype _ ih => exact .head (.provider (mem_providersOf hp) (by simp [dependenciesOf_alias htype])) (ih hr)

theorem targets_cons (e : InjectToken τ) (es : List (InjectToken τ)) :
    g.targets c (e :: es) = (match e with | .optional t => if g.has c t then [t] else [] | e => [e.target]) ++ g.targets c es := by
  cases e with
  | optional t => cases h : g.has c t <;> simp [Graph.targets, h, InjectToken.target]
  | _ => simp [Graph.targets, InjectToken.target]

theorem firstDependency_eq {find : τ → Except (DiError τ) (Option τ)} {finds : τ → Prop}
    (hfind : ∀ u ∈ g.targets c es, ∃ r, find u = .ok r ∧ (r.isSome = true ↔ finds u)) :
    ∃ r, g.firstDependency c find es = .ok r ∧ (r.isSome = true ↔ ∃ u ∈ g.targets c es, finds u) := by
  induction es with
  | nil => exact ⟨none, rfl, by simp [Graph.targets]⟩
  | cons e es ih =>
    rw [targets_cons] at hfind ⊢
    obtain ⟨r', hr', hiff'⟩ := ih fun u hu => hfind u (List.mem_append_right _ hu)
    have hpresent : ∀ u r, (r.isSome = true ↔ finds u) → ((r <|> r').isSome = true ↔ ∃ w ∈ [u] ++ g.targets c es, finds w) := by
      intro u r hiff
      simp [hiff, hiff']
    cases e with
    | optional t =>
      cases hhas : g.has c t with
      | false => exact ⟨r', by simpa [Graph.firstDependency, InjectToken.target, hhas] using hr', by simpa [hhas] using hiff'⟩
      | true =>
        obtain ⟨r, hr, hiff⟩ := hfind t (by simp [hhas])
        refine ⟨r <|> r', ?_, by simpa [hhas] using hpresent t r hiff⟩
        cases r <;> simp [Graph.firstDependency, InjectToken.target, hhas, hr, hr', bind, Except.bind, pure, Except.pure]
    | token t | forwardRef t =>
      obtain ⟨r, hr, hiff⟩ := hfind t (by simp [InjectToken.target])
      refine ⟨r <|> r', ?_, by simpa [InjectToken.target] using hpresent t r hiff⟩
      cases r <;> simp [Graph.firstDependency, InjectToken.target, hr, hr', bind, Except.bind, pure, Except.pure]

theorem found_some (h : g.Ends c t (some p)) :
    g.Found classes c t ↔ p.scope = .request ∨ ∃ u ∈ g.targets c p.inject, g.Found classes c u := by
  constructor
  · intro hf
    cases hf with
    | request hends hr => cases h.unique hends; exact .inl hr
    | dependency hends hu hf => cases h.unique hends; exact .inr ⟨_, hu, hf⟩
    | classRequest hends | classDependency hends => cases h.unique hends
  · rintro (hr | ⟨u, hu, hf⟩)
    · exact .request h hr
    · exact .dependency h hu hf

theorem found_none (h : g.Ends c t none) : g.Found classes c t ↔ ∃ metadata, classes.lookup t = some metadata ∧
    (metadata.scope = some .request ∨ ∃ u ∈ g.targets c (metadata.inject.filterMap id), g.Found classes c u) := by
  constructor
  · intro hf
    cases hf with
    | request hends | dependency hends => cases h.unique hends
    | classRequest _ hm hr => exact ⟨_, hm, .inl hr⟩
    | classDependency _ hm hu hf => exact ⟨_, hm, .inr ⟨_, hu, hf⟩⟩
  · rintro ⟨metadata, hm, hr | ⟨u, hu, hf⟩⟩
    · exact .classRequest h hm hr
    · exact .classDependency h hm hu hf

theorem findRequestScopedDependencyToken_eq {visited : List τ} {fuel : Nat} (h : Descent (g.Leads classes c) nodes visited t)
    (hlen : nodes.length ≤ fuel) (hsize : nodes.length ≤ g.size c) :
    ∃ r, g.findRequestScopedDependencyToken classes c fuel visited t = .ok r ∧ (r.isSome = true ↔ g.Found classes c t) := by
  induction fuel generalizing nodes visited t with
  | zero => exact absurd (List.length_pos_of_mem h.mem) (by omega)
  | succ fuel ih =>
    have hless := h.length_lt
    have hchild : ∀ u, TransGen (g.Leads classes c) t u → ∃ r, g.findRequestScopedDependencyToken classes c fuel (t :: visited) u = .ok r ∧
        (r.isSome = true ↔ g.Found classes c u) := fun u hu => ih (h.child hu) (by omega) (by omega)
    obtain ⟨r, hends, hr⟩ := resolveEffectiveProvider_eq (h.of_subset [] (by simp)) hsize
    simp only [Graph.findRequestScopedDependencyToken, if_neg h.notMem, hr, bind, Except.bind]
    cases r with
    | some p =>
      rw [found_some hends]
      dsimp only
      split
      · next hscope => exact ⟨some p.provide, rfl, by simp [hscope]⟩
      · next hscope =>
        obtain ⟨r, hr, hiff⟩ := firstDependency_eq fun u hu => hchild u (leads_of_ends hends hu)
        exact ⟨r, hr, by simp [hiff, hscope]⟩
    | none =>
      rw [found_none hends]
      dsimp only
      split
      · next hm => exact ⟨none, rfl, by simp [hm]⟩
      · next metadata hm =>
        split
        · next hscope => exact ⟨some t, rfl, by simp [hm, hscope]⟩
        · next hscope =>
          obtain ⟨r, hr, hiff⟩ := firstDependency_eq fun u hu => hchild u (.single (.metadata hends hm hu))
          exact ⟨r, hr, by simp [hiff, hm, hscope]⟩

theorem any_entryRequires {requires : τ → Bool} :
    es.any (g.entryRequires c requires) = true ↔ ∃ u ∈ g.targets c es, requires u = true := by
  induction es with
  | nil => simp [Graph.targets]
  | cons e es ih =>
    rw [List.any_cons, Bool.or_eq_true, ih, targets_cons]
    cases e with
    | optional t => cases hhas : g.has c t <;> simp [Graph.entryRequires, hhas]
    | _ => simp [Graph.entryRequires, InjectToken.target]

theorem providerRequires_iff {requires : τ → Bool} :
    g.providerRequires c requires p = true ↔ p.scope = .request ∨ ∃ u ∈ g.dependenciesOf c p, requires u = true := by
  rw [Graph.providerRequires, Bool.or_eq_true, decide_eq_true_eq]
  cases htype : p.type with
  | existing target => simp [dependenciesOf_alias htype]
  | _ =>
    rw [dependenciesOf_inject (by simp [htype])]
    exact or_congr_right any_entryRequires

theorem requires_cases : g.Requires c t ↔ ∃ p ∈ g.providersOf c t, p.scope = .request ∨ ∃ u ∈ g.dependenciesOf c p, g.Requires c u := by
  constructor
  · intro h
    cases h with
    | request hp hr => exact ⟨_, hp, .inl hr⟩
    | dependency hp hu hr => exact ⟨_, hp, .inr ⟨_, hu, hr⟩⟩
  · rintro ⟨p, hp, hr | ⟨u, hu, hr⟩⟩
    · exact .request hp hr
    · exact .dependency hp hu hr

theorem graphRequires_iff {visited : List τ} {fuel : Nat} (h : Descent (g.Leads classes c) nodes visited t) (hlen : nodes.length ≤ fuel)
    (hreg : ∀ u, ReflTransGen (g.Leads classes c) t u → g.providersOf c u ≠ []) :
    g.graphRequires classes c fuel visited t = true ↔ g.Requires c t := by
  induction fuel generalizing nodes visited t with
  | zero => exact absurd (List.length_pos_of_mem h.mem) (by omega)
  | succ fuel ih =>
    have hless := h.length_lt
    have hproviders : ∀ p ∈ g.providersOf c t, g.providerRequires c (g.graphRequires classes c fuel (t :: visited)) p = true ↔
        p.scope = .request ∨ ∃ u ∈ g.dependenciesOf c p, g.Requires c u := by
      intro p hp
      rw [providerRequires_iff]
      refine or_congr_right (exists_congr fun u => and_congr_right fun hu => ?_)
      have hleads : g.Leads classes c t u := .provider hp hu
      exact ih (h.child (.single hleads)) (by omega) fun w hw => hreg w (.head hleads hw)
    have hnot : visited.contains t = false := by simpa using h.notMem
    have hstep : g.graphRequires classes c (fuel + 1) visited t = true ↔
        ∃ p ∈ g.providersOf c t, g.providerRequires c (g.graphRequires classes c fuel (t :: visited)) p = true := by
      have hsome := hreg t .refl
      rw [Graph.graphRequires, hnot, Bool.false_or]
      unfold Graph.providersOf at hsome ⊢
      dsimp only
      split
      · next hl hc => simp [hl, hc] at hsome
      · cases g.lookupProvider c t <;> simp
    rw [hstep, requires_cases]
    exact exists_congr fun p => and_congr_right fun hp => hproviders p hp

/-! ## The checks of a provider -/

section Provider
variable (hself : p ∈ g.providersOf c p.provide) (hgraph : g.WellFounded classes c p)
include hself hgraph

theorem descent (hu : u ∈ g.dependenciesOf c p) : Descent (g.Leads classes c) (g.known c) [p.provide] u where
  nodes w hw := mem_known (hgraph.registered u hu w hw)
  acyclic w hw := hgraph.acyclic u hu w hw
  path w hw hback := by
    rw [List.mem_singleton.1 hw] at hback
    have hleads : g.Leads classes c p.provide u := .provider hself hu
    exact hgraph.acyclic u hu _ hback (.head' hleads hback)

theorem scopeError_iff (hscope : p.scope = .default) (hinject : ∀ u ∈ g.targets c p.inject, u ∈ g.dependenciesOf c p) :
    (∃ u, g.scopeError classes c p = some (.scopeMismatch p.provide (some u))) ↔ ∃ u ∈ g.targets c p.inject, g.Found classes c u := by
  have hlen := length_known (g := g) (c := c)
  have hfind : ∀ u ∈ g.targets c p.inject, ∃ r, g.findRequestScopedDependencyToken classes c (g.size c + classes.keys.length) [p.provide] u = .ok r ∧
      (r.isSome = true ↔ g.Found classes c u) := fun u hu =>
    findRequestScopedDependencyToken_eq (descent hself hgraph (hinject u hu)) (by omega) (by omega)
  obtain ⟨r, hr, hiff⟩ := firstDependency_eq hfind
  rw [← hiff, Graph.scopeError, if_neg (by simp [hscope])]
  simp only [hr]
  cases r <;> simp

theorem normalizedProviderRequiresRequestScope_iff :
    g.normalizedProviderRequiresRequestScope classes c p = true ↔ p.scope = .request ∨ ∃ u ∈ g.dependenciesOf c p, g.Requires c u := by
  have hlen := length_known (g := g) (c := c)
  rw [Graph.normalizedProviderRequiresRequestScope, providerRequires_iff]
  refine or_congr_right (exists_congr fun u => and_congr_right fun hu => ?_)
  refine graphRequires_iff ((descent hself hgraph hu).of_subset [] (by simp)) ?_ (hgraph.registered u hu)
  rw [Graph.reach]
  omega

end Provider

theorem plain_of_normalized {s : State τ} (h : s.Normalized) : s.graph.AliasesPlain c := by
  intro t p hp u hu
  obtain ⟨_, _, hmade⟩ := h.providersOf hp
  exact (normalizeProvider_spec hmade).2.1 u hu

theorem wellFounded_of_leaves (hreg : ∀ t ∈ g.dependenciesOf c p, g.providersOf c t ≠ [])
    (hleaf : ∀ t ∈ g.dependenciesOf c p, ∀ q ∈ g.providersOf c t, g.dependenciesOf c q = []) : g.WellFounded ∅ c p := by
  have hstop : ∀ t ∈ g.dependenciesOf c p, ∀ u, ¬ g.Leads ∅ c t u := by
    intro t ht u hu
    cases hu with
    | provider hq hu => simp [hleaf t ht _ hq] at hu
    | metadata _ hm => simp at hm
  have hself : ∀ t ∈ g.dependenciesOf c p, ∀ u, ReflTransGen (g.Leads ∅ c) t u → u = t := by
    intro t ht u hu
    rcases ReflTransGen.cases_head hu with rfl | ⟨w, hw, -⟩
    · rfl
    · exact absurd hw (hstop t ht w)
  refine ⟨fun t ht u hu => hself t ht u hu ▸ hreg t ht, fun t ht u hu hcycle => ?_⟩
  obtain rfl := hself t ht u hu
  obtain ⟨w, hw, -⟩ := TransGen.head'_iff.1 hcycle
  exact hstop u ht w hw

/-- A singleton that takes token 1, which a request-scoped factory provides, as a single or a multi provider. -/
private def requestScoped (multi : Bool) : List (Label Nat) :=
  [.register root
    [.object { provide := some 0, useFactory := some true, inject := some [some (.token 1)] },
     .object { provide := some 1, useFactory := some true, scope := some .request, multi }]]

private def requestScopedS (multi : Bool) : State Nat := after step (State.init ∅) (requestScoped multi)

private def singleton0 : NormalizedProvider Nat := ⟨0, 0, [.token 1], .default, .factory, false⟩

private theorem requestScoped_run (multi : Bool) :
    Lib.Run step (fun _ _ => True) (State.init ∅) (requestScoped multi) (requestScopedS multi) :=
  Run.of_passes (p := fun _ _ => true) (fun _ _ _ => trivial) (by cases multi <;> decide)

private theorem requestScoped_wellFounded (multi : Bool) : (requestScopedS multi).graph.WellFounded ∅ root singleton0 :=
  wellFounded_of_leaves (by cases multi <;> decide) (by cases multi <;> decide)

end Fluo.Di
