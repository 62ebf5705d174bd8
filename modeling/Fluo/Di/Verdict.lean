import Fluo.Di.Container
/-!
# The request-scope verdict

`hasRequestScopedDependency`, computed afresh, and what the lookups of a
container depend on: the registries of the container and of its ancestors.
-/

namespace Fluo.Di

variable {τ : Type} [DecidableEq τ] (g : Graph τ) (classes : JsMap τ (ClassMetadata τ))

/-- `dependencyEntryRequiresRequestScope`. -/
def Graph.entryRequires (c : ContainerId) (requires : τ → Bool) : InjectToken τ → Bool
  | .optional t => g.has c t && requires t
  | e => requires e.target

/-- `normalizedProviderRequiresRequestScope`. -/
def Graph.providerRequires (c : ContainerId) (requires : τ → Bool) (p : NormalizedProvider τ) : Bool :=
  p.scope = .request || match p.type with
    | .existing target => requires target
    | _ => p.inject.any (g.entryRequires c requires)

/-- `unregisteredClassRequiresRequestScope`. -/
def Graph.classRequires (c : ContainerId) (requires : τ → Bool) (token : τ) : Bool :=
  match classes.lookup token with
  | none => false
  | some metadata => metadata.scope = some .request || (metadata.inject.filterMap id).any (g.entryRequires c requires)

/-- `providerGraphRequiresRequestScope`. -/
def Graph.graphRequires (c : ContainerId) : Nat → List τ → τ → Bool
  | 0, _, _ => true
  | fuel + 1, visited, token =>
    visited.contains token ||
      let requires := Graph.graphRequires c fuel (token :: visited)
      match g.lookupProvider c token, g.collectMultiProviders c token with
      | none, [] => g.classRequires classes c requires token
      | provider, multiProviders =>
        provider.any (g.providerRequires c requires) || multiProviders.any (g.providerRequires c requires)

/-- A bound on the length of a path of distinct tokens that have a provider or
class metadata. -/
def Graph.reach (c : ContainerId) : Nat := g.size c + classes.keys.length

/-- `hasRequestScopedDependency`. -/
def Graph.hasRequestScopedDependency (c : ContainerId) (token : τ) : Bool := g.graphRequires classes c (g.reach classes c) [] token

/-! ## What the lookups read -/

section Congr
variable {g} {g' : Graph τ} {c : ContainerId} (h : ∀ d ∈ g.lineage c, g' d = g d)
include h

omit [DecidableEq τ] in
theorem lineage_congr : g'.lineage c = g.lineage c := by
  unfold Graph.lineage
  rw [h c List.mem_cons_self]

theorem lookupProvider_congr (t : τ) : g'.lookupProvider c t = g.lookupProvider c t := by
  unfold Graph.lookupProvider
  rw [lineage_congr h]
  have : ∀ l : List ContainerId, (∀ d ∈ l, g' d = g d) → l.findSome? (g'.registration · t) = l.findSome? (g.registration · t) := by
    intro l hl
    induction l with
    | nil => rfl
    | cons d rest ih =>
      obtain ⟨hd, hrest⟩ := List.forall_mem_cons.1 hl
      rw [List.findSome?_cons, List.findSome?_cons, ih hrest, Graph.registration, Graph.registration, hd]
  exact this _ h

theorem collectMultiProviders_congr (t : τ) : g'.collectMultiProviders c t = g.collectMultiProviders c t := by
  unfold Graph.collectMultiProviders
  rw [lineage_congr h]
  have : ∀ l : List ContainerId, (∀ d ∈ l, g' d = g d) → g'.collectFrom t l = g.collectFrom t l := by
    intro l hl
    induction l with
    | nil => rfl
    | cons d rest ih =>
      obtain ⟨hd, hrest⟩ := List.forall_mem_cons.1 hl
      rw [Graph.collectFrom, Graph.collectFrom, ih hrest, Graph.multiRegistration, Graph.multiRegistration, hd]
  exact this _ h

theorem has_congr (t : τ) : g'.has c t = g.has c t := by
  unfold Graph.has
  rw [lookupProvider_congr h, lineage_congr h]
  congr 1
  rw [Bool.eq_iff_iff, List.any_eq_true, List.any_eq_true]
  exact exists_congr fun d => and_congr_right fun hd => by rw [h d hd]

omit [DecidableEq τ] in
theorem size_congr : g'.size c = g.size c := by
  unfold Graph.size
  rw [lineage_congr h]
  congr 2
  exact List.map_congr_left fun d hd => by rw [h d hd]

theorem resolveEffectiveProvider_congr (fuel : Nat) : ∀ (chain : List τ) (t : τ),
    g'.resolveEffectiveProvider c fuel chain t = g.resolveEffectiveProvider c fuel chain t := by
  induction fuel with
  | zero => intro _ _; rfl
  | succ fuel ih =>
    intro chain t
    simp only [Graph.resolveEffectiveProvider, lookupProvider_congr h, ih]

theorem graphRequires_congr (fuel : Nat) : ∀ (visited : List τ) (t : τ),
    g'.graphRequires classes c fuel visited t = g.graphRequires classes c fuel visited t := by
  have hentry : g'.entryRequires c = g.entryRequires c := by
    funext requires e
    cases e <;> simp [Graph.entryRequires, has_congr h]
  have hprovider : g'.providerRequires c = g.providerRequires c := by
    funext requires p
    simp only [Graph.providerRequires, hentry]
  induction fuel with
  | zero => intro _ _; rfl
  | succ fuel ih =>
    intro visited t
    have : g'.graphRequires classes c fuel (t :: visited) = g.graphRequires classes c fuel (t :: visited) := funext (ih _)
    simp only [Graph.graphRequires, lookupProvider_congr h, collectMultiProviders_congr h, Graph.classRequires, hentry, hprovider, this]

theorem hasRequestScopedDependency_congr (t : τ) :
    g'.hasRequestScopedDependency classes c t = g.hasRequestScopedDependency classes c t := by
  unfold Graph.hasRequestScopedDependency Graph.reach
  rw [size_congr h, graphRequires_congr classes h]

end Congr

end Fluo.Di
