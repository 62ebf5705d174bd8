import Fluo.Lib.Fuel
import Fluo.Lib.OrderedMap
import Mathlib.Algebra.Ring.Nat
import Mathlib.Data.List.Nodup
import Mathlib.Data.List.Perm.Subperm
/-!
# The request budget of a GraphQL operation

`analyzeGraphqlOperation` walks the selections of one operation and counts its fields. A
fragment spread is walked as the fragment's selections, at the depth of the spread, unless the
walk is inside of that fragment already.
-/

namespace Fluo.Graphql

open Lib Relation

/-- A selection, with what the walk reads of it. -/
inductive Selection
  | field (selectionSet : Option (List Selection))
  | inlineFragment (selectionSet : List Selection)
  | fragmentSpread (name : String)

structure FragmentDefinition where
  name : String
  selectionSet : List Selection

structure OperationDefinition where
  name : Option String
  selectionSet : List Selection

inductive Definition
  | fragment (definition : FragmentDefinition)
  | operation (definition : OperationDefinition)
  | other

abbrev Document := List Definition

structure GraphqlDocumentMetrics where
  complexity : Nat
  cost : Nat
  maxDepth : Nat

/-! ## The walk -/

/-- What the walk changes. -/
structure Walk where
  metrics : GraphqlDocumentMetrics
  activeFragments : List String

/-- One more field, at this depth. -/
def GraphqlDocumentMetrics.count (metrics : GraphqlDocumentMetrics) (nextDepth : Nat) : GraphqlDocumentMetrics where
  maxDepth := max metrics.maxDepth nextDepth
  complexity := metrics.complexity + 1
  cost := metrics.cost + nextDepth

section Walks

-- the walk of a fragment spread, which goes on in the fragment
variable (spread : String → Nat → Walk → Option Walk)

mutual

def walkSelection : Selection → Nat → Walk → Option Walk
  | .field none, depth, walk => some { walk with metrics := walk.metrics.count (depth + 1) }
  | .field (some selectionSet), depth, walk =>
    walkSelectionSet selectionSet (depth + 1) { walk with metrics := walk.metrics.count (depth + 1) }
  | .inlineFragment selectionSet, depth, walk => walkSelectionSet selectionSet depth walk
  | .fragmentSpread name, depth, walk => spread name depth walk

def walkSelectionSet : List Selection → Nat → Walk → Option Walk
  | [], _, walk => some walk
  | selection :: rest, depth, walk => (walkSelection selection depth walk).bind (walkSelectionSet rest depth)

end

end Walks

def walkFragmentSpread (fragments : OrderedMap String FragmentDefinition) : Nat → String → Nat → Walk → Option Walk
  | 0, _, _, _ => none
  | fuel + 1, name, depth, walk =>
    if name ∈ walk.activeFragments then some walk
    else match fragments.get name with
      | none => some walk
      | some fragment =>
        (walkSelectionSet (walkFragmentSpread fragments fuel) fragment.selectionSet depth
          { walk with activeFragments := walk.activeFragments ++ [name] }).map
          fun walk => { walk with activeFragments := walk.activeFragments.erase name }

/-- The fragments by their names. The last one of a name stays. -/
def fragmentsOf : Document → OrderedMap String FragmentDefinition → OrderedMap String FragmentDefinition
  | [], fragments => fragments
  | .fragment definition :: rest, fragments => fragmentsOf rest (fragments.set definition.name definition)
  | _ :: rest, fragments => fragmentsOf rest fragments

def operationsOf (document : Document) : List OperationDefinition :=
  document.filterMap fun definition => match definition with
    | .operation definition => some definition
    | _ => none

def resolveOperationDefinition (operations : List OperationDefinition) (operationName : Option String) : Option OperationDefinition :=
  match operationName with
  | some name => if name ≠ "" then operations.find? (·.name = some name) else onlyOne operations
  | none => onlyOne operations
where
  onlyOne : List OperationDefinition → Option OperationDefinition
  | [operation] => some operation
  | _ => none

/-- The outer option is none when the fuel runs out. -/
def analyzeGraphqlOperation (document : Document) (operationName : Option String) (fuel : Nat) : Option (Option GraphqlDocumentMetrics) :=
  match resolveOperationDefinition (operationsOf document) operationName with
  | none => some none
  | some operation =>
    (walkSelectionSet (walkFragmentSpread (fragmentsOf document []) fuel) operation.selectionSet 0 ⟨⟨0, 0, 0⟩, []⟩).map
      fun walk => some walk.metrics

/-! ## What is measured -/

mutual

/-- The depths of the fields of a selection, a spread apart. -/
def Selection.fieldDepths : Selection → Nat → List Nat
  | .field none, depth => [depth + 1]
  | .field (some selectionSet), depth => (depth + 1) :: fieldDepths selectionSet (depth + 1)
  | .inlineFragment selectionSet, depth => fieldDepths selectionSet depth
  | .fragmentSpread _, _ => []

def fieldDepths : List Selection → Nat → List Nat
  | [], _ => []
  | selection :: rest, depth => selection.fieldDepths depth ++ fieldDepths rest depth

end

/-- How many fields there are, the sum of their depths and the greatest of them. -/
def metricsOf (selectionSet : List Selection) : GraphqlDocumentMetrics where
  complexity := (fieldDepths selectionSet 0).length
  cost := (fieldDepths selectionSet 0).sum
  maxDepth := (fieldDepths selectionSet 0).foldr max 0

/-- Every spread is replaced by the selections of its fragment, in which the spreads are replaced, and a spread of no
fragment by no selections. -/
inductive Inlined (fragments : OrderedMap String FragmentDefinition) : List Selection → List Selection → Prop
  | nil : Inlined fragments [] []
  | leaf {rest out : List Selection} : Inlined fragments rest out → Inlined fragments (.field none :: rest) (.field none :: out)
  | field {selectionSet inner rest out : List Selection} : Inlined fragments selectionSet inner → Inlined fragments rest out →
      Inlined fragments (.field (some selectionSet) :: rest) (.field (some inner) :: out)
  | inlineFragment {selectionSet inner rest out : List Selection} : Inlined fragments selectionSet inner → Inlined fragments rest out →
      Inlined fragments (.inlineFragment selectionSet :: rest) (.inlineFragment inner :: out)
  | spread {name : String} {fragment : FragmentDefinition} {inner rest out : List Selection} : fragments.get name = some fragment →
      Inlined fragments fragment.selectionSet inner → Inlined fragments rest out →
      Inlined fragments (.fragmentSpread name :: rest) (inner ++ out)
  | unknown {name : String} {rest out : List Selection} : fragments.get name = none → Inlined fragments rest out →
      Inlined fragments (.fragmentSpread name :: rest) out

mutual

def Selection.spreads : Selection → List String
  | .field none => []
  | .field (some selectionSet) => spreads selectionSet
  | .inlineFragment selectionSet => spreads selectionSet
  | .fragmentSpread name => [name]

/-- The names of the spreads among the selections, at any depth. -/
def spreads : List Selection → List String
  | [] => []
  | selection :: rest => selection.spreads ++ spreads rest

end

/-- A fragment of the one name spreads the other. -/
def Spreads (fragments : OrderedMap String FragmentDefinition) (name other : String) : Prop :=
  ∃ fragment, fragments.get name = some fragment ∧ other ∈ spreads fragment.selectionSet

/-- No fragment spreads itself, neither directly nor through others. -/
def Acyclic (fragments : OrderedMap String FragmentDefinition) : Prop := ∀ name, ¬ TransGen (Spreads fragments) name name

variable {fragments : OrderedMap String FragmentDefinition} {fuel : Nat} {active : List String}

theorem Acyclic.of_lt (rank : String → Nat)
    (h : ∀ entry ∈ fragments, ∀ other ∈ spreads entry.2.selectionSet, rank other < rank entry.1) : Acyclic fragments := by
  intro name hcycle
  have hlt : ∀ other, TransGen (Spreads fragments) name other → rank other < rank name := by
    intro other hpath
    induction hpath with
    | single hstep =>
      obtain ⟨fragment, hget, hother⟩ := hstep
      exact h _ (OrderedMap.mem_of_get hget) _ hother
    | tail _ hstep ih =>
      obtain ⟨fragment, hget, hother⟩ := hstep
      exact Nat.lt_trans (h _ (OrderedMap.mem_of_get hget) _ hother) ih
  exact Nat.lt_irrefl _ (hlt name hcycle)

theorem fieldDepths_append (selections rest : List Selection) (depth : Nat) :
    fieldDepths (selections ++ rest) depth = fieldDepths selections depth ++ fieldDepths rest depth := by
  induction selections with
  | nil => rfl
  | cons selection selections ih => rw [List.cons_append, fieldDepths, fieldDepths, ih, List.append_assoc]

theorem foldl_count (depths : List Nat) (metrics : GraphqlDocumentMetrics) : depths.foldl .count metrics =
    ⟨metrics.complexity + depths.length, metrics.cost + depths.sum, max metrics.maxDepth (depths.foldr max 0)⟩ := by
  induction depths generalizing metrics with
  | nil => simp
  | cons depth depths ih =>
    rw [List.foldl_cons, ih]
    simp only [GraphqlDocumentMetrics.count, List.length_cons, List.sum_cons, List.foldr_cons, GraphqlDocumentMetrics.mk.injEq]
    exact ⟨by omega, by omega, by omega⟩

section Inlining

variable {fragments : OrderedMap String FragmentDefinition}

variable {selections : List Selection}

theorem Inlined.append {rest out out' : List Selection} (h : Inlined fragments selections out)
    (hrest : Inlined fragments rest out') : Inlined fragments (selections ++ rest) (out ++ out') := by
  induction h with
  | nil => exact hrest
  | leaf _ ih => exact .leaf ih
  | field hinner _ _ ih => exact .field hinner ih
  | inlineFragment hinner _ _ ih => exact .inlineFragment hinner ih
  | spread hget hinner _ _ ih =>
    rw [List.append_assoc]
    exact .spread hget hinner ih
  | unknown hget _ ih => exact .unknown hget ih

theorem Inlined.unique {out out' : List Selection} (h : Inlined fragments selections out)
    (h' : Inlined fragments selections out') : out' = out := by
  induction h generalizing out' with
  | nil => cases h'; rfl
  | leaf _ ih =>
    cases h' with
    | leaf hrest => rw [ih hrest]
  | field _ _ ihinner ih =>
    cases h' with
    | field hinner hrest => rw [ihinner hinner, ih hrest]
  | inlineFragment _ _ ihinner ih =>
    cases h' with
    | inlineFragment hinner hrest => rw [ihinner hinner, ih hrest]
  | spread hget _ _ ihinner ih =>
    cases h' with
    | spread hget' hinner hrest =>
      cases hget.symm.trans hget'
      rw [ihinner hinner, ih hrest]
    | unknown hget' _ => exact absurd (hget.symm.trans hget') nofun
  | unknown hget _ ih =>
    cases h' with
    | spread hget' _ _ => exact absurd (hget.symm.trans hget') nofun
    | unknown _ hrest => exact ih hrest

end Inlining

/-! ## The walk ends -/

section More

variable {spread spread' : String → Nat → Walk → Option Walk}

mutual

theorem walkSelection_mono (h : ∀ name depth walk walk', spread name depth walk = some walk' → spread' name depth walk = some walk') :
    ∀ (selection : Selection) (depth : Nat) (walk walk' : Walk),
      walkSelection spread selection depth walk = some walk' → walkSelection spread' selection depth walk = some walk'
  | .field none, _, _, _, hwalk => hwalk
  | .field (some selectionSet), depth, _, walk', hwalk => walkSelectionSet_mono h selectionSet (depth + 1) _ walk' hwalk
  | .inlineFragment selectionSet, depth, walk, walk', hwalk => walkSelectionSet_mono h selectionSet depth walk walk' hwalk
  | .fragmentSpread name, depth, walk, walk', hwalk => h name depth walk walk' hwalk

theorem walkSelectionSet_mono (h : ∀ name depth walk walk', spread name depth walk = some walk' → spread' name depth walk = some walk') :
    ∀ (selectionSet : List Selection) (depth : Nat) (walk walk' : Walk),
      walkSelectionSet spread selectionSet depth walk = some walk' → walkSelectionSet spread' selectionSet depth walk = some walk'
  | [], _, _, _, hwalk => hwalk
  | selection :: rest, depth, walk, walk', hwalk => by
    obtain ⟨between, hfirst, hrest⟩ := Option.bind_eq_some_iff.1 hwalk
    rw [walkSelectionSet, walkSelection_mono h selection depth walk between hfirst]
    exact walkSelectionSet_mono h rest depth between walk' hrest

end

end More

theorem walkFragmentSpread_succ (name : String) (depth : Nat)
    (walk walk' : Walk) (hwalk : walkFragmentSpread fragments fuel name depth walk = some walk') :
    walkFragmentSpread fragments (fuel + 1) name depth walk = some walk' := by
  induction fuel generalizing name depth walk walk' with
  | zero => exact absurd hwalk nofun
  | succ fuel ih =>
    rw [walkFragmentSpread] at hwalk ⊢
    split at hwalk
    · next hactive => rwa [if_pos hactive]
    · next hactive =>
      rw [if_neg hactive]
      cases hget : fragments.get name with
      | none => rwa [hget] at hwalk
      | some fragment =>
        simp only [hget] at hwalk ⊢
        obtain ⟨inside, hinside, rfl⟩ := Option.map_eq_some_iff.1 hwalk
        rw [walkSelectionSet_mono ih fragment.selectionSet depth _ inside hinside]
        rfl

theorem walkFragmentSpread_mono {fuel' : Nat} (hle : fuel ≤ fuel')
    (name : String) (depth : Nat) (walk walk' : Walk) (hwalk : walkFragmentSpread fragments fuel name depth walk = some walk') :
    walkFragmentSpread fragments fuel' name depth walk = some walk' := by
  induction hle with
  | refl => exact hwalk
  | step _ ih => exact walkFragmentSpread_succ name depth walk walk' ih

section Ends

variable {spread : String → Nat → Walk → Option Walk} {active : List String}
mutual

theorem walkSelection_ends (h : ∀ name depth metrics, ∃ metrics', spread name depth ⟨metrics, active⟩ = some ⟨metrics', active⟩) : ∀ (selection : Selection) (depth : Nat) (metrics : GraphqlDocumentMetrics),
    ∃ metrics', walkSelection spread selection depth ⟨metrics, active⟩ = some ⟨metrics', active⟩
  | .field none, _, _ => ⟨_, rfl⟩
  | .field (some selectionSet), depth, _ => walkSelectionSet_ends h selectionSet (depth + 1) _
  | .inlineFragment selectionSet, depth, metrics => walkSelectionSet_ends h selectionSet depth metrics
  | .fragmentSpread name, depth, metrics => h name depth metrics

theorem walkSelectionSet_ends (h : ∀ name depth metrics, ∃ metrics', spread name depth ⟨metrics, active⟩ = some ⟨metrics', active⟩) : ∀ (selectionSet : List Selection) (depth : Nat) (metrics : GraphqlDocumentMetrics),
    ∃ metrics', walkSelectionSet spread selectionSet depth ⟨metrics, active⟩ = some ⟨metrics', active⟩
  | [], _, metrics => ⟨metrics, rfl⟩
  | selection :: rest, depth, metrics => by
    obtain ⟨between, hfirst⟩ := walkSelection_ends h selection depth metrics
    obtain ⟨metrics', hrest⟩ := walkSelectionSet_ends h rest depth between
    refine ⟨metrics', ?_⟩
    rw [walkSelectionSet, hfirst]
    exact hrest

end

end Ends

theorem erase_concat {name : String} (h : name ∉ active) : (active ++ [name]).erase name = active := by
  rw [List.erase_append_right _ h, List.erase_cons_head, List.append_nil]

theorem walkFragmentSpread_ends
    (hnodup : active.Nodup) (hsub : active ⊆ fragments.map Prod.fst) (hfuel : fragments.length < fuel + active.length)
    (name : String) (depth : Nat) (metrics : GraphqlDocumentMetrics) :
    ∃ metrics', walkFragmentSpread fragments fuel name depth ⟨metrics, active⟩ = some ⟨metrics', active⟩ := by
  induction fuel generalizing active name depth metrics with
  | zero =>
    have hle := (List.Nodup.subperm hnodup hsub).length_le
    rw [List.length_map] at hle
    omega
  | succ fuel ih =>
    rw [walkFragmentSpread]
    by_cases hactive : name ∈ active
    · exact ⟨metrics, if_pos hactive⟩
    rw [if_neg hactive]
    cases hget : fragments.get name with
    | none => exact ⟨metrics, rfl⟩
    | some fragment =>
      -- the walk is now inside of one more fragment
      have hnodup' : (active ++ [name]).Nodup := by simpa [List.nodup_append] using ⟨hnodup, fun a ha he => hactive (he ▸ ha)⟩
      have hsub' : active ++ [name] ⊆ fragments.map Prod.fst := by
        refine List.append_subset.2 ⟨hsub, List.cons_subset.2 ⟨?_, List.nil_subset _⟩⟩
        exact OrderedMap.isSome_get.1 (by rw [hget]; rfl)
      have hfuel' : fragments.length < fuel + (active ++ [name]).length := by
        rw [List.length_append, List.length_singleton]
        omega
      obtain ⟨metrics', hwalk⟩ := walkSelectionSet_ends (ih hnodup' hsub' hfuel') fragment.selectionSet depth metrics
      refine ⟨metrics', ?_⟩
      dsimp only
      rw [hwalk, Option.map_some, erase_concat hactive]

/-! ## The walk measures what is inlined -/

section Measures

variable {fragments : OrderedMap String FragmentDefinition} {spread : String → Nat → Walk → Option Walk} {active : List String}

/-- The walk of the selections is that of what they are when the spreads in them are replaced. -/
def Measures (fragments : OrderedMap String FragmentDefinition) (active : List String) (selectionSet : List Selection)
    (walk : Nat → Walk → Option Walk) : Prop :=
  ∀ depth metrics walk', walk depth ⟨metrics, active⟩ = some walk' →
    ∃ out, Inlined fragments selectionSet out ∧ walk' = ⟨(fieldDepths out depth).foldl .count metrics, active⟩

variable {names : List String}

mutual

theorem walkSelection_measures (h : ∀ name ∈ names, Measures fragments active [.fragmentSpread name] (spread name)) : ∀ (selection : Selection), selection.spreads ⊆ names →
    Measures fragments active [selection] (walkSelection spread selection)
  | .field none, _, _, _, _, hwalk => ⟨[.field none], .leaf .nil, (Option.some.inj hwalk).symm⟩
  | .field (some selectionSet), hsub, depth, _, _, hwalk => by
    obtain ⟨inner, hinner, rfl⟩ := walkSelectionSet_measures h selectionSet hsub (depth + 1) _ _ hwalk
    exact ⟨[.field (some inner)], .field hinner .nil, by rw [fieldDepths, fieldDepths, Selection.fieldDepths, List.append_nil]; rfl⟩
  | .inlineFragment selectionSet, hsub, depth, metrics, _, hwalk => by
    obtain ⟨inner, hinner, rfl⟩ := walkSelectionSet_measures h selectionSet hsub depth metrics _ hwalk
    exact ⟨[.inlineFragment inner], .inlineFragment hinner .nil, by rw [fieldDepths, fieldDepths, Selection.fieldDepths, List.append_nil]⟩
  | .fragmentSpread name, hsub, depth, metrics, walk', hwalk =>
    h name (hsub (List.mem_singleton.2 rfl)) depth metrics walk' hwalk

theorem walkSelectionSet_measures (h : ∀ name ∈ names, Measures fragments active [.fragmentSpread name] (spread name)) : ∀ (selectionSet : List Selection), spreads selectionSet ⊆ names →
    Measures fragments active selectionSet (walkSelectionSet spread selectionSet)
  | [], _, _, _, _, hwalk => ⟨[], .nil, (Option.some.inj hwalk).symm⟩
  | selection :: rest, hsub, depth, metrics, walk', hwalk => by
    rw [spreads, List.append_subset] at hsub
    rw [walkSelectionSet, Option.bind_eq_some_iff] at hwalk
    obtain ⟨between, hfirst, hrest⟩ := hwalk
    obtain ⟨out, hout, rfl⟩ := walkSelection_measures h selection hsub.1 depth metrics between hfirst
    obtain ⟨out', hout', rfl⟩ := walkSelectionSet_measures h rest hsub.2 depth _ walk' hrest
    exact ⟨out ++ out', hout.append hout', by rw [fieldDepths_append, List.foldl_append]⟩

end

end Measures

theorem walkFragmentSpread_measures (hacyclic : Acyclic fragments)
    {name : String} (hpath : ∀ a ∈ active, TransGen (Spreads fragments) a name) :
    Measures fragments active [.fragmentSpread name] (walkFragmentSpread fragments fuel name) := by
  induction fuel generalizing active name with
  | zero => exact fun _ _ _ hwalk => absurd hwalk nofun
  | succ fuel ih =>
    intro depth metrics walk' hwalk
    have hactive : name ∉ active := fun hmem => hacyclic name (hpath name hmem)
    rw [walkFragmentSpread, if_neg hactive] at hwalk
    cases hget : fragments.get name with
    | none =>
      rw [hget] at hwalk
      exact ⟨[], .unknown hget .nil, (Option.some.inj hwalk).symm⟩
    | some fragment =>
      simp only [hget] at hwalk
      obtain ⟨walk, hinside, rfl⟩ := Option.map_eq_some_iff.1 hwalk
      have hspread : ∀ other ∈ spreads fragment.selectionSet,
          Measures fragments (active ++ [name]) [.fragmentSpread other] (walkFragmentSpread fragments fuel other) := by
        intro other hother
        have hstep : Spreads fragments name other := ⟨fragment, hget, hother⟩
        refine ih fun a ha => ?_
        rcases List.mem_append.1 ha with ha | ha
        · exact (hpath a ha).tail hstep
        · exact List.mem_singleton.1 ha ▸ .single hstep
      obtain ⟨out, hout, rfl⟩ := walkSelectionSet_measures hspread fragment.selectionSet (List.Subset.refl _) depth metrics walk hinside
      refine ⟨out, ?_, ?_⟩
      · rw [← List.append_nil out]
        exact .spread hget hout .nil
      · dsimp only
        rw [erase_concat hactive]

/-- A fragment that spreads another twice, and is spread twice itself. -/
private def shared : Document :=
  [.operation ⟨none, [.field (some [.fragmentSpread "User"]), .fragmentSpread "User"]⟩,
    .fragment ⟨"User", [.field (some [.fragmentSpread "Name"]), .fragmentSpread "Name"]⟩, .fragment ⟨"Name", [.field none]⟩]

end Fluo.Graphql
