import Fluo.Lib.Memo
import Fluo.Di.Keeps
import Fluo.Di.Verdict
/-!
# The plan caches

Every container keeps the answers to its lookups in plan caches. An entry
carries the revision of the container's lineage at which it was written, and is
read only at that revision. `register` and `override` advance the revision of
their container each time they write to it.

A `Planned` tree is a container tree with its plan caches. The methods of the
tree look things up at any time, so a lookup is a move of its own here; and one
round of the loop of `register` or of `override` is a move, since a call that
throws leaves the rounds before it done.
-/

namespace Fluo.Di

open Lib (Answers Plan Recorded memo revision)

variable {τ : Type}

/-- The lookups that have a plan cache. -/
inductive Query
  /-- `providerLookupPlanCache` -/
  | lookupProvider
  /-- `multiProviderPlanCache` -/
  | collectMultiProviders
  /-- `requestScopeVerdictPlanCache` -/
  | hasRequestScopedDependency
  /-- `effectiveProviderPlanCache` -/
  | resolveEffectiveProvider
  deriving DecidableEq

def Query.Answer (τ : Type) : Query → Type
  | .lookupProvider | .resolveEffectiveProvider => Option (NormalizedProvider τ)
  | .collectMultiProviders => List (NormalizedProvider τ)
  | .hasRequestScopedDependency => Bool

abbrev Plans (τ : Type) := ContainerId → (q : Query) → JsMap τ (Plan (q.Answer τ))

variable [DecidableEq τ]

/-- The answer without the plan caches; `resolveEffectiveProvider` throws on a cycle of aliases. -/
def Graph.answer (g : Graph τ) (classes : JsMap τ (ClassMetadata τ)) (c : ContainerId) (t : τ) :
    (q : Query) → Except (DiError τ) (q.Answer τ)
  | .lookupProvider => .ok (g.lookupProvider c t)
  | .collectMultiProviders => .ok (g.collectMultiProviders c t)
  | .hasRequestScopedDependency => .ok (g.hasRequestScopedDependency classes c t)
  | .resolveEffectiveProvider => g.resolveEffectiveProvider c (g.size c) [] t

/-! ## Lookups through the plan caches -/

section Lookups
variable (g : Graph τ) (graphRevision : ContainerId → Nat) (classes : JsMap τ (ClassMetadata τ))

def currentLineageRevision (c : ContainerId) : String := revision ((g.lineage c).map graphRevision)

def readCachedPlan (c : ContainerId) (q : Query) (t : τ) (plans : Plans τ) : Option (q.Answer τ) :=
  match (plans c q).lookup t with
  | some plan => if plan.revision = currentLineageRevision g graphRevision c then some plan.value else none
  | none => none

def writePlanCache (c : ContainerId) (q : Query) (t : τ) (value : q.Answer τ) (plans : Plans τ) : Plans τ :=
  Function.update plans c (Function.update (plans c) q
    ((plans c q).insert t ⟨currentLineageRevision g graphRevision c, value⟩))

/-- `cached ? cached.value : this.writePlanCache(..)` -/
def planned (c : ContainerId) (q : Query) (t : τ) (compute : StateM (Plans τ) (q.Answer τ)) : StateM (Plans τ) (q.Answer τ) :=
  memo (readCachedPlan g graphRevision c q t) (writePlanCache g graphRevision c q t) compute

/-- `lookupProvider`, along a parent chain. -/
def lookupPlanned (t : τ) : List ContainerId → StateM (Plans τ) (Option (NormalizedProvider τ))
  | [] => pure none
  | c :: parents => planned g graphRevision c .lookupProvider t (match g.registration c t with
    | some p => pure (some p)
    | none => lookupPlanned t parents)

/-- `collectMultiProviders`, along a parent chain. -/
def collectPlanned (t : τ) : List ContainerId → StateM (Plans τ) (List (NormalizedProvider τ))
  | [] => pure []
  | c :: parents => planned g graphRevision c .collectMultiProviders t (
    if t ∈ (g c).multiOverriddenTokens then pure (g.multiRegistration c t)
    else do
      let fromParent ← collectPlanned t parents
      pure (fromParent ++ g.multiRegistration c t))

/-- `has`. -/
def hasPlanned (c : ContainerId) (t : τ) : StateM (Plans τ) Bool := do
  let provider ← lookupPlanned g graphRevision t (g.lineage c)
  pure (provider.isSome || (g.lineage c).any fun d => t ∈ (g d).multiRegistrations)

/-- The loop of `resolveEffectiveProvider`. -/
def effectivePlanned (c : ContainerId) : Nat → List τ → τ → StateM (Plans τ) (Except (DiError τ) (Option (NormalizedProvider τ)))
  | 0, _, _ => pure (.ok none)
  | fuel + 1, chain, t =>
    if t ∈ chain then pure (.error (.circularDependency (chain ++ [t]) false))
    else do
      match ← lookupPlanned g graphRevision t (g.lineage c) with
      | none => pure (.ok none)
      | some p => match p.type with
        | .existing target => effectivePlanned c fuel (chain ++ [t]) target
        | _ => pure (.ok (some p))

/-- `dependencyEntryRequiresRequestScope`. -/
def entryPlanned (c : ContainerId) (requires : τ → StateM (Plans τ) Bool) : InjectToken τ → StateM (Plans τ) Bool
  | .optional t => do
    if ← hasPlanned g graphRevision c t then requires t else pure false
  | e => requires e.target

/-- `normalizedProviderRequiresRequestScope`. -/
def providerPlanned (c : ContainerId) (requires : τ → StateM (Plans τ) Bool) (p : NormalizedProvider τ) : StateM (Plans τ) Bool :=
  if p.scope = .request then pure true
  else match p.type with
    | .existing target => requires target
    | _ => p.inject.anyM (entryPlanned g graphRevision c requires)

/-- `unregisteredClassRequiresRequestScope`. -/
def classPlanned (c : ContainerId) (requires : τ → StateM (Plans τ) Bool) (t : τ) : StateM (Plans τ) Bool :=
  match classes.lookup t with
  | none => pure false
  | some metadata =>
    if metadata.scope = some .request then pure true
    else (metadata.inject.filterMap id).anyM (entryPlanned g graphRevision c requires)

/-- `providerGraphRequiresRequestScope`. -/
def verdictPlanned (c : ContainerId) : Nat → List τ → τ → StateM (Plans τ) Bool
  | 0, _, _ => pure true
  | fuel + 1, visited, t =>
    if visited.contains t then pure true
    else do
      let requires := verdictPlanned c fuel (t :: visited)
      let provider ← lookupPlanned g graphRevision t (g.lineage c)
      let multiProviders ← collectPlanned g graphRevision t (g.lineage c)
      match provider, multiProviders with
      | none, [] => classPlanned g graphRevision classes c requires t
      | provider, multiProviders =>
        if ← provider.toList.anyM (providerPlanned g graphRevision c requires) then pure true
        else multiProviders.anyM (providerPlanned g graphRevision c requires)

/-- A lookup, with its plan cache; a thrown error is not cached. -/
def lookupQuery (c : ContainerId) (t : τ) : (q : Query) → StateM (Plans τ) (Except (DiError τ) (q.Answer τ))
  | .lookupProvider => return .ok (← lookupPlanned g graphRevision t (g.lineage c))
  | .collectMultiProviders => return .ok (← collectPlanned g graphRevision t (g.lineage c))
  | .hasRequestScopedDependency =>
    return .ok (← planned g graphRevision c .hasRequestScopedDependency t (verdictPlanned g graphRevision classes c (g.reach classes c) [] t))
  | .resolveEffectiveProvider =>
    memo (fun plans => (readCachedPlan g graphRevision c .resolveEffectiveProvider t plans).map .ok)
      (fun r plans => match r with
        | .ok value => writePlanCache g graphRevision c .resolveEffectiveProvider t value plans
        | .error _ => plans)
      (effectivePlanned g graphRevision c (g.size c) [] t)

end Lookups

/-! ## The entries are right -/

/-- Every entry was right at the revision it carries, and a container that does not exist has none. -/
structure Sound (g : Graph τ) (graphRevision : ContainerId → Nat) (classes : JsMap τ (ClassMetadata τ)) (n : Nat) (plans : Plans τ) : Prop where
  recorded : ∀ c < n, ∀ q t plan, (plans c q).lookup t = some plan →
    Recorded (fun value => g.answer classes c t q = .ok value) (g.lineage c) graphRevision plan
  fresh : ∀ c, n ≤ c → ∀ q, plans c q = ∅

section Answers
variable {g : Graph τ} {graphRevision : ContainerId → Nat} {classes : JsMap τ (ClassMetadata τ)} {n : Nat} {plans : Plans τ} {c : ContainerId}
  {q : Query} {t : τ}

variable {value : q.Answer τ}

theorem Sound.read (h : Sound g graphRevision classes n plans) (hc : c < n)
    (hread : readCachedPlan g graphRevision c q t plans = some value) : g.answer classes c t q = .ok value := by
  unfold readCachedPlan at hread
  split at hread
  next plan hplan =>
    split at hread
    next hrev =>
      cases hread
      exact (h.recorded c hc q t plan hplan).read hrev
    next => cases hread
  next => cases hread

theorem Sound.write (h : Sound g graphRevision classes n plans) (hc : c < n)
    (hvalue : g.answer classes c t q = .ok value) : Sound g graphRevision classes n (writePlanCache g graphRevision c q t value plans) := by
  refine ⟨fun d hd q' t' plan hplan => ?_, fun d hd q' => ?_⟩
  · by_cases hdc : d = c
    · subst hdc
      by_cases hq : q' = q
      · subst hq
        by_cases ht : t' = t
        · subst ht
          obtain rfl : (⟨_, value⟩ : Plan _) = plan := by simpa [writePlanCache] using hplan
          exact .write hvalue
        · refine h.recorded d hd q' t' plan ?_
          simpa [writePlanCache, AList.lookup_insert_ne ht] using hplan
      · refine h.recorded d hd q' t' plan ?_
        simpa [writePlanCache, hq] using hplan
    · refine h.recorded d hd q' t' plan ?_
      simpa [writePlanCache, hdc] using hplan
  · have hdc : d ≠ c := fun he => absurd (he ▸ hc) (Nat.not_lt.2 hd)
    simpa [writePlanCache, hdc] using h.fresh d hd q'

theorem planned_answers (hc : c < n) {compute : StateM (Plans τ) (q.Answer τ)} (hvalue : g.answer classes c t q = .ok value)
    (h : Answers (Sound g graphRevision classes n) compute value) :
    Answers (Sound g graphRevision classes n) (planned g graphRevision c q t compute) value := by
  refine Answers.memo (fun plans b hs hb => ?_) (fun plans hs => hs.write hc hvalue) h
  have := hs.read hc hb
  rw [hvalue] at this
  exact (Except.ok.inj this).symm

omit [DecidableEq τ] in
theorem Graph.Tree.lineage_rec (ht : g.Tree n) {P : List ContainerId → Prop} (hnil : P [])
    (hcons : ∀ c < n, ∀ parents, g.lineage c = c :: parents → P parents → P (c :: parents)) (hc : c < n) : P (g.lineage c) := by
  induction c using Nat.strongRecOn with
  | ind c ih =>
    by_cases hroot : c = Di.root
    · have hl : g.lineage c = [c] := by rw [hroot, Graph.lineage, ht.root]
      rw [hl]
      exact hcons c hc [] hl hnil
    · obtain ⟨parent, hp, ha⟩ := ht.scope c hc hroot
      have hl : g.lineage c = c :: g.lineage parent := by rw [Graph.lineage, ha]
      rw [hl]
      exact hcons c hc _ hl (ih parent hp (hp.trans hc))

theorem lookupPlanned_answers (ht : g.Tree n) (hc : c < n) (t : τ) :
    Answers (Sound g graphRevision classes n) (lookupPlanned g graphRevision t (g.lineage c)) (g.lookupProvider c t) := by
  refine ht.lineage_rec (P := fun l => Answers (Sound g graphRevision classes n) (lookupPlanned g graphRevision t l)
    (l.findSome? (g.registration · t))) (.pure none) (fun d hd parents hl ih => ?_) hc
  have hanswer : g.lookupProvider d t = (d :: parents).findSome? (g.registration · t) := by rw [Graph.lookupProvider, hl]
  refine planned_answers hd (congrArg Except.ok hanswer) ?_
  rw [List.findSome?_cons]
  cases g.registration d t with
  | some p => exact .pure (some p)
  | none => exact ih

theorem collectPlanned_answers (ht : g.Tree n) (hc : c < n) (t : τ) :
    Answers (Sound g graphRevision classes n) (collectPlanned g graphRevision t (g.lineage c)) (g.collectMultiProviders c t) := by
  refine ht.lineage_rec (P := fun l => Answers (Sound g graphRevision classes n) (collectPlanned g graphRevision t l)
    (g.collectFrom t l)) (.pure []) (fun d hd parents hl ih => ?_) hc
  have hanswer : g.collectMultiProviders d t = g.collectFrom t (d :: parents) := by rw [Graph.collectMultiProviders, hl]
  refine planned_answers hd (congrArg Except.ok hanswer) ?_
  rw [Graph.collectFrom]
  split
  · exact .pure _
  · exact ih.bind (.pure _)

theorem hasPlanned_answers (ht : g.Tree n) (hc : c < n) (t : τ) :
    Answers (Sound g graphRevision classes n) (hasPlanned g graphRevision c t) (g.has c t) :=
  (lookupPlanned_answers ht hc t).bind (.pure _)

theorem effectivePlanned_answers (ht : g.Tree n) (hc : c < n) (fuel : Nat) : ∀ (chain : List τ) (t : τ),
    Answers (Sound g graphRevision classes n) (effectivePlanned g graphRevision c fuel chain t) (g.resolveEffectiveProvider c fuel chain t) := by
  induction fuel with
  | zero => exact fun _ _ => .pure _
  | succ fuel ih =>
    intro chain t
    rw [effectivePlanned, Graph.resolveEffectiveProvider]
    split
    · exact .pure _
    · refine (lookupPlanned_answers ht hc t).bind ?_
      cases g.lookupProvider c t with
      | none => exact .pure _
      | some p =>
        dsimp only
        cases p.type with
        | existing target => exact ih _ _
        | _ => exact .pure _

section Verdict
variable {requires : τ → StateM (Plans τ) Bool} {requires' : τ → Bool}

theorem entryPlanned_answers (ht : g.Tree n) (hc : c < n) (h : ∀ t, Answers (Sound g graphRevision classes n) (requires t) (requires' t))
    (e : InjectToken τ) : Answers (Sound g graphRevision classes n) (entryPlanned g graphRevision c requires e) (g.entryRequires c requires' e) := by
  cases e with
  | optional t =>
    refine (hasPlanned_answers ht hc t).bind ?_
    rw [Graph.entryRequires]
    cases g.has c t with
    | true => exact h t
    | false => exact .pure false
  | token t => exact h t
  | forwardRef t => exact h t

theorem providerPlanned_answers (ht : g.Tree n) (hc : c < n) (h : ∀ t, Answers (Sound g graphRevision classes n) (requires t) (requires' t))
    (p : NormalizedProvider τ) :
    Answers (Sound g graphRevision classes n) (providerPlanned g graphRevision c requires p) (g.providerRequires c requires' p) := by
  unfold providerPlanned Graph.providerRequires
  by_cases hscope : p.scope = .request
  · rw [if_pos hscope, decide_eq_true hscope]
    exact .pure true
  · rw [if_neg hscope, decide_eq_false hscope, Bool.false_or]
    cases p.type with
    | existing target => exact h target
    | _ => exact .anyM fun e _ => entryPlanned_answers ht hc h e

theorem classPlanned_answers (ht : g.Tree n) (hc : c < n) (h : ∀ t, Answers (Sound g graphRevision classes n) (requires t) (requires' t))
    (t : τ) : Answers (Sound g graphRevision classes n) (classPlanned g graphRevision classes c requires t) (g.classRequires classes c requires' t) := by
  unfold classPlanned Graph.classRequires
  cases classes.lookup t with
  | none => exact .pure false
  | some metadata =>
    dsimp only
    by_cases hscope : metadata.scope = some .request
    · rw [if_pos hscope, decide_eq_true hscope]
      exact .pure true
    · rw [if_neg hscope, decide_eq_false hscope, Bool.false_or]
      exact .anyM fun e _ => entryPlanned_answers ht hc h e

theorem verdictPlanned_answers (ht : g.Tree n) (hc : c < n) (fuel : Nat) : ∀ (visited : List τ) (t : τ),
    Answers (Sound g graphRevision classes n) (verdictPlanned g graphRevision classes c fuel visited t)
      (g.graphRequires classes c fuel visited t) := by
  induction fuel with
  | zero => exact fun _ _ => .pure _
  | succ fuel ih =>
    intro visited t
    rw [verdictPlanned, Graph.graphRequires]
    by_cases hv : visited.contains t = true
    · rw [if_pos hv, hv]
      exact .pure true
    · rw [if_neg hv, Bool.eq_false_iff.2 hv, Bool.false_or]
      have hproviders : ∀ (provider : Option (NormalizedProvider τ)) (ps : List (NormalizedProvider τ)), Answers (Sound g graphRevision classes n)
          (do
            if ← provider.toList.anyM (providerPlanned g graphRevision c (verdictPlanned g graphRevision classes c fuel (t :: visited))) then pure true
            else ps.anyM (providerPlanned g graphRevision c (verdictPlanned g graphRevision classes c fuel (t :: visited))))
          (provider.any (g.providerRequires c (g.graphRequires classes c fuel (t :: visited))) ||
            ps.any (g.providerRequires c (g.graphRequires classes c fuel (t :: visited)))) := by
        intro provider ps
        have hany := fun p => providerPlanned_answers ht hc (ih (t :: visited)) p
        have hlist : provider.any (g.providerRequires c (g.graphRequires classes c fuel (t :: visited))) =
            provider.toList.any (g.providerRequires c (g.graphRequires classes c fuel (t :: visited))) := by cases provider <;> simp
        rw [hlist]
        refine (Answers.anyM fun p _ => hany p).bind ?_
        cases provider.toList.any (g.providerRequires c (g.graphRequires classes c fuel (t :: visited))) with
        | true => exact .pure true
        | false => exact .anyM fun p _ => hany p
      refine (lookupPlanned_answers ht hc t).bind ((collectPlanned_answers ht hc t).bind ?_)
      cases g.lookupProvider c t with
      | some p => exact hproviders (some p) _
      | none =>
        cases g.collectMultiProviders c t with
        | nil => exact classPlanned_answers ht hc (ih (t :: visited)) t
        | cons p ps => exact hproviders none (p :: ps)

end Verdict

theorem lookupQuery_answers (ht : g.Tree n) (hc : c < n) (t : τ) (q : Query) :
    Answers (Sound g graphRevision classes n) (lookupQuery g graphRevision classes c t q) (g.answer classes c t q) := by
  cases q with
  | lookupProvider => exact (lookupPlanned_answers ht hc t).bind (.pure _)
  | collectMultiProviders => exact (collectPlanned_answers ht hc t).bind (.pure _)
  | hasRequestScopedDependency =>
    exact (planned_answers (q := .hasRequestScopedDependency) hc rfl (verdictPlanned_answers ht hc _ [] t)).bind (.pure _)
  | resolveEffectiveProvider =>
    refine Answers.memo (fun plans b hs hb => ?_) (fun plans hs => ?_) (effectivePlanned_answers ht hc _ [] t)
    · obtain ⟨value, hvalue, rfl⟩ := Option.map_eq_some_iff.1 hb
      exact (hs.read hc hvalue).symm
    · cases hr : g.answer classes c t .resolveEffectiveProvider with
      | ok value => exact hs.write hc hr
      | error e => exact hs

end Answers

/-! ## The tree with its plan caches -/

structure Planned (τ : Type) where
  tree : State τ
  graphRevision : ContainerId → Nat := fun _ => 0
  plans : Plans τ := fun _ _ => ∅

inductive Move (τ : Type)
  /-- Some method looks `t` up on `c`. -/
  | query (c : ContainerId) (t : τ) (q : Query)
  | has (c : ContainerId) (t : τ)
  /-- One round of `register`. -/
  | register (c : ContainerId) (provider : Provider τ)
  /-- One round of `override`. -/
  | override (c : ContainerId) (t : τ) (providers : List (NormalizedProvider τ))
  /-- Any other step of the tree. -/
  | step (l : Label τ)

namespace Planned
variable (s : Planned τ)

/-- `advanceGraphRevision` on the containers of the test. -/
def advance (moved : ContainerId → Bool) : Planned τ := { s with
  graphRevision := fun c => if moved c then s.graphRevision c + 1 else s.graphRevision c
  plans := fun c => if moved c then fun _ => ∅ else s.plans c }

/-- `clearResolutionPlanCaches` at the end of a disposal. -/
def clear (c : ContainerId) : Planned τ := { s with plans := Function.update s.plans c fun _ => ∅ }

def lookup (c : ContainerId) (t : τ) (q : Query) : Except (DiError τ) (q.Answer τ) × Planned τ :=
  let (answer, plans) := (lookupQuery s.tree.graph s.graphRevision s.tree.classes c t q).run s.plans
  (answer, { s with plans })

def has (c : ContainerId) (t : τ) : Bool × Planned τ :=
  let (answer, plans) := (hasPlanned s.tree.graph s.graphRevision c t).run s.plans
  (answer, { s with plans })

/-- A disposal starts on the container, for the first time or again. -/
def startsDisposal (tree : State τ) (c : ContainerId) : Bool :=
  (tree.container c).disposal.started && !(s.tree.container c).disposal.started

def move : Move τ → Option (Planned τ)
  | .query c t q => if s.tree.isContainer c then some (s.lookup c t q).2 else none
  | .has c t => if s.tree.isContainer c then some (s.has c t).2 else none
  | .register c provider =>
    if s.tree.running = none ∧ s.tree.isContainer c then match s.tree.registerOne c provider with
      | .ok tree => some ({ s with tree }.advance fun d => d = c)
      | .error _ => some s
    else none
  | .override c t providers =>
    if s.tree.running = none ∧ s.tree.isContainer c ∧ ∀ p ∈ providers, p.provide = t then match s.tree.overrideToken c t providers with
      | .ok tree => some ({ s with tree }.advance fun d => d = c)
      | .error _ => some s
    else none
  | .step l => match l with
    | .register _ _ | .override _ _ => none
    | .disposal c error => do
      let tree ← step s.tree (.disposal c error)
      match (s.tree.container c).disposal with
      | .destroying [] _ => some ({ s with tree }.clear c)
      | _ => some { s with tree }
    | l => do
      let tree ← step s.tree l
      some ({ s with tree }.advance (s.startsDisposal tree))

/-- A container that was just created, with the given class metadata. -/
def init (classes : JsMap τ (ClassMetadata τ)) : Planned τ := { tree := .init classes }

end Planned

/-! ## Runs -/

theorem answer_congr {g g' : Graph τ} {c : ContainerId} (h : ∀ d ∈ g.lineage c, g' d = g d) (classes : JsMap τ (ClassMetadata τ)) (t : τ)
    (q : Query) : g'.answer classes c t q = g.answer classes c t q := by
  cases q with
  | lookupProvider => exact congrArg Except.ok (lookupProvider_congr h t)
  | collectMultiProviders => exact congrArg Except.ok (collectMultiProviders_congr h t)
  | hasRequestScopedDependency => exact congrArg Except.ok (hasRequestScopedDependency_congr classes h t)
  | resolveEffectiveProvider =>
    unfold Graph.answer
    rw [size_congr h, resolveEffectiveProvider_congr h]

theorem Sound.change {g g' : Graph τ} {graphRevision graphRevision' : ContainerId → Nat} {classes : JsMap τ (ClassMetadata τ)} {n n' : Nat}
    {plans plans' : Plans τ} (h : Sound g graphRevision classes n plans) (ht : g.Tree n) (hn : n ≤ n')
    (hancestors : ∀ d < n, (g' d).ancestors = (g d).ancestors)
    (hmoved : ∀ d < n, (graphRevision' d = graphRevision d ∧ g' d = g d) ∨ graphRevision d < graphRevision' d)
    (hplans : ∀ d, plans' d = plans d ∨ plans' d = fun _ => ∅) : Sound g' graphRevision' classes n' plans' := by
  refine ⟨fun c hc q t plan hplan => ?_, fun c hc q => ?_⟩
  · have hold : (plans c q).lookup t = some plan := by
      rcases hplans c with hp | hp <;> rw [hp] at hplan
      · exact hplan
      · simp at hplan
    have hcn : c < n := by
      by_contra hge
      rw [h.fresh c (Nat.not_lt.1 hge) q] at hold
      simp at hold
    have hlineage : g'.lineage c = g.lineage c := by rw [Graph.lineage, Graph.lineage, hancestors c hcn]
    have hbound : ∀ d ∈ g.lineage c, d < n :=
      ht.lineage_rec (P := fun l => ∀ d ∈ l, d < n) (by simp) (fun c hc _ _ ih => List.forall_mem_cons.2 ⟨hc, ih⟩) hcn
    have hrecorded := h.recorded c hcn q t plan hold
    rw [hlineage]
    by_cases hstay : ∀ d ∈ g.lineage c, graphRevision' d = graphRevision d ∧ g' d = g d
    · refine hrecorded.keep (fun d hd => (hstay d hd).1) fun value hvalue => ?_
      rw [answer_congr fun d hd => (hstay d hd).2]
      exact hvalue
    · push Not at hstay
      obtain ⟨d, hd, hne⟩ := hstay
      have hlt : graphRevision d < graphRevision' d := by
        rcases hmoved d (hbound d hd) with ⟨hr, hg⟩ | hlt
        · exact absurd hg (hne hr)
        · exact hlt
      refine hrecorded.advance (fun e he => ?_) hd hlt
      rcases hmoved e (hbound e he) with ⟨hr, _⟩ | hlt
      · exact hr.ge
      · exact hlt.le
  · rcases hplans c with hp | hp <;> rw [hp]
    exact h.fresh c (hn.trans hc) q

variable {s s' : State τ}

theorem Inv.step_graph (h : Inv s) {l : Label τ} (hs : Di.step s l = some s')
    (hl : (∀ c ps, l ≠ .register c ps) ∧ ∀ c ps, l ≠ .override c ps) : ∀ d < s.containers, s'.graph d = s.graph d := by
  intro d hd
  have hturn : ∀ {k v base sync w}, s.call k = some v → Turn s v base sync w → (base.goOn sync k w).graph d = s.graph d :=
    fun hv ht => by rw [goOn_graph, (h.turn_effect hv ht).graph.1]
  cases step_cases hs with
  | register => exact absurd rfl (hl.1 _ _)
  | override => exact absurd rfl (hl.2 _ _)
  | createRequestScope => exact Function.update_of_ne (Nat.ne_of_lt hd) _ _
  | resolve => rw [startResolve_eq]
  | dispose => rw [dispose_eq]
  | advance _ hv ht => obtain ⟨ht⟩ := ht; exact hturn hv ht
  | resume _ hv ht => obtain ⟨ht⟩ := ht; exact hturn hv ht
  | settle _ hv _ ht => obtain ⟨ht⟩ := ht; exact hturn hv ht
  | stale _ ht => rw [(runStale_outside ht).2]
  | disposal _ ht => rw [(continueDisposal_outside ht).2]

structure Extends (s s' : State τ) : Prop where
  classes : s'.classes = s.classes
  containers : s.containers ≤ s'.containers
  ancestors : ∀ d < s.containers, (s'.graph d).ancestors = (s.graph d).ancestors

omit [DecidableEq τ] in
theorem Outside.extends [DecidableEq τ] (h : Outside s s') : Extends s s' := ⟨h.classes, h.containers, h.ancestors⟩

theorem Inv.step_extends (h : Inv s) {l : Label τ} (hs : Di.step s l = some s') : Extends s s' := by
  cases h.kind hs with
  | turn hv _ ht he =>
    obtain ⟨hg, hc, hn⟩ := (h.turn_effect hv ht).graph
    subst he
    refine ⟨?_, ?_, fun d _ => ?_⟩
    · rw [goOn_classes, hc]
    · rw [goOn_containers, hn]
    · rw [goOn_graph, hg]
  | start _ _ he =>
    subst he
    rw [startResolve_eq]
    exact ⟨rfl, le_rfl, fun _ _ => rfl⟩
  | outside _ ho => exact ho.extends

namespace Planned

structure Right (s : Planned τ) : Prop where
  inv : Inv s.tree
  sound : Sound s.tree.graph s.graphRevision s.tree.classes s.tree.containers s.plans

namespace Right
variable {s s' : Planned τ}

theorem advance (h : s.Right) {tree : State τ} (hi : Inv tree) (he : Extends s.tree tree) {moved : ContainerId → Bool}
    (hstay : ∀ d < s.tree.containers, moved d = false → tree.graph d = s.tree.graph d) : ({ s with tree }.advance moved).Right := by
  refine ⟨hi, ?_⟩
  have hmoved : ∀ d < s.tree.containers, ((if moved d then s.graphRevision d + 1 else s.graphRevision d) = s.graphRevision d ∧
      tree.graph d = s.tree.graph d) ∨ s.graphRevision d < if moved d then s.graphRevision d + 1 else s.graphRevision d := by
    intro d hd
    cases hm : moved d with
    | true => exact .inr (Nat.lt_succ_self _)
    | false => exact .inl ⟨rfl, hstay d hd hm⟩
  have hplans : ∀ d, (if moved d then fun _ => ∅ else s.plans d) = s.plans d ∨ (if moved d then fun _ => ∅ else s.plans d) = fun _ => ∅ := by
    intro d
    cases moved d with
    | true => exact .inr rfl
    | false => exact .inl rfl
  have := h.sound.change h.inv.tree he.containers he.ancestors hmoved hplans
  rw [← he.classes] at this
  exact this

theorem keep (h : s.Right) {tree : State τ} (hi : Inv tree) (he : Extends s.tree tree)
    (hstay : ∀ d < s.tree.containers, tree.graph d = s.tree.graph d) {plans : Plans τ} (hplans : ∀ d, plans d = s.plans d ∨ plans d = fun _ => ∅) :
    Right { s with tree, plans } := by
  refine ⟨hi, ?_⟩
  have := h.sound.change h.inv.tree he.containers he.ancestors (fun d hd => .inl ⟨rfl, hstay d hd⟩) hplans
  rw [← he.classes] at this
  exact this

theorem lookup (h : s.Right) {c : ContainerId} (hc : s.tree.isContainer c) (t : τ) (q : Query) :
    (s.lookup c t q).1 = s.tree.graph.answer s.tree.classes c t q ∧ (s.lookup c t q).2.Right := by
  obtain ⟨hanswer, hsound⟩ := lookupQuery_answers h.inv.tree hc t q s.plans h.sound
  exact ⟨hanswer, h.inv, hsound⟩

theorem has (h : s.Right) {c : ContainerId} (hc : s.tree.isContainer c) (t : τ) :
    (s.has c t).1 = s.tree.graph.has c t ∧ (s.has c t).2.Right := by
  obtain ⟨hanswer, hsound⟩ := @hasPlanned_answers _ _ _ _ s.tree.classes _ _ h.inv.tree hc t s.plans h.sound
  exact ⟨hanswer, h.inv, hsound⟩

theorem move (h : s.Right) {m : Move τ} (hm : s.move m = some s') : s'.Right := by
  cases m with
  | query c t q =>
    simp only [Planned.move, Option.ite_none_right_eq_some] at hm
    obtain ⟨hc, hm⟩ := hm
    cases hm
    exact (h.lookup hc t q).2
  | has c t =>
    simp only [Planned.move, Option.ite_none_right_eq_some] at hm
    obtain ⟨hc, hm⟩ := hm
    cases hm
    exact (h.has hc t).2
  | register c provider =>
    simp only [Planned.move, Option.ite_none_right_eq_some] at hm
    obtain ⟨hc, hm⟩ := hm
    split at hm
    next tree htree =>
      cases hm
      obtain ⟨ho, hk⟩ := registerOne_outside h.inv.keyed htree
      exact h.advance (h.inv.outside ho hk) ho.extends fun d _ hd => (registerOne_writesOn htree).graph d (of_decide_eq_false hd)
    next => cases hm; exact h
  | override c t providers =>
    simp only [Planned.move, Option.ite_none_right_eq_some] at hm
    obtain ⟨⟨_, _, hp⟩, hm⟩ := hm
    split at hm
    next tree htree =>
      cases hm
      obtain ⟨ho, hk⟩ := overrideToken_outside h.inv.keyed hp htree
      exact h.advance (h.inv.outside ho hk) ho.extends fun d _ hd => (overrideToken_writesOn htree).graph d (of_decide_eq_false hd)
    next => cases hm; exact h
  | step l =>
    simp only [Planned.move] at hm
    split at hm
    next => cases hm
    next => cases hm
    next c error =>
      obtain ⟨tree, ht, hm⟩ := Option.bind_eq_some_iff.1 hm
      have hstay := h.inv.step_graph ht ⟨fun _ _ h => (nomatch h), fun _ _ h => (nomatch h)⟩
      split at hm
      next =>
        cases hm
        refine h.keep (h.inv.step ht) (h.inv.step_extends ht) hstay fun d => ?_
        by_cases hd : d = c
        · subst hd; exact .inr (Function.update_self _ _ _)
        · exact .inl (Function.update_of_ne hd _ _)
      next =>
        cases hm
        exact h.keep (h.inv.step ht) (h.inv.step_extends ht) hstay fun _ => .inl rfl
    next hr ho _ =>
      obtain ⟨tree, ht, hm⟩ := Option.bind_eq_some_iff.1 hm
      cases hm
      exact h.advance (h.inv.step ht) (h.inv.step_extends ht) fun d hd _ => h.inv.step_graph ht ⟨hr, ho⟩ d hd

theorem init (classes : JsMap τ (ClassMetadata τ)) : (Planned.init classes).Right :=
  ⟨.init classes, fun _ _ _ _ _ h => by simp [Planned.init] at h, fun _ _ _ => rfl⟩

end Right
end Planned

/-- In every run, whatever a plan cache answers is what the registries of the
container and its ancestors say now; and so is every lookup through the caches. -/
theorem plan_caches_sound {classes : JsMap τ (ClassMetadata τ)} {ms : List (Move τ)} {s : Planned τ}
    (h : Lib.Run Planned.move (fun _ _ => True) (Planned.init classes) ms s) {c : ContainerId} (hc : s.tree.isContainer c) (t : τ) :
    (∀ q value, readCachedPlan s.tree.graph s.graphRevision c q t s.plans = some value →
      s.tree.graph.answer s.tree.classes c t q = .ok value) ∧
    (∀ q, (s.lookup c t q).1 = s.tree.graph.answer s.tree.classes c t q) ∧
    (s.has c t).1 = s.tree.graph.has c t := by
  have hs : s.Right := h.keeps _ (fun _ _ _ _ hr hm => hr.move hm) (Planned.Right.init classes)
  exact ⟨fun q value hread => hs.sound.read hc hread, fun q => (hs.lookup hc t q).1, (hs.has hc t).1⟩

private def plannedRun : List (Move Nat) :=
  [.register root (.object { provide := some 0, useFactory := some true }), .step (.createRequestScope root),
   .query 1 0 .lookupProvider, .override root 0 [⟨7, 0, [], .default, .factory, false⟩], .query 1 0 .lookupProvider]

private def plannedLast : Planned Nat := Lib.after Planned.move (Planned.init ∅) plannedRun

/-- After an override on the root the request scope answers from the entry that it wrote since. -/
theorem plan_caches_sound_override :
    readCachedPlan plannedLast.tree.graph plannedLast.graphRevision 1 .lookupProvider 0 plannedLast.plans =
      some (plannedLast.tree.graph.lookupProvider 1 0) := by
  have h : Lib.Run Planned.move (fun _ _ => True) (Planned.init ∅) plannedRun plannedLast :=
    Lib.Run.of_passes (p := fun _ _ => true) (fun _ _ _ => trivial) (by decide)
  have hc : plannedLast.tree.isContainer 1 := by decide
  obtain ⟨value, hread⟩ := Option.isSome_iff_exists.1 (show (readCachedPlan plannedLast.tree.graph plannedLast.graphRevision 1
    .lookupProvider 0 plannedLast.plans).isSome = true by decide)
  rw [hread]
  exact congrArg some (Except.ok.inj ((plan_caches_sound h hc 0).1 .lookupProvider value hread)).symm

end Fluo.Di
