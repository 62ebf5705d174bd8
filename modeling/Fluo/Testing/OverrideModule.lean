import Mathlib.Algebra.Ring.Nat
import Fluo.Runtime.ModuleGraph
import Fluo.Lib.OrderedMap
/-!
# Replacing modules in a test

`overrideModule` of `packages/testing/src/module.ts`: the imports of the modules are rewritten in the metadata store,
the graph is compiled, and the store is put back.
-/

namespace Fluo.Testing
open Fluo.Lib
open Fluo.Runtime (ModuleType ModuleMetadata ModuleDefinition Metadata Program BootstrapModuleOptions CompiledModule GraphError compileModuleGraph
  definitionOf Imports Reachable)
open Relation (ReflTransGen TransGen)

/-! ## The builder -/

/-- `defineModuleMetadata`: what is not written stays. -/
def defineModule (md : Metadata) (moduleType : ModuleType) (definition : ModuleMetadata) : Metadata :=
  let existing := md.getModuleMetadata moduleType
  { md with modules := OrderedMap.set md.modules moduleType {
      controllers := definition.controllers <|> existing.bind (·.controllers)
      exports := definition.exports <|> existing.bind (·.exports)
      global := definition.global <|> existing.bind (·.global)
      imports := definition.imports <|> existing.bind (·.imports)
      middleware := definition.middleware <|> existing.bind (·.middleware)
      providers := definition.providers <|> existing.bind (·.providers) } }

/-- What `compile` throws. -/
inductive Thrown
  /-- The stack is exhausted. -/
  | rangeError
  | moduleGraphError (error : GraphError)

/-- What a builder works on: the metadata store, and what it has patched there. -/
structure Patching where
  metadata : Metadata
  originalModuleDefinitions : OrderedMap ModuleType ModuleMetadata := []

abbrev Replacements := OrderedMap ModuleType ModuleType

def patchModuleImports (s : Patching) (module : ModuleType) (metadata : ModuleMetadata) (imports : List ModuleType) : Patching where
  metadata := defineModule s.metadata module { metadata with imports := some imports }
  originalModuleDefinitions :=
    if (s.originalModuleDefinitions.get module).isSome then s.originalModuleDefinitions
    else s.originalModuleDefinitions.set module metadata

def restorePatchedModuleImports (s : Patching) : Patching where
  metadata := s.originalModuleDefinitions.foldl (fun md entry => defineModule md entry.1 entry.2) s.metadata

/-- `imports.map(...)`, where the replacement of one import may throw. -/
def rewriteModuleImports (apply : ModuleType → Patching → Except Thrown ModuleType × Patching) :
    List ModuleType → Patching → Except Thrown (List ModuleType) × Patching
  | [], s => (.ok [], s)
  | moduleImport :: rest, s =>
    match apply moduleImport s with
    | (.error thrown, s) => (.error thrown, s)
    | (.ok rewritten, s) =>
      match rewriteModuleImports apply rest s with
      | (.error thrown, s) => (.error thrown, s)
      | (.ok rewrittenRest, s) => (.ok (rewritten :: rewrittenRest), s)

variable (moduleReplacements : Replacements)

/-- `_applyModuleReplacements`, with the calls that the stack still has room for. -/
def applyModuleReplacements : Nat → ModuleType → Patching → Except Thrown ModuleType × Patching
  | 0, _, s => (.error .rangeError, s)
  | depth + 1, module, s =>
    if moduleReplacements.length = 0 then (.ok module, s)
    else match moduleReplacements.get module with
      | some replacement => (.ok replacement, s)
      | none =>
        match s.metadata.getModuleMetadata module with
        | none => (.ok module, s)
        | some metadata =>
          match metadata.imports with
          | none | some [] => (.ok module, s)
          | some imports =>
            match rewriteModuleImports (applyModuleReplacements depth) imports s with
            | (.error thrown, s) => (.error thrown, s)
            | (.ok rewrittenImports, s) =>
              if rewrittenImports = imports then (.ok module, s)
              else (.ok module, patchModuleImports s module metadata rewrittenImports)

/-- The container and its providers are made of these. -/
structure BootstrapResult where
  rootModule : ModuleType
  modules : List CompiledModule

variable (p : Program) (options : BootstrapModuleOptions)

def bootstrapModule (md : Metadata) (rootModule : ModuleType) : Except Thrown BootstrapResult :=
  match compileModuleGraph p md rootModule options with
  | .error error => .error (.moduleGraphError error)
  | .ok modules => .ok { rootModule, modules }

/-- `bootstrapWithPatchedModuleImports`, and the metadata store that it leaves. -/
def bootstrapWithPatchedModuleImports (depth : Nat) (md : Metadata) (rootModule : ModuleType) : Except Thrown BootstrapResult × Metadata :=
  let applied := applyModuleReplacements moduleReplacements depth rootModule { metadata := md }
  let bootstrapped := match applied.1 with
    | .error thrown => .error thrown
    | .ok rootModule => bootstrapModule p options applied.2.metadata rootModule
  (bootstrapped, (restorePatchedModuleImports applied.2).metadata)

/-! ## What a replacement is for -/

/-- Where an import leads to. -/
def replace (module : ModuleType) : ModuleType := (moduleReplacements.get module).getD module

def replaced (metadata : ModuleMetadata) : ModuleMetadata := { metadata with imports := metadata.imports.map (List.map (replace moduleReplacements)) }

/-- The metadata store in which every import leads to its replacement. -/
def substituted (md : Metadata) : Metadata := { md with modules := md.modules.map fun entry => (entry.1, replaced moduleReplacements entry.2) }

section Graphs
variable (md : Metadata)

/-- An import of a module that is not replaced. -/
def Keeps (m n : ModuleType) : Prop := n ∈ (definitionOf md m).imports ∧ moduleReplacements.get n = none

/-- An import of the graph that the replacements are to make. -/
def Leads (m n : ModuleType) : Prop := ∃ i ∈ (definitionOf md m).imports, replace moduleReplacements i = n

/-- The imports lead from the root to the module through modules that are not replaced. -/
def Kept (root m : ModuleType) : Prop := moduleReplacements.get root = none ∧ ReflTransGen (Keeps moduleReplacements md) root m

/-- Two imports of one module lead to it, or from there on to it in the graph that is to be made. -/
def Shared (root n : ModuleType) : Prop :=
  ∃ m i j k, Kept moduleReplacements md root m ∧ [i, j].Sublist (definitionOf md m).imports ∧
    moduleReplacements.get i = none ∧ moduleReplacements.get j = none ∧
    ReflTransGen (Keeps moduleReplacements md) i k ∧ ReflTransGen (Keeps moduleReplacements md) j k ∧
    ReflTransGen (Leads moduleReplacements md) k n

/-- The root stays, a replacement is not replaced itself and closes no cycle where imports are shared, and what is imported by replacements only has
no import that is replaced. -/
structure Separate (root : ModuleType) : Prop where
  stays : replace moduleReplacements root = root
  once : ∀ m, Shared moduleReplacements md root m → ∀ i ∈ (definitionOf md m).imports,
    replace moduleReplacements (replace moduleReplacements i) = replace moduleReplacements i
  acyclic : ∀ m, Shared moduleReplacements md root m → ¬TransGen (Leads moduleReplacements md) m m
  behind : ∀ m, ReflTransGen (Leads moduleReplacements md) root m → ¬Kept moduleReplacements md root m →
    ∀ i ∈ (definitionOf md m).imports, replace moduleReplacements i = i

end Graphs

/-! ## Putting the store back -/

section Restoring
variable {md : Metadata} {moduleReplacements}

theorem get_defineModule_self (md : Metadata) (m : ModuleType) (definition : ModuleMetadata) :
    (defineModule md m definition).getModuleMetadata m = some {
      controllers := definition.controllers <|> (md.getModuleMetadata m).bind (·.controllers)
      exports := definition.exports <|> (md.getModuleMetadata m).bind (·.exports)
      global := definition.global <|> (md.getModuleMetadata m).bind (·.global)
      imports := definition.imports <|> (md.getModuleMetadata m).bind (·.imports)
      middleware := definition.middleware <|> (md.getModuleMetadata m).bind (·.middleware)
      providers := definition.providers <|> (md.getModuleMetadata m).bind (·.providers) } :=
  OrderedMap.get_set_self md.modules m _

variable {m : ModuleType} {imports : List ModuleType} {metadata : ModuleMetadata} {s : Patching}

theorem get_defineModule_of_ne (md : Metadata) {n : ModuleType} (hne : n ≠ m) (definition : ModuleMetadata) :
    (defineModule md m definition).getModuleMetadata n = md.getModuleMetadata n :=
  OrderedMap.get_set_of_ne md.modules hne _

theorem orElse_self {α : Type} (o : Option α) : (o <|> o) = o := by cases o <;> rfl

theorem get_defineModule {raw now : ModuleMetadata} (hget : md.getModuleMetadata m = some now)
    (hnow : now = { raw with imports := now.imports }) :
    (defineModule md m { raw with imports := some imports }).getModuleMetadata m = some { raw with imports := some imports } := by
  rw [get_defineModule_self, hget, hnow]
  simp only [Option.bind_some, orElse_self]
  rfl

/-- What is patched differs from the store of old in its imports only, and is what is to be put back. -/
structure Restorable (md : Metadata) (s : Patching) : Prop where
  keyed : s.originalModuleDefinitions.Keyed
  others : ∀ m, m ∉ s.originalModuleDefinitions.map Prod.fst → s.metadata.getModuleMetadata m = md.getModuleMetadata m
  patched : ∀ entry ∈ s.originalModuleDefinitions, md.getModuleMetadata entry.1 = some entry.2 ∧
    ∃ imports imports', entry.2.imports = some imports ∧ s.metadata.getModuleMetadata entry.1 = some { entry.2 with imports := some imports' }

theorem restorable_start (md : Metadata) : Restorable md { metadata := md } := ⟨List.nodup_nil, fun _ _ => rfl, nofun⟩

/-- What was read of a module: what it was, with the imports it had then. -/
structure Captured (md : Metadata) (s : Patching) (m : ModuleType) (metadata raw : ModuleMetadata) : Prop where
  held : md.getModuleMetadata m = some raw
  imports : raw.imports.isSome
  same : metadata = { raw with imports := metadata.imports }
  new : m ∉ s.originalModuleDefinitions.map Prod.fst → metadata = raw

theorem Restorable.read (h : Restorable md s)
    (hget : s.metadata.getModuleMetadata m = some metadata) (himports : metadata.imports = some imports) : ∃ raw, Captured md s m metadata raw := by
  by_cases hmem : m ∈ s.originalModuleDefinitions.map Prod.fst
  · obtain ⟨entry, hentry, rfl⟩ := List.mem_map.1 hmem
    obtain ⟨hraw, old, now, hold, hnow⟩ := h.patched entry hentry
    rw [hget, Option.some.injEq] at hnow
    refine ⟨entry.2, hraw, hold ▸ rfl, ?_, fun hnew => absurd hmem hnew⟩
    rw [hnow]
  · rw [h.others m hmem] at hget
    exact ⟨metadata, hget, himports ▸ rfl, rfl, fun _ => rfl⟩

theorem Restorable.patch (h : Restorable md s) {raw : ModuleMetadata} (imports : List ModuleType)
    (hcaptured : Captured md s m metadata raw) : Restorable md (patchModuleImports s m metadata imports) := by
  obtain ⟨old, hold⟩ := Option.isSome_iff_exists.1 hcaptured.imports
  have hdefinition : { metadata with imports := some imports } = { raw with imports := some imports } := by rw [hcaptured.same]
  have hother n (hne : n ≠ m) : (patchModuleImports s m metadata imports).metadata.getModuleMetadata n = s.metadata.getModuleMetadata n :=
    get_defineModule_of_ne s.metadata hne _
  have hnow {now : ModuleMetadata} (hget : s.metadata.getModuleMetadata m = some now) (hsame : now = { raw with imports := now.imports }) :
      (patchModuleImports s m metadata imports).metadata.getModuleMetadata m = some { raw with imports := some imports } := by
    show (defineModule s.metadata m { metadata with imports := some imports }).getModuleMetadata m = _
    rw [hdefinition]
    exact get_defineModule hget hsame
  by_cases hmem : m ∈ s.originalModuleDefinitions.map Prod.fst
  · have horiginals : (patchModuleImports s m metadata imports).originalModuleDefinitions = s.originalModuleDefinitions :=
      if_pos (OrderedMap.isSome_get.2 hmem)
    refine ⟨horiginals ▸ h.keyed, fun n hn => ?_, fun entry hentry => ?_⟩
    · rw [horiginals] at hn
      have hne : n ≠ m := by
        rintro rfl
        exact hn hmem
      rw [hother n hne, h.others n hn]
    · rw [horiginals] at hentry
      obtain ⟨hraw, now, now', hentryImports, hget⟩ := h.patched entry hentry
      by_cases hkey : entry.1 = m
      · have hentryRaw : entry.2 = raw := by
          rw [hkey, hcaptured.held, Option.some.injEq] at hraw
          exact hraw.symm
        rw [hkey, hentryRaw] at hget
        rw [hkey, hentryRaw]
        exact ⟨hcaptured.held, old, imports, hold, hnow hget rfl⟩
      · rw [hother _ hkey]
        exact ⟨hraw, now, now', hentryImports, hget⟩
  · have horiginals : (patchModuleImports s m metadata imports).originalModuleDefinitions = s.originalModuleDefinitions ++ [(m, raw)] := by
      rw [← hcaptured.new hmem, ← OrderedMap.set_of_notMem hmem]
      exact if_neg (mt OrderedMap.isSome_get.1 hmem)
    refine ⟨?_, fun n hn => ?_, fun entry hentry => ?_⟩
    · rw [horiginals, ← OrderedMap.set_of_notMem hmem]
      exact h.keyed.set m raw
    · rw [horiginals, List.map_append, List.mem_append, not_or, List.map_singleton, List.mem_singleton] at hn
      rw [hother n hn.2, h.others n hn.1]
    · rw [horiginals, List.mem_append, List.mem_singleton] at hentry
      rcases hentry with hentry | rfl
      · have hne : entry.1 ≠ m := by
          rintro rfl
          exact hmem (List.mem_map_of_mem hentry)
        rw [hother _ hne]
        exact h.patched entry hentry
      · exact ⟨hcaptured.held, old, imports, hold, hnow (by rw [h.others m hmem, hcaptured.held]) rfl⟩

/-- Every call keeps the store restorable, and forgets nothing of what it has patched. -/
def Follows (md : Metadata) (s s' : Patching) : Prop :=
  Restorable md s → Restorable md s' ∧ ∀ m ∈ s.originalModuleDefinitions.map Prod.fst, m ∈ s'.originalModuleDefinitions.map Prod.fst

theorem Follows.refl (s : Patching) : Follows md s s := fun h => ⟨h, fun _ hm => hm⟩

theorem Follows.trans {s' s'' : Patching} (h : Follows md s s') (h' : Follows md s' s'') : Follows md s s'' := by
  intro hs
  obtain ⟨hs', hkeys⟩ := h hs
  obtain ⟨hs'', hkeys'⟩ := h' hs'
  exact ⟨hs'', fun m hm => hkeys' m (hkeys m hm)⟩

theorem follows_rewrite {apply : ModuleType → Patching → Except Thrown ModuleType × Patching} (happly : ∀ m s, Follows md s (apply m s).2)
    (imports : List ModuleType) (s : Patching) : Follows md s (rewriteModuleImports apply imports s).2 := by
  induction imports generalizing s with
  | nil => exact .refl s
  | cons moduleImport rest ih =>
    have hfirst := happly moduleImport s
    unfold rewriteModuleImports
    generalize apply moduleImport s = applied at hfirst ⊢
    obtain ⟨_ | rewritten, s'⟩ := applied
    · exact hfirst
    · have hrest := hfirst.trans (ih s')
      dsimp only
      generalize rewriteModuleImports apply rest s' = rewrittenRest at hrest ⊢
      obtain ⟨_ | _, s''⟩ := rewrittenRest
      · exact hrest
      · exact hrest

theorem mem_keys_patch {n : ModuleType}
    (h : n ∈ s.originalModuleDefinitions.map Prod.fst) : n ∈ (patchModuleImports s m metadata imports).originalModuleDefinitions.map Prod.fst := by
  unfold patchModuleImports
  dsimp only
  split
  · exact h
  · exact OrderedMap.mem_keys_set.2 (.inr h)

variable (moduleReplacements) in
theorem follows_apply (depth : Nat) (m : ModuleType) (s : Patching) : Follows md s (applyModuleReplacements moduleReplacements depth m s).2 := by
  induction depth generalizing m s with
  | zero => exact .refl s
  | succ depth ih =>
    unfold applyModuleReplacements
    split
    · exact .refl s
    split
    · exact .refl s
    split
    · exact .refl s
    rename_i metadata hget
    split
    · exact .refl s
    · exact .refl s
    rename_i imports _ himports
    have hrewrite := follows_rewrite ih imports s
    generalize rewriteModuleImports (applyModuleReplacements moduleReplacements depth) imports s = rewritten at hrewrite ⊢
    obtain ⟨_ | rewrittenImports, s'⟩ := rewritten
    · exact hrewrite
    dsimp only
    split
    · exact hrewrite
    · intro hs
      obtain ⟨raw, hcaptured⟩ := hs.read hget himports
      obtain ⟨hs', hkeys⟩ := hrewrite hs
      -- what was read before the imports were rewritten is still what is to be put back
      have hcaptured' : Captured md s' m metadata raw :=
        ⟨hcaptured.held, hcaptured.imports, hcaptured.same, fun hnew => hcaptured.new fun hmem => hnew (hkeys m hmem)⟩
      exact ⟨hs'.patch rewrittenImports hcaptured', fun n hn => mem_keys_patch (hkeys n hn)⟩

theorem get_foldl_defineModule {entries : OrderedMap ModuleType ModuleMetadata} {now : Metadata} (hkeyed : entries.Keyed)
    (hpatched : ∀ entry ∈ entries, md.getModuleMetadata entry.1 = some entry.2 ∧
      ∃ imports imports', entry.2.imports = some imports ∧ now.getModuleMetadata entry.1 = some { entry.2 with imports := some imports' })
    (m : ModuleType) (hothers : m ∉ entries.map Prod.fst → now.getModuleMetadata m = md.getModuleMetadata m) :
    (entries.foldl (fun md entry => defineModule md entry.1 entry.2) now).getModuleMetadata m = md.getModuleMetadata m := by
  induction entries generalizing now with
  | nil => exact hothers List.not_mem_nil
  | cons entry rest ih =>
    rw [OrderedMap.Keyed, List.map_cons, List.nodup_cons] at hkeyed
    obtain ⟨⟨hraw, imports, imports', himports, hnow⟩, hrest⟩ := List.forall_mem_cons.1 hpatched
    have hback : (defineModule now entry.1 entry.2).getModuleMetadata entry.1 = some entry.2 := by
      have hentry : entry.2 = { entry.2 with imports := some imports } := by rw [← himports]
      rw [hentry]
      exact get_defineModule hnow rfl
    rw [List.foldl_cons]
    refine ih hkeyed.2 (fun other hother => ?_) fun hm => ?_
    · have hne : other.1 ≠ entry.1 := by
        intro heq
        exact hkeyed.1 (heq ▸ List.mem_map_of_mem hother)
      rw [get_defineModule_of_ne now hne]
      exact hrest other hother
    · by_cases hkey : m = entry.1
      · rw [hkey, hback, hraw]
      · rw [get_defineModule_of_ne now hkey]
        apply hothers
        rw [List.map_cons, List.mem_cons, not_or]
        exact ⟨hkey, hm⟩

variable (moduleReplacements) in
theorem get_bootstrapWithPatchedModuleImports (p : Program) (options : BootstrapModuleOptions) (depth : Nat) (md : Metadata) (root m : ModuleType) :
    (bootstrapWithPatchedModuleImports moduleReplacements p options depth md root).2.getModuleMetadata m = md.getModuleMetadata m := by
  obtain ⟨hs, -⟩ := follows_apply moduleReplacements depth root { metadata := md } (restorable_start md)
  exact get_foldl_defineModule hs.keyed hs.patched m (hs.others m)

end Restoring

/-! ## Rewriting the imports -/

section Rewriting
variable {moduleReplacements} {md : Metadata} {root m n : ModuleType}

theorem replace_of_none (h : moduleReplacements.get m = none) : replace moduleReplacements m = m := by rw [replace, h, Option.getD_none]

theorem replace_of_some (h : moduleReplacements.get m = some n) : replace moduleReplacements m = n := by rw [replace, h, Option.getD_some]

theorem Keeps.leads (h : Keeps moduleReplacements md m n) : Leads moduleReplacements md m n := ⟨n, h.1, replace_of_none h.2⟩

theorem Kept.tail (h : Kept moduleReplacements md root m) (hmn : Keeps moduleReplacements md m n) : Kept moduleReplacements md root n := ⟨h.1, h.2.tail hmn⟩

theorem Shared.trans (h : Shared moduleReplacements md root m) (hmn : ReflTransGen (Leads moduleReplacements md) m n) :
    Shared moduleReplacements md root n := by
  obtain ⟨a, i, j, k, ha, hij, hi, hj, hik, hjk, hkm⟩ := h
  exact ⟨a, i, j, k, ha, hij, hi, hj, hik, hjk, hkm.trans hmn⟩

theorem Shared.keeps (h : Shared moduleReplacements md root m) (hmn : ReflTransGen (Keeps moduleReplacements md) m n) :
    Shared moduleReplacements md root n := h.trans (ReflTransGen.mono (fun _ _ => Keeps.leads) _ _ hmn)

/-- The store while the imports are rewritten: those of the finished modules have been, and nothing else. -/
structure View (moduleReplacements : Replacements) (md : Metadata) (finished : Set ModuleType) (now : Metadata) : Prop where
  classes : now.classes = md.classes
  keys : now.modules.map Prod.fst = md.modules.map Prod.fst
  done : ∀ m ∈ finished, now.getModuleMetadata m = (md.getModuleMetadata m).map (replaced moduleReplacements)
  left : ∀ m ∉ finished, now.getModuleMetadata m = md.getModuleMetadata m

theorem View.start : View moduleReplacements md ∅ md := ⟨rfl, rfl, nofun, fun _ _ => rfl⟩

variable {finished : Set ModuleType} {imports : List ModuleType} {s : Patching} {depth : Nat}

theorem View.insert {now : Metadata} (h : View moduleReplacements md finished now)
    (hm : md.getModuleMetadata m = (md.getModuleMetadata m).map (replaced moduleReplacements)) : View moduleReplacements md (Insert.insert m finished) now := by
  refine ⟨h.classes, h.keys, fun n hn => ?_, fun n hn => h.left n fun hmem => hn (Set.mem_insert_of_mem m hmem)⟩
  by_cases hfinished : n ∈ finished
  · exact h.done n hfinished
  · rcases hn with rfl | hn
    · rw [h.left n hfinished]
      exact hm
    · exact absurd hn hfinished

theorem View.patch (h : View moduleReplacements md finished s.metadata) {raw : ModuleMetadata}
    (hget : md.getModuleMetadata m = some raw) (himports : raw.imports = some imports) :
    View moduleReplacements md (Insert.insert m finished)
      (patchModuleImports s m raw (imports.map (replace moduleReplacements))).metadata := by
  have hnow : s.metadata.getModuleMetadata m = some raw ∨ s.metadata.getModuleMetadata m = some (replaced moduleReplacements raw) := by
    by_cases hfinished : m ∈ finished
    · rw [h.done m hfinished, hget]
      exact .inr rfl
    · rw [h.left m hfinished, hget]
      exact .inl rfl
  have hself : (patchModuleImports s m raw (imports.map (replace moduleReplacements))).metadata.getModuleMetadata m =
      (md.getModuleMetadata m).map (replaced moduleReplacements) := by
    have hreplaced : replaced moduleReplacements raw = { raw with imports := some (imports.map (replace moduleReplacements)) } := by
      rw [replaced, himports, Option.map_some]
    rw [hget, Option.map_some, hreplaced]
    rcases hnow with hnow | hnow
    · exact get_defineModule hnow rfl
    · exact get_defineModule hnow rfl
  have hother k (hne : k ≠ m) : (patchModuleImports s m raw (imports.map (replace moduleReplacements))).metadata.getModuleMetadata k =
      s.metadata.getModuleMetadata k := get_defineModule_of_ne s.metadata hne _
  refine ⟨h.classes, ?_, fun k hk => ?_, fun k hk => ?_⟩
  · have hmem : m ∈ s.metadata.modules.map Prod.fst := by
      refine OrderedMap.isSome_get.1 ?_
      exact hnow.elim (fun hnow => Option.isSome_iff_exists.2 ⟨_, hnow⟩) fun hnow => Option.isSome_iff_exists.2 ⟨_, hnow⟩
    exact (OrderedMap.keys_set _ _ _).trans ((if_pos hmem).trans h.keys)
  · by_cases hkey : k = m
    · rw [hkey, hself]
    · rw [hother k hkey]
      exact h.done k (Set.mem_of_mem_insert_of_ne hk hkey)
  · have hne : k ≠ m := by
      rintro rfl
      exact hk (Set.mem_insert k finished)
    rw [hother k hne]
    exact h.left k fun hmem => hk (Set.mem_insert_of_mem m hmem)

/-- With this much stack, a module is finished with all that it keeps, if none of it was finished before but for what is shared. -/
def Visits (moduleReplacements : Replacements) (md : Metadata) (root m : ModuleType) (depth : Nat) : Prop :=
  ∀ finished s, View moduleReplacements md finished s.metadata →
    (∀ n, ReflTransGen (Keeps moduleReplacements md) m n → n ∈ finished → Shared moduleReplacements md root n) →
    ∃ finished' s', applyModuleReplacements moduleReplacements depth m s = (.ok m, s') ∧ View moduleReplacements md finished' s'.metadata ∧
      finished ⊆ finished' ∧ (∀ n, ReflTransGen (Keeps moduleReplacements md) m n → n ∈ finished') ∧
      ∀ n ∈ finished', n ∈ finished ∨ Shared moduleReplacements md root n ∨ ReflTransGen (Keeps moduleReplacements md) m n

def VisitsAll (moduleReplacements : Replacements) (md : Metadata) (root : ModuleType) (imports : List ModuleType) (depth : Nat) : Prop :=
  ∀ finished s, View moduleReplacements md finished s.metadata →
    (∀ i ∈ imports, moduleReplacements.get i = none → ∀ n, ReflTransGen (Keeps moduleReplacements md) i n → n ∈ finished →
      Shared moduleReplacements md root n) →
    ∃ finished' s', rewriteModuleImports (applyModuleReplacements moduleReplacements depth) imports s =
        (.ok (imports.map (replace moduleReplacements)), s') ∧ View moduleReplacements md finished' s'.metadata ∧
      finished ⊆ finished' ∧
      (∀ i ∈ imports, moduleReplacements.get i = none → ∀ n, ReflTransGen (Keeps moduleReplacements md) i n → n ∈ finished') ∧
      ∀ n ∈ finished', n ∈ finished ∨ Shared moduleReplacements md root n ∨
        ∃ i ∈ imports, moduleReplacements.get i = none ∧ ReflTransGen (Keeps moduleReplacements md) i n

def Apart (moduleReplacements : Replacements) (md : Metadata) (root : ModuleType) (imports : List ModuleType) : Prop :=
  imports.Pairwise fun i j => moduleReplacements.get i = none → moduleReplacements.get j = none →
    ∀ n, ReflTransGen (Keeps moduleReplacements md) i n → ReflTransGen (Keeps moduleReplacements md) j n → Shared moduleReplacements md root n

theorem apply_of_some (h : moduleReplacements.get m = some n) (s : Patching) :
    applyModuleReplacements moduleReplacements (depth + 1) m s = (.ok n, s) := by
  have hsize : moduleReplacements.length ≠ 0 := by
    rintro hsize
    rw [List.length_eq_zero_iff] at hsize
    rw [hsize] at h
    cases h
  rw [applyModuleReplacements, if_neg hsize, h]

theorem visitsAll (hapart : Apart moduleReplacements md root imports)
    (hvisits : ∀ i ∈ imports, moduleReplacements.get i = none → Visits moduleReplacements md root i (depth + 1)) :
    VisitsAll moduleReplacements md root imports (depth + 1) := by
  induction imports with
  | nil =>
    intro finished s hview _
    exact ⟨finished, s, rfl, hview, subset_rfl, nofun, fun n hn => .inl hn⟩
  | cons i rest ih =>
    obtain ⟨hfirst, hapart⟩ := List.pairwise_cons.1 hapart
    have hrest := ih hapart fun j hj => hvisits j (List.mem_cons_of_mem i hj)
    intro finished s hview hfinished
    cases hi : moduleReplacements.get i with
    | some replacement =>
      obtain ⟨finished', s', hrewrite, hview', hsubset, hkept, hnew⟩ :=
        hrest finished s hview fun j hj => hfinished j (List.mem_cons_of_mem i hj)
      refine ⟨finished', s', ?_, hview', hsubset, fun j hj hnone => ?_, fun n hn => ?_⟩
      · rw [rewriteModuleImports, apply_of_some hi]
        dsimp only
        rw [hrewrite, List.map_cons, replace_of_some hi]
      · rcases List.mem_cons.1 hj with rfl | hj
        · rw [hi] at hnone
          cases hnone
        · exact hkept j hj hnone
      · refine (hnew n hn).imp_right (Or.imp_right ?_)
        rintro ⟨j, hj, hjn⟩
        exact ⟨j, List.mem_cons_of_mem i hj, hjn⟩
    | none =>
      obtain ⟨middle, s₁, happly, hview₁, hsubset₁, hkept₁, hnew₁⟩ :=
        hvisits i List.mem_cons_self hi finished s hview (hfinished i List.mem_cons_self hi)
      have hmiddle j (hj : j ∈ rest) (hnone : moduleReplacements.get j = none) n
          (hjn : ReflTransGen (Keeps moduleReplacements md) j n) (hn : n ∈ middle) : Shared moduleReplacements md root n := by
        rcases hnew₁ n hn with hold | hshared | hin
        · exact hfinished j (List.mem_cons_of_mem i hj) hnone n hjn hold
        · exact hshared
        · exact hfirst j hj hi hnone n hin hjn
      obtain ⟨finished', s', hrewrite, hview', hsubset, hkept, hnew⟩ := hrest middle s₁ hview₁ hmiddle
      refine ⟨finished', s', ?_, hview', hsubset₁.trans hsubset, fun j hj hnone => ?_, fun n hn => ?_⟩
      · rw [rewriteModuleImports, happly]
        dsimp only
        rw [hrewrite, List.map_cons, replace_of_none hi]
      · rcases List.mem_cons.1 hj with rfl | hj
        · exact fun n hjn => hsubset (hkept₁ n hjn)
        · exact hkept j hj hnone
      · rcases hnew n hn with hmid | hshared | ⟨j, hj, hjn⟩
        · refine (hnew₁ n hmid).imp_right (Or.imp_right fun hin => ?_)
          exact ⟨i, List.mem_cons_self, hi, hin⟩
        · exact .inr (.inl hshared)
        · exact .inr (.inr ⟨j, List.mem_cons_of_mem i hj, hjn⟩)

theorem apart_imports (hm : Kept moduleReplacements md root m ∨ Shared moduleReplacements md root m) :
    Apart moduleReplacements md root (definitionOf md m).imports := by
  refine List.pairwise_iff_forall_sublist.2 fun {i j} hij hi hj n hin hjn => ?_
  rcases hm with hkept | hshared
  · exact ⟨m, i, j, n, hkept, hij, hi, hj, hin, hjn, .refl⟩
  · exact (hshared.keeps (.single ⟨hij.subset List.mem_cons_self, hi⟩)).keeps hin

theorem apart_replaced (hm : Shared moduleReplacements md root m) :
    Apart moduleReplacements md root ((definitionOf md m).imports.map (replace moduleReplacements)) := by
  refine List.pairwise_iff_forall_sublist.2 fun {i j} hij hi hj n hin hjn => ?_
  obtain ⟨k, hk, rfl⟩ := List.mem_map.1 (hij.subset List.mem_cons_self)
  exact (hm.trans (.single ⟨k, hk, rfl⟩)).keeps hin

theorem apply_of_imports_none (hsize : moduleReplacements.length ≠ 0) (hm : moduleReplacements.get m = none)
    (h : (s.metadata.getModuleMetadata m).bind (·.imports) = none) :
    applyModuleReplacements moduleReplacements (depth + 1) m s = (.ok m, s) := by
  rw [applyModuleReplacements, if_neg hsize, hm]
  cases hget : s.metadata.getModuleMetadata m with
  | none => rfl
  | some metadata =>
    rw [hget, Option.bind_some] at h
    dsimp only
    rw [h]

theorem apply_of_imports {s' : Patching} {metadata : ModuleMetadata} {rewritten : List ModuleType}
    (hsize : moduleReplacements.length ≠ 0) (hm : moduleReplacements.get m = none) (hget : s.metadata.getModuleMetadata m = some metadata)
    (himports : metadata.imports = some imports)
    (hrewrite : rewriteModuleImports (applyModuleReplacements moduleReplacements depth) imports s = (.ok rewritten, s')) :
    applyModuleReplacements moduleReplacements (depth + 1) m s =
      (.ok m, if rewritten = imports then s' else patchModuleImports s' m metadata rewritten) := by
  rw [applyModuleReplacements, if_neg hsize, hm]
  dsimp only
  rw [hget]
  dsimp only
  rw [himports]
  cases imports with
  | nil =>
    cases hrewrite
    rw [if_pos rfl]
  | cons i rest =>
    dsimp only
    rw [hrewrite]
    dsimp only
    split <;> rfl

theorem imports_eq (h : (md.getModuleMetadata m).bind (·.imports) = some imports) : (definitionOf md m).imports = imports := by
  obtain ⟨raw, hget, himports⟩ := Option.bind_eq_some_iff.1 h
  rw [definitionOf, hget]
  show raw.imports.getD [] = imports
  rw [himports, Option.getD_some]

theorem imports_eq_nil (h : (md.getModuleMetadata m).bind (·.imports) = none) : (definitionOf md m).imports = [] := by
  rw [definitionOf]
  cases hget : md.getModuleMetadata m with
  | none => rfl
  | some raw =>
    rw [hget, Option.bind_some] at h
    show raw.imports.getD [] = []
    rw [h, Option.getD_none]

theorem visits (hseparate : Separate moduleReplacements md root) (hsize : moduleReplacements.length ≠ 0)
    (hm : moduleReplacements.get m = none) (hall : VisitsAll moduleReplacements md root (definitionOf md m).imports depth)
    (hagain : Shared moduleReplacements md root m →
      VisitsAll moduleReplacements md root ((definitionOf md m).imports.map (replace moduleReplacements)) depth) :
    Visits moduleReplacements md root m (depth + 1) := by
  intro finished s hview hfinished
  cases himports : (md.getModuleMetadata m).bind (·.imports) with
  | none =>
    have hnil := imports_eq_nil himports
    have hsame : md.getModuleMetadata m = (md.getModuleMetadata m).map (replaced moduleReplacements) := by
      cases hget : md.getModuleMetadata m with
      | none => rfl
      | some raw =>
        rw [hget, Option.bind_some] at himports
        rw [Option.map_some, replaced, himports, Option.map_none, ← himports]
    have hnow : (s.metadata.getModuleMetadata m).bind (·.imports) = none := by
      by_cases hmem : m ∈ finished
      · rw [hview.done m hmem, ← hsame, himports]
      · rw [hview.left m hmem, himports]
    have honly n (hmn : ReflTransGen (Keeps moduleReplacements md) m n) : n = m := by
      rcases ReflTransGen.cases_head hmn with rfl | ⟨i, hi, -⟩
      · rfl
      · exact absurd hi.1 (hnil ▸ List.not_mem_nil)
    refine ⟨insert m finished, s, apply_of_imports_none hsize hm hnow, hview.insert hsame, Set.subset_insert m finished, fun n hmn => ?_, fun n hn => ?_⟩
    · exact honly n hmn ▸ Set.mem_insert m finished
    · rcases hn with rfl | hn
      · exact .inr (.inr .refl)
      · exact .inl hn
  | some imports =>
    have hdefinition := imports_eq himports
    obtain ⟨raw, hget, hraw⟩ := Option.bind_eq_some_iff.1 himports
    rw [hdefinition] at hall hagain
    by_cases hmem : m ∈ finished
    · -- the module is met again, with its imports as they were rewritten
      have hshared := hfinished m .refl hmem
      have hnow : s.metadata.getModuleMetadata m = some (replaced moduleReplacements raw) := by rw [hview.done m hmem, hget, Option.map_some]
      have hnowImports : (replaced moduleReplacements raw).imports = some (imports.map (replace moduleReplacements)) := by
        rw [replaced, hraw, Option.map_some]
      have honce : (imports.map (replace moduleReplacements)).map (replace moduleReplacements) = imports.map (replace moduleReplacements) := by
        rw [List.map_map]
        exact List.map_congr_left fun i hi => hseparate.once m hshared i (hdefinition ▸ hi)
      have hbelow i (hi : i ∈ imports.map (replace moduleReplacements)) n (hin : ReflTransGen (Keeps moduleReplacements md) i n) :
          Shared moduleReplacements md root n := by
        obtain ⟨k, hk, rfl⟩ := List.mem_map.1 hi
        exact (hshared.trans (.single ⟨k, hdefinition ▸ hk, rfl⟩)).keeps hin
      obtain ⟨finished', s', hrewrite, hview', hsubset, hkept, hnew⟩ := hagain hshared finished s hview fun i hi _ n hin _ => hbelow i hi n hin
      refine ⟨finished', s', ?_, hview', hsubset, fun n hmn => ?_, fun n hn => (hnew n hn).imp_right ?_⟩
      · rw [apply_of_imports hsize hm hnow hnowImports hrewrite, if_pos honce]
      · rcases ReflTransGen.cases_head hmn with rfl | ⟨i, hi, hin⟩
        · exact hsubset hmem
        · have hmem' : i ∈ imports.map (replace moduleReplacements) :=
            List.mem_map.2 ⟨i, hdefinition ▸ hi.1, replace_of_none hi.2⟩
          exact hkept i hmem' hi.2 n hin
      · rintro (hn | ⟨i, hi, -, hin⟩)
        · exact .inl hn
        · exact .inl (hbelow i hi n hin)
    · have hnow : s.metadata.getModuleMetadata m = some raw := by rw [hview.left m hmem, hget]
      have hhead {i n} (hi : i ∈ imports) (hnone : moduleReplacements.get i = none)
          (hin : ReflTransGen (Keeps moduleReplacements md) i n) : ReflTransGen (Keeps moduleReplacements md) m n :=
        .head ⟨hdefinition ▸ hi, hnone⟩ hin
      obtain ⟨finished', s', hrewrite, hview', hsubset, hkept, hnew⟩ :=
        hall finished s hview fun i hi hnone n hin => hfinished n (hhead hi hnone hin)
      refine ⟨insert m finished', _, apply_of_imports hsize hm hnow hraw hrewrite, ?_, hsubset.trans (Set.subset_insert m finished'),
        fun n hmn => ?_, fun n hn => ?_⟩
      · split
        · rename_i hsame
          refine hview'.insert ?_
          rw [hget, Option.map_some, replaced, hraw, Option.map_some, hsame, ← hraw]
        · exact hview'.patch hget hraw
      · rcases ReflTransGen.cases_head hmn with rfl | ⟨i, hi, hin⟩
        · exact Set.mem_insert _ _
        · exact Set.mem_insert_of_mem m (hkept i (hdefinition ▸ hi.1) hi.2 n hin)
      · rcases hn with rfl | hn
        · exact .inr (.inr .refl)
        · refine (hnew n hn).imp_right (Or.imp_right ?_)
          rintro ⟨i, hi, hnone, hin⟩
          exact hhead hi hnone hin

/-- The calls for a module make one for another: it is kept, or the module is shared and met again with its replacements. -/
def Enters (moduleReplacements : Replacements) (md : Metadata) (root m n : ModuleType) : Prop :=
  moduleReplacements.get n = none ∧
    (n ∈ (definitionOf md m).imports ∨ Shared moduleReplacements md root m ∧ n ∈ (definitionOf md m).imports.map (replace moduleReplacements))

theorem exists_depth_forall {l : List ModuleType} {P : ModuleType → Nat → Prop} (h : ∀ i ∈ l, ∃ depth, ∀ more, depth ≤ more → P i more) :
    ∃ depth, ∀ more, depth ≤ more → ∀ i ∈ l, P i more := by
  induction l with
  | nil => exact ⟨0, nofun⟩
  | cons i rest ih =>
    rw [List.forall_mem_cons] at h
    obtain ⟨⟨depth, hi⟩, hrest⟩ := h
    obtain ⟨depth', hrest⟩ := ih hrest
    refine ⟨max depth depth', fun more hmore => List.forall_mem_cons.2 ⟨?_, ?_⟩⟩
    · exact hi more (le_of_max_le_left hmore)
    · exact hrest more (le_of_max_le_right hmore)

theorem exists_depth (hseparate : Separate moduleReplacements md root) (hsize : moduleReplacements.length ≠ 0)
    (hacc : Acc (fun n m => Enters moduleReplacements md root m n) m)
    (hm : Kept moduleReplacements md root m ∨ Shared moduleReplacements md root m) (hnone : moduleReplacements.get m = none) :
    ∃ depth, ∀ more, depth ≤ more → Visits moduleReplacements md root m more := by
  induction hacc with
  | intro m _ ih =>
    have himports : ∃ depth, ∀ more, depth ≤ more → ∀ i ∈ (definitionOf md m).imports, moduleReplacements.get i = none →
        Visits moduleReplacements md root i more := by
      refine exists_depth_forall fun i hi => ?_
      by_cases hreplaced : moduleReplacements.get i = none
      · have hkept : Kept moduleReplacements md root i ∨ Shared moduleReplacements md root i :=
          hm.imp (·.tail ⟨hi, hreplaced⟩) (·.keeps (.single ⟨hi, hreplaced⟩))
        obtain ⟨depth, hdepth⟩ := ih i ⟨hreplaced, .inl hi⟩ hkept hreplaced
        exact ⟨depth, fun more hmore _ => hdepth more hmore⟩
      · exact ⟨0, fun _ _ hget => absurd hget hreplaced⟩
    have hagain : ∃ depth, ∀ more, depth ≤ more → ∀ i ∈ (definitionOf md m).imports.map (replace moduleReplacements),
        Shared moduleReplacements md root m → moduleReplacements.get i = none → Visits moduleReplacements md root i more := by
      refine exists_depth_forall fun i hi => ?_
      by_cases henters : Shared moduleReplacements md root m ∧ moduleReplacements.get i = none
      · obtain ⟨k, hk, hki⟩ := List.mem_map.1 hi
        have hshared : Shared moduleReplacements md root i := henters.1.trans (.single ⟨k, hk, hki⟩)
        obtain ⟨depth, hdepth⟩ := ih i ⟨henters.2, .inr ⟨henters.1, hi⟩⟩ (.inr hshared) henters.2
        exact ⟨depth, fun more hmore _ _ => hdepth more hmore⟩
      · exact ⟨0, fun _ _ hshared hget => absurd ⟨hshared, hget⟩ henters⟩
    obtain ⟨depth, hdepth⟩ := himports
    obtain ⟨depth', hdepth'⟩ := hagain
    refine ⟨max depth depth' + 2, fun more hmore => ?_⟩
    obtain ⟨more, rfl⟩ := Nat.exists_eq_add_of_le hmore
    rw [show max depth depth' + 2 + more = (max depth depth' + more + 1) + 1 by omega]
    refine visits hseparate hsize hnone ?_ fun hshared => ?_
    · exact visitsAll (apart_imports hm) (hdepth _ (by omega))
    · exact visitsAll (apart_replaced hshared) fun i hi => hdepth' _ (by omega) i hi hshared

theorem kept_or_shared (h : TransGen (Enters moduleReplacements md root) m n) :
    TransGen (Keeps moduleReplacements md) m n ∨ Shared moduleReplacements md root n := by
  induction h with
  | single h =>
    obtain ⟨hnone, hi | ⟨hshared, hi⟩⟩ := h
    · exact .inl (.single ⟨hi, hnone⟩)
    · obtain ⟨k, hk, rfl⟩ := List.mem_map.1 hi
      exact .inr (hshared.trans (.single ⟨k, hk, rfl⟩))
  | tail _ h ih =>
    obtain ⟨hnone, hi | ⟨hshared, hi⟩⟩ := h
    · exact ih.imp (·.tail ⟨hi, hnone⟩) fun hshared => hshared.keeps (.single ⟨hi, hnone⟩)
    · obtain ⟨k, hk, rfl⟩ := List.mem_map.1 hi
      exact .inr (hshared.trans (.single ⟨k, hk, rfl⟩))

theorem Enters.leads (h : Enters moduleReplacements md root m n) : Leads moduleReplacements md m n := by
  obtain ⟨hnone, hi | ⟨-, hi⟩⟩ := h
  · exact ⟨n, hi, replace_of_none hnone⟩
  · obtain ⟨k, hk, rfl⟩ := List.mem_map.1 hi
    exact ⟨k, hk, rfl⟩

open Classical in
/-- The modules that a module makes calls for, for the search. -/
noncomputable def entered (moduleReplacements : Replacements) (md : Metadata) (root m : ModuleType) : Except Empty (List ModuleType) :=
  .ok ((if Shared moduleReplacements md root m then (definitionOf md m).imports ++ (definitionOf md m).imports.map (replace moduleReplacements)
    else (definitionOf md m).imports).filter fun n => moduleReplacements.get n = none)

theorem edge_entered : Dfs.Edge (entered moduleReplacements md root) = Enters moduleReplacements md root := by
  funext m n
  refine propext ⟨?_, fun h => ⟨_, rfl, ?_⟩⟩
  · rintro ⟨_, ⟨⟩, hn⟩
    obtain ⟨hn, hnone⟩ := List.mem_filter.1 hn
    refine ⟨of_decide_eq_true hnone, ?_⟩
    split_ifs at hn with hshared
    · exact (List.mem_append.1 hn).imp_right fun hn => ⟨hshared, hn⟩
    · exact .inl hn
  · refine List.mem_filter.2 ⟨?_, decide_eq_true h.1⟩
    split_ifs with hshared
    · exact List.mem_append.2 (h.2.imp_right And.right)
    · exact h.2.resolve_right fun hn => hshared hn.1

theorem acc_enters (hseparate : Separate moduleReplacements md root) (haccepted : ∀ m, Reachable md root m → ¬TransGen (Imports md) m m) :
    Acc (fun n m => Enters moduleReplacements md root m n) root := by
  have himports {m n} (h : TransGen (Keeps moduleReplacements md) m n) : TransGen (Imports md) m n := TransGen.mono (fun _ _ h => h.1) _ _ h
  rw [← edge_entered]
  refine Dfs.acc_of_acyclic (Runtime.mentioned md root ++ (Runtime.mentioned md root).map (replace moduleReplacements)).toFinset
    (by simp [Runtime.mentioned]) (fun m _ n hmn => ?_) fun m hm => ⟨fun hcycle => ?_, _, rfl⟩
  · rw [edge_entered] at hmn
    rw [List.mem_toFinset, List.mem_append]
    refine hmn.2.imp Runtime.mem_mentioned fun hn => ?_
    obtain ⟨k, hk, rfl⟩ := List.mem_map.1 hn.2
    exact List.mem_map_of_mem (Runtime.mem_mentioned hk)
  · rw [edge_entered] at hm hcycle
    have hreach : Reachable md root m ∨ Shared moduleReplacements md root m := by
      rcases Relation.reflTransGen_iff_eq_or_transGen.1 hm with rfl | hm
      · exact .inl .refl
      · exact (kept_or_shared hm).imp_left fun h => (himports h).to_reflTransGen
    have hshared (hm : Shared moduleReplacements md root m) : False :=
      hseparate.acyclic m hm (TransGen.mono (fun _ _ => Enters.leads) _ _ hcycle)
    rcases kept_or_shared hcycle with hkept | hm
    · exact hreach.elim (fun hreach => haccepted m hreach (himports hkept)) hshared
    · exact hshared hm

end Rewriting

/-! ## The graph that is compiled -/

section Compiling
variable {moduleReplacements} {md md' : Metadata} {root m n : ModuleType} {p options}

theorem get_substituted (m : ModuleType) :
    (substituted moduleReplacements md).getModuleMetadata m = (md.getModuleMetadata m).map (replaced moduleReplacements) := by
  show ((md.modules.map _).find? _).map Prod.snd = ((md.modules.find? _).map Prod.snd).map _
  rw [List.find?_map, Option.map_map, Option.map_map]
  rfl

theorem definitionOf_congr (h : md.getModuleMetadata m = md'.getModuleMetadata m) : definitionOf md m = definitionOf md' m := by
  rw [definitionOf, definitionOf, h]

theorem imports_substituted (m : ModuleType) :
    (definitionOf (substituted moduleReplacements md) m).imports = (definitionOf md m).imports.map (replace moduleReplacements) := by
  rw [definitionOf, definitionOf, get_substituted]
  cases md.getModuleMetadata m with
  | none => rfl
  | some raw =>
    show (raw.imports.map _).getD [] = (raw.imports.getD []).map _
    cases raw.imports <;> rfl

theorem leads_of_reachable (h : Reachable (substituted moduleReplacements md) root m) : ReflTransGen (Leads moduleReplacements md) root m := by
  refine ReflTransGen.mono (fun k n hn => ?_) _ _ h
  rw [Imports, imports_substituted] at hn
  exact List.mem_map.1 hn

theorem length_mentioned (md : Metadata) (root : ModuleType) :
    (Runtime.mentioned md root).length = ((md.modules.map Prod.fst).map fun m => (definitionOf md m).imports.length).sum + 1 := by
  rw [Runtime.mentioned, List.length_cons, List.length_flatMap, List.map_map]
  rfl

theorem replaced_of_fixed {raw : ModuleMetadata} (hget : md.getModuleMetadata m = some raw)
    (hfixed : ∀ i ∈ (definitionOf md m).imports, replace moduleReplacements i = i) : replaced moduleReplacements raw = raw := by
  cases himports : raw.imports with
  | none => rw [replaced, himports, Option.map_none, ← himports]
  | some imports =>
    have hdefinition : (definitionOf md m).imports = imports := imports_eq (by rw [hget, Option.bind_some, himports])
    have hmap : imports.map (replace moduleReplacements) = imports := by
      rw [hdefinition] at hfixed
      exact (List.map_congr_left hfixed).trans (List.map_id imports)
    rw [replaced, himports, Option.map_some, hmap, ← himports]

variable {finished : Set ModuleType}

theorem bootstrapModule_eq (h : View moduleReplacements md finished md')
    (hfixed : ∀ m, ReflTransGen (Leads moduleReplacements md) root m → m ∉ finished →
      ∀ i ∈ (definitionOf md m).imports, replace moduleReplacements i = i) :
    bootstrapModule p options md' root = bootstrapModule p options (substituted moduleReplacements md) root := by
  have hget m (hm : Reachable (substituted moduleReplacements md) root m) :
      definitionOf (substituted moduleReplacements md) m = definitionOf md' m := by
    apply definitionOf_congr
    rw [get_substituted]
    by_cases hmem : m ∈ finished
    · rw [h.done m hmem]
    · rw [h.left m hmem]
      cases hraw : md.getModuleMetadata m with
      | none => rfl
      | some raw => rw [Option.map_some, replaced_of_fixed hraw (hfixed m (leads_of_reachable hm) hmem)]
  have hlength m : (definitionOf (substituted moduleReplacements md) m).imports.length = (definitionOf md' m).imports.length := by
    by_cases hmem : m ∈ finished
    · rw [definitionOf_congr ((get_substituted m).trans (h.done m hmem).symm)]
    · rw [imports_substituted, List.length_map, definitionOf_congr (h.left m hmem)]
  have hmentioned : (Runtime.mentioned (substituted moduleReplacements md) root).length = (Runtime.mentioned md' root).length := by
    have hkeys : (substituted moduleReplacements md).modules.map Prod.fst = md'.modules.map Prod.fst := by
      rw [h.keys]
      exact List.map_map.trans rfl
    rw [length_mentioned, length_mentioned, hkeys]
    simp only [hlength]
  rw [bootstrapModule, bootstrapModule, Runtime.compileModuleGraph_congr hget hmentioned h.classes.symm]

theorem bootstrap_of_view {depth : Nat} {s : Patching}
    (happly : applyModuleReplacements moduleReplacements depth root { metadata := md } = (.ok root, s))
    (hview : View moduleReplacements md finished s.metadata)
    (hfixed : ∀ m, ReflTransGen (Leads moduleReplacements md) root m → m ∉ finished →
      ∀ i ∈ (definitionOf md m).imports, replace moduleReplacements i = i) :
    (bootstrapWithPatchedModuleImports moduleReplacements p options depth md root).1 =
      bootstrapModule p options (substituted moduleReplacements md) root := by
  unfold bootstrapWithPatchedModuleImports
  rw [happly]
  exact bootstrapModule_eq hview hfixed

theorem exists_depth_bootstrap (haccepted : ∀ m, Reachable md root m → ¬TransGen (Imports md) m m) (hseparate : Separate moduleReplacements md root) :
    ∃ depth, ∀ more, depth ≤ more → (bootstrapWithPatchedModuleImports moduleReplacements p options more md root).1 =
      bootstrapModule p options (substituted moduleReplacements md) root := by
  by_cases hsize : moduleReplacements.length = 0
  · refine ⟨1, fun more hmore => ?_⟩
    obtain ⟨more, rfl⟩ := Nat.exists_eq_add_of_le' hmore
    refine bootstrap_of_view (if_pos hsize) View.start fun m _ _ i _ => ?_
    rw [List.length_eq_zero_iff.1 hsize]
    rfl
  · cases hroot : moduleReplacements.get root with
    | some replacement =>
      have hsame : replacement = root := (replace_of_some hroot).symm.trans hseparate.stays
      subst hsame
      refine ⟨1, fun more hmore => ?_⟩
      obtain ⟨more, rfl⟩ := Nat.exists_eq_add_of_le' hmore
      refine bootstrap_of_view (apply_of_some hroot _) View.start fun m hm _ => hseparate.behind m hm fun hkept => ?_
      cases hroot.symm.trans hkept.1
    | none =>
      obtain ⟨depth, hdepth⟩ := exists_depth hseparate hsize (acc_enters hseparate haccepted) (.inl ⟨hroot, .refl⟩) hroot
      refine ⟨depth, fun more hmore => ?_⟩
      obtain ⟨finished, s, happly, hview, -, hkept, -⟩ := hdepth more hmore ∅ { metadata := md } View.start fun _ _ hn => absurd hn (Set.notMem_empty _)
      exact bootstrap_of_view happly hview fun m hm hmem => hseparate.behind m hm fun h => hmem (hkept m h.2)

end Compiling

/-- Where the modules with shared imports, and what only replacements import, stay clear of the replacements, a module that is accepted is bootstrapped
with every import leading to its replacement; and the metadata of every module is always what it was. -/
theorem overrideModule_substitutes (moduleReplacements : Replacements) (p : Program) (options : BootstrapModuleOptions) (md : Metadata)
    (root : ModuleType) (accepted : ∃ modules, compileModuleGraph p md root options = .ok modules) :
    (Separate moduleReplacements md root → ∃ depth, ∀ more, depth ≤ more →
      (bootstrapWithPatchedModuleImports moduleReplacements p options more md root).1 =
        bootstrapModule p options (substituted moduleReplacements md) root) ∧
    ∀ depth m, (bootstrapWithPatchedModuleImports moduleReplacements p options depth md root).2.getModuleMetadata m = md.getModuleMetadata m := by
  obtain ⟨hlegal, -⟩ := (Runtime.compileModuleGraph_accepts p md root options).1.1 accepted
  exact ⟨exists_depth_bootstrap hlegal.acyclic, fun depth m => get_bootstrapWithPatchedModuleImports moduleReplacements p options depth md root m⟩

private def unnamedProgram : Program where
  name _ := ""
  length _ := 0
  lineage c := [c]
  display _ := ""

/-- The root imports `1`, which imports `2`. -/
private def chainMetadata : Metadata := { modules := [(0, { imports := some [1] }), (1, { imports := some [2] })] }

theorem overrideModule_substitutes_chain :
    (∃ depth, ∀ more, depth ≤ more → (bootstrapWithPatchedModuleImports [(2, 3)] unnamedProgram {} more chainMetadata 0).1 =
      bootstrapModule unnamedProgram {} (substituted [(2, 3)] chainMetadata) 0) ∧
    (definitionOf (substituted [(2, 3)] chainMetadata) 1).imports = [3] := by
  have himports m (h0 : m ≠ 0) (h1 : m ≠ 1) : (definitionOf chainMetadata m).imports = [] := by
    rw [definitionOf]
    simp [Metadata.getModuleMetadata, chainMetadata, h0.symm, h1.symm]
  have hlength m : (definitionOf chainMetadata m).imports.length ≤ 1 := by
    by_cases h0 : m = 0
    · subst h0
      decide
    · by_cases h1 : m = 1
      · subst h1
        decide
      · rw [himports m h0 h1]
        decide
  have hshared m : ¬Shared [(2, 3)] chainMetadata 0 m := by
    rintro ⟨k, i, j, n, -, hij, -⟩
    have hle := hij.length_le.trans (hlength k)
    exact absurd hle (by simp)
  have hkept : Kept [(2, 3)] chainMetadata 0 1 := ⟨by decide, .single ⟨by decide, by decide⟩⟩
  have hseparate : Separate [(2, 3)] chainMetadata 0 := by
    refine ⟨by decide, fun m hm => absurd hm (hshared m), fun m hm => absurd hm (hshared m), fun m _ hm i hi => ?_⟩
    have h0 : m ≠ 0 := by
      rintro rfl
      exact hm ⟨by decide, .refl⟩
    have h1 : m ≠ 1 := by
      rintro rfl
      exact hm hkept
    rw [himports m h0 h1] at hi
    cases hi
  have haccepted : ∃ modules, compileModuleGraph unnamedProgram chainMetadata 0 {} = .ok modules := ⟨_, rfl⟩
  exact ⟨(overrideModule_substitutes [(2, 3)] unnamedProgram {} chainMetadata 0 haccepted).1 hseparate, by decide⟩

/-- `2` is replaced by `3`, which imports a module that is replaced as well. -/
private def wrappedMetadata (imports : List ModuleType) : Metadata :=
  { modules := [(0, { imports := some imports }), (1, { imports := some [2] }), (3, { imports := some [4] })] }

/-- The replacement keeps its import where `1` is imported once; imported twice, `1` is met again, and the import is rewritten. -/
theorem overrideModule_depends_on_paths :
    ((∃ modules, compileModuleGraph unnamedProgram (wrappedMetadata [1]) 0 {} = .ok modules) ∧
      ¬∃ depth, ∀ more, depth ≤ more → (bootstrapWithPatchedModuleImports [(2, 3), (4, 5)] unnamedProgram {} more (wrappedMetadata [1]) 0).1 =
        bootstrapModule unnamedProgram {} (substituted [(2, 3), (4, 5)] (wrappedMetadata [1])) 0) ∧
    ∃ depth, ∀ more, depth ≤ more → (bootstrapWithPatchedModuleImports [(2, 3), (4, 5)] unnamedProgram {} more (wrappedMetadata [1, 1]) 0).1 =
      bootstrapModule unnamedProgram {} (substituted [(2, 3), (4, 5)] (wrappedMetadata [1, 1])) 0 := by
  refine ⟨⟨⟨_, rfl⟩, ?_⟩, 4, fun more hmore => ?_⟩
  · rintro ⟨depth, h⟩
    have hcode : (bootstrapWithPatchedModuleImports [(2, 3), (4, 5)] unnamedProgram {} (depth + 4) (wrappedMetadata [1]) 0).1 =
        bootstrapModule unnamedProgram {} { modules := [(0, { imports := some [1] }), (1, { imports := some [3] }), (3, { imports := some [4] })] } 0 := rfl
    have htypes := congrArg (fun result => result.toOption.map fun bootstrapped => bootstrapped.modules.map (·.type))
      (hcode.symm.trans (h (depth + 4) (by omega)))
    exact absurd htypes (by decide)
  · obtain ⟨more, rfl⟩ := Nat.exists_eq_add_of_le' hmore
    rfl

end Fluo.Testing
