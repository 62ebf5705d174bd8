import Fluo.Http.RoutePath
/-!
# Middleware routes

`middleware.ts`: the patterns of `forRoutes` and the requests a middleware runs on. A pattern
is normalised like a route path, apart from the `/*` at its end, which are cut off first and
put back behind the root as well.
-/

namespace Fluo.Http.Middleware
open Fluo.Lib Fluo.Http.Mapping

def star : UInt16 := '*'.toNat.toUInt16

/-- The text `/*`. -/
def wildcard : Utf16 := [slash, star]

/-! ## The code -/

def normalizeRoutePattern (path : Utf16) : Utf16 :=
  if wildcard <:+ path then normalizeRoutePattern (path.take (path.length - 2)) ++ wildcard
  else normalizeRoutePath path
termination_by path.length
decreasing_by
  have hle := List.IsSuffix.length_le (by assumption)
  simp only [wildcard, List.length_cons, List.length_nil] at hle
  rw [List.length_take]
  omega

def matchRoutePattern (pattern path : Utf16) : Bool :=
  let normalizedPath := normalizeRoutePattern path
  let normalizedPattern := normalizeRoutePattern pattern
  if wildcard <:+ normalizedPattern then
    let pathPrefix := normalizedPattern.take (normalizedPattern.length - 2)
    normalizedPath = pathPrefix || (pathPrefix ++ [slash]).isPrefixOf normalizedPath
  else normalizedPath = normalizedPattern

variable {α : Type}

structure MiddlewareRouteConfig (α : Type) where
  middleware : α
  routes : List Utf16

/-- A middleware, as an instance or a token, or one that `forRoutes` binds. -/
inductive MiddlewareLike (α : Type)
  | middleware (middleware : α)
  | routeConfig (config : MiddlewareRouteConfig α)

def forRoutes (middlewareClass : α) (routes : List Utf16) : MiddlewareRouteConfig α := ⟨middlewareClass, routes⟩

/-- The chain of a request. What the container resolves a class to is left aside. -/
def resolveActiveMiddlewareDefinitions (definitions : List (MiddlewareLike α)) (requestPath : Utf16) : List α :=
  definitions.filterMap fun
    | .middleware middleware => some middleware
    | .routeConfig config =>
      if config.routes.isEmpty || config.routes.any (matchRoutePattern · requestPath) then some config.middleware else none

structure CompiledMiddlewareScopePlan (α : Type) where
  alwaysRequiresRequestScope : Bool
  conditionalDefinitions : List (MiddlewareLike α)

/-- The loop of `compileMiddlewareScopePlan` over the definitions kept so far. -/
def compileMiddlewareScopePlan (conditionalDefinitions : List (MiddlewareLike α)) :
    List (MiddlewareLike α) → CompiledMiddlewareScopePlan α
  | [] => ⟨false, conditionalDefinitions⟩
  | .middleware _ :: _ => ⟨true, []⟩
  | .routeConfig config :: rest =>
    if config.routes.isEmpty then ⟨true, []⟩
    else compileMiddlewareScopePlan (conditionalDefinitions ++ [.routeConfig config]) rest

def activeMiddlewareMayRequireRequestScope (definitions : List (MiddlewareLike α)) (requestPath : Utf16) : Bool :=
  definitions.any fun
    | .middleware _ => true
    | .routeConfig config => config.routes.isEmpty || config.routes.any (matchRoutePattern · requestPath)

def compiledMiddlewareMayRequireRequestScope (plan : CompiledMiddlewareScopePlan α) (requestPath : Utf16) : Bool :=
  plan.alwaysRequiresRequestScope || activeMiddlewareMayRequireRequestScope plan.conditionalDefinitions requestPath

/-! ## Wildcards behind the root -/

/-- The `/*` at the end of a path. -/
def wildcards : Nat → Utf16
  | 0 => []
  | k + 1 => wildcards k ++ wildcard

/-- The root, in any spelling, and then nothing but `/*`. -/
def Rooted (path : Utf16) : Prop := ∃ slashes k, (∀ u ∈ slashes, u = slash) ∧ path = slashes ++ wildcards k

variable {p q : Utf16}

theorem fields_eq_nil : fields slash p = [] ↔ ∀ u ∈ p, u = slash := by
  constructor
  · intro h u hu
    by_contra hne
    obtain ⟨text, ht, -⟩ := mem_fields hu hne
    rw [h] at ht
    cases ht
  · intro h
    induction p with
    | nil => exact fields_nil slash
    | cons u rest ih =>
      rw [h u List.mem_cons_self, ← List.nil_append (slash :: rest), fields_append_cons, fields_nil,
        ih fun v hv => h v (List.mem_cons_of_mem _ hv)]
      rfl

theorem fields_wildcard (p : Utf16) : fields slash (p ++ wildcard) = fields slash p ++ [[star]] := by
  rw [wildcard, fields_append_cons, fields_of_notMem (show slash ∉ [star] by decide) (by decide)]

theorem fields_wildcards (k : Nat) : fields slash (p ++ wildcards k) = fields slash p ++ List.replicate k [star] := by
  induction k with
  | zero => simp [wildcards]
  | succ k ih => rw [wildcards, ← List.append_assoc, fields_wildcard, ih, List.append_assoc, List.replicate_succ']

theorem normalizeRoutePattern_wildcard (p : Utf16) : normalizeRoutePattern (p ++ wildcard) = normalizeRoutePattern p ++ wildcard := by
  rw [normalizeRoutePattern, if_pos (List.suffix_append p wildcard)]
  simp [wildcard]

theorem normalizeRoutePattern_wildcards (p : Utf16) (k : Nat) :
    normalizeRoutePattern (p ++ wildcards k) = normalizeRoutePattern p ++ wildcards k := by
  induction k with
  | zero => simp [wildcards]
  | succ k ih => rw [wildcards, ← List.append_assoc, normalizeRoutePattern_wildcard, ih, List.append_assoc]

theorem normalizeRoutePattern_of_not_suffix (h : ¬ wildcard <:+ p) : normalizeRoutePattern p = normalizeRoutePath p := by
  rw [normalizeRoutePattern, if_neg h]

theorem getLast_of_suffix (h : wildcard <:+ p) : (fields slash p).getLast? = some [star] := by
  obtain ⟨y, rfl⟩ := h
  rw [fields_wildcard, List.getLast?_concat]

theorem not_suffix_slashes (h : ∀ u ∈ p, u = slash) : ¬ wildcard <:+ p := by
  intro hs
  have hlast := getLast_of_suffix hs
  rw [fields_eq_nil.2 h] at hlast
  cases hlast

theorem rooted_wildcard : Rooted (p ++ wildcard) ↔ Rooted p := by
  constructor
  · rintro ⟨slashes, k, hslashes, h⟩
    cases k with
    | zero =>
      rw [wildcards, List.append_nil] at h
      exact absurd (h ▸ List.suffix_append p wildcard) (not_suffix_slashes hslashes)
    | succ k =>
      rw [wildcards, ← List.append_assoc] at h
      exact ⟨slashes, k, hslashes, List.append_cancel_right h⟩
  · rintro ⟨slashes, k, hslashes, rfl⟩
    exact ⟨slashes, k + 1, hslashes, List.append_assoc _ _ _⟩

theorem fields_ne_nil (h : ¬ Rooted p) : fields slash p ≠ [] := fun hnil => h ⟨p, 0, fields_eq_nil.1 hnil, (List.append_nil p).symm⟩

/-! ## Normalised patterns -/

theorem intercalate_append {c : UInt16} {a b : List Utf16} (ha : a ≠ []) (hb : b ≠ []) :
    [c].intercalate (a ++ b) = [c].intercalate a ++ c :: [c].intercalate b := by
  induction a with
  | nil => exact absurd rfl ha
  | cons x a ih =>
    by_cases hnil : a = []
    · subst hnil
      simp [List.intercalate_cons_of_ne_nil hb]
    · have hne : a ++ b ≠ [] := by simp [hnil]
      rw [List.cons_append, List.intercalate_cons_of_ne_nil hne, ih hnil, List.intercalate_cons_of_ne_nil hnil]
      simp [List.append_assoc]

theorem normalizeRoutePattern_of_not_rooted {p : Utf16} (h : ¬ Rooted p) : normalizeRoutePattern p = normalizeRoutePath p := by
  by_cases hs : wildcard <:+ p
  · obtain ⟨y, rfl⟩ := hs
    have hy : ¬ Rooted y := mt rooted_wildcard.2 h
    have hjoin := intercalate_append (c := slash) (fields_ne_nil hy) (b := [[star]]) (by simp)
    rw [normalizeRoutePattern_wildcard, normalizeRoutePattern_of_not_rooted hy, normalizeRoutePath, normalizeRoutePath, fields_wildcard, hjoin]
    rfl
  · exact normalizeRoutePattern_of_not_suffix hs
termination_by p.length
decreasing_by subst_vars; simp [wildcard]

theorem normalizeRoutePattern_of_rooted {slashes : Utf16} {k : Nat} (h : ∀ u ∈ slashes, u = slash) :
    normalizeRoutePattern (slashes ++ wildcards k) = slash :: wildcards k := by
  rw [normalizeRoutePattern_wildcards, normalizeRoutePattern_of_not_suffix (not_suffix_slashes h), normalizeRoutePath, fields_eq_nil.2 h]
  rfl

theorem length_wildcards (k : Nat) : (wildcards k).length = 2 * k := by
  induction k with
  | zero => rfl
  | succ k ih =>
    rw [wildcards, List.length_append, ih]
    simp [wildcard]
    omega

theorem wildcards_add (j k : Nat) : wildcards (j + k) = wildcards j ++ wildcards k := by
  induction k with
  | zero => simp [wildcards]
  | succ k ih => rw [← Nat.add_assoc, wildcards, ih, wildcards, List.append_assoc]

theorem normalizeRoutePath_start (h : fields slash p ≠ []) : ∃ u rest, [slash].intercalate (fields slash p) = u :: rest ∧ u ≠ slash := by
  obtain ⟨text, texts, htexts⟩ := List.exists_cons_of_ne_nil h
  obtain ⟨hslash, hne⟩ := notMem_fields (show text ∈ fields slash p by rw [htexts]; exact List.mem_cons_self)
  obtain ⟨u, rest, rfl⟩ := List.exists_cons_of_ne_nil hne
  have hu : u ≠ slash := fun hu => hslash (hu ▸ List.mem_cons_self)
  rw [htexts]
  cases texts with
  | nil => exact ⟨u, rest, by simp, hu⟩
  | cons next texts => exact ⟨u, rest ++ [slash] ++ [slash].intercalate (next :: texts), by simp [List.intercalate_cons_cons], hu⟩

theorem wildcards_start {k : Nat} {u : UInt16} {rest : Utf16} (h : wildcards k = u :: rest) : u = slash := by
  cases k with
  | zero => cases h
  | succ k =>
    rw [Nat.add_comm, wildcards_add 1 k] at h
    exact (List.cons.inj h).1.symm

/-! ## The paths under a prefix -/

theorem matchRoutePattern_wildcard : matchRoutePattern (p ++ wildcard) q = true ↔
    normalizeRoutePattern q = normalizeRoutePattern p ∨ normalizeRoutePattern p ++ [slash] <+: normalizeRoutePattern q := by
  have htake : (normalizeRoutePattern p ++ wildcard).take ((normalizeRoutePattern p ++ wildcard).length - 2) = normalizeRoutePattern p := by
    simp [wildcard]
  simp only [matchRoutePattern, normalizeRoutePattern_wildcard, if_pos (List.suffix_append _ wildcard), htake, Bool.or_eq_true,
    decide_eq_true_eq, List.isPrefixOf_iff_prefix]

theorem prefix_iff (hp : fields slash p ≠ []) : normalizeRoutePath q = normalizeRoutePath p ∨ normalizeRoutePath p ++ [slash] <+: normalizeRoutePath q ↔
    fields slash p <+: fields slash q := by
  constructor
  · rintro (h | ⟨rest, h⟩)
    · exact normalizeRoutePath_eq_iff.1 h ▸ List.prefix_refl _
    · have hq := congrArg (fields slash) h
      rw [List.append_assoc, List.singleton_append, fields_append_cons, fields_normalizeRoutePath, fields_normalizeRoutePath] at hq
      exact ⟨_, hq⟩
  · rintro ⟨rest, h⟩
    by_cases hrest : rest = []
    · subst hrest
      rw [List.append_nil] at h
      exact .inl (normalizeRoutePath_eq_iff.2 h.symm)
    · refine .inr ⟨[slash].intercalate rest, ?_⟩
      rw [normalizeRoutePath, normalizeRoutePath, ← h, intercalate_append hp hrest]
      simp

theorem matchRoutePattern_wildcard_iff : matchRoutePattern (p ++ wildcard) q = true ↔
    (Rooted p ↔ Rooted q) ∧ fields slash p <+: fields slash q := by
  rw [matchRoutePattern_wildcard]
  by_cases hp : Rooted p <;> by_cases hq : Rooted q
  · obtain ⟨a, j, ha, rfl⟩ := id hp
    obtain ⟨b, k, hb, rfl⟩ := id hq
    rw [normalizeRoutePattern_of_rooted ha, normalizeRoutePattern_of_rooted hb, fields_wildcards, fields_wildcards, fields_eq_nil.2 ha,
      fields_eq_nil.2 hb]
    simp only [hp, hq, true_and, List.nil_append]
    constructor
    · rintro (h | ⟨rest, h⟩)
      · have hlen := congrArg List.length h
        simp only [List.length_cons, length_wildcards] at hlen
        obtain rfl : k = j := by omega
        exact List.prefix_refl _
      · have hlen := congrArg List.length h
        simp only [List.length_append, List.length_cons, List.length_nil, length_wildcards] at hlen
        obtain ⟨n, rfl⟩ : ∃ n, k = j + n := ⟨k - j, by omega⟩
        rw [List.replicate_add]
        exact List.prefix_append _ _
    · intro h
      have hle : j ≤ k := by simpa using h.length_le
      obtain ⟨n, rfl⟩ := Nat.exists_eq_add_of_le hle
      cases n with
      | zero => exact .inl rfl
      | succ n =>
        refine .inr ⟨star :: wildcards n, ?_⟩
        rw [wildcards_add, Nat.add_comm n 1, wildcards_add 1 n]
        simp [wildcards, wildcard]
  · obtain ⟨a, j, ha, rfl⟩ := id hp
    obtain ⟨u, start, hstart, hu⟩ := normalizeRoutePath_start (fields_ne_nil hq)
    rw [normalizeRoutePattern_of_rooted ha, normalizeRoutePattern_of_not_rooted hq, normalizeRoutePath, hstart]
    simp only [hp, hq, iff_false, not_true_eq_false, false_and]
    rintro (h | ⟨rest, h⟩)
    · exact hu (wildcards_start (List.cons.inj h).2.symm)
    · have htail : wildcards j ++ slash :: rest = u :: start := by simpa using h
      cases hj : wildcards j with
      | nil =>
        rw [hj] at htail
        exact hu (List.cons.inj htail).1.symm
      | cons v w =>
        rw [hj] at htail
        exact hu ((List.cons.inj htail).1.symm.trans (wildcards_start hj))
  · obtain ⟨b, k, hb, rfl⟩ := id hq
    obtain ⟨u, start, hstart, hu⟩ := normalizeRoutePath_start (fields_ne_nil hp)
    rw [normalizeRoutePattern_of_rooted hb, normalizeRoutePattern_of_not_rooted hp, normalizeRoutePath, hstart]
    simp only [hp, hq, false_iff, not_true_eq_false, false_and, iff_false]
    rintro (h | ⟨rest, h⟩)
    · exact hu (wildcards_start (List.cons.inj h).2)
    · exact hu (wildcards_start (List.cons.inj h).2.symm)
  · rw [normalizeRoutePattern_of_not_rooted hp, normalizeRoutePattern_of_not_rooted hq, prefix_iff (fields_ne_nil hp)]
    simp [hp, hq]

theorem matchRoutePattern_plain (hp : (fields slash p).getLast? ≠ some [star]) : matchRoutePattern p q = true ↔ fields slash p = fields slash q := by
  have hsuffix : ¬ wildcard <:+ p := mt getLast_of_suffix hp
  have hnormalized : ¬ wildcard <:+ normalizeRoutePath p := by
    intro h
    exact hp (by rw [← fields_normalizeRoutePath]; exact getLast_of_suffix h)
  simp only [matchRoutePattern, normalizeRoutePattern_of_not_suffix hsuffix, if_neg hnormalized, decide_eq_true_eq]
  by_cases hq : Rooted q
  · obtain ⟨b, k, hb, rfl⟩ := hq
    rw [normalizeRoutePattern_of_rooted hb, fields_wildcards, fields_eq_nil.2 hb]
    cases k with
    | zero =>
      have hroot := normalizeRoutePath_eq_iff (p := []) (q := p)
      rw [fields_nil] at hroot
      exact hroot.trans eq_comm
    | succ k =>
      refine ⟨fun h => absurd ?_ hnormalized, fun h => absurd ?_ hp⟩
      · rw [← h, wildcards]
        exact ⟨slash :: wildcards k, rfl⟩
      · rw [h, List.replicate_succ', ← List.append_assoc, List.getLast?_concat]
  · rw [normalizeRoutePattern_of_not_rooted hq, normalizeRoutePath_eq_iff]
    exact eq_comm

/-! ## The chain -/

theorem mem_forRoutes {middlewareClass : α} {routes : List Utf16} (hroutes : routes ≠ []) :
    middlewareClass ∈ resolveActiveMiddlewareDefinitions [.routeConfig (forRoutes middlewareClass routes)] q ↔
      ∃ route ∈ routes, matchRoutePattern route q = true := by
  simp [resolveActiveMiddlewareDefinitions, forRoutes, hroutes]

theorem active_iff (definitions : List (MiddlewareLike α)) (q : Utf16) :
    activeMiddlewareMayRequireRequestScope definitions q = true ↔ resolveActiveMiddlewareDefinitions definitions q ≠ [] := by
  rw [activeMiddlewareMayRequireRequestScope, resolveActiveMiddlewareDefinitions, List.any_eq_true, ne_eq, List.filterMap_eq_nil_iff]
  simp only [not_forall, exists_prop]
  refine exists_congr fun definition => and_congr_right fun _ => ?_
  cases definition with
  | middleware middleware => simp
  | routeConfig config => simp [or_iff_not_imp_left]

theorem compiled_iff (kept rest : List (MiddlewareLike α)) (q : Utf16) :
    compiledMiddlewareMayRequireRequestScope (compileMiddlewareScopePlan kept rest) q = true ↔
      activeMiddlewareMayRequireRequestScope (kept ++ rest) q = true := by
  induction rest generalizing kept with
  | nil => simp [compileMiddlewareScopePlan, compiledMiddlewareMayRequireRequestScope]
  | cons definition rest ih =>
    cases definition with
    | middleware middleware =>
      simp [compileMiddlewareScopePlan, compiledMiddlewareMayRequireRequestScope, activeMiddlewareMayRequireRequestScope]
    | routeConfig config =>
      rw [compileMiddlewareScopePlan]
      split
      · next hempty =>
        simp [compiledMiddlewareMayRequireRequestScope, activeMiddlewareMayRequireRequestScope, hempty]
      · rw [ih, List.append_assoc, List.singleton_append]

/-- A pattern `p/*` matches what is below `p`, unless just one of the two is the root; a pattern without a wildcard matches its own path;
and a middleware runs on what its routes match. -/
theorem middleware_prefix (p q : Utf16) :
    ((matchRoutePattern (p ++ wildcard) q = true ↔ fields slash p <+: fields slash q) ↔
        ((Rooted p ↔ Rooted q) ∨ ¬ fields slash p <+: fields slash q)) ∧
      ((fields slash p).getLast? ≠ some [star] → (matchRoutePattern p q = true ↔ fields slash p = fields slash q)) ∧
      (∀ (middlewareClass : α) (routes : List Utf16), routes ≠ [] →
        (middlewareClass ∈ resolveActiveMiddlewareDefinitions [.routeConfig (forRoutes middlewareClass routes)] q ↔
          ∃ route ∈ routes, matchRoutePattern route q = true)) ∧
      ∀ definitions : List (MiddlewareLike α), compiledMiddlewareMayRequireRequestScope (compileMiddlewareScopePlan [] definitions) q = true ↔
        resolveActiveMiddlewareDefinitions definitions q ≠ [] := by
  refine ⟨?_, matchRoutePattern_plain, fun _ _ => mem_forRoutes, fun definitions => ?_⟩
  · rw [matchRoutePattern_wildcard_iff]
    tauto
  · rw [compiled_iff, List.nil_append, active_iff]

/-- A middleware bound to `/*` does not run on `/a`. -/
theorem root_prefix_missed : fields slash [] <+: fields slash (units "/a") ∧
    1 ∉ resolveActiveMiddlewareDefinitions [.routeConfig (forRoutes 1 [units "/*"])] (units "/a") := by
  have hroot : Rooted [] := ⟨[], 0, by simp, rfl⟩
  have hpath : ¬ Rooted (units "/a") := by
    rintro ⟨slashes, k, hslashes, h⟩
    have hfields : fields slash (units "/a") = List.replicate k [star] := by rw [h, fields_wildcards, fields_eq_nil.2 hslashes]; rfl
    have hmem : units "a" ∈ fields slash (units "/a") := by decide
    rw [hfields] at hmem
    exact absurd (List.eq_of_mem_replicate hmem) (by decide)
  have hmatch := matchRoutePattern_wildcard_iff (p := []) (q := units "/a")
  refine ⟨by simp [fields_nil], ?_⟩
  rw [mem_forRoutes (by simp)]
  rintro ⟨route, hroute, hm⟩
  obtain rfl := List.mem_singleton.1 hroute
  exact hpath ((hmatch.1 hm).1.1 hroot)

end Fluo.Http.Middleware
