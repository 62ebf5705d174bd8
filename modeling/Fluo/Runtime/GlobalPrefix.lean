import Fluo.Http.Middleware
/-!
# The global prefix

`createGlobalPrefixMiddleware` in `http-adapter-shared.ts`: requests below the prefix go on
without it, excluded ones as they are, and the others are answered with a 404.
-/

namespace Fluo.Runtime.GlobalPrefix
open Fluo.Lib Fluo.Http.Mapping Fluo.Http.Middleware

/-! ## The code -/

/-- A request, with the fields that the middleware copies. -/
structure FrameworkRequest (ρ : Type) where
  path : Utf16
  url : Utf16
  others : ρ

/-- `createErrorResponse` of an exception without details and meta. -/
structure ErrorResponse where
  code : Utf16
  message : Utf16
  requestId : Option Utf16
  status : Nat

/-- What a middleware comes to: it goes on with a request, or writes a response. -/
inductive Outcome (ρ : Type)
  | next (request : FrameworkRequest ρ)
  | respond (status : Nat) (body : ErrorResponse)

variable {ρ : Type}

def matchesPrefix (path pathPrefix : Utf16) : Bool := path = pathPrefix || (pathPrefix ++ [slash]).isPrefixOf path

def stripGlobalPrefix (path pathPrefix : Utf16) : Utf16 :=
  if path = pathPrefix then [slash] else normalizeRoutePattern (path.drop pathPrefix.length)

def matchesExcludedPath (path : Utf16) (exclusions : List Utf16) : Bool := exclusions.any fun pattern => matchRoutePattern pattern path

def shouldRejectGlobalPrefixRequest (requestPath normalizedPrefix : Utf16) (exclusions : List Utf16) : Bool :=
  !matchesPrefix requestPath normalizedPrefix || matchesExcludedPath (stripGlobalPrefix requestPath normalizedPrefix) exclusions

def rewritePrefixedUrl (url originalPath rewrittenPath : Utf16) : Utf16 :=
  if originalPath.isPrefixOf url then rewrittenPath ++ url.drop originalPath.length else rewrittenPath

def rewriteGlobalPrefixRequest (request : FrameworkRequest ρ) (requestPath strippedPath : Utf16) : FrameworkRequest ρ :=
  { request with path := strippedPath, url := rewritePrefixedUrl request.url requestPath strippedPath }

def writeGlobalPrefixNotFound (requestId : Option Utf16) : Outcome ρ := .respond 404 ⟨units "NOT_FOUND", units "Resource not found.", requestId, 404⟩

/-- The middleware for a prefix and its exclusions, on a request. -/
def createGlobalPrefixMiddleware (pathPrefix : Utf16) (exclude : Option (List Utf16)) (requestId : Option Utf16) (request : FrameworkRequest ρ) : Outcome ρ :=
  let normalizedPrefix := normalizeRoutePattern pathPrefix
  if normalizedPrefix = [slash] then .next request
  else
    let exclusions := (exclude.getD []).map normalizeRoutePattern
    let requestPath := normalizeRoutePattern request.path
    if matchesExcludedPath requestPath exclusions then .next request
    else if shouldRejectGlobalPrefixRequest requestPath normalizedPrefix exclusions then writeGlobalPrefixNotFound requestId
    else .next (rewriteGlobalPrefixRequest request requestPath (stripGlobalPrefix requestPath normalizedPrefix))

/-! ## What the middleware does -/

/-- Some exclusion matches the path. -/
def Excluded (exclude : Option (List Utf16)) (path : Utf16) : Prop :=
  ∃ pattern ∈ exclude.getD [], matchRoutePattern (normalizeRoutePattern pattern) path = true

/-- The path is the prefix, or below it, with the remainder behind it. -/
def Below (pathPrefix path remainder : Utf16) : Prop := path = pathPrefix ++ remainder ∧ (remainder = [] ∨ [slash] <+: remainder)

/-- The path is written in its normal form, or the url has no query and does not begin with that. -/
def Spelled (path query : Utf16) : Prop :=
  normalizeRoutePattern path = path ∨ query = [] ∧ ¬normalizeRoutePattern path <+: path

theorem matchesExcludedPath_iff {exclude : Option (List Utf16)} {path : Utf16} :
    matchesExcludedPath path ((exclude.getD []).map normalizeRoutePattern) = true ↔ Excluded exclude path := by
  simp [matchesExcludedPath, Excluded, List.any_map]

theorem fields_wildcards_nil (k : Nat) : fields slash (slash :: wildcards k) = List.replicate k [star] := by
  have hroot : fields slash [slash] = [] := fields_eq_nil.2 (by simp)
  rw [← List.singleton_append, fields_wildcards, hroot, List.nil_append]

theorem fields_normalizeRoutePattern (p : Utf16) : fields slash (normalizeRoutePattern p) = fields slash p := by
  by_cases hp : Rooted p
  · obtain ⟨slashes, k, hslashes, rfl⟩ := hp
    rw [normalizeRoutePattern_of_rooted hslashes, fields_wildcards_nil, fields_wildcards, fields_eq_nil.2 hslashes, List.nil_append]
  · rw [normalizeRoutePattern_of_not_rooted hp, fields_normalizeRoutePath]

theorem normalizeRoutePattern_eq_root {p : Utf16} (h : fields slash p = []) : normalizeRoutePattern p = [slash] := by
  have hslashes := fields_eq_nil.1 h
  rw [normalizeRoutePattern_of_not_suffix (not_suffix_slashes hslashes), normalizeRoutePath, h]
  rfl

variable {pathPrefix path query remainder : Utf16} {exclude : Option (List Utf16)} {requestId : Option Utf16} {others : ρ}

theorem matchesPrefix_iff : matchesPrefix path pathPrefix = true ↔ ∃ remainder, Below pathPrefix path remainder := by
  rw [matchesPrefix, Bool.or_eq_true, decide_eq_true_eq, List.isPrefixOf_iff_prefix]
  constructor
  · rintro (rfl | ⟨rest, rfl⟩)
    · exact ⟨[], (List.append_nil _).symm, .inl rfl⟩
    · exact ⟨slash :: rest, by simp, .inr ⟨rest, rfl⟩⟩
  · rintro ⟨remainder, rfl, rfl | ⟨rest, rfl⟩⟩
    · exact .inl (List.append_nil _)
    · exact .inr ⟨rest, by simp⟩

theorem stripGlobalPrefix_of_below (h : Below pathPrefix path remainder) : stripGlobalPrefix path pathPrefix = normalizeRoutePattern remainder := by
  obtain ⟨rfl, -⟩ := h
  unfold stripGlobalPrefix
  split_ifs with hsame
  · rw [List.append_right_eq_self.1 hsame, normalizeRoutePattern_eq_root (fields_nil slash)]
  · rw [List.drop_left]

theorem Below.fields_eq (h : Below pathPrefix path remainder) : fields slash path = fields slash pathPrefix ++ fields slash remainder := by
  obtain ⟨rfl, rfl | ⟨rest, rfl⟩⟩ := h
  · rw [List.append_nil, fields_nil, List.append_nil]
  · have hslash : fields slash ([slash] ++ rest) = fields slash rest := by
      rw [← List.nil_append ([slash] ++ rest), List.singleton_append, fields_append_cons, fields_nil, List.nil_append]
    rw [hslash, List.singleton_append, fields_append_cons]

theorem Below.normalize_ne (h : Below (normalizeRoutePattern pathPrefix) (normalizeRoutePattern path) remainder)
    (hnonroot : normalizeRoutePattern pathPrefix ≠ [slash]) : normalizeRoutePattern remainder ≠ path := by
  rintro rfl
  have hfields := h.fields_eq
  rw [fields_normalizeRoutePattern, fields_normalizeRoutePattern, fields_normalizeRoutePattern] at hfields
  exact hnonroot (normalizeRoutePattern_eq_root (List.append_left_eq_self.1 hfields.symm))

theorem rewritePrefixedUrl_of_spelled (h : Spelled path query) (stripped : Utf16) :
    rewritePrefixedUrl (path ++ query) (normalizeRoutePattern path) stripped = stripped ++ query := by
  unfold rewritePrefixedUrl
  rcases h with hsame | ⟨rfl, hnot⟩
  · rw [hsame, if_pos (List.isPrefixOf_iff_prefix.2 (List.prefix_append _ _)), List.drop_left]
  · rw [List.append_nil, if_neg (mt List.isPrefixOf_iff_prefix.1 hnot), List.append_nil]

theorem shouldReject_iff : shouldRejectGlobalPrefixRequest path pathPrefix ((exclude.getD []).map normalizeRoutePattern) = true ↔
    ∀ remainder, Below pathPrefix path remainder → Excluded exclude (normalizeRoutePattern remainder) := by
  rw [shouldRejectGlobalPrefixRequest, Bool.or_eq_true, Bool.not_eq_true', ← Bool.not_eq_true, matchesPrefix_iff, matchesExcludedPath_iff]
  constructor
  · rintro (hnot | hexcluded) remainder hbelow
    · exact absurd ⟨remainder, hbelow⟩ hnot
    · rwa [stripGlobalPrefix_of_below hbelow] at hexcluded
  · intro hall
    by_cases hbelow : ∃ remainder, Below pathPrefix path remainder
    · obtain ⟨remainder, hbelow⟩ := hbelow
      right
      rw [stripGlobalPrefix_of_below hbelow]
      exact hall remainder hbelow
    · exact .inl hbelow

variable (exclude requestId) in
theorem createGlobalPrefixMiddleware_eq (hnonroot : normalizeRoutePattern pathPrefix ≠ [slash]) (request : FrameworkRequest ρ) :
    (Excluded exclude (normalizeRoutePattern request.path) → createGlobalPrefixMiddleware pathPrefix exclude requestId request = .next request) ∧
      (¬Excluded exclude (normalizeRoutePattern request.path) →
        (∀ remainder, Below (normalizeRoutePattern pathPrefix) (normalizeRoutePattern request.path) remainder →
          Excluded exclude (normalizeRoutePattern remainder)) →
        createGlobalPrefixMiddleware pathPrefix exclude requestId request = writeGlobalPrefixNotFound requestId) ∧
      ∀ remainder, ¬Excluded exclude (normalizeRoutePattern request.path) →
        Below (normalizeRoutePattern pathPrefix) (normalizeRoutePattern request.path) remainder → ¬Excluded exclude (normalizeRoutePattern remainder) →
        createGlobalPrefixMiddleware pathPrefix exclude requestId request =
          .next (rewriteGlobalPrefixRequest request (normalizeRoutePattern request.path) (normalizeRoutePattern remainder)) := by
  unfold createGlobalPrefixMiddleware
  simp only [if_neg hnonroot]
  refine ⟨fun hexcluded => if_pos (matchesExcludedPath_iff.2 hexcluded), fun hnot hall => ?_, fun remainder hnot hbelow hkept => ?_⟩
  · rw [if_neg (mt matchesExcludedPath_iff.1 hnot), if_pos (shouldReject_iff.2 hall)]
  · have hkeeps := mt shouldReject_iff.1 fun hall => hkept (hall remainder hbelow)
    rw [if_neg (mt matchesExcludedPath_iff.1 hnot), if_neg hkeeps, stripGlobalPrefix_of_below hbelow]

/-- Behind the root every request goes on as it is. Behind another prefix an excluded request does, and no other;
one that is not below the prefix, or whose remainder is excluded, is answered with a 404; and another goes on with
the normalised remainder as its path, and that followed by the query as its url, if its path was spelled in the
normal form. -/
theorem globalPrefix_routes (pathPrefix : Utf16) (exclude : Option (List Utf16)) (requestId : Option Utf16) (path query : Utf16) (others : ρ) :
    (normalizeRoutePattern pathPrefix = [slash] →
      createGlobalPrefixMiddleware pathPrefix exclude requestId ⟨path, path ++ query, others⟩ = .next ⟨path, path ++ query, others⟩) ∧
    (normalizeRoutePattern pathPrefix ≠ [slash] →
      (createGlobalPrefixMiddleware pathPrefix exclude requestId ⟨path, path ++ query, others⟩ = .next ⟨path, path ++ query, others⟩ ↔
        Excluded exclude (normalizeRoutePattern path)) ∧
      (createGlobalPrefixMiddleware pathPrefix exclude requestId ⟨path, path ++ query, others⟩ = writeGlobalPrefixNotFound requestId ↔
        ¬Excluded exclude (normalizeRoutePattern path) ∧
          ∀ remainder, Below (normalizeRoutePattern pathPrefix) (normalizeRoutePattern path) remainder →
            Excluded exclude (normalizeRoutePattern remainder)) ∧
      ∀ remainder, ¬Excluded exclude (normalizeRoutePattern path) →
        Below (normalizeRoutePattern pathPrefix) (normalizeRoutePattern path) remainder → ¬Excluded exclude (normalizeRoutePattern remainder) →
        ∃ url, createGlobalPrefixMiddleware pathPrefix exclude requestId ⟨path, path ++ query, others⟩ =
            .next ⟨normalizeRoutePattern remainder, url, others⟩ ∧
          (Spelled path query → url = normalizeRoutePattern remainder ++ query)) := by
  refine ⟨fun hroot => if_pos hroot, fun hprefix => ?_⟩
  obtain ⟨hpass, hrefuse, hrewrite⟩ := createGlobalPrefixMiddleware_eq exclude requestId hprefix ⟨path, path ++ query, others⟩
  have hsplit : ¬Excluded exclude (normalizeRoutePattern path) →
      (∀ remainder, Below (normalizeRoutePattern pathPrefix) (normalizeRoutePattern path) remainder → Excluded exclude (normalizeRoutePattern remainder)) ∨
        ∃ remainder, Below (normalizeRoutePattern pathPrefix) (normalizeRoutePattern path) remainder ∧ ¬Excluded exclude (normalizeRoutePattern remainder) := by
    intro _
    by_contra hneither
    simp only [not_or, not_forall, not_exists, not_and, not_not] at hneither
    obtain ⟨⟨remainder, hbelow, hnot⟩, hall⟩ := hneither
    exact hnot (hall remainder hbelow)
  refine ⟨⟨fun hnext => ?_, hpass⟩, ⟨fun hnotFound => ?_, fun h => hrefuse h.1 h.2⟩, fun remainder hnot hbelow hkept => ?_⟩
  · by_contra hnot
    rcases hsplit hnot with hall | ⟨remainder, hbelow, hkept⟩
    · rw [hrefuse hnot hall] at hnext
      cases hnext
    · rw [hrewrite remainder hnot hbelow hkept] at hnext
      exact hbelow.normalize_ne hprefix (congrArg FrameworkRequest.path (Outcome.next.inj hnext))
  · have hnot : ¬Excluded exclude (normalizeRoutePattern path) := by
      intro hexcluded
      rw [hpass hexcluded] at hnotFound
      cases hnotFound
    refine ⟨hnot, (hsplit hnot).resolve_right ?_⟩
    rintro ⟨remainder, hbelow, hkept⟩
    rw [hrewrite remainder hnot hbelow hkept] at hnotFound
    cases hnotFound
  · refine ⟨_, hrewrite remainder hnot hbelow hkept, fun hspelled => ?_⟩
    exact rewritePrefixedUrl_of_spelled hspelled _

/-- Behind the root a request goes on as it is without any exclusion, and behind `/api` a path with a doubled slash
loses its query. -/
theorem globalPrefix_counterexample :
    ¬(createGlobalPrefixMiddleware (units "/") none none (⟨units "//a", units "//a", ()⟩ : FrameworkRequest Unit) = .next ⟨units "//a", units "//a", ()⟩ ↔
      Excluded none (normalizeRoutePattern (units "//a"))) ∧
    createGlobalPrefixMiddleware (units "/api") none none (⟨units "//api//users", units "//api//users" ++ units "?x=1", ()⟩ : FrameworkRequest Unit) =
      .next ⟨units "/users", units "/users", ()⟩ := by
  have hpattern {text : Utf16} (h : ¬wildcard <:+ text := by decide) : normalizeRoutePattern text = normalizeRoutePath text := normalizeRoutePattern_of_not_suffix h
  constructor
  · have hroot : normalizeRoutePattern (units "/") = [slash] := by
      rw [hpattern]
      decide
    rw [createGlobalPrefixMiddleware, if_pos hroot]
    simp [Excluded]
  · have hapi : normalizeRoutePattern (units "/api") = units "/api" := by
      rw [hpattern]
      decide
    have hpath : normalizeRoutePattern (units "//api//users") = units "/api/users" := by
      rw [hpattern]
      decide
    have husers : normalizeRoutePattern (units "/users") = units "/users" := by
      rw [hpattern]
      decide
    have hnone (text : Utf16) : ¬Excluded none text := by simp [Excluded]
    have hbelow : Below (normalizeRoutePattern (units "/api")) (normalizeRoutePattern (units "//api//users")) (units "/users") := by
      rw [hapi, hpath]
      exact ⟨by decide, .inr (by decide)⟩
    rw [(createGlobalPrefixMiddleware_eq _ _ (by rw [hapi]; decide) _).2.2 (units "/users") (hnone _) hbelow (hnone _), hpath, husers]
    rfl

end Fluo.Runtime.GlobalPrefix
