import Fluo.Platform.Express
/-!
# Native routes of the Bun adapter

`createBunNativeRoutes` with the routes of `Bun.serve`: of the paths that match, the one is taken that has a literal where they
first differ in kind. How it compares a literal is a parameter. A path is registered for every method, and what has no native route there goes to the shared dispatcher.
-/

namespace Fluo.Platform.Bun
open Fluo.Lib Http.Mapping

/-! ## The code -/

/-- `toBunRouteMethod` gives a method. -/
def isBunRouteMethod (method : HttpMethod) : Bool := method ≠ .all

def isSafeBunNativeRouteDescriptor (d : HandlerDescriptor) : Bool := d.route.method ≠ .options && d.route.version = none

/-- The signatures of one shape, that is the names of its parameters. -/
def signatures (descriptors : List HandlerDescriptor) (key : Utf16 × Utf16) : List (List Utf16) :=
  ((descriptors.filter fun d => d.route.method ≠ .all && shapeKey d = key).map (·.metadata.pathParams)).dedup

/-- `collectUnsafeNativeRouteShapes` collects the shape of the descriptor for its method. -/
def hasUnsafeShape (descriptors : List HandlerDescriptor) (d : HandlerDescriptor) : Bool :=
  (descriptors.any fun e => e.route.method = .all && routeShape e.route.path = routeShape d.route.path) ||
    (signatures descriptors (shapeKey d)).length > 1

def isNative (descriptors : List HandlerDescriptor) (d : HandlerDescriptor) : Bool :=
  isBunRouteMethod d.route.method && isSafeBunNativeRouteDescriptor d && !isVersionSensitive isBunRouteMethod descriptors d &&
    !hasUnsafeShape descriptors d

/-- The native handlers of the routes; `supported` is what `supportsBunNativeRoutes` says of the version. -/
def createBunNativeRoutes (supported : Bool) (descriptors : List HandlerDescriptor) : NativeRoutes :=
  if supported then registerNativeRoutes (descriptors.filter (isNative descriptors)) else []

section Router
variable (casing : Casing) (same : Utf16 → Utf16 → Bool) (decode : Utf16 → Option Utf16) (request : FrameworkRequest)

/-- What `createBunNativeRouteHandoffHandler` binds to the request. -/
def nativeMatch (supported : Bool) (descriptors : List HandlerDescriptor) : Option HandlerMatch := do
  let (path, handlers) ← best (fun route => pathRank same request.path route.1) (2 ^ (fields slash request.path).length)
    (createBunNativeRoutes supported descriptors)
  let descriptor ← handlers.get (casing.toUpperCase request.method)
  let params ← nativeParams define decode path (fields slash request.path)
  handOver request descriptor params

end Router

/-! ## Which route is taken -/

theorem nodup_native (descriptors : List HandlerDescriptor) : ((descriptors.filter (isNative descriptors)).map nativeRouteKey).Nodup := by
  refine nodup_keys isBunRouteMethod fun d _ hd => ?_
  simp only [isNative, Bool.and_eq_true, Bool.not_eq_true'] at hd
  exact ⟨hd.1.1.1, hd.1.2⟩

section Parity
variable {casing : Casing} {same : Utf16 → Utf16 → Bool} {decode : Utf16 → Option Utf16} {request : FrameworkRequest} {supported : Bool}

variable (same request) in
/-- A native route, of whatever method, whose path matches the request. -/
def Reaches (descriptors : List HandlerDescriptor) (d : HandlerDescriptor) : Prop :=
  d ∈ descriptors ∧ isNative descriptors d = true ∧ routerMatches same d.route.path request.path = true

theorem nativeMatch_eq_some {descriptors : List HandlerDescriptor} {found : HandlerMatch}
    (h : nativeMatch casing same decode request supported descriptors = some found) :
    Reaches same request descriptors found.descriptor ∧ found.descriptor.route.method.name = casing.toUpperCase request.method ∧
      nativeParams define decode found.descriptor.route.path (fields slash request.path) = some found.params ∧
      ∀ e, Reaches same request descriptors e → e.route.path = found.descriptor.route.path ∨ Precedes (descriptors.filter (isNative descriptors)) found.descriptor e := by
  obtain ⟨⟨path, handlers⟩, hbest, h⟩ := Option.bind_eq_some_iff.1 h
  obtain ⟨d, hd, h⟩ := Option.bind_eq_some_iff.1 h
  obtain ⟨params, hparams, h⟩ := Option.bind_eq_some_iff.1 h
  unfold handOver at h
  split at h <;> cases h
  unfold createBunNativeRoutes at hbest
  split at hbest
  · have hget := get_registerNativeRoutes (nodup_native descriptors)
    have hkeyed := keyed_registerNativeRoutes (descriptors.filter (isNative descriptors))
    obtain ⟨hlt, before, after, hroutes, hbefore, hafter⟩ := best_eq_some.1 hbest
    have hmatches : routerMatches same path request.path = true := matches_of_pathRank_lt hlt
    have hat : (registerNativeRoutes (descriptors.filter (isNative descriptors))).get path = some handlers :=
      (OrderedMap.get_eq_some hkeyed).2 (by rw [hroutes]; simp)
    obtain ⟨hmem, hkey⟩ := (hget path _ d).1 (by rw [hat]; exact hd)
    obtain ⟨hmem, hnative⟩ := List.mem_filter.1 hmem
    have hpath : d.route.path = path := congrArg Prod.snd hkey
    refine ⟨⟨hmem, hnative, by rwa [hpath]⟩, congrArg Prod.fst hkey, by rwa [hpath], fun e he => ?_⟩
    obtain ⟨he, hnative', hmatches'⟩ := he
    have hfound := (hget e.route.path e.route.method.name e).2 ⟨List.mem_filter.2 ⟨he, hnative'⟩, rfl⟩
    obtain ⟨handlers', hat', -⟩ := Option.bind_eq_some_iff.1 hfound
    have hentry := (OrderedMap.get_eq_some hkeyed).1 hat'
    rw [hroutes, List.mem_append, List.mem_cons] at hentry
    simp only [hpath, Precedes]
    rcases hentry with hentry | hentry | hentry
    · have hlt : pathRank same request.path path < pathRank same request.path e.route.path := hbefore _ hentry
      rw [pathRank_of_matches hmatches, pathRank_of_matches hmatches'] at hlt
      exact .inr (.inl hlt)
    · exact .inl (Prod.mk.inj hentry).1
    · have hle : pathRank same request.path path ≤ pathRank same request.path e.route.path := hafter _ hentry
      rw [pathRank_of_matches hmatches, pathRank_of_matches hmatches'] at hle
      have hpairs := (pairwise_registerNativeRoutes (descriptors.filter (isNative descriptors))).1
      rw [hroutes, List.map_append, List.map_cons] at hpairs
      have horder : order (descriptors.filter (isNative descriptors)) d < order (descriptors.filter (isNative descriptors)) e := by
        rw [order, hpath]
        exact (List.pairwise_cons.1 (List.pairwise_append.1 hpairs).2.1).1 _ (List.mem_map.2 ⟨_, hentry, rfl⟩)
      rcases Nat.lt_or_eq_of_le hle with hlt | heq
      · exact .inr (.inl hlt)
      · exact .inr (.inr ⟨heq, horder⟩)
  · cases hbest

variable (casing same decode request) in
/-- Of the native routes that match the request, the one that precedes the others, if it has the method, agrees with the mapping. -/
def Parity (mapping : HandlerMapping) : Prop :=
  ∀ d, Reaches same request mapping.descriptors d → d.route.method.name = casing.toUpperCase request.method →
    (∃ e, Reaches same request mapping.descriptors e ∧ Precedes (mapping.descriptors.filter (isNative mapping.descriptors)) e d) ∨
      AgreesOwn decode (mapping.query casing request) mapping.descriptors d

theorem match_eq_nativeMatch_iff {sources : List HandlerSource} {options : Option VersioningOptions} {mapping : HandlerMapping}
    (h : createHandlerMapping casing sources options = .ok mapping) {found : HandlerMatch}
    (hfound : nativeMatch casing same decode request supported mapping.descriptors = some found) :
    mapping.matchRequest casing request = some found ↔ Parity casing same decode request mapping := by
  obtain ⟨hreaches, hmethod, hparams, hfirst⟩ := nativeMatch_eq_some hfound
  rw [show found = { descriptor := found.descriptor, params := found.params } from rfl, match_eq_defined_iff h hparams]
  constructor
  · intro hagrees d hd hmethod'
    rcases hfirst d hd with hpath | hprecedes
    · -- the path and the method are those of one descriptor
      have hkey : nativeRouteKey d = nativeRouteKey found.descriptor := Prod.ext (hmethod'.trans hmethod.symm) hpath
      have heq := List.inj_on_of_nodup_map (nodup_native mapping.descriptors) (List.mem_filter.2 ⟨hd.1, hd.2.1⟩)
        (List.mem_filter.2 ⟨hreaches.1, hreaches.2.1⟩) hkey
      exact .inr (heq ▸ hagrees)
    · exact .inl ⟨_, hreaches, hprecedes⟩
  · intro hparity
    rcases hparity _ hreaches hmethod with ⟨e, he, hprecedes⟩ | hagrees
    · exact absurd hprecedes (not_precedes (hfirst e he))
    · exact hagrees

end Parity

end Fluo.Platform.Bun

namespace Fluo.Platform
open Fluo.Lib Http.Mapping

/-- What the adapters hand over as matched is what the mapping finds, just where the route that the host takes agrees with the mapping. -/
theorem native_routing {casing : Casing} {sources : List HandlerSource} {options : Option VersioningOptions} {mapping : HandlerMapping}
    (h : createHandlerMapping casing sources options = .ok mapping) (expressDecode bunDecode : Utf16 → Option Utf16) (bunSame : Utf16 → Utf16 → Bool)
    (request : FrameworkRequest) :
    (∀ found, Express.nativeMatch casing expressDecode request mapping.descriptors = some found →
      (mapping.matchRequest casing request = some found ↔ Express.Parity casing expressDecode request mapping)) ∧
    ∀ supported found, Bun.nativeMatch casing bunSame bunDecode request supported mapping.descriptors = some found →
      (mapping.matchRequest casing request = some found ↔ Bun.Parity casing bunSame bunDecode request mapping) :=
  ⟨fun _ hfound => Express.match_eq_nativeMatch_iff h hfound, fun _ _ hfound => Bun.match_eq_nativeMatch_iff h hfound⟩

/-- A literal path is registered after a parameter. -/
private def literalLater : List HandlerSource := [controllerAt "/users" [("one", .get, ":id"), ("me", .get, "me")]]

private def literalForAll : List HandlerSource := [controllerAt "/users" [("one", .get, ":id"), ("me", .all, "me")]]

theorem native_routing_one : ∃ mapping, createHandlerMapping asciiCasing literalLater none = .ok mapping ∧
    (∀ found, Express.nativeMatch asciiCasing some (getUser "1") mapping.descriptors = some found →
      (mapping.matchRequest asciiCasing (getUser "1") = some found ↔ Express.Parity asciiCasing some (getUser "1") mapping)) ∧
    ∀ supported found, Bun.nativeMatch asciiCasing (· = ·) some (getUser "1") supported mapping.descriptors = some found →
      (mapping.matchRequest asciiCasing (getUser "1") = some found ↔ Bun.Parity asciiCasing (· = ·) some (getUser "1") mapping) := by
  have haccepted : (createHandlerMapping asciiCasing literalLater none).isOk := by decide
  cases h : createHandlerMapping asciiCasing literalLater none with
  | error e =>
    rw [h] at haccepted
    cases haccepted
  | ok mapping => exact ⟨mapping, rfl, native_routing h some some (· = ·) (getUser "1")⟩

/-- The Router of Express takes the parameter that was registered first, and Bun does not know of the route for all methods. -/
theorem native_routing_me :
    (∃ mapping found, createHandlerMapping asciiCasing literalLater none = .ok mapping ∧
      Express.nativeMatch asciiCasing some (getUser "me") mapping.descriptors = some found ∧
      mapping.matchRequest asciiCasing (getUser "me") ≠ some found) ∧
    ∃ mapping found, createHandlerMapping asciiCasing literalForAll none = .ok mapping ∧
      Bun.nativeMatch asciiCasing (· = ·) some (getUser "me") true mapping.descriptors = some found ∧
      mapping.matchRequest asciiCasing (getUser "me") ≠ some found := by
  obtain ⟨mapping, found, hcreate, hfound, hne⟩ := exists_found (show methodNames (Express.nativeMatch asciiCasing some (getUser "me")) literalLater
    (getUser "me") = some (some (units "one"), some (units "me")) by decide +kernel)
  obtain ⟨mapping', found', hcreate', hfound', hne'⟩ := exists_found (show methodNames (Bun.nativeMatch asciiCasing (· = ·) some (getUser "me") true)
    literalForAll (getUser "me") = some (some (units "one"), some (units "me")) by decide +kernel)
  exact ⟨⟨mapping, found, hcreate, hfound, hne (by decide)⟩, mapping', found', hcreate', hfound', hne' (by decide)⟩

end Fluo.Platform
