import Fluo.Platform.NativeRoutes
/-!
# Native routes of the Express adapter

`createExpressNativeRoutes` with the Router that `registerNativeRoutes` hands them to: it tries the paths in the order they were
registered, whatever the case of their letters, and gives up where a parameter cannot be decoded.
-/

namespace Fluo.Platform.Express
open Fluo.Lib Http.Mapping

/-! ## The code -/

/-- `EXPRESS_NATIVE_ROUTE_METHODS` -/
def nativeMethods : List HttpMethod := [.get, .post, .put, .patch, .delete, .head]

def createExpressNativeRoutes (descriptors : List HandlerDescriptor) : NativeRoutes := registerNativeRoutes (nativeCandidates nativeMethods descriptors)

section Router
variable (casing : Casing) (decode : Utf16 → Option Utf16) (request : FrameworkRequest)

/-- The case of a path is not compared. -/
def sameText (value text : Utf16) : Bool :=
  value.length = text.length && (value.zip text).all fun pair => casing.sameIgnoringCase pair.1 pair.2

/-- The Router, with the handlers of the adapter: a path whose route does not have the method goes on to the next. -/
def routeNatively : NativeRoutes → Option HandlerMatch
  | [] => none
  | (path, descriptorsByMethod) :: routes =>
    if routerMatches (sameText casing) path request.path then
      match nativeParams define decode path (fields slash request.path) with
      | none => none
      | some params =>
        match descriptorsByMethod.get (casing.toUpperCase request.method) with
        | some descriptor => handOver request descriptor params
        | none => routeNatively routes
    else routeNatively routes

/-- What is handed to the dispatcher as matched. -/
def nativeMatch (descriptors : List HandlerDescriptor) : Option HandlerMatch :=
  routeNatively casing decode request (createExpressNativeRoutes descriptors)

end Router

/-! ## Which route is tried first -/

section Parity
variable {casing : Casing} {decode : Utf16 → Option Utf16} {request : FrameworkRequest}

theorem routeNatively_eq_some {routes : NativeRoutes} {found : HandlerMatch} (h : routeNatively casing decode request routes = some found) :
    ∃ before path descriptorsByMethod after params, routes = before ++ (path, descriptorsByMethod) :: after ∧
      routerMatches (sameText casing) path request.path = true ∧ nativeParams define decode path (fields slash request.path) = some params ∧
      descriptorsByMethod.get (casing.toUpperCase request.method) = some found.descriptor ∧ found.params = params ∧
      ∀ entry ∈ before, routerMatches (sameText casing) entry.1 request.path = true → entry.2.get (casing.toUpperCase request.method) = none := by
  induction routes with
  | nil => cases h
  | cons route routes ih =>
    obtain ⟨path, descriptorsByMethod⟩ := route
    simp only [routeNatively] at h
    split at h
    · next hmatches =>
      split at h
      · cases h
      · next params hparams =>
        split at h
        · next d hd =>
          unfold handOver at h
          split at h <;> cases h
          exact ⟨[], path, descriptorsByMethod, routes, params, rfl, hmatches, hparams, hd, rfl, nofun⟩
        · next hnone =>
          obtain ⟨before, path', byMethod', after, params', rfl, hrest, hparams', hd, hfound, hbefore⟩ := ih h
          refine ⟨(path, descriptorsByMethod) :: before, path', byMethod', after, params', rfl, hrest, hparams', hd, hfound, fun entry hentry => ?_⟩
          rcases List.mem_cons.1 hentry with rfl | hentry
          · exact fun _ => hnone
          · exact hbefore entry hentry
    · next hdiffers =>
      obtain ⟨before, path', byMethod', after, params', rfl, hrest, hparams', hd, hfound, hbefore⟩ := ih h
      refine ⟨(path, descriptorsByMethod) :: before, path', byMethod', after, params', rfl, hrest, hparams', hd, hfound, fun entry hentry => ?_⟩
      rcases List.mem_cons.1 hentry with rfl | hentry
      · exact fun hmatches => absurd hmatches hdiffers
      · exact hbefore entry hentry

variable (casing request) in
/-- A native route that the Router can match to the request. -/
def Reaches (descriptors : List HandlerDescriptor) (d : HandlerDescriptor) : Prop :=
  d ∈ descriptors ∧ isNative nativeMethods descriptors d = true ∧ d.route.method.name = casing.toUpperCase request.method ∧
    routerMatches (sameText casing) d.route.path request.path = true

theorem nativeMatch_eq_some {descriptors : List HandlerDescriptor} {found : HandlerMatch} (h : nativeMatch casing decode request descriptors = some found) :
    Reaches casing request descriptors found.descriptor ∧
      nativeParams define decode found.descriptor.route.path (fields slash request.path) = some found.params ∧
      ∀ e, Reaches casing request descriptors e → e = found.descriptor ∨ order (nativeCandidates nativeMethods descriptors) found.descriptor < order (nativeCandidates nativeMethods descriptors) e := by
  rw [nativeMatch, createExpressNativeRoutes] at h
  obtain ⟨before, path, byMethod, after, params, hroutes, hmatches, hparams, hd, rfl, hbefore⟩ := routeNatively_eq_some h
  have hcandidates := nativeCandidates_eq nativeMethods descriptors
  have hget := get_registerNativeRoutes (hcandidates ▸ nodup_native nativeMethods descriptors)
  have hkeyed := keyed_registerNativeRoutes (nativeCandidates nativeMethods descriptors)
  have hat : (registerNativeRoutes (nativeCandidates nativeMethods descriptors)).get path = some byMethod :=
    (OrderedMap.get_eq_some hkeyed).2 (by rw [hroutes]; simp)
  obtain ⟨hmem, hkey⟩ := (hget path _ found.descriptor).1 (by rw [hat]; exact hd)
  obtain ⟨hmem, hnative⟩ := List.mem_filter.1 (hcandidates ▸ hmem)
  have hpath : found.descriptor.route.path = path := congrArg Prod.snd hkey
  refine ⟨⟨hmem, hnative, congrArg Prod.fst hkey, by rwa [hpath]⟩, by rwa [hpath], fun e he => ?_⟩
  obtain ⟨he, hnative', hmethod', hmatches'⟩ := he
  have hfound := (hget e.route.path (casing.toUpperCase request.method) e).2 ⟨hcandidates ▸ List.mem_filter.2 ⟨he, hnative'⟩, Prod.ext hmethod' rfl⟩
  obtain ⟨byMethod', hat', he'⟩ := Option.bind_eq_some_iff.1 hfound
  have hentry := (OrderedMap.get_eq_some hkeyed).1 hat'
  rw [hroutes, List.mem_append, List.mem_cons] at hentry
  rcases hentry with hentry | hentry | hentry
  · have hnone := hbefore _ hentry hmatches'
    rw [he'] at hnone
    cases hnone
  · obtain ⟨-, rfl⟩ := Prod.mk.inj hentry
    rw [hd] at he'
    exact .inl (Option.some.inj he').symm
  · right
    have hpairs := (pairwise_registerNativeRoutes (nativeCandidates nativeMethods descriptors)).1
    rw [hroutes, List.map_append, List.map_cons] at hpairs
    rw [order, hpath]
    exact (List.pairwise_cons.1 (List.pairwise_append.1 hpairs).2.1).1 _ (List.mem_map.2 ⟨_, hentry, rfl⟩)

variable (casing decode request) in
/-- Of the native routes that the Router can match to the request, the one whose path was registered first agrees with the mapping. -/
def Parity (mapping : HandlerMapping) : Prop :=
  ∀ d, Reaches casing request mapping.descriptors d →
    (∃ e, Reaches casing request mapping.descriptors e ∧
      order (nativeCandidates nativeMethods mapping.descriptors) e < order (nativeCandidates nativeMethods mapping.descriptors) d) ∨
    AgreesOwn decode (mapping.query casing request) mapping.descriptors d

theorem match_eq_nativeMatch_iff {sources : List HandlerSource} {options : Option VersioningOptions} {mapping : HandlerMapping}
    (h : createHandlerMapping casing sources options = .ok mapping) {found : HandlerMatch}
    (hfound : nativeMatch casing decode request mapping.descriptors = some found) :
    mapping.matchRequest casing request = some found ↔ Parity casing decode request mapping := by
  obtain ⟨hreaches, hparams, hfirst⟩ := nativeMatch_eq_some hfound
  rw [show found = { descriptor := found.descriptor, params := found.params } from rfl, match_eq_defined_iff h hparams]
  constructor
  · intro hagrees d hd
    rcases hfirst d hd with rfl | hlt
    · exact .inr hagrees
    · exact .inl ⟨_, hreaches, hlt⟩
  · intro hparity
    rcases hparity _ hreaches with ⟨e, he, hlt⟩ | hagrees
    · rcases hfirst e he with rfl | hlt'
      · exact absurd hlt (Nat.lt_irrefl _)
      · exact absurd hlt (Nat.lt_asymm hlt')
    · exact hagrees

end Parity

end Fluo.Platform.Express
