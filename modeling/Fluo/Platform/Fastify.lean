import Fluo.Platform.NativeRoutes
/-!
# Native routes of the Fastify adapter

`createFastifyNativeRoutes` with find-my-way: each method has its own tree, in which a literal is preferred to a parameter at each
position. How the router compares a literal, and decodes a parameter, are parameters.
-/

namespace Fluo.Platform.Fastify
open Fluo.Lib Http.Mapping

/-- `FASTIFY_NATIVE_ROUTE_METHODS` -/
def nativeMethods : List HttpMethod := [.get, .post, .put, .patch, .delete, .head]

def createFastifyNativeRoutes (descriptors : List HandlerDescriptor) : List HandlerDescriptor := nativeCandidates nativeMethods descriptors

section Router
variable (casing : Casing) (same : Utf16 → Utf16 → Bool) (decode : Utf16 → Option Utf16) (request : FrameworkRequest)

/-- The routes in the tree of the method. -/
def tree (descriptors : List HandlerDescriptor) : List HandlerDescriptor :=
  (createFastifyNativeRoutes descriptors).filter fun d => d.route.method.name = casing.toUpperCase request.method

/-- What the handler of a native route dispatches. `normalizeNativeRouteParams` assigns each of the params. -/
def nativeMatch (descriptors : List HandlerDescriptor) : Option HandlerMatch := do
  let descriptor ← best (fun d => pathRank same request.path d.route.path) (2 ^ (fields slash request.path).length) (tree casing request descriptors)
  let params ← nativeParams assign decode descriptor.route.path (fields slash request.path)
  handOver request descriptor params

end Router

/-! ## Which route is taken -/

section Parity
variable {casing : Casing} {same : Utf16 → Utf16 → Bool} {decode : Utf16 → Option Utf16} {request : FrameworkRequest}

variable (casing same request) in
/-- A native route that the router can match to the request. -/
def Reaches (descriptors : List HandlerDescriptor) (d : HandlerDescriptor) : Prop :=
  d ∈ descriptors ∧ isNative nativeMethods descriptors d = true ∧ d.route.method.name = casing.toUpperCase request.method ∧
    routerMatches same d.route.path request.path = true

theorem mem_tree {descriptors : List HandlerDescriptor} {d : HandlerDescriptor} : d ∈ tree casing request descriptors ↔
    d ∈ descriptors ∧ isNative nativeMethods descriptors d = true ∧ d.route.method.name = casing.toUpperCase request.method := by
  rw [tree, createFastifyNativeRoutes, nativeCandidates_eq, List.mem_filter, List.mem_filter, decide_eq_true_eq, and_assoc]

theorem nodup_tree (descriptors : List HandlerDescriptor) : ((tree casing request descriptors).map (·.route.path)).Nodup := by
  have hkeys : ((tree casing request descriptors).map nativeRouteKey).Nodup := by
    rw [tree, createFastifyNativeRoutes, nativeCandidates_eq]
    exact (nodup_native nativeMethods descriptors).sublist ((List.filter_sublist).map nativeRouteKey)
  refine List.Nodup.of_map (fun path => (casing.toUpperCase request.method, path)) ?_
  rw [List.map_map]
  refine List.map_congr_left (fun d hd => ?_) ▸ hkeys
  exact Prod.ext (mem_tree.1 hd).2.2 rfl

theorem order_lt {routes before after : List HandlerDescriptor} {d e : HandlerDescriptor} (hnodup : (routes.map (·.route.path)).Nodup)
    (hroutes : routes = before ++ d :: after) (he : e ∈ after) : order routes d < order routes e := by
  subst hroutes
  rw [List.map_append, List.map_cons, List.nodup_append] at hnodup
  obtain ⟨-, hrest, hapart⟩ := hnodup
  have hd : d.route.path ∉ before.map (·.route.path) := fun hmem => hapart _ hmem _ List.mem_cons_self rfl
  have he' : e.route.path ∉ before.map (·.route.path) := fun hmem => hapart _ hmem _ (List.mem_cons_of_mem _ (List.mem_map_of_mem he)) rfl
  have hne : d.route.path ≠ e.route.path := fun heq => (List.nodup_cons.1 hrest).1 (heq ▸ List.mem_map_of_mem he)
  rw [order, order, List.map_append, List.map_cons, List.idxOf_append_of_notMem hd, List.idxOf_append_of_notMem he', List.idxOf_cons_self,
    List.idxOf_cons_ne _ hne]
  omega

theorem nativeMatch_eq_some {descriptors : List HandlerDescriptor} {found : HandlerMatch}
    (h : nativeMatch casing same decode request descriptors = some found) :
    Reaches casing same request descriptors found.descriptor ∧
      nativeParams assign decode found.descriptor.route.path (fields slash request.path) = some found.params ∧
      ∀ e, Reaches casing same request descriptors e → e = found.descriptor ∨ Precedes (tree casing request descriptors) found.descriptor e := by
  obtain ⟨d, hbest, h⟩ := Option.bind_eq_some_iff.1 h
  obtain ⟨params, hparams, h⟩ := Option.bind_eq_some_iff.1 h
  unfold handOver at h
  split at h <;> cases h
  obtain ⟨hlt, hleads⟩ := best_eq_some.1 hbest
  have hmatches : routerMatches same d.route.path request.path = true := matches_of_pathRank_lt hlt
  obtain ⟨hmem, hnative, hmethod⟩ := mem_tree.1 hleads.mem
  refine ⟨⟨hmem, hnative, hmethod, hmatches⟩, hparams, fun e he => ?_⟩
  obtain ⟨before, after, hroutes, hbefore, hafter⟩ := hleads
  have hentry : e ∈ tree casing request descriptors := mem_tree.2 ⟨he.1, he.2.1, he.2.2.1⟩
  rw [hroutes, List.mem_append, List.mem_cons] at hentry
  rcases hentry with hentry | rfl | hentry
  · have hlt : pathRank same request.path d.route.path < pathRank same request.path e.route.path := hbefore _ hentry
    rw [pathRank_of_matches hmatches, pathRank_of_matches he.2.2.2] at hlt
    exact .inr (.inl hlt)
  · exact .inl rfl
  · have hle : pathRank same request.path d.route.path ≤ pathRank same request.path e.route.path := hafter _ hentry
    rw [pathRank_of_matches hmatches, pathRank_of_matches he.2.2.2] at hle
    rcases Nat.lt_or_eq_of_le hle with hlt | heq
    · exact .inr (.inl hlt)
    · exact .inr (.inr ⟨heq, order_lt (nodup_tree descriptors) hroutes hentry⟩)

variable (casing same decode request) in
/-- Of the native routes that the router can match to the request, the one that precedes the others agrees with the mapping. -/
def Parity (mapping : HandlerMapping) : Prop :=
  ∀ d, Reaches casing same request mapping.descriptors d →
    (∃ e, Reaches casing same request mapping.descriptors e ∧ Precedes (tree casing request mapping.descriptors) e d) ∨
      Agrees decode (mapping.query casing request) mapping.descriptors d

/-- What the handler of a native route dispatches is what the mapping finds, just where the route that the router takes agrees with the mapping. -/
theorem fastify_native_routing {sources : List HandlerSource} {options : Option VersioningOptions} {mapping : HandlerMapping}
    (h : createHandlerMapping casing sources options = .ok mapping) {found : HandlerMatch}
    (hfound : nativeMatch casing same decode request mapping.descriptors = some found) :
    mapping.matchRequest casing request = some found ↔ Parity casing same decode request mapping := by
  obtain ⟨hreaches, hparams, hfirst⟩ := nativeMatch_eq_some hfound
  rw [show found = { descriptor := found.descriptor, params := found.params } from rfl, match_eq_assigned_iff h hparams]
  constructor
  · intro hagrees d hd
    rcases hfirst d hd with rfl | hprecedes
    · exact .inr hagrees
    · exact .inl ⟨_, hreaches, hprecedes⟩
  · intro hparity
    rcases hparity _ hreaches with ⟨e, he, hprecedes⟩ | hagrees
    · exact absurd hprecedes (not_precedes ((hfirst e he).imp_left fun heq => congrArg (·.route.path) heq))
    · exact hagrees

end Parity

private def usersForAll : List HandlerSource := [controllerAt "/users" [("one", .get, ":id"), ("me", .all, "me")]]

private def nativeSome (request : FrameworkRequest) : List HandlerDescriptor → Option HandlerMatch := nativeMatch asciiCasing (· = ·) some request

theorem fastify_native_routing_one : ∃ mapping found, createHandlerMapping asciiCasing usersForAll none = .ok mapping ∧
    (mapping.matchRequest asciiCasing (getUser "1") = some found ↔ Parity asciiCasing (· = ·) some (getUser "1") mapping) := by
  obtain ⟨mapping, found, hcreate, hfound, -⟩ :=
    exists_found (show methodNames (nativeSome (getUser "1")) usersForAll (getUser "1") = some (some (units "one"), some (units "one")) by decide +kernel)
  exact ⟨mapping, found, hcreate, fastify_native_routing hcreate hfound⟩

/-- A parameter is taken for the path of a route for all methods, which has no native route. -/
theorem fastify_native_routing_me : ∃ mapping found, createHandlerMapping asciiCasing usersForAll none = .ok mapping ∧
    nativeMatch asciiCasing (· = ·) some (getUser "me") mapping.descriptors = some found ∧
    mapping.matchRequest asciiCasing (getUser "me") ≠ some found := by
  obtain ⟨mapping, found, hcreate, hfound, hne⟩ :=
    exists_found (show methodNames (nativeSome (getUser "me")) usersForAll (getUser "me") = some (some (units "one"), some (units "me")) by decide +kernel)
  exact ⟨mapping, found, hcreate, hfound, hne (by decide)⟩

end Fluo.Platform.Fastify
