import Fluo.Http.LinearMatch
import Fluo.Lib.FreshName
/-!
# Which routes can be selected

A descriptor is returned for some request unless an earlier one of its method that matches
all that it matches answers the same versions.
-/

namespace Fluo.Http.Mapping
open Fluo.Lib

/-- What the first descriptor's path matches, and all that the second's does. -/
def Covers (general d : HandlerDescriptor) : Prop :=
  ∀ segments, (matchRoutePath (segmentsOf d.route.path) segments).isSome → (matchRoutePath (segmentsOf general.route.path) segments).isSome

/-- Its method and kind are the same, and its path matches all that the other's does. -/
def Rivals (general d : HandlerDescriptor) : Prop :=
  general.route.method = d.route.method ∧ isLiteral general = isLiteral d ∧ Covers general d

namespace HandlerMapping

/-- Whether a descriptor is for a request of this version; under URI versioning versions are not compared. -/
def answers (mapping : HandlerMapping) (version : Option Utf16) (d : HandlerDescriptor) : Bool :=
  mapping.versioning.type = .uri || matchesRouteVersion d version

/-- A request of any method and path can carry the version. -/
def Carries (mapping : HandlerMapping) (version : Option Utf16) : Prop :=
  ∀ method path, ∃ headers, mapping.requestVersion { method, path, headers } = version

/-- No other descriptor takes all requests of the version from a descriptor that `before` are registered before. -/
def Open (mapping : HandlerMapping) (version : Option Utf16) (before : List HandlerDescriptor) (d : HandlerDescriptor) : Prop :=
  (mapping.answers version d = true ∧ ∀ general ∈ before, Rivals general d → mapping.answers version general = false) ∨
  -- as a fallback, after the descriptors that are for this version
  (mapping.answers version d = false ∧ isUnversioned d = true ∧
    (∀ general ∈ mapping.descriptors, general.route.method = d.route.method ∨ general.route.method = .all → isLiteral general = isLiteral d →
      Covers general d → mapping.answers version general = false) ∧
    ∀ general ∈ before, Rivals general d → isUnversioned general = false)

end HandlerMapping

/-! ## Paths that match -/

def Admits (segment : RoutePathSegment) (text : Utf16) : Prop := ∀ value, segment = .literal value → value = text

variable {incoming : List Utf16} {segments general : List RoutePathSegment} {text : Utf16}

theorem isSome_matchRoutePath :
    (matchRoutePath segments incoming).isSome ↔ List.Forall₂ Admits segments incoming := by
  rw [matchRoutePath, List.forall₂_iff_zip, foldlM_matchSegment]
  split
  · next hlength => simp [hlength]
  · next hlength =>
    rw [not_not] at hlength
    rw [and_iff_right hlength]
    split
    · next hdiffers =>
      obtain ⟨⟨segment, text⟩, hmem, hdiff⟩ := List.any_eq_true.1 hdiffers
      refine iff_of_false (by simp) fun h => ?_
      cases segment with
      | literal value => exact absurd (h hmem value rfl) (by simpa [differs] using hdiff)
      | param name => cases hdiff
    · next hsame =>
      refine iff_of_true rfl fun {segment text} hmem value hvalue => ?_
      by_contra hne
      exact hsame (List.any_eq_true.2 ⟨_, hmem, by simpa [differs, hvalue] using hne⟩)

def fill (text : Utf16) : RoutePathSegment → Utf16
  | .literal value => value
  | .param _ => text

theorem admits_fill (text : Utf16) (segments : List RoutePathSegment) : List.Forall₂ Admits segments (segments.map (fill text)) := by
  rw [List.forall₂_map_right_iff, List.forall₂_same]
  rintro segment - value rfl
  rfl

theorem forall₂_admits_of_fill (hfresh : .literal text ∉ general)
    (h : List.Forall₂ Admits general (segments.map (fill text))) (hincoming : List.Forall₂ Admits segments incoming) :
    List.Forall₂ Admits general incoming := by
  induction hincoming generalizing general with
  | nil =>
    cases h
    exact .nil
  | @cons segment incoming segments rest hfirst hrest ih =>
    cases h with | @cons first _ general _ hadmits hgeneral
    rw [List.mem_cons, not_or] at hfresh
    refine .cons (fun value hvalue => ?_) (ih hfresh.2 hgeneral)
    have hfill : value = fill text segment := hadmits value hvalue
    cases segment with
    | literal other => exact hfill.trans (hfirst other rfl)
    | param name => exact absurd (hfill ▸ hvalue).symm hfresh.1

theorem isLiteral_of_fill (hfresh : .literal text ∉ general)
    (hliteral : general.all RoutePathSegment.isLiteral = true) (h : List.Forall₂ Admits general (segments.map (fill text))) :
    segments.all RoutePathSegment.isLiteral = true := by
  induction segments generalizing general with
  | nil => rfl
  | cons segment segments ih =>
    cases h with | @cons first _ general _ hadmits hgeneral
    rw [List.all_cons, Bool.and_eq_true] at hliteral
    rw [List.mem_cons, not_or] at hfresh
    rw [List.all_cons, ih hfresh.2 hliteral.2 hgeneral, Bool.and_true]
    cases first with
    | param name => cases hliteral.1
    | literal value =>
      cases segment with
      | literal other => rfl
      | param name => exact absurd (congrArg RoutePathSegment.literal (hadmits value rfl)).symm hfresh.1

/-! ## A request for a path -/

def pathOf (segments : List Utf16) : Utf16 := slash :: [slash].intercalate segments

theorem fields_pathOf {segments : List Utf16} (h : ∀ text ∈ segments, slash ∉ text ∧ text ≠ []) : fields slash (pathOf segments) = segments := by
  have hcons : pathOf segments = [] ++ slash :: [slash].intercalate segments := rfl
  rw [hcons, fields_append_cons, fields_nil, List.nil_append, fields_intercalate, List.flatMap_congr fun text ht => fields_of_notMem (h text ht).1 (h text ht).2,
    List.flatMap_singleton']

def manyXs (n : Nat) : Utf16 := List.replicate (n + 1) 'x'.toNat.toUInt16

theorem manyXs_injective : Function.Injective manyXs := by
  intro m n h
  have hlength := congrArg List.length h
  simpa [manyXs] using hlength

theorem exists_segment (used : List Utf16) : ∃ text, text ∉ used ∧ slash ∉ text ∧ text ≠ [] := by
  refine ⟨_, firstUnused_notMem manyXs_injective 0, ?_⟩
  obtain ⟨j, hj⟩ := firstUnused_eq used manyXs used.length 0
  rw [hj, manyXs]
  exact ⟨fun hmem => absurd (List.eq_of_mem_replicate hmem) (by decide), by simp⟩

theorem literal_mem_segmentsOf {path value : Utf16} (h : .literal value ∈ segmentsOf path) : value ∈ fields slash path := by
  obtain ⟨text, hmem, htext⟩ := List.mem_map.1 h
  exact readSegment_literal htext ▸ hmem

theorem fields_fill {path : Utf16} (htext : slash ∉ text ∧ text ≠ []) :
    fields slash (pathOf ((segmentsOf path).map (fill text))) = (segmentsOf path).map (fill text) := by
  refine fields_pathOf fun filled hmem => ?_
  obtain ⟨segment, hsegment, rfl⟩ := List.mem_map.1 hmem
  cases segment with
  | literal value => exact notMem_fields (literal_mem_segmentsOf hsegment)
  | param name => exact htext

/-! ## What is registered -/

theorem nodup_of_checkDuplicates : ∀ {seen : List Utf16} {descriptors : List HandlerDescriptor}, checkDuplicates seen descriptors = .ok () →
    (∀ d ∈ descriptors, routeKey d ∉ seen) ∧ descriptors.Nodup
  | seen, [], _ => ⟨fun _ h => absurd h List.not_mem_nil, .nil⟩
  | seen, d :: rest, h => by
    rw [checkDuplicates] at h
    split at h
    · cases h
    · next hnew =>
      obtain ⟨hrest, hnodup⟩ := nodup_of_checkDuplicates h
      refine ⟨List.forall_mem_cons.2 ⟨hnew, fun d' hmem hseen => hrest d' hmem (List.mem_cons_of_mem _ hseen)⟩, List.nodup_cons.2 ⟨fun hmem => ?_, hnodup⟩⟩
      exact hrest d hmem List.mem_cons_self

theorem nodup_descriptors {casing : Casing} {sources : List HandlerSource} {options : Option VersioningOptions} {mapping : HandlerMapping}
    (h : createHandlerMapping casing sources options = .ok mapping) : mapping.descriptors.Nodup := by
  obtain ⟨descriptors, hdescriptors, h⟩ := bind_eq_ok.1 h
  obtain ⟨index, -, h⟩ := bind_eq_ok.1 h
  cases h
  obtain ⟨lists, -, hlist⟩ := bind_eq_ok.1 hdescriptors
  obtain ⟨hcheck, hlist⟩ := seq_eq_ok.1 hlist
  cases hlist
  exact (nodup_of_checkDuplicates hcheck).2

theorem name_injective : Function.Injective HttpMethod.name := by
  intro m m' h
  cases m <;> cases m' <;> first | rfl | exact absurd h (by decide)

/-! ## Ranks -/

section Ranks
variable {casing : Casing} {sources : List HandlerSource} {options : Option VersioningOptions} {mapping : HandlerMapping} {request : FrameworkRequest}
  {d general : HandlerDescriptor}

theorem isCurrent_eq : (mapping.query casing request).isCurrent d = mapping.answers (mapping.requestVersion request) d := (current_eq request d).symm

variable {q : Query} {after before : List HandlerDescriptor}

theorem rank_of_admits (h : q.admits d = true) : q.rank d = q.precedence d := if_pos h

theorem admits_iff : q.admits d = true ↔
    (q.isConcrete d = true ∨ isAll d = true) ∧ (q.params d).isSome ∧ (q.isCurrent d = true ∨ isUnversioned d = true) := by
  simp [Query.admits, and_assoc]

theorem rank_le_of_rivals (hadmits : q.admits d = true) (hrival : Rivals general d)
    (hversion : q.isCurrent general = true ∨ (q.isCurrent d = false ∧ isUnversioned general = true)) : q.rank general ≤ q.rank d := by
  obtain ⟨hmethod, hliteral, hcovers⟩ := hrival
  obtain ⟨hfits, hparams, hd⟩ := admits_iff.1 hadmits
  have hconcrete : q.isConcrete general = q.isConcrete d := by simp only [Query.isConcrete, hmethod]
  have hall : isAll general = isAll d := by simp only [isAll, hmethod]
  have hadmits' : q.admits general = true := admits_iff.2 ⟨hconcrete ▸ hall ▸ hfits, hcovers _ hparams, hversion.imp_right And.right⟩
  have hle : (if q.isCurrent general = true then 0 else 2) ≤ if q.isCurrent d = true then 0 else 2 := by
    rcases hversion with hcurrent | ⟨hcurrent, -⟩
    · rw [if_pos hcurrent]
      exact Nat.zero_le _
    · rw [if_neg (show ¬ q.isCurrent d = true by simp [hcurrent])]
      split_ifs <;> omega
  rw [rank_of_admits hadmits, rank_of_admits hadmits', Query.precedence, Query.precedence, hliteral, hconcrete]
  exact Nat.add_le_add_right (Nat.add_le_add_left hle _) _

theorem rank_lt_of_current (hadmits : q.admits d = true) (hcurrent : q.isCurrent d = false)
    (hmethod : general.route.method = d.route.method ∨ general.route.method = .all) (hliteral : isLiteral general = isLiteral d)
    (hcovers : Covers general d) (hversion : q.isCurrent general = true) : q.rank general < q.rank d := by
  obtain ⟨hfits, hparams, hd⟩ := admits_iff.1 hadmits
  have hfits' : q.isConcrete general = true ∨ isAll general = true := by
    rcases hmethod with hmethod | hall
    · rw [Query.isConcrete, isAll, hmethod]
      exact hfits
    · exact .inr (decide_eq_true hall)
  have hadmits' : q.admits general = true := admits_iff.2 ⟨hfits', hcovers _ hparams, .inl hversion⟩
  rw [rank_of_admits hadmits, rank_of_admits hadmits', Query.precedence, Query.precedence, hliteral, if_pos hversion,
    if_neg (show ¬ q.isCurrent d = true by simp [hcurrent])]
  split_ifs <;> omega

theorem open_of_match (h : createHandlerMapping casing sources options = .ok mapping)
    (hd : mapping.descriptors = before ++ d :: after) {found : HandlerMatch} (hmatch : mapping.matchRequest casing request = some found)
    (hfound : found.descriptor = d) : mapping.Open (mapping.requestVersion request) before d := by
  rw [matchRequest_eq_linearMatch h request, Query.linearMatch] at hmatch
  obtain ⟨d', hbest, rfl⟩ := Option.map_eq_some_iff.1 hmatch
  obtain rfl : d' = d := hfound
  obtain ⟨hlt, before', after', hd', hbefore, hafter⟩ := best_eq_some.1 hbest
  have hnodup := nodup_descriptors h
  have hbefore' : before = before' := by
    have hnot {l r : List HandlerDescriptor} (hlr : mapping.descriptors = l ++ d' :: r) : d' ∉ r := by
      rw [hlr] at hnodup
      exact (List.nodup_cons.1 (List.nodup_append.1 hnodup).2.1).1
    exact (append_cons_inj (hnot hd) (hnot hd') (hd.symm.trans hd')).1
  subst hbefore'
  have hadmits : (mapping.query casing request).admits d' = true := (Query.rank_lt_iff _ d').1 hlt
  have hleast : ∀ general ∈ mapping.descriptors, (mapping.query casing request).rank d' ≤ (mapping.query casing request).rank general := by
    intro general hmem
    rw [hd'] at hmem
    rcases List.mem_append.1 hmem with hmem | hmem
    · exact Nat.le_of_lt (hbefore general hmem)
    · rcases List.mem_cons.1 hmem with rfl | hmem
      · exact Nat.le_refl _
      · exact hafter general hmem
  have hanswers (general : HandlerDescriptor) : mapping.answers (mapping.requestVersion request) general = (mapping.query casing request).isCurrent general :=
    isCurrent_eq.symm
  simp only [HandlerMapping.Open, hanswers]
  cases hcurrent : (mapping.query casing request).isCurrent d' with
  | true =>
    refine .inl ⟨rfl, fun general hmem hrival => Bool.eq_false_iff.2 fun hversion => ?_⟩
    exact absurd (hbefore general hmem) (Nat.not_lt.2 (rank_le_of_rivals hadmits hrival (.inl hversion)))
  | false =>
    have hfallback : isUnversioned d' = true := (admits_iff.1 hadmits).2.2.resolve_left (by simp [hcurrent])
    refine .inr ⟨rfl, hfallback, fun general hmem hmethod hliteral hcovers => Bool.eq_false_iff.2 fun hversion => ?_, fun general hmem hrival => ?_⟩
    · exact absurd (hleast general hmem) (Nat.not_le.2 (rank_lt_of_current hadmits hcurrent hmethod hliteral hcovers hversion))
    · refine Bool.eq_false_iff.2 fun hversion => ?_
      exact absurd (hbefore general hmem) (Nat.not_lt.2 (rank_le_of_rivals hadmits hrival (.inr ⟨hcurrent, hversion⟩)))

structure Fresh (q : Query) (d : HandlerDescriptor) (ds : List HandlerDescriptor) : Prop where
  concrete : q.method = d.route.method.name
  fits : (q.params d).isSome
  covers : ∀ general ∈ ds, (q.params general).isSome → Covers general d ∧ (isLiteral general = true → isLiteral d = true)

theorem exists_fresh (hcasing : ∀ m : HttpMethod, casing.toUpperCase m.name = m.name) (mapping : HandlerMapping) (d : HandlerDescriptor) {version : Option Utf16}
    (hcarries : mapping.Carries version) :
    ∃ request, mapping.requestVersion request = version ∧ Fresh (mapping.query casing request) d mapping.descriptors := by
  obtain ⟨text, hused, htext⟩ := exists_segment (mapping.descriptors.flatMap fun general => fields slash general.route.path)
  obtain ⟨headers, hversion⟩ := hcarries d.route.method.name (pathOf ((segmentsOf d.route.path).map (fill text)))
  have hsegments : (mapping.query casing { method := d.route.method.name, path := pathOf ((segmentsOf d.route.path).map (fill text)), headers }).segments =
      (segmentsOf d.route.path).map (fill text) := fields_fill htext
  refine ⟨_, hversion, hcasing d.route.method, ?_, fun general hmem hfits => ?_⟩
  · rw [Query.params, hsegments]
    exact isSome_matchRoutePath.2 (admits_fill text _)
  · rw [Query.params, hsegments, isSome_matchRoutePath] at hfits
    have hfresh : .literal text ∉ segmentsOf general.route.path := fun hliteral =>
      hused (List.mem_flatMap.2 ⟨general, hmem, literal_mem_segmentsOf hliteral⟩)
    exact ⟨fun incoming hincoming => isSome_matchRoutePath.2 (forall₂_admits_of_fill hfresh hfits (isSome_matchRoutePath.1 hincoming)),
      fun hliteral => isLiteral_of_fill hfresh hliteral hfits⟩

theorem precedence_cases : ∀ lg ld cg cd kg : Bool, (lg = true → ld = true) →
    (((if lg = true then 0 else 4) + if cg = true then 0 else 2) + if kg = true then 0 else 1) ≤ ((if ld = true then 0 else 4) + if cd = true then 0 else 2) + 0 →
    lg = ld ∧ ((cg = cd ∧ kg = true) ∨ (cd = false ∧ cg = true)) := by
  decide

theorem Fresh.of_rank_le {ds : List HandlerDescriptor} (hfresh : Fresh q d ds) (hadmits : q.admits d = true) (hmem : general ∈ ds)
    (hle : q.rank general ≤ q.rank d) :
    (q.rank general = q.rank d ∧ Rivals general d ∧ q.isCurrent general = q.isCurrent d ∧ (q.isCurrent d = false → isUnversioned general = true)) ∨
    (q.isCurrent d = false ∧ q.isCurrent general = true ∧ isLiteral general = isLiteral d ∧ Covers general d ∧
      (general.route.method = d.route.method ∨ general.route.method = .all)) := by
  have hadmits' : q.admits general = true := (Query.rank_lt_iff q general).1 (Nat.lt_of_le_of_lt hle ((Query.rank_lt_iff q d).2 hadmits))
  obtain ⟨hmethod, hfits, hversion⟩ := admits_iff.1 hadmits'
  obtain ⟨hcovers, hkind⟩ := hfresh.covers general hmem hfits
  have hconcrete : q.isConcrete d = true := decide_eq_true hfresh.concrete.symm
  rw [rank_of_admits hadmits, rank_of_admits hadmits', Query.precedence, Query.precedence, if_pos hconcrete] at hle ⊢
  have hsame (h : q.isConcrete general = true) : general.route.method = d.route.method := by
    have hname : general.route.method.name = q.method := of_decide_eq_true h
    exact name_injective (hname.trans hfresh.concrete)
  obtain ⟨hliteral, ⟨hcurrent, hboth⟩ | ⟨hfallback, hcurrent⟩⟩ := precedence_cases _ _ _ _ _ hkind hle
  · refine .inl ⟨?_, ⟨hsame hboth, hliteral, hcovers⟩, hcurrent, fun hfallback => hversion.resolve_left (by simp [hcurrent, hfallback])⟩
    rw [hliteral, hcurrent, if_pos hboth]
  · refine .inr ⟨hfallback, hcurrent, hliteral, hcovers, hmethod.imp hsame of_decide_eq_true⟩

theorem match_of_open (hcasing : ∀ m : HttpMethod, casing.toUpperCase m.name = m.name) (h : createHandlerMapping casing sources options = .ok mapping)
    (hd : mapping.descriptors = before ++ d :: after) {version : Option Utf16} (hcarries : mapping.Carries version)
    (hopen : mapping.Open version before d) : ∃ request found, mapping.matchRequest casing request = some found ∧ found.descriptor = d := by
  obtain ⟨request, rfl, hfresh⟩ := exists_fresh hcasing mapping d hcarries
  have hanswers (general : HandlerDescriptor) : mapping.answers (mapping.requestVersion request) general = (mapping.query casing request).isCurrent general :=
    isCurrent_eq.symm
  simp only [HandlerMapping.Open, hanswers] at hopen
  refine ⟨request, (mapping.query casing request).result d, ?_, rfl⟩
  rw [matchRequest_eq_linearMatch h request, Query.linearMatch, Option.map_eq_some_iff]
  have hadmits : (mapping.query casing request).admits d = true :=
    admits_iff.2 ⟨.inl (decide_eq_true hfresh.concrete.symm), hfresh.fits, hopen.elim (fun h => .inl h.1) fun h => .inr h.2.1⟩
  refine ⟨d, best_eq_some.2 ⟨(Query.rank_lt_iff _ d).2 hadmits, before, after, hd, fun general hmem => ?_, fun general hmem => ?_⟩, rfl⟩
  · have hmem' : general ∈ mapping.descriptors := by
      rw [hd]
      exact List.mem_append_left _ hmem
    refine Nat.lt_of_not_le fun hle => ?_
    rcases hfresh.of_rank_le hadmits hmem' hle with ⟨-, hrival, hsame, hfallback⟩ | ⟨hcurrent, hgeneral, hliteral, hcovers, hmethod⟩
    · rcases hopen with ⟨hcurrent, hnone⟩ | ⟨hcurrent, -, -, hnone⟩
      · exact absurd (hsame.trans hcurrent) (by simp [hnone general hmem hrival])
      · exact absurd (hfallback hcurrent) (by simp [hnone general hmem hrival])
    · rcases hopen with ⟨hcurrent', -⟩ | ⟨-, -, hnone, -⟩
      · exact absurd hcurrent' (by simp [hcurrent])
      · exact absurd hgeneral (by simp [hnone general hmem' hmethod hliteral hcovers])
  · have hmem' : general ∈ mapping.descriptors := by
      rw [hd]
      exact List.mem_append_right _ (List.mem_cons_of_mem _ hmem)
    refine Nat.le_of_not_lt fun hlt => ?_
    rcases hfresh.of_rank_le hadmits hmem' (Nat.le_of_lt hlt) with ⟨heq, -⟩ | ⟨hcurrent, hgeneral, hliteral, hcovers, hmethod⟩
    · exact absurd heq (Nat.ne_of_lt hlt)
    · rcases hopen with ⟨hcurrent', -⟩ | ⟨-, -, hnone, -⟩
      · exact absurd hcurrent' (by simp [hcurrent])
      · exact absurd hgeneral (by simp [hnone general hmem' hmethod hliteral hcovers])

theorem carries_of_not_custom (h : createHandlerMapping casing sources options = .ok mapping) (hcustom : ∀ extractor, options ≠ some (.custom extractor))
    (request : FrameworkRequest) : mapping.Carries (mapping.requestVersion request) := by
  obtain ⟨descriptors, -, h⟩ := bind_eq_ok.1 h
  obtain ⟨index, -, h⟩ := bind_eq_ok.1 h
  cases h
  intro method path
  refine ⟨request.headers, ?_⟩
  cases options with
  | none => rfl
  | some options =>
    cases options with
    | uri => rfl
    | header header => rfl
    | mediaType key => rfl
    | custom extractor => exact absurd rfl (hcustom extractor)

/-- A descriptor is selected where it is open at a version that requests carry, and only there. -/
theorem selectable_iff_open (casing : Casing) (hcasing : ∀ m : HttpMethod, casing.toUpperCase m.name = m.name) (sources : List HandlerSource)
    (options : Option VersioningOptions) (mapping : HandlerMapping) (h : createHandlerMapping casing sources options = .ok mapping)
    (before : List HandlerDescriptor) (d : HandlerDescriptor) (after : List HandlerDescriptor) (hd : mapping.descriptors = before ++ d :: after) :
    (∀ version, mapping.Carries version → mapping.Open version before d →
      ∃ request found, mapping.matchRequest casing request = some found ∧ found.descriptor = d) ∧
    (∀ request found, mapping.matchRequest casing request = some found → found.descriptor = d → mapping.Open (mapping.requestVersion request) before d) ∧
    ((∀ extractor, options ≠ some (.custom extractor)) →
      ((∃ request found, mapping.matchRequest casing request = some found ∧ found.descriptor = d) ↔
        ∃ request, mapping.Open (mapping.requestVersion request) before d)) := by
  refine ⟨fun version => match_of_open hcasing h hd, fun request found => open_of_match h hd, fun hcustom => ⟨?_, ?_⟩⟩
  · rintro ⟨request, found, hmatch, hfound⟩
    exact ⟨request, open_of_match h hd hmatch hfound⟩
  · rintro ⟨request, hopen⟩
    exact match_of_open hcasing h hd (carries_of_not_custom h hcustom request) hopen

end Ranks

theorem open_iff_of_uri {mapping : HandlerMapping} (huri : mapping.versioning.type = .uri) (version : Option Utf16) (before : List HandlerDescriptor)
    (d : HandlerDescriptor) : mapping.Open version before d ↔ ∀ general ∈ before, ¬ Rivals general d := by
  simp [HandlerMapping.Open, HandlerMapping.answers, huri]

theorem forall₂_admits_of_literals
    (h : List.Forall₂ (fun g s => ∀ value, g = .literal value → s = .literal value) general segments) (hincoming : List.Forall₂ Admits segments incoming) :
    List.Forall₂ Admits general incoming := by
  induction h generalizing incoming with
  | nil => exact hincoming
  | cons hfirst _ ih =>
    cases hincoming with | cons hadmits hrest
    exact .cons (fun value hvalue => hadmits value (hfirst value hvalue)) (ih hrest)

/-- The route of `controllerAt "/users"` for a parameter. -/
private def userRoute (name parameter : String) : HandlerDescriptor where
  controllerToken := (controllerAt "/users" [("first", .get, ":id"), ("second", .get, ":slug")]).controllerToken
  metadata := {
    controllerPath := units "/users"
    effectivePath := units "/users/:" ++ units parameter
    effectiveVersion := none
    pathParams := [units parameter] }
  methodName := units name
  route := { method := .get, path := units "/users/:" ++ units parameter, version := none }

private theorem accepted_users : ∃ mapping, createHandlerMapping asciiCasing [controllerAt "/users" [("first", .get, ":id"), ("second", .get, ":slug")]] none = .ok mapping ∧
    mapping.descriptors = [userRoute "first" "id", userRoute "second" "slug"] ∧ mapping.versioning.type = .uri := by
  exact ⟨_, rfl, rfl, rfl⟩

private theorem rivals_users : Rivals (userRoute "first" "id") (userRoute "second" "slug") := by
  refine ⟨rfl, rfl, fun incoming hincoming => ?_⟩
  rw [isSome_matchRoutePath] at hincoming ⊢
  refine forall₂_admits_of_literals ?_ hincoming
  have hfirst : segmentsOf (userRoute "first" "id").route.path = [.literal (units "users"), .param (units "id")] := by decide
  have hsecond : segmentsOf (userRoute "second" "slug").route.path = [.literal (units "users"), .param (units "slug")] := by decide
  rw [hfirst, hsecond]
  exact .cons (fun _ h => h) (.cons (fun _ h => by cases h) .nil)

theorem not_selectable_slug : ∃ mapping d,
    createHandlerMapping asciiCasing [controllerAt "/users" [("first", .get, ":id"), ("second", .get, ":slug")]] none = .ok mapping ∧
    d ∈ mapping.descriptors ∧ ∀ request found, mapping.matchRequest asciiCasing request = some found → found.descriptor ≠ d := by
  obtain ⟨mapping, h, hdescriptors, huri⟩ := accepted_users
  refine ⟨mapping, userRoute "second" "slug", h, by simp [hdescriptors], fun request found hmatch hfound => ?_⟩
  have hd : mapping.descriptors = [userRoute "first" "id"] ++ userRoute "second" "slug" :: [] := hdescriptors
  have hopen := (open_iff_of_uri huri _ _ _).1 (open_of_match h hd hmatch hfound)
  exact hopen _ List.mem_cons_self rivals_users

theorem selectable_iff_open_id : ∃ mapping request found,
    createHandlerMapping asciiCasing [controllerAt "/users" [("first", .get, ":id"), ("second", .get, ":slug")]] none = .ok mapping ∧
    mapping.matchRequest asciiCasing request = some found ∧ found.descriptor.methodName = units "first" := by
  obtain ⟨mapping, h, hdescriptors, huri⟩ := accepted_users
  have hselected := (selectable_iff_open asciiCasing (fun m => by cases m <;> decide) _ none mapping h [] (userRoute "first" "id")
    [userRoute "second" "slug"] hdescriptors).2.2 (fun _ => by simp)
  obtain ⟨request, found, hmatch, hfound⟩ := hselected.2 ⟨{ method := [], path := [], headers := [] },
    (open_iff_of_uri huri _ _ _).2 fun _ hmem => absurd hmem List.not_mem_nil⟩
  exact ⟨mapping, request, found, h, hmatch, hfound ▸ rfl⟩

end Fluo.Http.Mapping
