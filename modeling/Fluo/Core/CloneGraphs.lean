import Mathlib.Data.List.Nodup
import Fluo.Core.CloneRuns
/-!
# Copies of graphs

When the clone of a value is a copy of it.
-/

namespace Fluo.Core.Clone
open Fluo.Lib

variable {P : Type} [DecidableEq P] (graph : ValueGraph P)

/-! ## Each branch -/

section Branches
variable {graph} {node : Node P} {p : Plan P}

theorem plan_cases (h : plan graph node = some p) :
    (∃ w elements, node.content = .array w elements ∧
      p = { start := ⟨.array true [], [], some (graph.prototype .array)⟩,
              items := elements.map fun element => .element element.1, atOnce := true }) ∨
    (∃ time, node.content = .date time ∧ p = { start := ⟨.date time, [], some (graph.prototype .date)⟩ }) ∨
    (∃ source flags lastIndex w, node.content = .regExp source flags lastIndex w ∧
      p = { start := ⟨.regExp source flags lastIndex true, [], some (graph.prototype .regExp)⟩ }) ∨
    (∃ entries, node.content = .map entries ∧
      p = { start := ⟨.map [], [], some (graph.prototype .map)⟩, items := entries.map fun entry => .entry entry.1 entry.2 }) ∨
    (∃ values, node.content = .set values ∧
      p = { start := ⟨.set [], [], some (graph.prototype .set)⟩, items := values.map .member }) ∨
    (∀ b, b ≠ .array → inherits graph node b = false) ∧
      p = { start := ⟨.ordinary, [], node.proto⟩, items := node.properties.map fun property => .property property.1 property.2 } := by
  unfold plan at h
  split at h
  · rename_i w elements hcontent
    cases h
    exact .inl ⟨w, elements, hcontent, rfl⟩
  refine .inr ?_
  split at h
  · split at h
    · rename_i time hcontent
      cases h
      exact .inl ⟨time, hcontent, rfl⟩
    · cases h
  rename_i hdate
  refine .inr ?_
  split at h
  · split at h
    · rename_i source flags lastIndex w hcontent
      cases h
      exact .inl ⟨source, flags, lastIndex, w, hcontent, rfl⟩
    · cases h
  rename_i hregExp
  refine .inr ?_
  split at h
  · split at h
    · rename_i entries hcontent
      cases h
      exact .inl ⟨entries, hcontent, rfl⟩
    · cases h
  rename_i hmap
  refine .inr ?_
  split at h
  · split at h
    · rename_i values hcontent
      cases h
      exact .inl ⟨values, hcontent, rfl⟩
    · cases h
  rename_i hset
  split at h
  · cases h
  rename_i hbuffer
  rw [Bool.or_eq_true, not_or] at hbuffer
  cases h
  refine .inr ⟨fun b hb => ?_, rfl⟩
  cases b with
  | array => exact absurd rfl hb
  | date => exact eq_false_of_ne_true hdate
  | regExp => exact eq_false_of_ne_true hregExp
  | map => exact eq_false_of_ne_true hmap
  | set => exact eq_false_of_ne_true hset
  | dataView => exact eq_false_of_ne_true hbuffer.1
  | arrayBuffer => exact eq_false_of_ne_true hbuffer.2

theorem mem_values_of_plan (h : plan graph node = some p) (hfunction : node.content ≠ .function) {b : Nat} (hb : .object b ∈ p.values) :
    .object b ∈ node.values := by
  rw [Node.values, if_neg hfunction, List.mem_append]
  obtain ⟨item, hitem, hb⟩ := List.mem_flatMap.1 hb
  rcases plan_cases h with ⟨w, elements, hcontent, rfl⟩ | ⟨time, -, rfl⟩ | ⟨source, flags, lastIndex, w, -, rfl⟩ |
    ⟨entries, hcontent, rfl⟩ | ⟨values, hcontent, rfl⟩ | ⟨-, rfl⟩
  · obtain ⟨element, helement, rfl⟩ := List.mem_map.1 hitem
    rw [hcontent]
    exact .inl (List.mem_map.2 ⟨element, helement, (List.mem_singleton.1 hb).symm⟩)
  · cases hitem
  · cases hitem
  · obtain ⟨entry, hentry, rfl⟩ := List.mem_map.1 hitem
    rw [hcontent]
    exact .inl (List.mem_flatMap.2 ⟨entry, hentry, hb⟩)
  · obtain ⟨value, hvalue, rfl⟩ := List.mem_map.1 hitem
    rw [hcontent]
    exact .inl (List.mem_singleton.1 hb ▸ hvalue)
  · obtain ⟨property, hproperty, rfl⟩ := List.mem_map.1 hitem
    have hown : property ∈ node.own := by
      unfold Node.properties at hproperty
      split at hproperty
      · rcases List.mem_cons.1 hproperty with rfl | hown
        · simp [Item.values, Descriptor.values] at hb
        · exact hown
      · exact hproperty
    exact .inr (List.mem_flatMap.2 ⟨property, hown, hb⟩)

/-! What is put into a clone is what it has in the end. -/

variable {own : OrderedMap PropertyKey (Descriptor P)} {proto : Option Nat}

theorem foldl_put_element (w : Bool) (elements : List (Val P × Attributes)) (values : List (Val P)) :
    (values.map Item.element).foldl Node.put ⟨.array w elements, own, proto⟩ =
      ⟨.array w (elements ++ values.map fun value => (value, ({} : Attributes))), own, proto⟩ := by
  induction values generalizing elements with
  | nil => simp
  | cons value rest ih =>
    rw [List.map_cons, List.foldl_cons]
    dsimp only [Node.put]
    rw [ih, List.append_assoc, List.map_cons, List.singleton_append]

theorem foldl_put_entry (map entries : OrderedMap (Val P) (Val P)) :
    (entries.map fun entry => Item.entry entry.1 entry.2).foldl Node.put ⟨.map map, own, proto⟩ =
      ⟨.map (map.setAll entries), own, proto⟩ := by
  induction entries generalizing map with
  | nil => rfl
  | cons entry rest ih => exact ih (map.set entry.1 entry.2)

theorem foldl_put_member {values members : List (Val P)} (h : (values ++ members).Nodup) :
    (members.map Item.member).foldl Node.put ⟨.set values, own, proto⟩ = ⟨.set (values ++ members), own, proto⟩ := by
  induction members generalizing values with
  | nil => simp
  | cons value rest ih =>
    have hnew : value ∉ values := fun hvalue => (List.nodup_append.1 h).2.2 value hvalue value List.mem_cons_self rfl
    rw [List.append_cons] at h
    rw [List.map_cons, List.foldl_cons]
    dsimp only [Node.put]
    rw [if_neg hnew, ih h, List.append_assoc, List.singleton_append]

theorem foldl_put_property (content : Content P) (properties : OrderedMap PropertyKey (Descriptor P)) :
    (properties.map fun property => Item.property property.1 property.2).foldl Node.put ⟨content, own, proto⟩ =
      ⟨content, own.setAll properties, proto⟩ := by
  induction properties generalizing own with
  | nil => rfl
  | cons property rest ih => exact ih

/-! What the clone of each kind of object is in the end. -/

variable {f g : Nat → Nat}

theorem finish_array (elements : List (Val P × Attributes)) (atOnce : Bool) :
    Plan.finish ⟨⟨.array true [], own, proto⟩, elements.map fun element => .element element.1, atOnce⟩ f =
      ⟨.array true (elements.map fun element => (element.1.relocate f, {})), own, proto⟩ := by
  have hitems : (elements.map fun element => Item.element element.1).map (Item.relocate f) =
      (elements.map fun element => element.1.relocate f).map Item.element := by
    rw [List.map_map, List.map_map]
    rfl
  rw [Plan.finish, hitems, foldl_put_element, List.nil_append, List.map_map]
  rfl

theorem finish_map {entries : OrderedMap (Val P) (Val P)} (hkeyed : entries.Keyed)
    (hinj : ∀ entry ∈ entries, ∀ entry' ∈ entries, entry.1.relocate f = entry'.1.relocate f → entry.1 = entry'.1) (atOnce : Bool) :
    Plan.finish ⟨⟨.map [], own, proto⟩, entries.map fun entry => .entry entry.1 entry.2, atOnce⟩ f =
      ⟨.map (entries.map fun entry => (entry.1.relocate f, entry.2.relocate f)), own, proto⟩ := by
  have hitems : (entries.map fun entry => Item.entry entry.1 entry.2).map (Item.relocate f) =
      (entries.map fun entry => (entry.1.relocate f, entry.2.relocate f)).map fun entry => Item.entry entry.1 entry.2 := by
    rw [List.map_map, List.map_map]
    rfl
  have hrelocated : OrderedMap.Keyed (entries.map fun entry => (entry.1.relocate f, entry.2.relocate f)) := by
    have hkeys : (entries.map fun entry => (entry.1.relocate f, entry.2.relocate f)).map Prod.fst = (entries.map Prod.fst).map (Val.relocate f) := by
      rw [List.map_map, List.map_map]
      rfl
    rw [OrderedMap.Keyed, hkeys]
    refine List.Nodup.map_on (fun key hkey key' hkey' heq => ?_) hkeyed
    obtain ⟨entry, hentry, rfl⟩ := List.mem_map.1 hkey
    obtain ⟨entry', hentry', rfl⟩ := List.mem_map.1 hkey'
    exact hinj entry hentry entry' hentry' heq
  rw [Plan.finish, hitems, foldl_put_entry, OrderedMap.setAll_nil hrelocated]

theorem finish_set {values : List (Val P)} (hnodup : values.Nodup)
    (hinj : ∀ value ∈ values, ∀ value' ∈ values, value.relocate f = value'.relocate f → value = value') (atOnce : Bool) :
    Plan.finish ⟨⟨.set [], own, proto⟩, values.map .member, atOnce⟩ f = ⟨.set (values.map (Val.relocate f)), own, proto⟩ := by
  have hitems : (values.map Item.member).map (Item.relocate f) = (values.map (Val.relocate f)).map Item.member := by
    rw [List.map_map, List.map_map]
    rfl
  have hrelocated : (values.map (Val.relocate f)).Nodup := List.Nodup.map_on hinj hnodup
  rw [Plan.finish, hitems]
  exact foldl_put_member hrelocated

theorem finish_setAll (properties : OrderedMap PropertyKey (Descriptor P)) (atOnce : Bool) :
    Plan.finish ⟨⟨.ordinary, [], proto⟩, properties.map fun property => .property property.1 property.2, atOnce⟩ f =
      ⟨.ordinary, OrderedMap.setAll [] (properties.map fun property => (property.1, property.2.relocate f)), proto⟩ := by
  have hitems : (properties.map fun property => Item.property property.1 property.2).map (Item.relocate f) =
      (properties.map fun property => (property.1, property.2.relocate f)).map fun property => Item.property property.1 property.2 := by
    rw [List.map_map, List.map_map]
    rfl
  rw [Plan.finish, hitems, foldl_put_property]

theorem finish_properties {properties : OrderedMap PropertyKey (Descriptor P)} (hkeyed : properties.Keyed) (atOnce : Bool) :
    Plan.finish ⟨⟨.ordinary, [], proto⟩, properties.map fun property => .property property.1 property.2, atOnce⟩ f =
      ⟨.ordinary, properties.map fun property => (property.1, property.2.relocate f), proto⟩ := by
  have hrelocated : OrderedMap.Keyed (properties.map fun property => (property.1, property.2.relocate f)) := by
    have hkeys : (properties.map fun property => (property.1, property.2.relocate f)).map Prod.fst = properties.map Prod.fst := by
      rw [List.map_map]
      rfl
    rw [OrderedMap.Keyed, hkeys]
    exact hkeyed
  rw [finish_setAll, OrderedMap.setAll_nil hrelocated]

/-! ## Plain objects -/

theorem inherits_builtin (content : Content P) (own : OrderedMap PropertyKey (Descriptor P)) (b b' : Builtin) :
    inherits graph ⟨content, own, some (graph.prototype b)⟩ b' = decide (b = b') := by
  by_cases hb : b = b'
  · rw [inherits, decide_eq_true hb, hb, hasPrototype, decide_eq_true rfl, Bool.true_or]
  · rw [inherits, decide_eq_false hb]
    exact eq_false_of_ne_true fun h => hb (graph.apart b b' h)

theorem exists_plan (hnode : node ∈ graph.nodes) (hfunction : node.content ≠ .function) (hplain : Plain graph node) :
    ∃ p, plan graph node = some p ∧ (∀ value ∈ node.values, value ∈ p.values) ∧
      ∀ f : Nat → Nat, (∀ v ∈ p.values, ∀ w ∈ p.values, v.relocate f = w.relocate f → v = w) → p.finish f = node.relocate f := by
  obtain ⟨content, own, proto⟩ := node
  obtain ⟨hown, hcontent⟩ := graph.keyed _ hnode
  cases content with
  | function => exact absurd rfl hfunction
  | array w elements =>
    obtain ⟨rfl, rfl, rfl, hattributes⟩ := hplain
    refine ⟨_, rfl, fun value hvalue => ?_, fun f _ => ?_⟩
    · simpa [Node.values, Content.values, Plan.values, Item.values, List.flatMap_map] using hvalue
    · rw [finish_array]
      have helements : (elements.map fun element => (element.1.relocate f, ({} : Attributes))) =
          elements.map fun element => (element.1.relocate f, element.2) :=
        List.map_congr_left fun element helement => by rw [hattributes element helement]
      rw [helements]
      rfl
  | date time =>
    obtain ⟨rfl, rfl⟩ := hplain
    refine ⟨{ start := ⟨.date time, [], some (graph.prototype .date)⟩ }, ?_, fun value hvalue => ?_, fun f _ => rfl⟩
    · simp [plan, inherits_builtin]
    · simp [Node.values, Content.values] at hvalue
  | regExp source flags lastIndex w =>
    obtain ⟨rfl, rfl, rfl⟩ := hplain
    refine ⟨{ start := ⟨.regExp source flags lastIndex true, [], some (graph.prototype .regExp)⟩ }, ?_, fun value hvalue => ?_,
      fun f _ => rfl⟩
    · simp [plan, inherits_builtin]
    · simp [Node.values, Content.values] at hvalue
  | map entries =>
    obtain ⟨rfl, rfl⟩ := hplain
    refine ⟨⟨⟨.map [], [], some (graph.prototype .map)⟩, entries.map fun entry => .entry entry.1 entry.2, false⟩, ?_,
      fun value hvalue => ?_, fun f hinj => ?_⟩
    · simp [plan, inherits_builtin]
    · simpa [Node.values, Content.values, Plan.values, Item.values, List.flatMap_map] using hvalue
    · have hmem entry (hentry : entry ∈ entries) :
          entry.1 ∈ Plan.values ⟨⟨.map [], [], some (graph.prototype .map)⟩, entries.map fun entry => .entry entry.1 entry.2, false⟩ :=
        List.mem_flatMap.2 ⟨_, List.mem_map_of_mem hentry, List.mem_cons_self⟩
      exact finish_map hcontent (fun entry hentry entry' hentry' heq => hinj _ (hmem entry hentry) _ (hmem entry' hentry') heq) false
  | set values =>
    obtain ⟨rfl, rfl⟩ := hplain
    refine ⟨⟨⟨.set [], [], some (graph.prototype .set)⟩, values.map .member, false⟩, ?_, fun value hvalue => ?_, fun f hinj => ?_⟩
    · simp [plan, inherits_builtin]
    · simpa [Node.values, Content.values, Plan.values, Item.values, List.flatMap_map] using hvalue
    · have hmem value (hvalue : value ∈ values) :
          value ∈ Plan.values ⟨⟨.set [], [], some (graph.prototype .set)⟩, values.map .member, false⟩ :=
        List.mem_flatMap.2 ⟨_, List.mem_map_of_mem hvalue, List.mem_cons_self⟩
      exact finish_set hcontent (fun value hvalue value' hvalue' heq => hinj _ (hmem value hvalue) _ (hmem value' hvalue') heq) false
  | ordinary =>
    have hnone (b : Builtin) (hb : b ≠ .array) : inherits graph ⟨.ordinary, own, proto⟩ b = false := hplain b hb
    refine ⟨⟨⟨.ordinary, [], proto⟩, own.map fun property => .property property.1 property.2, false⟩, ?_, fun value hvalue => ?_,
      fun f _ => finish_properties hown false⟩
    · simp [plan, hnone, Node.properties]
    · simpa [Node.values, Content.values, Plan.values, Item.values, List.flatMap_map] using hvalue

omit [DecidableEq P] in
theorem eq_of_relocate_object {b : Nat} (h : (Val.object b : Val P).relocate g = (Val.object b).relocate f) : g b = f b := Val.object.inj h

theorem plain_of_finish (hnode : node ∈ graph.nodes) (hfunction : node.content ≠ .function) (hplan : plan graph node = some p)
    (hinj : ∀ v ∈ p.values, ∀ w ∈ p.values, v.relocate g = w.relocate g → v = w) (h : p.finish g = node.relocate f) :
    Plain graph node ∧ ∀ b, .object b ∈ node.values → .object b ∈ p.values ∧ g b = f b := by
  obtain ⟨content, own, proto⟩ := node
  obtain ⟨hown, hcontent⟩ := graph.keyed _ hnode
  dsimp only at hfunction hown hcontent
  rcases plan_cases hplan with ⟨w, elements, hkind, rfl⟩ | ⟨time, hkind, rfl⟩ | ⟨source, flags, lastIndex, w, hkind, rfl⟩ |
    ⟨entries, hkind, rfl⟩ | ⟨values, hkind, rfl⟩ | ⟨hnone, rfl⟩
  · cases hkind
    rw [finish_array] at h
    injection h with hcontents howns hprotos
    injection hcontents with hwritable helements
    have howns : own = [] := List.map_eq_nil_iff.1 howns.symm
    subst howns
    rw [List.map_inj_left] at helements
    refine ⟨⟨rfl, hprotos.symm, hwritable.symm, fun element helement => (Prod.mk.inj (helements element helement)).2.symm⟩, fun b hb => ?_⟩
    simp only [Node.values, Content.values, reduceCtorEq, if_false, List.flatMap_nil, List.append_nil] at hb
    obtain ⟨⟨value, attributes⟩, helement, rfl⟩ := List.mem_map.1 hb
    refine ⟨List.mem_flatMap.2 ⟨_, List.mem_map_of_mem helement, List.mem_cons_self⟩, ?_⟩
    exact eq_of_relocate_object (Prod.mk.inj (helements _ helement)).1
  · cases hkind
    injection h with hcontents howns hprotos
    have howns : own = [] := List.map_eq_nil_iff.1 howns.symm
    subst howns
    exact ⟨⟨rfl, hprotos.symm⟩, fun b hb => by simp [Node.values, Content.values] at hb⟩
  · cases hkind
    injection h with hcontents howns hprotos
    have howns : own = [] := List.map_eq_nil_iff.1 howns.symm
    subst howns
    injection hcontents with _ _ _ hwritable
    exact ⟨⟨rfl, hprotos.symm, hwritable.symm⟩, fun b hb => by simp [Node.values, Content.values] at hb⟩
  · cases hkind
    have hmem entry (hentry : entry ∈ entries) : ∀ value ∈ [entry.1, entry.2],
        value ∈ Plan.values ⟨⟨.map [], [], some (graph.prototype .map)⟩, entries.map fun entry => .entry entry.1 entry.2, false⟩ :=
      fun value hvalue => List.mem_flatMap.2 ⟨_, List.mem_map_of_mem hentry, hvalue⟩
    rw [finish_map hcontent fun entry hentry entry' hentry' heq =>
      hinj _ (hmem entry hentry _ List.mem_cons_self) _ (hmem entry' hentry' _ List.mem_cons_self) heq] at h
    injection h with hcontents howns hprotos
    injection hcontents with hentries
    have howns : own = [] := List.map_eq_nil_iff.1 howns.symm
    subst howns
    rw [List.map_inj_left] at hentries
    refine ⟨⟨rfl, hprotos.symm⟩, fun b hb => ?_⟩
    simp only [Node.values, Content.values, reduceCtorEq, if_false, List.flatMap_nil, List.append_nil] at hb
    obtain ⟨⟨key, value⟩, hentry, hb⟩ := List.mem_flatMap.1 hb
    refine ⟨hmem _ hentry _ hb, ?_⟩
    obtain ⟨hkeys, hvalues⟩ := Prod.mk.inj (hentries _ hentry)
    rcases List.mem_pair.1 hb with rfl | rfl
    · exact eq_of_relocate_object hkeys
    · exact eq_of_relocate_object hvalues
  · cases hkind
    have hmem value (hvalue : value ∈ values) :
        value ∈ Plan.values ⟨⟨.set [], [], some (graph.prototype .set)⟩, values.map .member, false⟩ :=
      List.mem_flatMap.2 ⟨_, List.mem_map_of_mem hvalue, List.mem_cons_self⟩
    rw [finish_set hcontent fun value hvalue value' hvalue' heq => hinj _ (hmem value hvalue) _ (hmem value' hvalue') heq] at h
    injection h with hcontents howns hprotos
    injection hcontents with hvalues
    have howns : own = [] := List.map_eq_nil_iff.1 howns.symm
    subst howns
    rw [List.map_inj_left] at hvalues
    refine ⟨⟨rfl, hprotos.symm⟩, fun b hb => ?_⟩
    simp only [Node.values, Content.values, reduceCtorEq, if_false, List.flatMap_nil, List.append_nil] at hb
    exact ⟨hmem _ hb, eq_of_relocate_object (hvalues _ hb)⟩
  · -- what is copied property by property is an ordinary object, so it had to be one
    have hordinary : content = .ordinary := by
      rw [finish_setAll] at h
      injection h with hcontents
      cases content with
      | ordinary => rfl
      | function | array | date | regExp | map | set => cases hcontents
    subst hordinary
    dsimp only [Node.properties] at h hinj ⊢
    rw [finish_properties hown] at h
    injection h with _ howns
    rw [List.map_inj_left] at howns
    refine ⟨hnone, fun b hb => ?_⟩
    simp only [Node.values, Content.values, reduceCtorEq, if_false, List.nil_append] at hb
    obtain ⟨⟨key, descriptor⟩, hproperty, hb⟩ := List.mem_flatMap.1 hb
    refine ⟨List.mem_flatMap.2 ⟨_, List.mem_map_of_mem hproperty, hb⟩, ?_⟩
    have hdescriptor : descriptor.relocate g = descriptor.relocate f := (Prod.mk.inj (howns _ hproperty)).2
    cases descriptor with
    | data value attributes =>
      obtain rfl := List.mem_singleton.1 hb
      injection hdescriptor with hvalue
      exact eq_of_relocate_object hvalue
    | accessor => cases hb

end Branches

/-! ## Whole graphs -/

section Whole
variable {graph} {s s' : Copy P} {value : Val P}

variable {a : Nat}

theorem Reaches.rec_on {motive : Nat → Prop} (hroot : ∀ a, value = .object a → motive a)
    (hstep : ∀ a b, Reaches graph value a → motive a → Points graph a b → motive b) (h : Reaches graph value a) : motive a := by
  obtain ⟨c, rfl, hchain⟩ := h
  induction hchain with
  | refl => exact hroot c rfl
  | tail hfirst hpoints ih => exact hstep _ _ ⟨c, rfl, hfirst⟩ ih hpoints

theorem Clonable.child {b : Nat} (h : Clonable graph (.object a)) (hpoints : Points graph a b) : Clonable graph (.object b) := by
  rintro c ⟨_, heq, hchain⟩
  cases heq
  exact h c ⟨a, rfl, .head hpoints hchain⟩

theorem ready_cloneFallbackValue (depth : Nat) (h : Clonable graph value) : Ready graph (cloneFallbackValue graph depth) depth value := by
  induction depth generalizing value with
  | zero =>
    intro s _ hlt
    omega
  | succ depth ih =>
    intro s hs hlt
    cases value with
    | primitive value => exact ⟨_, rfl⟩
    | object a =>
      obtain ⟨node, hnode, hplan⟩ := h a ⟨a, rfl, .refl⟩
      unfold cloneFallbackValue
      rw [hnode]
      dsimp only
      by_cases hfunction : node.content = .function
      · exact ⟨_, if_pos hfunction⟩
      rw [if_neg hfunction]
      cases hseen : s.seen.get a with
      | some place => exact ⟨_, rfl⟩
      | none =>
        obtain ⟨p, hp⟩ := Option.isSome_iff_exists.1 (hplan.resolve_left hfunction)
        rw [hp]
        dsimp only
        have hready : ∀ value ∈ p.values, Ready graph (cloneFallbackValue graph depth) depth value := by
          intro value hvalue
          cases value with
          | primitive value =>
            refine ih ?_
            rintro b ⟨_, heq, -⟩
            cases heq
          | object b => exact ih (h.child ⟨node, hnode, mem_values_of_plan hp hfunction hvalue⟩)
        have hless := unseen_register hnode hseen p.start
        have hregistered := hs.register hnode hfunction p.start
        obtain ⟨s', hs'⟩ : ∃ s', fill (cloneFallbackValue graph depth) s.clones.length p (s.register a p.start) = some s' :=
          exists_fill (clones_cloneFallbackValue depth) hready hregistered (by omega)
        exact ⟨_, Option.map_eq_some_iff.2 ⟨s', hs', rfl⟩⟩

theorem sound_nil : Sound graph {} := ⟨nofun, nofun⟩

theorem exists_clone (h : Clonable graph value) (extra : Nat) :
    ∃ cloned, cloneFallbackValue graph (graph.nodes.length + 1 + extra) value {} = some cloned := by
  refine ready_cloneFallbackValue _ h {} sound_nil ?_
  have hle : unseen graph {} ≤ (List.range graph.nodes.length).length := List.countP_le_length
  rw [List.length_range] at hle
  omega

theorem image_injective (hs : Sound graph s) {b : Nat} (ha : Known graph s (.object a)) (hb : Known graph s (.object b))
    (heq : image graph s a = image graph s b) : a = b := by
  obtain ⟨node, hnode, hkind⟩ := ha a rfl
  obtain ⟨node', hnode', hkind'⟩ := hb b rfl
  have hlt : a < graph.nodes.length := (List.getElem?_eq_some_iff.1 hnode).1
  have hlt' : b < graph.nodes.length := (List.getElem?_eq_some_iff.1 hnode').1
  rcases hkind with hfunction | hsome <;> rcases hkind' with hfunction' | hsome'
  · rwa [image_of_function hs hnode hfunction, image_of_function hs hnode' hfunction'] at heq
  · obtain ⟨j, hj⟩ := Option.isSome_iff_exists.1 hsome'
    rw [image_of_function hs hnode hfunction, image_of_seen hj] at heq
    omega
  · obtain ⟨i, hi⟩ := Option.isSome_iff_exists.1 hsome
    rw [image_of_function hs hnode' hfunction', image_of_seen hi] at heq
    omega
  · obtain ⟨i, hi⟩ := Option.isSome_iff_exists.1 hsome
    obtain ⟨j, hj⟩ := Option.isSome_iff_exists.1 hsome'
    rw [image_of_seen hi, image_of_seen hj] at heq
    have hij : i = j := by omega
    exact hs.injective a b i hi (hij ▸ hj)

theorem relocate_injective (hs : Sound graph s) {v w : Val P} (hv : Known graph s v) (hw : Known graph s w)
    (heq : v.relocate (image graph s) = w.relocate (image graph s)) : v = w := by
  cases v with
  | primitive v =>
    cases w with
    | primitive w => exact heq
    | object b => cases heq
  | object a =>
    cases w with
    | primitive w => cases heq
    | object b =>
      injection heq with heq
      exact congrArg Val.object (image_injective hs hv hw heq)

theorem complete_of_run (h : Ran graph none {} s) {node : Node P} (hnode : graph.nodes[a]? = some node)
    (hfunction : node.content ≠ .function) (hknown : Known graph s (.object a)) : ∃ i p, s.seen.get a = some i ∧ plan graph node = some p ∧
      s.clones[i]? = some (p.finish (image graph s)) ∧ ∀ value ∈ p.values, Known graph s value := by
  obtain ⟨node', hnode', hkind⟩ := hknown a rfl
  obtain rfl : node = node' := Option.some.inj (hnode.symm.trans hnode')
  obtain ⟨i, hi⟩ := Option.isSome_iff_exists.1 (hkind.resolve_left hfunction)
  rcases h.complete a i hi with hold | ⟨node'', p, hnode'', -, hplan, hclone, hvalues⟩
  · cases hold
  · obtain rfl : node = node'' := Option.some.inj (hnode.symm.trans hnode'')
    exact ⟨i, p, hi, hplan, hclone, hvalues⟩

theorem mem_nodes {node : Node P} (h : graph.nodes[a]? = some node) : node ∈ graph.nodes := List.mem_of_getElem? h

def AllPlain (graph : ValueGraph P) (value : Val P) : Prop :=
  ∀ a, Reaches graph value a → ∃ node, graph.nodes[a]? = some node ∧ Plain graph node

theorem AllPlain.clonable (h : AllPlain graph value) : Clonable graph value := by
  intro a ha
  obtain ⟨node, hnode, hplain⟩ := h a ha
  by_cases hfunction : node.content = .function
  · exact ⟨node, hnode, .inl hfunction⟩
  · obtain ⟨p, hp, -, -⟩ := exists_plan (mem_nodes hnode) hfunction hplain
    exact ⟨node, hnode, .inr (hp ▸ rfl)⟩

theorem AllPlain.isCopy (h : AllPlain graph value) (hran : Ran graph none {} s) (hvalue : Known graph s value) :
    IsCopy graph value (value.relocate (image graph s), s.clones) := by
  have hknown a (ha : Reaches graph value a) : Known graph s (.object a) := by
    refine ha.rec_on (fun a heq => heq ▸ hvalue) fun b c hb ih hpoints => ?_
    obtain ⟨node, hnode, hc⟩ := hpoints
    obtain ⟨node', hnode', hplain⟩ := h b hb
    obtain rfl : node = node' := Option.some.inj (hnode.symm.trans hnode')
    by_cases hfunction : node.content = .function
    · rw [Node.values, if_pos hfunction] at hc
      cases hc
    · obtain ⟨_, p, -, hp, -, hvalues⟩ := complete_of_run hran hnode hfunction ih
      obtain ⟨p', hp', hmem, -⟩ := exists_plan (mem_nodes hnode) hfunction hplain
      obtain rfl : p = p' := Option.some.inj (hp.symm.trans hp')
      exact hvalues _ (hmem _ hc)
  refine ⟨image graph s, rfl, fun a b ha hb heq => image_injective hran.sound (hknown a ha) (hknown b hb) heq, fun a ha => ?_⟩
  obtain ⟨node, hnode, hplain⟩ := h a ha
  refine ⟨node, hnode, ?_⟩
  split
  · rename_i hfunction
    exact image_of_function hran.sound hnode hfunction
  · rename_i hfunction
    obtain ⟨i, p, hi, hp, hclone, hvalues⟩ := complete_of_run hran hnode hfunction (hknown a ha)
    obtain ⟨p', hp', -, hfinish⟩ := exists_plan (mem_nodes hnode) hfunction hplain
    obtain rfl : p = p' := Option.some.inj (hp.symm.trans hp')
    have hinj v (hv : v ∈ p.values) w (hw : w ∈ p.values) (heq : v.relocate (image graph s) = w.relocate (image graph s)) : v = w :=
      relocate_injective hran.sound (hvalues v hv) (hvalues w hw) heq
    rw [image_of_seen hi, Nat.add_sub_cancel_left, hclone, hfinish _ hinj]
    exact ⟨Nat.le_add_right _ _, rfl⟩

theorem allPlain_of_isCopy (hran : Ran graph none {} s) (hvalue : Known graph s value)
    (h : IsCopy graph value (value.relocate (image graph s), s.clones)) : AllPlain graph value := by
  obtain ⟨f, hroot, -, hnodes⟩ := h
  have hlocal a (ha : Reaches graph value a) (hknown : Known graph s (.object a)) (heq : image graph s a = f a) :
      ∃ node, graph.nodes[a]? = some node ∧ Plain graph node ∧
        ∀ b, .object b ∈ node.values → Known graph s (.object b) ∧ image graph s b = f b := by
    obtain ⟨node, hnode, hkind⟩ := hnodes a ha
    refine ⟨node, hnode, ?_⟩
    split at hkind
    · rename_i hfunction
      rw [Plain, Node.values, hfunction, if_pos rfl]
      exact ⟨trivial, nofun⟩
    · rename_i hfunction
      obtain ⟨i, p, hi, hp, hclone, hvalues⟩ := complete_of_run hran hnode hfunction hknown
      have hinj v (hv : v ∈ p.values) w (hw : w ∈ p.values) (heq : v.relocate (image graph s) = w.relocate (image graph s)) : v = w :=
        relocate_injective hran.sound (hvalues v hv) (hvalues w hw) heq
      rw [← heq, image_of_seen hi, Nat.add_sub_cancel_left, hclone, Option.some.injEq] at hkind
      obtain ⟨hplain, hsame⟩ := plain_of_finish (mem_nodes hnode) hfunction hp hinj hkind.2
      exact ⟨hplain, fun b hb => ⟨hvalues _ (hsame b hb).1, (hsame b hb).2⟩⟩
  -- the copy is said to have a clone where the run has put it
  have hplaces a (ha : Reaches graph value a) : Known graph s (.object a) ∧ image graph s a = f a := by
    refine Reaches.rec_on (motive := fun a => Known graph s (.object a) ∧ image graph s a = f a) (fun a heq => ?_) (fun b c hb ih hpoints => ?_) ha
    · rw [heq] at hvalue hroot
      exact ⟨hvalue, eq_of_relocate_object hroot⟩
    · obtain ⟨node, hnode, hc⟩ := hpoints
      obtain ⟨node', hnode', -, hsame⟩ := hlocal b hb ih.1 ih.2
      obtain rfl : node = node' := Option.some.inj (hnode.symm.trans hnode')
      exact hsame c hc
  intro a ha
  obtain ⟨node, hnode, hplain, -⟩ := hlocal a ha (hplaces a ha).1 (hplaces a ha).2
  exact ⟨node, hnode, hplain⟩

end Whole

/-- The clone is a copy exactly when all that the value leads to is plain. Each clone is registered before anything is put into it, so that the
calls end where the value leads back to itself. -/
theorem fallbackClone_isCopy_iff (graph : ValueGraph P) (value : Val P) (extra : Nat) :
    (∃ cloned, fallbackClone graph (graph.nodes.length + 1 + extra) value = some cloned ∧ IsCopy graph value cloned) ↔
      ∀ a, Reaches graph value a → ∃ node, graph.nodes[a]? = some node ∧ Plain graph node := by
  constructor
  · rintro ⟨_, hclone, hcopy⟩
    obtain ⟨⟨value', s⟩, hrun, rfl⟩ := Option.map_eq_some_iff.1 hclone
    obtain ⟨hran, rfl, hknown⟩ := clones_cloneFallbackValue _ value {} value' s sound_nil hrun
    exact allPlain_of_isCopy hran hknown hcopy
  · intro hplain
    obtain ⟨⟨value', s⟩, hrun⟩ := exists_clone (AllPlain.clonable hplain) extra
    obtain ⟨hran, rfl, hknown⟩ := clones_cloneFallbackValue _ value {} value' s sound_nil hrun
    exact ⟨_, Option.map_eq_some_iff.2 ⟨_, hrun, rfl⟩, AllPlain.isCopy hplain hran hknown⟩

/-- The prototypes of the built-in classes and of all objects, the prototype of a class that extends `Map`, an instance of it, and a frozen array. -/
def registryNodes : List (Node Nat) :=
  List.replicate 7 { proto := some 7 } ++
    [{ proto := none }, { proto := some 3 }, { content := .map [(.primitive 0, .primitive 1)], proto := some 8 },
      { content := .array false [(.primitive 0, ⟨false, true, false⟩)], proto := some 0 }]

def registryGraph : ValueGraph Nat where
  nodes := registryNodes
  prototype
    | .array => 0
    | .date => 1
    | .regExp => 2
    | .map => 3
    | .set => 4
    | .dataView => 5
    | .arrayBuffer => 6
  keyed := by simp [registryNodes, List.replicate, OrderedMap.Keyed, Content.Keyed]
  apart b b' := by cases b <;> cases b' <;> decide

/-- The clone of the instance is a mere map, and the clone of the frozen array can be changed. -/
theorem fallbackClone_registry :
    (∃ cloned, fallbackClone registryGraph 12 (.object 9) = some cloned ∧ ¬IsCopy registryGraph (.object 9) cloned) ∧
      ∃ cloned, fallbackClone registryGraph 12 (.object 10) = some cloned ∧ ¬IsCopy registryGraph (.object 10) cloned := by
  refine ⟨⟨(.object 11, [⟨.map [(.primitive 0, .primitive 1)], [], some 3⟩]), by decide, ?_⟩,
    ⟨(.object 11, [⟨.array true [(.primitive 0, {})], [], some 0⟩]), by decide, ?_⟩⟩
  · rintro ⟨f, hroot, -, h⟩
    injection hroot with hplace
    obtain ⟨node, hnode, hclone⟩ := h 9 ⟨9, rfl, .refl⟩
    cases hnode
    rw [← hplace] at hclone
    simp [registryGraph, registryNodes, Node.relocate] at hclone
  · rintro ⟨f, hroot, -, h⟩
    injection hroot with hplace
    obtain ⟨node, hnode, hclone⟩ := h 10 ⟨10, rfl, .refl⟩
    cases hnode
    rw [← hplace] at hclone
    simp [registryGraph, registryNodes, Node.relocate, Content.relocate] at hclone

end Fluo.Core.Clone
