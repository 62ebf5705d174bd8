import Mathlib.Order.Nat
import Fluo.Core.FallbackClone
/-!
# Runs of the deep copy

Every clone is registered before it is filled, and filled with the clones of what the object has.
-/

namespace Fluo.Core.Clone
open Fluo.Lib

variable {P : Type} [DecidableEq P] (graph : ValueGraph P)

/-! ## The items of a plan -/

def Item.relocate (f : Nat → Nat) : Item P → Item P
  | .element value => .element (value.relocate f)
  | .entry key value => .entry (key.relocate f) (value.relocate f)
  | .member value => .member (value.relocate f)
  | .property key descriptor => .property key (descriptor.relocate f)

def Item.values : Item P → List (Val P)
  | .element value | .member value => [value]
  | .entry key value => [key, value]
  | .property _ descriptor => descriptor.values

def Plan.finish (p : Plan P) (f : Nat → Nat) : Node P := (p.items.map (Item.relocate f)).foldl Node.put p.start

def Plan.values (p : Plan P) : List (Val P) := p.items.flatMap Item.values

section Items
variable {f g : Nat → Nat}

omit [DecidableEq P] in
theorem Val.relocate_congr {value : Val P} (h : ∀ a, value = .object a → f a = g a) : value.relocate f = value.relocate g := by
  cases value with
  | primitive => rfl
  | object a => exact congrArg Val.object (h a rfl)

omit [DecidableEq P] in
theorem Descriptor.relocate_congr {descriptor : Descriptor P} (h : ∀ a, .object a ∈ descriptor.values → f a = g a) :
    descriptor.relocate f = descriptor.relocate g := by
  cases descriptor with
  | data value attributes =>
    exact congrArg (Descriptor.data · attributes) (Val.relocate_congr fun a ha => h a (List.mem_singleton.2 ha.symm))
  | accessor => rfl

omit [DecidableEq P] in
theorem Item.relocate_congr {item : Item P} (h : ∀ a, .object a ∈ item.values → f a = g a) : item.relocate f = item.relocate g := by
  cases item with
  | element value => exact congrArg _ (Val.relocate_congr fun a ha => h a (List.mem_singleton.2 ha.symm))
  | member value => exact congrArg _ (Val.relocate_congr fun a ha => h a (List.mem_singleton.2 ha.symm))
  | entry key value =>
    have hkey : key.relocate f = key.relocate g := Val.relocate_congr fun a ha => h a (ha ▸ List.mem_cons_self)
    have hvalue : value.relocate f = value.relocate g :=
      Val.relocate_congr fun a ha => h a (ha ▸ List.mem_cons_of_mem key List.mem_cons_self)
    rw [Item.relocate, Item.relocate, hkey, hvalue]
  | property key descriptor => exact congrArg _ (Descriptor.relocate_congr h)

omit [DecidableEq P] in
theorem items_congr {items : List (Item P)} (h : ∀ a, .object a ∈ items.flatMap Item.values → f a = g a) :
    items.map (Item.relocate f) = items.map (Item.relocate g) :=
  List.map_congr_left fun item hitem => Item.relocate_congr fun a ha => h a (List.mem_flatMap.2 ⟨item, hitem, ha⟩)

end Items

/-! ## What a run leaves -/

def image (s : Copy P) (a : Nat) : Nat := (s.seen.get a).elim a (graph.nodes.length + ·)

structure Sound (s : Copy P) : Prop where
  sources : ∀ a i, s.seen.get a = some i → i < s.clones.length ∧ ∃ node, graph.nodes[a]? = some node ∧ node.content ≠ .function
  injective : ∀ a b i, s.seen.get a = some i → s.seen.get b = some i → a = b

def Known (s : Copy P) (value : Val P) : Prop :=
  ∀ a, value = .object a → ∃ node, graph.nodes[a]? = some node ∧ (node.content = .function ∨ (s.seen.get a).isSome)

def Complete (s : Copy P) (a i : Nat) : Prop :=
  ∃ node p, graph.nodes[a]? = some node ∧ node.content ≠ .function ∧ plan graph node = some p ∧
    s.clones[i]? = some (p.finish (image graph s)) ∧
    ∀ value ∈ p.values, Known graph s value

/-- Nothing is forgotten, no clone is changed but for one, and every new one is complete. -/
structure Ran (except : Option Nat) (s s' : Copy P) : Prop where
  sound : Sound graph s'
  seen : ∀ a i, s.seen.get a = some i → s'.seen.get a = some i
  length : s.clones.length ≤ s'.clones.length
  clones : ∀ i < s.clones.length, some i ≠ except → s'.clones[i]? = s.clones[i]?
  complete : ∀ a i, s'.seen.get a = some i → s.seen.get a = some i ∨ Complete graph s' a i

section Running
variable {graph} {except : Option Nat} {s s' s'' : Copy P} {value : Val P} {place : Nat}

theorem Ran.refl (h : Sound graph s) : Ran graph except s s := ⟨h, fun _ _ h => h, le_rfl, fun _ _ _ => rfl, fun _ _ h => .inl h⟩

theorem Ran.weaken (h : Ran graph none s s') : Ran graph except s s' :=
  ⟨h.sound, h.seen, h.length, fun i hi _ => h.clones i hi (by simp), h.complete⟩

theorem Known.mono (h : Known graph s value) (hseen : ∀ a i, s.seen.get a = some i → s'.seen.get a = some i) : Known graph s' value := by
  intro a ha
  obtain ⟨node, hnode, hknown⟩ := h a ha
  refine ⟨node, hnode, hknown.imp_right fun hsome => ?_⟩
  obtain ⟨i, hi⟩ := Option.isSome_iff_exists.1 hsome
  exact Option.isSome_iff_exists.2 ⟨i, hseen a i hi⟩

variable {a : Nat} {node : Node P}

theorem image_of_seen {i : Nat} (h : s.seen.get a = some i) : image graph s a = graph.nodes.length + i := by rw [image, h, Option.elim_some]

theorem image_of_function (h : Sound graph s) (hnode : graph.nodes[a]? = some node) (hfunction : node.content = .function) :
    image graph s a = a := by
  rw [image]
  cases hseen : s.seen.get a with
  | none => rfl
  | some i =>
    obtain ⟨-, node', hnode', hne⟩ := h.sources a i hseen
    rw [hnode, Option.some.injEq] at hnode'
    subst hnode'
    exact absurd hfunction hne

theorem image_eq (hknown : Known graph s (.object a)) (hsound : Sound graph s')
    (hseen : ∀ a i, s.seen.get a = some i → s'.seen.get a = some i) : image graph s a = image graph s' a := by
  cases hget : s.seen.get a with
  | some i => rw [image_of_seen hget, image_of_seen (hseen a i hget)]
  | none =>
    obtain ⟨node, hnode, hfunction | hsome⟩ := hknown a rfl
    · rw [image_of_function hsound hnode hfunction, image, hget, Option.elim_none]
    · rw [hget] at hsome
      cases hsome

theorem Complete.mono {i : Nat} (h : Complete graph s a i) (hsound : Sound graph s')
    (hseen : ∀ a i, s.seen.get a = some i → s'.seen.get a = some i) (hclone : s'.clones[i]? = s.clones[i]?) : Complete graph s' a i := by
  obtain ⟨node, p, hnode, hfunction, hplan, hi, hvalues⟩ := h
  refine ⟨node, p, hnode, hfunction, hplan, ?_, fun value hvalue => (hvalues value hvalue).mono hseen⟩
  have hitems : p.items.map (Item.relocate (image graph s)) = p.items.map (Item.relocate (image graph s')) :=
    items_congr fun b hb => image_eq (hvalues _ hb) hsound hseen
  rw [hclone, hi, Plan.finish, Plan.finish, hitems]

theorem Ran.trans (h : Ran graph except s s') (h' : Ran graph except s' s'')
    (hexcept : ∀ place, except = some place → ∃ a, s.seen.get a = some place) :
    Ran graph except s s'' := by
  refine ⟨h'.sound, fun a i hi => h'.seen a i (h.seen a i hi), h.length.trans h'.length, fun i hi hne => ?_, fun a i hi => ?_⟩
  · rw [h'.clones i (hi.trans_le h.length) hne, h.clones i hi hne]
  · rcases h'.complete a i hi with hi | hcomplete
    · rcases h.complete a i hi with hold | hcomplete
      · exact .inl hold
      · by_cases hplace : some i = except
        · -- the clone that may change is not a new one
          obtain ⟨b, hb⟩ := hexcept i hplace.symm
          have hab : a = b := h.sound.injective a b i hi (h.seen b i hb)
          exact .inl (hab ▸ hb)
        · exact .inr (hcomplete.mono h'.sound h'.seen (h'.clones i (h.sound.sources a i hi).1 hplace))
    · exact .inr hcomplete

omit [DecidableEq P] in
theorem length_write (s : Copy P) (place : Nat) (f : Node P → Node P) : (s.write place f).clones.length = s.clones.length :=
  List.length_modify f s.clones place

theorem Ran.write (place : Nat) (h : Sound graph s) (f : Node P → Node P) : Ran graph (some place) s (s.write place f) := by
  have hlength := length_write s place f
  refine ⟨⟨fun a i hi => ?_, h.injective⟩, fun _ _ hi => hi, hlength.ge, fun i _ hne => ?_, fun a i hi => .inl hi⟩
  · obtain ⟨hlt, hnode⟩ := h.sources a i hi
    exact ⟨hlength ▸ hlt, hnode⟩
  · have hplace : place ≠ i := fun heq => hne (congrArg some heq.symm)
    exact List.getElem?_modify_ne f s.clones hplace

omit [DecidableEq P] in
theorem get_write (f : Node P → Node P) (h : s.clones[place]? = some node) : (s.write place f).clones[place]? = some (f node) := by
  show (s.clones.modify place f)[place]? = _
  rw [List.getElem?_modify_eq, h]
  rfl

/-- A value that is cloned leads to its clone from then on. -/
def Clones (graph : ValueGraph P) (clone : Val P → Copy P → Option (Val P × Copy P)) : Prop :=
  ∀ value s value' s', Sound graph s → clone value s = some (value', s') →
    Ran graph none s s' ∧ value' = value.relocate (image graph s') ∧ Known graph s' value

variable {clone : Val P → Copy P → Option (Val P × Copy P)}

theorem relocate_eq (hknown : Known graph s value) (hran : Ran graph except s s') :
    value.relocate (image graph s) = value.relocate (image graph s') := by
  refine Val.relocate_congr fun a ha => image_eq ?_ hran.sound hran.seen
  exact ha ▸ hknown

theorem cloneItem_spec (hclone : Clones graph clone) {item item' : Item P} (hs : Sound graph s) (h : cloneItem clone item s = some (item', s')) :
    Ran graph none s s' ∧ item' = item.relocate (image graph s') ∧ ∀ value ∈ item.values, Known graph s' value := by
  cases item with
  | element value | member value =>
    obtain ⟨⟨value', s₁⟩, hvalue, heq⟩ := Option.map_eq_some_iff.1 h
    obtain ⟨rfl, rfl⟩ := Prod.mk.inj heq
    obtain ⟨hran, rfl, hknown⟩ := hclone value s value' s₁ hs hvalue
    exact ⟨hran, rfl, List.forall_mem_singleton.2 hknown⟩
  | entry key value =>
    obtain ⟨⟨key', s₁⟩, hkey, h⟩ := Option.bind_eq_some_iff.1 h
    obtain ⟨⟨value', s₂⟩, hvalue, heq⟩ := Option.map_eq_some_iff.1 h
    obtain ⟨rfl, rfl⟩ := Prod.mk.inj heq
    obtain ⟨hran₁, rfl, hknown₁⟩ := hclone key s key' s₁ hs hkey
    obtain ⟨hran₂, rfl, hknown₂⟩ := hclone value s₁ value' s₂ hran₁.sound hvalue
    refine ⟨hran₁.trans hran₂ nofun, ?_, List.forall_mem_cons.2 ⟨hknown₁.mono hran₂.seen, List.forall_mem_singleton.2 hknown₂⟩⟩
    rw [relocate_eq hknown₁ hran₂]
    rfl
  | property key descriptor =>
    cases descriptor with
    | data value attributes =>
      obtain ⟨⟨value', s₁⟩, hvalue, heq⟩ := Option.map_eq_some_iff.1 h
      obtain ⟨rfl, rfl⟩ := Prod.mk.inj heq
      obtain ⟨hran, rfl, hknown⟩ := hclone value s value' s₁ hs hvalue
      exact ⟨hran, rfl, List.forall_mem_singleton.2 hknown⟩
    | accessor =>
      cases h
      exact ⟨.refl hs, rfl, nofun⟩

theorem cloneItems_spec (hclone : Clones graph clone) {items items' : List (Item P)} (hs : Sound graph s)
    (h : cloneItems clone items s = some (items', s')) :
    Ran graph none s s' ∧ items' = items.map (Item.relocate (image graph s')) ∧
      ∀ value ∈ items.flatMap Item.values, Known graph s' value := by
  induction items generalizing s items' with
  | nil =>
    cases h
    exact ⟨.refl hs, rfl, nofun⟩
  | cons item rest ih =>
    obtain ⟨⟨item', s₁⟩, hitem, h⟩ := Option.bind_eq_some_iff.1 h
    obtain ⟨cloned, hrest, heq⟩ := Option.map_eq_some_iff.1 h
    obtain ⟨rfl, rfl⟩ := Prod.mk.inj heq
    obtain ⟨hran₁, rfl, hknown₁⟩ := cloneItem_spec hclone hs hitem
    have hcloned : cloneItems clone rest s₁ = some (cloned.1, cloned.2) := hrest
    obtain ⟨hran₂, hmap, hknown₂⟩ := ih hran₁.sound hcloned
    have hfirst : item.relocate (image graph s₁) = item.relocate (image graph cloned.2) :=
      Item.relocate_congr fun a ha => image_eq (hknown₁ _ ha) hran₂.sound hran₂.seen
    refine ⟨hran₁.trans hran₂ nofun, ?_, fun value hvalue => ?_⟩
    · rw [List.map_cons, ← hfirst, ← hmap]
    · rw [List.flatMap_cons, List.mem_append] at hvalue
      exact hvalue.elim (fun hvalue => (hknown₁ value hvalue).mono hran₂.seen) (hknown₂ value)

theorem putEach_spec (hclone : Clones graph clone) {items : List (Item P)} (hs : Sound graph s)
    (hplace : ∃ a, s.seen.get a = some place) (hnode : s.clones[place]? = some node) (h : putEach clone place items s = some s') :
    Ran graph (some place) s s' ∧ s'.clones[place]? = some ((items.map (Item.relocate (image graph s'))).foldl Node.put node) ∧
      ∀ value ∈ items.flatMap Item.values, Known graph s' value := by
  induction items generalizing s node with
  | nil =>
    cases h
    exact ⟨.refl hs, hnode, nofun⟩
  | cons item rest ih =>
    obtain ⟨⟨item', s₁⟩, hitem, h⟩ := Option.bind_eq_some_iff.1 h
    obtain ⟨hran₁, rfl, hknown₁⟩ := cloneItem_spec hclone hs hitem
    have hown e (he : some place = some e) : ∃ a, s.seen.get a = some e := by
      cases he
      exact hplace
    have hlt : place < s.clones.length := (List.getElem?_eq_some_iff.1 hnode).1
    have hnode₁ : s₁.clones[place]? = some node := (hran₁.clones place hlt nofun).trans hnode
    have hwrite : Ran graph (some place) s₁ (s₁.write place (·.put (item.relocate (image graph s₁)))) := .write place hran₁.sound _
    obtain ⟨a, ha⟩ := hplace
    obtain ⟨hran₂, hfinal, hknown₂⟩ := ih hwrite.sound ⟨a, hran₁.seen a place ha⟩ (get_write _ hnode₁) h
    have hran : Ran graph (some place) s₁ s' := hwrite.trans hran₂ fun e he => by
      cases he
      exact ⟨a, hran₁.seen a place ha⟩
    have hfirst : item.relocate (image graph s₁) = item.relocate (image graph s') :=
      Item.relocate_congr fun b hb => image_eq (hknown₁ _ hb) hran.sound hran.seen
    refine ⟨hran₁.weaken.trans hran hown, ?_, fun value hvalue => ?_⟩
    · rw [hfinal, List.map_cons, List.foldl_cons, hfirst]
    · rw [List.flatMap_cons, List.mem_append] at hvalue
      exact hvalue.elim (fun hvalue => (hknown₁ value hvalue).mono hran.seen) (hknown₂ value)

theorem fill_spec (hclone : Clones graph clone) {p : Plan P} (hs : Sound graph s) (hplace : ∃ a, s.seen.get a = some place)
    (hstart : s.clones[place]? = some p.start) (h : fill clone place p s = some s') :
    Ran graph (some place) s s' ∧ s'.clones[place]? = some (p.finish (image graph s')) ∧ ∀ value ∈ p.values, Known graph s' value := by
  unfold fill at h
  split at h
  · obtain ⟨⟨items', s₁⟩, hitems, rfl⟩ := Option.map_eq_some_iff.1 h
    obtain ⟨hran, rfl, hknown⟩ := cloneItems_spec hclone hs hitems
    have hlt : place < s.clones.length := (List.getElem?_eq_some_iff.1 hstart).1
    have hwrite := Ran.write place hran.sound fun node => (p.items.map (Item.relocate (image graph s₁))).foldl Node.put node
    refine ⟨hran.weaken.trans hwrite ?_, get_write _ ((hran.clones place hlt nofun).trans hstart), hknown⟩
    rintro _ ⟨⟩
    exact hplace
  · exact putEach_spec hclone hs hplace hstart h

omit [DecidableEq P] in
theorem get_register_self (s : Copy P) (a : Nat) (node : Node P) : (s.register a node).seen.get a = some s.clones.length :=
  OrderedMap.get_set_self _ _ _

omit [DecidableEq P] in
theorem get_register_of_ne (s : Copy P) {b : Nat} (hne : b ≠ a) (node : Node P) : (s.register a node).seen.get b = s.seen.get b :=
  OrderedMap.get_set_of_ne _ hne _

theorem Sound.register (h : Sound graph s) (hnode : graph.nodes[a]? = some node) (hfunction : node.content ≠ .function)
    (start : Node P) : Sound graph (s.register a start) := by
  have hlength : (s.register a start).clones.length = s.clones.length + 1 := List.length_append
  refine ⟨fun b i hi => ?_, fun b c i hb hc => ?_⟩
  · by_cases hba : b = a
    · rw [hba, get_register_self, Option.some.injEq] at hi
      exact ⟨by omega, node, hba ▸ hnode, hfunction⟩
    · rw [get_register_of_ne s hba] at hi
      obtain ⟨hlt, hsource⟩ := h.sources b i hi
      exact ⟨by omega, hsource⟩
  · -- the place of the new clone is that of no other
    have hnew d (hd : s.seen.get d = some s.clones.length) : False := absurd (h.sources d _ hd).1 (Nat.lt_irrefl _)
    by_cases hba : b = a <;> by_cases hca : c = a
    · rw [hba, hca]
    · rw [hba, get_register_self, Option.some.injEq] at hb
      rw [get_register_of_ne s hca, ← hb] at hc
      exact (hnew c hc).elim
    · rw [hca, get_register_self, Option.some.injEq] at hc
      rw [get_register_of_ne s hba, ← hc] at hb
      exact (hnew b hb).elim
    · rw [get_register_of_ne s hba] at hb
      rw [get_register_of_ne s hca] at hc
      exact h.injective b c i hb hc

theorem Ran.of_fill {p : Plan P} (hran : Ran graph (some s.clones.length) (s.register a p.start) s')
    (hnode : graph.nodes[a]? = some node) (hfunction : node.content ≠ .function)
    (hnew : s.seen.get a = none) (hplan : plan graph node = some p)
    (hfinish : s'.clones[s.clones.length]? = some (p.finish (image graph s'))) (hknown : ∀ value ∈ p.values, Known graph s' value) :
    Ran graph none s s' := by
  have hlength : (s.register a p.start).clones.length = s.clones.length + 1 := List.length_append
  have hseen b i (hi : s.seen.get b = some i) : (s.register a p.start).seen.get b = some i := by
    have hne : b ≠ a := by
      rintro rfl
      rw [hnew] at hi
      cases hi
    rw [get_register_of_ne s hne, hi]
  refine ⟨hran.sound, fun b i hi => hran.seen b i (hseen b i hi), ?_, fun i hi _ => ?_, fun b i hi => ?_⟩
  · have hle := hran.length
    omega
  · have hne : some i ≠ some s.clones.length := fun heq => absurd (Option.some.inj heq) (Nat.ne_of_lt hi)
    rw [hran.clones i (by omega) hne]
    exact List.getElem?_append_left hi
  · rcases hran.complete b i hi with hregistered | hcomplete
    · by_cases hba : b = a
      · rw [hba, get_register_self, Option.some.injEq] at hregistered
        subst hregistered
        exact .inr ⟨node, p, hba ▸ hnode, hfunction, hplan, hfinish, hknown⟩
      · rw [get_register_of_ne s hba] at hregistered
        exact .inl hregistered
    · exact .inr hcomplete

theorem clones_cloneFallbackValue (depth : Nat) : Clones graph (cloneFallbackValue graph depth) := by
  induction depth with
  | zero =>
    intro value s value' s' hs h
    cases value with
    | primitive =>
      cases h
      exact ⟨.refl hs, rfl, nofun⟩
    | object => cases h
  | succ depth ih =>
    intro value s value' s' hs h
    cases value with
    | primitive =>
      cases h
      exact ⟨.refl hs, rfl, nofun⟩
    | object a =>
      unfold cloneFallbackValue at h
      cases hnode : graph.nodes[a]? with
      | none =>
        rw [hnode] at h
        cases h
      | some node =>
        rw [hnode] at h
        dsimp only at h
        split at h
        · rename_i hfunction
          cases h
          refine ⟨.refl hs, congrArg _ (image_of_function hs hnode hfunction).symm, fun b hb => ?_⟩
          cases hb
          exact ⟨node, hnode, .inl hfunction⟩
        rename_i hfunction
        cases hseen : s.seen.get a with
        | some i =>
          rw [hseen] at h
          cases h
          refine ⟨.refl hs, congrArg _ (image_of_seen hseen).symm, fun b hb => ?_⟩
          cases hb
          exact ⟨node, hnode, .inr (hseen ▸ rfl)⟩
        | none =>
          rw [hseen] at h
          dsimp only at h
          cases hplan : plan graph node with
          | none =>
            rw [hplan] at h
            cases h
          | some p =>
            rw [hplan] at h
            obtain ⟨s₁, hfill, heq⟩ := Option.map_eq_some_iff.1 h
            obtain ⟨rfl, rfl⟩ := Prod.mk.inj heq
            have hstart : (s.register a p.start).clones[s.clones.length]? = some p.start := List.getElem?_concat_length
            obtain ⟨hran, hfinish, hknown⟩ :=
              fill_spec ih (hs.register hnode hfunction p.start) ⟨a, get_register_self s a p.start⟩ hstart hfill
            have hplace := hran.seen a _ (get_register_self s a p.start)
            refine ⟨hran.of_fill hnode hfunction hseen hplan hfinish hknown, congrArg _ (image_of_seen hplace).symm, fun b hb => ?_⟩
            cases hb
            exact ⟨node, hnode, .inr (hplace ▸ rfl)⟩

end Running

/-! ## Termination -/

def unseen (s : Copy P) : Nat := (List.range graph.nodes.length).countP fun a => (s.seen.get a).isNone

def Clonable (value : Val P) : Prop :=
  ∀ a, Reaches graph value a → ∃ node, graph.nodes[a]? = some node ∧ (node.content = .function ∨ (plan graph node).isSome)

section Termination
variable {graph} {except : Option Nat} {s s' : Copy P} {depth : Nat} {clone : Val P → Copy P → Option (Val P × Copy P)}

theorem Ran.unseen_le (h : Ran graph except s s') : unseen graph s' ≤ unseen graph s := by
  refine List.countP_mono_left fun a _ ha => ?_
  rw [Option.isNone_iff_eq_none] at ha ⊢
  by_contra hsome
  obtain ⟨i, hi⟩ := Option.ne_none_iff_exists'.1 hsome
  rw [h.seen a i hi] at ha
  cases ha

theorem unseen_register {a : Nat} {node : Node P} (hnode : graph.nodes[a]? = some node) (hnew : s.seen.get a = none) (start : Node P) :
    unseen graph (s.register a start) < unseen graph s := by
  have hmem : a ∈ List.range graph.nodes.length := List.mem_range.2 (List.getElem?_eq_some_iff.1 hnode).1
  obtain ⟨before, after, hrange⟩ := List.append_of_mem hmem
  have hle (l : List Nat) : l.countP (fun b => ((s.register a start).seen.get b).isNone) ≤ l.countP fun b => (s.seen.get b).isNone := by
    refine List.countP_mono_left fun b _ hb => ?_
    by_cases hba : b = a
    · rw [hba, hnew, Option.isNone_none]
    · rwa [get_register_of_ne s hba] at hb
  have hbefore := hle before
  have hafter := hle after
  unfold unseen
  rw [hrange, List.countP_append, List.countP_append, List.countP_cons, List.countP_cons, get_register_self, hnew]
  simp only [Option.isNone_some, Option.isNone_none, Bool.false_eq_true, if_false, if_true]
  omega

def Ready (graph : ValueGraph P) (clone : Val P → Copy P → Option (Val P × Copy P)) (depth : Nat) (value : Val P) : Prop :=
  ∀ s, Sound graph s → unseen graph s < depth → ∃ cloned, clone value s = some cloned

theorem exists_cloneItem (hclone : Clones graph clone) {item : Item P} (hready : ∀ value ∈ item.values, Ready graph clone depth value)
    (hs : Sound graph s) (hlt : unseen graph s < depth) : ∃ cloned, cloneItem clone item s = some cloned := by
  cases item with
  | element value | member value =>
    obtain ⟨cloned, hcloned⟩ := hready value List.mem_cons_self s hs hlt
    exact ⟨_, Option.map_eq_some_iff.2 ⟨cloned, hcloned, rfl⟩⟩
  | entry key value =>
    obtain ⟨⟨key', s₁⟩, hkey⟩ := hready key List.mem_cons_self s hs hlt
    obtain ⟨hran, -, -⟩ := hclone key s key' s₁ hs hkey
    obtain ⟨cloned, hcloned⟩ :=
      hready value (List.mem_cons_of_mem key List.mem_cons_self) s₁ hran.sound (lt_of_le_of_lt hran.unseen_le hlt)
    exact ⟨_, Option.bind_eq_some_iff.2 ⟨_, hkey, Option.map_eq_some_iff.2 ⟨cloned, hcloned, rfl⟩⟩⟩
  | property key descriptor =>
    cases descriptor with
    | data value attributes =>
      obtain ⟨cloned, hcloned⟩ := hready value List.mem_cons_self s hs hlt
      exact ⟨_, Option.map_eq_some_iff.2 ⟨cloned, hcloned, rfl⟩⟩
    | accessor => exact ⟨_, rfl⟩

theorem exists_cloneItems (hclone : Clones graph clone) {items : List (Item P)}
    (hready : ∀ value ∈ items.flatMap Item.values, Ready graph clone depth value)
    (hs : Sound graph s) (hlt : unseen graph s < depth) : ∃ cloned, cloneItems clone items s = some cloned := by
  induction items generalizing s with
  | nil => exact ⟨_, rfl⟩
  | cons item rest ih =>
    rw [List.flatMap_cons, List.forall_mem_append] at hready
    obtain ⟨⟨item', s₁⟩, hitem⟩ := exists_cloneItem hclone hready.1 hs hlt
    obtain ⟨hran, -, -⟩ := cloneItem_spec hclone hs hitem
    obtain ⟨cloned, hcloned⟩ := ih hready.2 hran.sound (lt_of_le_of_lt hran.unseen_le hlt)
    exact ⟨_, Option.bind_eq_some_iff.2 ⟨_, hitem, Option.map_eq_some_iff.2 ⟨cloned, hcloned, rfl⟩⟩⟩

theorem exists_putEach (hclone : Clones graph clone) {items : List (Item P)} {place : Nat}
    (hready : ∀ value ∈ items.flatMap Item.values, Ready graph clone depth value) (hs : Sound graph s) (hlt : unseen graph s < depth) :
    ∃ s', putEach clone place items s = some s' := by
  induction items generalizing s with
  | nil => exact ⟨_, rfl⟩
  | cons item rest ih =>
    rw [List.flatMap_cons, List.forall_mem_append] at hready
    obtain ⟨⟨item', s₁⟩, hitem⟩ := exists_cloneItem hclone hready.1 hs hlt
    obtain ⟨hran, -, -⟩ := cloneItem_spec hclone hs hitem
    obtain ⟨s', hs'⟩ := ih hready.2 (Ran.write place hran.sound (·.put item')).sound (lt_of_le_of_lt hran.unseen_le hlt)
    exact ⟨s', Option.bind_eq_some_iff.2 ⟨_, hitem, hs'⟩⟩

theorem exists_fill (hclone : Clones graph clone) {p : Plan P} {place : Nat} (hready : ∀ value ∈ p.values, Ready graph clone depth value)
    (hs : Sound graph s) (hlt : unseen graph s < depth) : ∃ s', fill clone place p s = some s' := by
  unfold fill
  split
  · obtain ⟨cloned, hcloned⟩ := exists_cloneItems hclone hready hs hlt
    exact ⟨_, Option.map_eq_some_iff.2 ⟨cloned, hcloned, rfl⟩⟩
  · exact exists_putEach hclone hready hs hlt

end Termination

end Fluo.Core.Clone
