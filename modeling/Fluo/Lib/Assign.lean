import Fluo.Lib.OrderedMap
import Fluo.Lib.Utf8
/-!
# Assigning properties to an object with prototypes

`Object.assign` puts a property where the prototypes of the target say: an accessor or a property
that cannot be written stands in the way of an own property, and `__proto__` of
`Object.prototype` changes the prototypes themselves.
-/

namespace Fluo.Lib.Assign

/-- What a prototype has under a key. -/
inductive Slot
  | data (isWritable : Bool)
  | accessor (setter : Option Nat)
  /-- The accessor `Object.prototype.__proto__` -/
  | underscoreProto

/-- No accessor, and nothing that cannot be written. -/
def Slot.isPlain : Option Slot → Bool
  | none | some (.data true) => true
  | some (.data false) | some (.accessor _) | some .underscoreProto => false

structure Prototype where
  /-- The class that it is the `prototype` of. -/
  ofClass : Option Nat := none
  slot : Text → Option Slot

/-- What assigning finds under a key above the target: the nearest counts. -/
def find (prototypes : List Prototype) (key : Text) : Option Slot := prototypes.findSome? (·.slot key)

/-- An object with its own properties, and its prototypes from the nearest on. -/
structure Target (V : Type) where
  own : OrderedMap Text V := []
  prototypes : List Prototype

/-- `target instanceof` the class -/
def Target.IsInstance {V : Type} (target : Target V) (ofClass : Nat) : Prop := some ofClass ∈ target.prototypes.map (·.ofClass)

structure Runtime (V : Type) where
  /-- A setter called on an object, which may throw. -/
  call : Nat → Target V → V → Option (Target V)
  /-- A value as a prototype, with those above it; `null` is the empty list, and other primitives are none. -/
  prototypes : V → Option (List Prototype)

variable {V : Type} (runtime : Runtime V)

/-- `target[key] = value` in strict mode; none is an exception. -/
def put (target : Target V) (key : Text) (value : V) : Option (Target V) :=
  if (target.own.get key).isSome then some { target with own := target.own.set key value }
  else match find target.prototypes key with
    | none | some (.data true) => some { target with own := target.own.set key value }
    | some (.data false) | some (.accessor none) => none
    | some (.accessor (some setter)) => runtime.call setter target value
    | some .underscoreProto => some { target with prototypes := (runtime.prototypes value).getD target.prototypes }

/-- `Object.assign(target, source)` -/
def assign (target : Target V) : OrderedMap Text V → Option (Target V)
  | [] => some target
  | (key, value) :: source => do assign (← put runtime target key value) source

/-- Every property of the source becomes an own one. -/
def Plain (prototypes : List Prototype) (source : OrderedMap Text V) : Prop :=
  ∀ entry ∈ source, Slot.isPlain (find prototypes entry.1) = true

instance (prototypes : List Prototype) (source : OrderedMap Text V) : Decidable (Plain prototypes source) :=
  inferInstanceAs (Decidable (∀ entry ∈ source, _))

variable {runtime} {target target' : Target V} {key : Text} {value : V} {source : OrderedMap Text V}

variable (runtime value) in
theorem put_of_isPlain (h : Slot.isPlain (find target.prototypes key) = true) :
    put runtime target key value = some { target with own := target.own.set key value } := by
  unfold put
  split
  · rfl
  · split
    · rfl
    · rfl
    all_goals simp_all [Slot.isPlain]

variable (runtime target) in
theorem assign_of_plain (hkeyed : OrderedMap.Keyed (target.own ++ source)) (h : Plain target.prototypes source) :
    assign runtime target source = some { target with own := target.own ++ source } := by
  induction source generalizing target with
  | nil => simp [assign]
  | cons entry source ih =>
    obtain ⟨key, value⟩ := entry
    have hnew : key ∉ target.own.map Prod.fst := by
      intro hmem
      simp only [OrderedMap.Keyed, List.map_append, List.map_cons] at hkeyed
      exact (List.nodup_append.1 hkeyed).2.2 key hmem key List.mem_cons_self rfl
    have hset : target.own.set key value = target.own ++ [(key, value)] := OrderedMap.set_of_notMem hnew value
    have hput := put_of_isPlain runtime value (h _ List.mem_cons_self)
    rw [assign, hput, hset]
    have hrest := @ih { target with own := target.own ++ [(key, value)] } (by simpa using hkeyed)
      fun entry hentry => h entry (List.mem_cons_of_mem _ hentry)
    simpa using hrest

/-- Setters that leave the prototypes as they are, and create no property that is one of the accessors. -/
def Ordinary (runtime : Runtime V) (prototypes : List Prototype) : Prop :=
  ∀ setter target value target', runtime.call setter target value = some target' →
    target'.prototypes = target.prototypes ∧
    ∀ key, Slot.isPlain (find prototypes key) = false → target.own.get key = none → target'.own.get key = none

/-- What assigning to an instance of a class keeps: what is no own property yet, because something stands in the way,
never is one, unless the prototypes have been replaced. -/
def Blocked (prototypes : List Prototype) (ofClass : Nat) (target : Target V) : Prop :=
  (target.prototypes = prototypes ∧ ∀ key, Slot.isPlain (find prototypes key) = false → target.own.get key = none) ∨
    ¬target.IsInstance ofClass

theorem blocked_put {prototypes : List Prototype} {ofClass : Nat} (hsetters : Ordinary runtime prototypes)
    (hvalues : ∀ value above, runtime.prototypes value = some above → some ofClass ∉ above.map (·.ofClass))
    (hb : Blocked prototypes ofClass target) (h : put runtime target key value = some target') : Blocked prototypes ofClass target' := by
  have hown (howned : Slot.isPlain (find target.prototypes key) = true ∨ (target.own.get key).isSome = true) :
      Blocked prototypes ofClass { target with own := target.own.set key value } := by
    refine hb.imp_left fun ⟨hp, hnone⟩ => ⟨hp, fun key' hkey' => ?_⟩
    by_cases hne : key' = key
    · subst hne
      rcases howned with hplain | hsome
      · rw [hp, hkey'] at hplain
        cases hplain
      · rw [hnone key' hkey'] at hsome
        cases hsome
    · rw [OrderedMap.get_set_of_ne _ hne]
      exact hnone key' hkey'
  unfold put at h
  split at h
  · rename_i hsome
    cases h
    exact hown (.inr hsome)
  · split at h
    · rename_i hfind
      cases h
      exact hown (.inl (by rw [hfind]; rfl))
    · rename_i hfind
      cases h
      exact hown (.inl (by rw [hfind]; rfl))
    · cases h
    · cases h
    · -- a setter
      obtain ⟨hprototypes, hnone⟩ := hsetters _ _ _ _ h
      refine hb.imp (fun hkept => ⟨hprototypes.trans hkept.1, fun key hkey => hnone key hkey (hkept.2 key hkey)⟩) fun hno => ?_
      simpa only [Target.IsInstance, hprototypes] using hno
    · cases h
      cases hvalue : runtime.prototypes value with
      | none => simpa [Blocked, Target.IsInstance] using hb
      | some above => exact .inr (hvalues value above hvalue)

theorem blocked_assign {prototypes : List Prototype} {ofClass : Nat} (hsetters : Ordinary runtime prototypes)
    (hvalues : ∀ value above, runtime.prototypes value = some above → some ofClass ∉ above.map (·.ofClass))
    (hb : Blocked prototypes ofClass target) (h : assign runtime target source = some target') : Blocked prototypes ofClass target' := by
  induction source generalizing target with
  | nil =>
    cases h
    exact hb
  | cons entry source ih =>
    rw [assign, Option.bind_eq_bind, Option.bind_eq_some_iff] at h
    obtain ⟨next, hput, hrest⟩ := h
    exact ih (blocked_put hsetters hvalues hb hput) hrest

theorem plain_of_assign {prototypes : List Prototype} {ofClass : Nat} (hsetters : Ordinary runtime prototypes)
    (hvalues : ∀ value above, runtime.prototypes value = some above → some ofClass ∉ above.map (·.ofClass))
    (h : assign runtime { prototypes } source = some target') (hinstance : target'.IsInstance ofClass)
    (hown : ∀ key, key ∈ source.map Prod.fst → target'.own.get key ≠ none) : Plain prototypes source := by
  obtain ⟨-, hnone⟩ | hno := blocked_assign hsetters hvalues (.inl ⟨rfl, fun _ _ => rfl⟩ : Blocked prototypes ofClass { prototypes }) h
  · intro entry hentry
    cases hplain : Slot.isPlain (find prototypes entry.1) with
    | true => rfl
    | false => exact absurd (hnone entry.1 hplain) (hown entry.1 (List.mem_map_of_mem hentry))
  · exact absurd hinstance hno

end Fluo.Lib.Assign
