import Fluo.Lib.OrderedMap
import Fluo.Serialization.Walk
/-!
# Serialization metadata

What the decorators write into the metadata bags of classes, and what
`serialize` reads from them. The bag of a class is created from that of the class
it extends, and a decorator changes the map or the options object it finds
through its bag.
-/

namespace Fluo.Serialization

open Lib

/-- The options object of a bag, whose property may be there and `undefined`. -/
structure ClassOptionsRecord where
  excludeExtraneous : Option (Option Bool) := none

abbrev FieldMetadataMap := OrderedMap Key SerializationFieldMetadata

/-- The classes that have a bag, and what each bag itself holds under the two keys. -/
structure Bags where
  bagged : Class → Bool
  classOptions : Slot ClassOptionsRecord
  fields : Slot FieldMetadataMap

def Bags.empty : Bags where
  bagged := fun _ => false
  classOptions := fun _ => none
  fields := fun _ => none

/-! ## The decorators -/

def updateClassSerializationOptions (bags : Bags) (cls : Class) (excludeExtraneous : Option Bool) : Bags :=
  { bags with classOptions := bags.classOptions.write cls {} fun options => { options with excludeExtraneous := some excludeExtraneous } }

def updateFieldSerializationMetadata (bags : Bags) (cls : Class) (propertyKey : Key)
    (update : Option SerializationFieldMetadata → SerializationFieldMetadata) : Bags :=
  { bags with fields := bags.fields.write cls [] fun map => map.set propertyKey (update (map.get propertyKey)) }

/-- A decorator, as it is applied to a field or to the class. `exposeClass` has
the `excludeExtraneous` property of its options, if they have one. -/
inductive Decorator
  | exclude (propertyKey : Key)
  | expose (propertyKey : Key)
  | transform (propertyKey : Key) (transform : TransformFunction)
  | exposeClass (excludeExtraneous : Option (Option Bool))

def Decorator.apply (bags : Bags) (cls : Class) : Decorator → Bags
  | .exclude propertyKey =>
    updateFieldSerializationMetadata bags cls propertyKey fun current => { current.getD {} with excluded := true }
  | .expose propertyKey =>
    updateFieldSerializationMetadata bags cls propertyKey fun current => { current.getD {} with exposed := true }
  | .transform propertyKey f =>
    updateFieldSerializationMetadata bags cls propertyKey fun current =>
      { current.getD {} with transforms := (current.getD {}).transforms ++ [f] }
  | .exposeClass (some excludeExtraneous) => updateClassSerializationOptions bags cls excludeExtraneous
  | .exposeClass none => bags

/-- Applying a decorator to a class, which then has a bag. -/
def decorate (bags : Bags) (step : Class × Decorator) : Bags :=
  { step.2.apply bags step.1 with bagged := Function.update bags.bagged step.1 true }

def decorateAll (bags : Bags) (steps : List (Class × Decorator)) : Bags := steps.foldl decorate bags

/-! ## What is read -/

/-- The classes whose own bags are read, the highest first. -/
def getConstructorMetadataBags (bags : Bags) (cls : Class) : List Class := (cls.chain.filter bags.bagged).reverse

/-- Reading a bag finds what a bag above holds, where it holds nothing itself. -/
def getClassSerializationOptions (bags : Bags) (cls : Class) : ClassOptionsRecord :=
  (getConstructorMetadataBags bags cls).foldl (fun options bag =>
    ⟨((bags.classOptions.find bag).bind (·.excludeExtraneous)) <|> options.excludeExtraneous⟩) {}

def mergeFieldMetadata (current : Option SerializationFieldMetadata) (metadata : SerializationFieldMetadata) :
    SerializationFieldMetadata where
  excluded := metadata.excluded || (current.getD {}).excluded
  exposed := metadata.exposed || (current.getD {}).exposed
  transforms := (current.getD {}).transforms ++ metadata.transforms

def mergeFieldMap (merged fieldMetadata : FieldMetadataMap) : FieldMetadataMap :=
  fieldMetadata.foldl (fun merged entry => merged.set entry.1 (mergeFieldMetadata (merged.get entry.1) entry.2)) merged

def getFieldSerializationMetadata (bags : Bags) (cls : Class) : FieldMetadataMap :=
  (getConstructorMetadataBags bags cls).foldl (fun merged bag => mergeFieldMap merged ((bags.fields.find bag).getD [])) []

def Bags.metadata (bags : Bags) (cls : Class) : ClassMetadata where
  classOptions := ⟨(getClassSerializationOptions bags cls).excludeExtraneous = some (some true)⟩
  fieldMetadata := getFieldSerializationMetadata bags cls

/-! ## Isolation -/

/-- The record a decorator changes is the class's own. -/
def Decorator.Own (bags : Bags) (cls : Class) : Decorator → Prop
  | .exclude _ | .expose _ | .transform _ _ => bags.fields.Own cls
  | .exposeClass (some _) => bags.classOptions.Own cls
  | .exposeClass none => True

instance (bags : Bags) (cls : Class) : (decorator : Decorator) → Decidable (decorator.Own bags cls)
  | .exclude _ | .expose _ | .transform _ _ => inferInstanceAs (Decidable (bags.fields.Own cls))
  | .exposeClass (some _) => inferInstanceAs (Decidable (bags.classOptions.Own cls))
  | .exposeClass none => .isTrue trivial

/-- Every decorator changes a record of the class it is applied to. -/
def Careful : Bags → List (Class × Decorator) → Prop
  | _, [] => True
  | bags, step :: rest => step.2.Own bags step.1 ∧ Careful (decorate bags step) rest

theorem metadata_congr {bags bags' : Bags} {cls : Class} (hbagged : ∀ p ∈ cls.chain, bags'.bagged p = bags.bagged p)
    (hoptions : ∀ p ∈ cls.chain, bags'.classOptions.find p = bags.classOptions.find p)
    (hfields : ∀ p ∈ cls.chain, bags'.fields.find p = bags.fields.find p) : bags'.metadata cls = bags.metadata cls := by
  have hbags : getConstructorMetadataBags bags' cls = getConstructorMetadataBags bags cls := by
    rw [getConstructorMetadataBags, getConstructorMetadataBags, List.filter_congr hbagged]
  have hmem : ∀ p ∈ getConstructorMetadataBags bags cls, p ∈ cls.chain := fun p hp =>
    (List.mem_filter.1 (List.mem_reverse.1 hp)).1
  have hclass : getClassSerializationOptions bags' cls = getClassSerializationOptions bags cls := by
    rw [getClassSerializationOptions, getClassSerializationOptions, hbags]
    exact List.foldl_ext _ _ _ fun options p hp => by rw [hoptions p (hmem p hp)]
  have hfield : getFieldSerializationMetadata bags' cls = getFieldSerializationMetadata bags cls := by
    rw [getFieldSerializationMetadata, getFieldSerializationMetadata, hbags]
    exact List.foldl_ext _ _ _ fun merged p hp => by rw [hfields p (hmem p hp)]
  rw [Bags.metadata, Bags.metadata, hclass, hfield]

theorem metadata_decorate {bags : Bags} {cls d : Class} {decorator : Decorator} (h : decorator.Own bags cls) (hd : cls ∉ d.chain) :
    (decorate bags (cls, decorator)).metadata d = bags.metadata d := by
  have hp (p) (hp : p ∈ d.chain) : cls ∉ p.chain := fun hcls => hd (Proto.chain_subset hp hcls)
  refine metadata_congr (fun p hmem => ?_) (fun p hmem => ?_) fun p hmem => ?_
  · have hne : p ≠ cls := fun he => hd (he ▸ hmem)
    simp [decorate, hne]
  · cases decorator with
    | exclude | expose | transform => rfl
    | exposeClass excludeExtraneous =>
      cases excludeExtraneous with
      | none => rfl
      | some value => exact @Slot.find_write _ _ _ {} _ h _ (hp p hmem)
  · cases decorator with
    | exclude | expose | transform => exact Slot.find_write h (hp p hmem)
    | exposeClass excludeExtraneous => cases excludeExtraneous <;> rfl

theorem metadata_decorateAll {bags : Bags} {d : Class} {steps : List (Class × Decorator)} (h : Careful bags steps)
    (hd : ∀ step ∈ steps, step.1 ∉ d.chain) : (decorateAll bags steps).metadata d = bags.metadata d := by
  induction steps generalizing bags with
  | nil => rfl
  | cons step rest ih =>
    obtain ⟨hown, hrest⟩ := h
    have hstep := metadata_decorate hown (hd step List.mem_cons_self)
    exact (ih hrest fun step hs => hd step (List.mem_cons_of_mem _ hs)).trans hstep

theorem fill_congr {f g : Value → SerializationContext → Option (Output × SerializationContext)} {ref : Ref} {fields : List (Key × Value)}
    (h : ∀ field ∈ fields, ∀ context, f field.2 context = g field.2 context) (context : SerializationContext) :
    fill f ref fields context = fill g ref fields context := by
  induction fields generalizing context with
  | nil => rfl
  | cons field rest ih =>
    obtain ⟨key, value⟩ := field
    rw [fill, fill, h _ List.mem_cons_self]
    cases g value context with
    | none => rfl
    | some result => exact ih (fun field hf => h field (List.mem_cons_of_mem _ hf)) _

theorem serializeInternal_congr {w w' : World} {U : Set Ref} (hclosed : w.Closed U) (hfields : ∀ ref ∈ U, w'.fields ref = w.fields ref) :
    ∀ depth value context, value.Within U → serializeInternal w' depth value context = serializeInternal w depth value context
  | 0, _, _, _ => rfl
  | depth + 1, value, context, hv => by
    cases value with
    | undefined | primitive => rfl
    | object ref =>
      cases hw : w.fields ref with
      | none => simp [serializeInternal, hfields ref hv, hw]
      | some fields =>
        have hfill := @fill_congr _ _ ref _ (fun field hf context =>
          serializeInternal_congr hclosed hfields depth field.2 context (hclosed ref hv fields hw field hf))
        rw [serializeInternal_object hw, serializeInternal_object ((hfields ref hv).trans hw)]
        rw [serializeWithTrackedReference, serializeWithTrackedReference, hfill]

theorem fields_congr {node : Ref → Node} {metadata metadata' : Class → ClassMetadata} {ref : Ref}
    (h : ∀ cls properties, node ref = .instance (some cls) properties → metadata' cls = metadata cls) :
    (World.mk node metadata').fields ref = (World.mk node metadata).fields ref := by
  unfold World.fields
  dsimp only
  split
  case h_5 cls properties hnode => simp only [h cls properties hnode]
  all_goals rfl

/-- Decorators that each change a record of the class they are applied to leave
what is serialised of the instances of every other class as it was, the classes
below those decorated apart. -/
theorem serialize_decorateAll {before after : List (Class × Decorator)} (hcareful : Careful (decorateAll .empty before) after)
    {node : Ref → Node} {U : Set Ref} (hclosed : (World.mk node (decorateAll .empty before).metadata).Closed U)
    (houtside : ∀ ref ∈ U, ∀ cls properties, node ref = .instance (some cls) properties → ∀ step ∈ after, step.1 ∉ cls.chain)
    {value : Value} (hv : value.Within U) (depth : Nat) :
    serialize ⟨node, (decorateAll .empty (before ++ after)).metadata⟩ depth value =
      serialize ⟨node, (decorateAll .empty before).metadata⟩ depth value := by
  refine serializeInternal_congr hclosed (fun ref href => fields_congr fun cls properties hnode => ?_) depth value .empty hv
  rw [decorateAll, List.foldl_append]
  exact metadata_decorateAll hcareful (houtside ref href cls properties hnode)

/-- A base class that emits its exposed fields alone, and one that extends it. -/
private def account : Class := .base 0
private def audit : Class := .extend 1 account

private def accountSteps : List (Class × Decorator) := [(account, .expose (.text "name")), (account, .exposeClass (some (some true)))]

/-- An instance of the base class, with a field that is not exposed. -/
private def accountNode : Ref → Node
  | 0 => .instance (some account) ⟨[.text "name", .text "password"], fun _ => .primitive 0⟩
  | _ => .opaqueObject

/-- A class below that was decorated before its base has a map of its own. -/
theorem serialize_decorateAll_account :
    serialize ⟨accountNode, (decorateAll .empty ((audit, .expose (.text "id")) :: accountSteps ++ [(audit, .exclude (.text "name"))])).metadata⟩
        2 (.object 0) =
      serialize ⟨accountNode, (decorateAll .empty ((audit, .expose (.text "id")) :: accountSteps)).metadata⟩ 2 (.object 0) := by
  have hcareful : Careful (decorateAll .empty ((audit, .expose (.text "id")) :: accountSteps)) [(audit, .exclude (.text "name"))] :=
    ⟨by decide, trivial⟩
  have hfields : (World.mk accountNode (decorateAll .empty ((audit, .expose (.text "id")) :: accountSteps)).metadata).fields 0 =
      some [(.text "name", .primitive 0)] := by decide
  have hv : (Value.object 0).Within {0} := rfl
  refine serialize_decorateAll hcareful ?_ ?_ hv 2
  · rintro ref rfl fields h field hfield
    cases hfields.symm.trans h
    rw [List.mem_singleton.1 hfield]
    trivial
  · rintro ref rfl cls properties hnode step hstep
    cases hnode
    rw [List.mem_singleton.1 hstep]
    decide

/-- The class below turns the restriction off for itself: the password of an
instance of the base class is emitted from then on. -/
theorem serialize_exposes_base :
    audit ∉ account.chain ∧
    (serialize ⟨accountNode, (decorateAll .empty accountSteps).metadata⟩ 2 (.object 0)).map (fun result => result.2.content 0) =
      some [(.text "name", .primitive 0)] ∧
    (serialize ⟨accountNode, (decorateAll .empty (accountSteps ++ [(audit, .exposeClass (some (some false)))])).metadata⟩ 2
      (.object 0)).map (fun result => result.2.content 0) = some [(.text "name", .primitive 0), (.text "password", .primitive 0)] := by
  decide

end Fluo.Serialization
