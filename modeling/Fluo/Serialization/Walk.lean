import Fluo.Serialization.Serialize
/-!
# What serialization computes

The recursive meaning of `serialize`: a path of objects in progress, a list of
finished ones, and for each output object what the recursion gives it. The walk
ends wherever finitely many objects are met, and computes it.
-/

namespace Fluo.Serialization

/-! ## The specification -/

/-- The serialised form of a value that is not walked. -/
def World.leaf (w : World) : Value → Option Output
  | .undefined => some .undefined
  | .primitive id => some (.primitive id)
  | .object ref => if w.fields ref = none then some (.same ref) else none

/-- `Serializes w content path done fields outputs done'`: the fields of an
object become the outputs, while the objects of `path` are in progress and
those of `done` are finished; then those of `done'` are. -/
inductive Serializes (w : World) (content : Ref → List (Key × Output)) :
    List Ref → List Ref → List (Key × Value) → List (Key × Output) → List Ref → Prop
  | nil {path done : List Ref} : Serializes w content path done [] [] done
  /-- A value that is not walked is as it is. -/
  | leaf {path done done' : List Ref} {key : Key} {value : Value} {output : Output} {fields : List (Key × Value)}
    {outputs : List (Key × Output)} (h : w.leaf value = some output) (hrest : Serializes w content path done fields outputs done') :
    Serializes w content path done ((key, value) :: fields) ((key, output) :: outputs) done'
  /-- A reference to an object in progress is cut. -/
  | active {path done done' : List Ref} {key : Key} {ref : Ref} {fields : List (Key × Value)} {outputs : List (Key × Output)}
    (hwalked : w.fields ref ≠ none) (h : ref ∈ path) (hrest : Serializes w content path done fields outputs done') :
    Serializes w content path done ((key, .object ref) :: fields) ((key, .undefined) :: outputs) done'
  /-- A reference to a finished object is one to its output object. -/
  | finished {path done done' : List Ref} {key : Key} {ref : Ref} {fields : List (Key × Value)} {outputs : List (Key × Output)}
    (hwalked : w.fields ref ≠ none) (h : ref ∈ done) (hrest : Serializes w content path done fields outputs done') :
    Serializes w content path done ((key, .object ref) :: fields) ((key, .object ref) :: outputs) done'
  /-- Another object is serialised in turn, in progress until it is finished. -/
  | fresh {path done mid done' : List Ref} {key : Key} {ref : Ref} {inner fields : List (Key × Value)}
    {outputs : List (Key × Output)} (hpath : ref ∉ path) (hdone : ref ∉ done) (hinner : w.fields ref = some inner)
    (hcontent : Serializes w content (ref :: path) done inner (content ref) mid)
    (hrest : Serializes w content path (ref :: mid) fields outputs done') :
    Serializes w content path done ((key, .object ref) :: fields) ((key, .object ref) :: outputs) done'

variable {w : World} {content : Ref → List (Key × Output)} {path done done' : List Ref} {fields : List (Key × Value)}
  {outputs : List (Key × Output)}

theorem Serializes.subset (h : Serializes w content path done fields outputs done') : done ⊆ done' := by
  induction h with
  | nil => exact List.Subset.refl _
  | leaf _ _ ih => exact ih
  | active _ _ _ ih => exact ih
  | finished _ _ _ ih => exact ih
  | fresh _ _ _ _ _ ih ih' => exact List.Subset.trans (List.Subset.trans ih (List.subset_cons_self _ _)) ih'

theorem Serializes.congr {content' : Ref → List (Key × Output)} (h : Serializes w content path done fields outputs done')
    (heq : ∀ r ∈ done', r ∉ done → content' r = content r) : Serializes w content' path done fields outputs done' := by
  induction h with
  | nil => exact .nil
  | leaf hl _ ih => exact .leaf hl (ih heq)
  | active hw hp _ ih => exact .active hw hp (ih heq)
  | finished hw hd _ ih => exact .finished hw hd (ih heq)
  | @fresh path done mid done' key ref inner fields outputs hpath hdone hinner hcontent hrest ih ih' =>
    have hmid : done ⊆ mid := hcontent.subset
    have hlast : ref :: mid ⊆ done' := hrest.subset
    have href : content' ref = content ref := heq ref (hlast List.mem_cons_self) hdone
    refine .fresh hpath hdone hinner (href ▸ ih fun r hr hnot => heq r (hlast (List.mem_cons_of_mem _ hr)) hnot)
      (ih' fun r hr hnot => heq r hr fun hin => hnot (List.mem_cons_of_mem _ (hmid hin)))

/-! ## The context of a walk -/

/-- The references of the context are the objects in progress and the finished ones. -/
structure Tracks (context : SerializationContext) (path done : List Ref) : Prop where
  active : ∀ r, context.references r = some true ↔ r ∈ path
  finished : ∀ r, context.references r = some false ↔ r ∈ done

theorem Tracks.empty : Tracks .empty [] [] := by
  constructor <;> simp [SerializationContext.empty]

variable {context : SerializationContext} {ref r : Ref} {value : Value} {key : Key} {output : Output}

theorem Tracks.start (h : Tracks context path done) (hdone : ref ∉ done) :
    Tracks (context.start ref) (ref :: path) done := by
  refine ⟨fun r => ?_, fun r => ?_⟩
  · by_cases hr : r = ref
    · simp [SerializationContext.start, hr]
    · simp [SerializationContext.start, hr, h.active]
  · by_cases hr : r = ref
    · simp [SerializationContext.start, hr, hdone]
    · simp [SerializationContext.start, hr, h.finished]

theorem Tracks.complete (h : Tracks context (ref :: path) done) (hpath : ref ∉ path) :
    Tracks (context.complete ref) path (ref :: done) := by
  refine ⟨fun r => ?_, fun r => ?_⟩
  · by_cases hr : r = ref
    · simp [SerializationContext.complete, hr, hpath]
    · simp [SerializationContext.complete, hr, h.active]
  · by_cases hr : r = ref
    · simp [SerializationContext.complete, hr]
    · simp [SerializationContext.complete, hr, h.finished]

/-- What a walk leaves: the contents of the objects in progress and of those
finished before are as they were. -/
structure Walked (w : World) (context context' : SerializationContext) (path done : List Ref) (fields : List (Key × Value))
    (outputs : List (Key × Output)) (done' : List Ref) : Prop where
  tracks : Tracks context' path done'
  serializes : Serializes w context'.content path done fields outputs done'
  frame : ∀ r, r ∈ path ∨ r ∈ done → context'.content r = context.content r

theorem Serializes.append {mid : List Ref} {fields' : List (Key × Value)} {outputs' : List (Key × Output)}
    (h : Serializes w content path done fields outputs mid) (h' : Serializes w content path mid fields' outputs' done') :
    Serializes w content path done (fields ++ fields') (outputs ++ outputs') done' := by
  induction h with
  | nil => exact h'
  | leaf hl _ ih => exact .leaf hl (ih h')
  | active hw hp _ ih => exact .active hw hp (ih h')
  | finished hw hd _ ih => exact .finished hw hd (ih h')
  | fresh hpath hdone hinner hcontent _ _ ih' => exact .fresh hpath hdone hinner hcontent (ih' h')

theorem Tracks.assign (h : Tracks context path done) (ref : Ref) (key : Key) (value : Output) :
    Tracks (context.assign ref key value) path done := ⟨h.active, h.finished⟩

theorem Tracks.disjoint (h : Tracks context path done) (hp : r ∈ path) : r ∉ done := by
  intro hd
  have hactive := (h.active r).2 hp
  rw [(h.finished r).2 hd] at hactive
  cases hactive

section Soundness
variable {serializeValue : Value → SerializationContext → Option (Output × SerializationContext)}

def Sound (w : World) (serializeValue : Value → SerializationContext → Option (Output × SerializationContext)) : Prop :=
  ∀ value context output context' path done key, Tracks context path done → serializeValue value context = some (output, context') →
    ∃ done', Walked w context context' path done [(key, value)] [(key, output)] done'

variable {context context' : SerializationContext}

theorem fill_walked (hs : Sound w serializeValue) {ref : Ref}
    (ht : Tracks context (ref :: path) done) (h : fill serializeValue ref fields context = some context') :
    ∃ outputs done', Tracks context' (ref :: path) done' ∧ Serializes w context'.content (ref :: path) done fields outputs done' ∧
      context'.content ref = context.content ref ++ outputs ∧
      ∀ r, r ∈ path ∨ r ∈ done → r ≠ ref → context'.content r = context.content r := by
  induction fields generalizing context done with
  | nil =>
    cases h
    exact ⟨[], done, ht, .nil, (List.append_nil _).symm, fun _ _ _ => rfl⟩
  | cons field rest ih =>
    obtain ⟨key, value⟩ := field
    rw [fill] at h
    split at h
    case h_1 => cases h
    case h_2 serialized mid hvalue =>
      obtain ⟨done₁, hw⟩ := hs value context serialized mid (ref :: path) done key ht hvalue
      obtain ⟨outputs, done', ht', hser, hcontent, hframe⟩ := ih (hw.tracks.assign ref key serialized) h
      have hsub := hw.serializes.subset
      have hne (r) (hr : r ∈ done₁) : r ≠ ref := fun he => hw.tracks.disjoint List.mem_cons_self (he ▸ hr)
      have hassign (r) (hr : r ≠ ref) : (mid.assign ref key serialized).content r = mid.content r := if_neg hr
      refine ⟨(key, serialized) :: outputs, done', ht', ?_, ?_, fun r hr hrne => ?_⟩
      · have hhead : Serializes w context'.content (ref :: path) done [(key, value)] [(key, serialized)] done₁ :=
          hw.serializes.congr fun r hr _ => by rw [hframe r (.inr hr) (hne r hr), hassign r (hne r hr)]
        exact hhead.append hser
      · have hown : mid.content ref = context.content ref := hw.frame ref (.inl List.mem_cons_self)
        rw [hcontent]
        simp [SerializationContext.assign, hown]
      · rw [hframe r (hr.imp id fun hd => hsub hd) hrne, hassign r hrne]
        exact hw.frame r (hr.imp (List.mem_cons_of_mem _) id)

theorem tracked_walked (hs : Sound w serializeValue) {ref : Ref} {output : Output}
    {inner : List (Key × Value)} (key : Key) (ht : Tracks context path done) (hinner : w.fields ref = some inner)
    (h : serializeWithTrackedReference serializeValue ref inner context = some (output, context')) :
    ∃ done', Walked w context context' path done [(key, .object ref)] [(key, output)] done' := by
  have hwalked : w.fields ref ≠ none := by simp [hinner]
  rw [serializeWithTrackedReference] at h
  split at h
  case h_1 hactive =>
    cases h
    exact ⟨done, ht, .active hwalked ((ht.active ref).1 hactive) .nil, fun _ _ => rfl⟩
  case h_2 hfinished =>
    cases h
    exact ⟨done, ht, .finished hwalked ((ht.finished ref).1 hfinished) .nil, fun _ _ => rfl⟩
  case h_3 hnone =>
    have hpath : ref ∉ path := fun hp => by simp [(ht.active ref).2 hp] at hnone
    have hdone : ref ∉ done := fun hd => by simp [(ht.finished ref).2 hd] at hnone
    obtain ⟨filled, hfill, h⟩ := Option.map_eq_some_iff.1 h
    cases h
    obtain ⟨outputs, mid, ht', hser, hcontent, hframe⟩ := fill_walked hs (ht.start hdone) hfill
    have hown : filled.content ref = outputs := by
      rw [hcontent]
      simp [SerializationContext.start]
    refine ⟨ref :: mid, ht'.complete hpath, .fresh hpath hdone hinner ?_ .nil, fun r hr => ?_⟩
    · exact hown ▸ hser
    · have hne : r ≠ ref := by
        rintro rfl
        exact hr.elim hpath hdone
      exact (hframe r hr hne).trans (if_neg hne)

end Soundness

theorem serializeInternal_sound (w : World) : ∀ depth, Sound w (serializeInternal w depth)
  | 0 => by
    intro value context output context' path done key _ h
    cases h
  | depth + 1 => by
    intro value context output context' path done key ht h
    cases value with
    | undefined | primitive =>
      cases h
      exact ⟨done, ht, .leaf rfl .nil, fun _ _ => rfl⟩
    | object ref =>
      dsimp only [serializeInternal] at h
      split at h
      case h_1 hnone =>
        cases h
        exact ⟨done, ht, .leaf (if_pos hnone) .nil, fun _ _ => rfl⟩
      case h_2 inner hinner => exact tracked_walked (serializeInternal_sound w depth) key ht hinner h

theorem serializeInternal_object {n : Nat} {fields : List (Key × Value)} (h : w.fields ref = some fields)
    (context : SerializationContext) : serializeInternal w (n + 1) (.object ref) context =
      serializeWithTrackedReference (serializeInternal w n) ref fields context := by
  rw [serializeInternal]
  simp only [h]

/-! ## Termination -/

/-- A value that is no object, or one of `U`. -/
def Value.Within (U : Set Ref) : Value → Prop
  | .object ref => ref ∈ U
  | _ => True

/-- The objects of `U` lead, through their properties and what the transforms
make of them, only to objects of `U`. -/
def World.Closed (w : World) (U : Set Ref) : Prop :=
  ∀ ref ∈ U, ∀ fields, w.fields ref = some fields → ∀ field ∈ fields, field.2.Within U

def SerializationContext.pending (context : SerializationContext) (U : Finset Ref) : Nat :=
  (U.filter fun ref => context.references ref = none).card

section Termination
variable {U : Finset Ref}

variable {context : SerializationContext}

theorem pending_le {context' : SerializationContext} (h : ∀ r, context'.references r = none → context.references r = none) :
    context'.pending U ≤ context.pending U :=
  Finset.card_le_card fun r hr => by
    rw [Finset.mem_filter] at hr ⊢
    exact ⟨hr.1, h r hr.2⟩

theorem pending_start {ref : Ref} (hU : ref ∈ U) (h : context.references ref = none) :
    (context.start ref).pending U < context.pending U := by
  refine Finset.card_lt_card (Finset.ssubset_iff_of_subset (fun r hr => ?_) |>.2 ⟨ref, by simp [hU, h], ?_⟩)
  · rw [Finset.mem_filter] at hr ⊢
    refine ⟨hr.1, ?_⟩
    have hr' := hr.2
    by_cases hne : r = ref
    · rw [hne, h]
    · simpa [SerializationContext.start, hne] using hr'
  · intro hr
    have href := (Finset.mem_filter.1 hr).2
    simp [SerializationContext.start] at href

/-- A function serialises every value within `U`, where less than `n` objects have not been begun. -/
def Total (U : Finset Ref) (n : Nat) (serializeValue : Value → SerializationContext → Option (Output × SerializationContext)) : Prop :=
  ∀ value context, value.Within U → context.pending U < n →
    ∃ output context', serializeValue value context = some (output, context') ∧
      ∀ r, context'.references r = none → context.references r = none

theorem fill_total {n : Nat} {serializeValue : Value → SerializationContext → Option (Output × SerializationContext)}
    (ht : Total U n serializeValue) (ref : Ref) {fields : List (Key × Value)} (hfields : ∀ field ∈ fields, field.2.Within U)
    (hn : context.pending U < n) :
    ∃ context', fill serializeValue ref fields context = some context' ∧
      ∀ r, context'.references r = none → context.references r = none := by
  induction fields generalizing context with
  | nil => exact ⟨context, rfl, fun _ => id⟩
  | cons field rest ih =>
    obtain ⟨key, value⟩ := field
    obtain ⟨output, mid, hvalue, hmid⟩ := ht value context (hfields _ List.mem_cons_self) hn
    have hassign : (mid.assign ref key output).pending U < n := Nat.lt_of_le_of_lt (pending_le hmid) hn
    obtain ⟨context', hrest, hmono⟩ := ih (fun field hf => hfields field (List.mem_cons_of_mem _ hf)) hassign
    refine ⟨context', ?_, fun r hr => hmid r (hmono r hr)⟩
    rw [fill, hvalue]
    exact hrest

theorem serializeInternal_total (hclosed : w.Closed U) : ∀ n, Total U n (serializeInternal w n)
  | 0 => fun _ _ _ hn => absurd hn (Nat.not_lt_zero _)
  | n + 1 => by
    intro value context hv hn
    cases value with
    | undefined | primitive => exact ⟨_, context, rfl, fun _ => id⟩
    | object ref =>
      cases hfields : w.fields ref with
      | none => exact ⟨.same ref, context, by simp [serializeInternal, hfields], fun _ => id⟩
      | some fields =>
        rw [serializeInternal_object hfields, serializeWithTrackedReference]
        cases href : context.references ref with
        | some active => cases active <;> exact ⟨_, context, rfl, fun _ => id⟩
        | none =>
          have hlt : (context.start ref).pending U < n := Nat.lt_of_lt_of_le (pending_start hv href) (Nat.le_of_lt_succ hn)
          obtain ⟨filled, hfill, hmono⟩ := fill_total (serializeInternal_total hclosed n) ref (hclosed ref hv fields hfields) hlt
          refine ⟨.object ref, filled.complete ref, by simp [hfill], fun r hr => ?_⟩
          by_cases hne : r = ref
          · simp [SerializationContext.complete, hne] at hr
          · have hr' : filled.references r = none := by simpa [SerializationContext.complete, hne] using hr
            simpa [SerializationContext.start, hne] using hmono r hr'

end Termination

theorem fill_mono {f g : Value → SerializationContext → Option (Output × SerializationContext)}
    (hfg : ∀ value context x, f value context = some x → g value context = some x) {fields : List (Key × Value)}
    {context' : SerializationContext} (h : fill f ref fields context = some context') :
    fill g ref fields context = some context' := by
  induction fields generalizing context with
  | nil => exact h
  | cons field rest ih =>
    obtain ⟨key, value⟩ := field
    rw [fill] at h ⊢
    split at h
    case h_1 => cases h
    case h_2 serialized mid hvalue =>
      rw [hfg value context _ hvalue]
      exact ih h

theorem serializeInternal_succ (w : World) : ∀ n value context x,
    serializeInternal w n value context = some x → serializeInternal w (n + 1) value context = some x
  | 0, _, _, _, h => by cases h
  | n + 1, value, context, x, h => by
    cases value with
    | undefined | primitive => exact h
    | object ref =>
      cases hfields : w.fields ref with
      | none => simpa [serializeInternal, hfields] using h
      | some fields =>
        rw [serializeInternal_object hfields, serializeWithTrackedReference] at h ⊢
        cases href : context.references ref with
        | some active => cases active <;> simpa [href] using h
        | none =>
          rw [href] at h
          dsimp only at h ⊢
          obtain ⟨filled, hfill, rfl⟩ := Option.map_eq_some_iff.1 h
          simp [fill_mono (serializeInternal_succ w n) hfill]

theorem serializeInternal_mono {m n : Nat} (h : m ≤ n)
    {x : Output × SerializationContext} (hx : serializeInternal w m value context = some x) :
    serializeInternal w n value context = some x := by
  induction h with
  | refl => exact hx
  | step _ ih => exact serializeInternal_succ w _ _ _ _ ih

/-! ## The contents -/

/-- The acyclic definition: a field's value as it is, or the output object of the object it is. -/
def World.plain (w : World) (field : Key × Value) : Key × Output :=
  (field.1, match field.2 with
    | .undefined => .undefined
    | .primitive id => .primitive id
    | .object ref => if w.fields ref = none then .same ref else .object ref)

theorem plain_leaf (h : w.leaf value = some output) :
    (key, output) = w.plain (key, value) := by
  cases value with
  | undefined | primitive => cases h; rfl
  | object ref =>
    simp only [World.leaf] at h
    split at h
    case isTrue hnone => cases h; simp [World.plain, hnone]
    case isFalse => cases h

/-- A field's output while the objects of `path` are in progress: a reference to one of them is cut. -/
def World.cut (w : World) (path : List Ref) (field : Key × Value) : Key × Output :=
  match field.2 with
  | .object ref => if ref ∈ path ∧ w.fields ref ≠ none then (field.1, .undefined) else w.plain field
  | _ => w.plain field

theorem cut_leaf (h : w.leaf value = some output) :
    (key, output) = w.cut path (key, value) := by
  rw [plain_leaf h]
  cases value with
  | undefined | primitive => rfl
  | object ref =>
    simp only [World.leaf] at h
    split at h
    case isTrue hnone => simp [World.cut, hnone]
    case isFalse => cases h

theorem Serializes.disjoint (h : Serializes w content path done fields outputs done') (hdisjoint : path.Disjoint done) :
    path.Disjoint done' := by
  induction h with
  | nil => exact hdisjoint
  | leaf _ _ ih => exact ih hdisjoint
  | active _ _ _ ih => exact ih hdisjoint
  | finished _ _ _ ih => exact ih hdisjoint
  | fresh hpath hdone _ _ _ ih ih' =>
    have hmid := ih (List.disjoint_cons_left.2 ⟨hdone, hdisjoint⟩)
    exact ih' (List.disjoint_cons_right.2 ⟨hpath, (List.disjoint_cons_left.1 hmid).2⟩)

theorem Serializes.cut (h : Serializes w content path done fields outputs done') (hdisjoint : path.Disjoint done) :
    outputs = fields.map (w.cut path) := by
  induction h with
  | nil => rfl
  | leaf hl _ ih => rw [List.map_cons, ← ih hdisjoint, cut_leaf hl]
  | active hw hp _ ih => rw [List.map_cons, ← ih hdisjoint]; simp [World.cut, hw, hp]
  | finished hw hd _ ih =>
    rw [List.map_cons, ← ih hdisjoint]
    simp only [World.cut, World.plain, if_neg hw]
    rw [if_neg fun hp => hdisjoint.symm hd hp.1]
  | fresh hpath hdone hinner hcontent _ _ ih' =>
    have hmid := hcontent.disjoint (List.disjoint_cons_left.2 ⟨hdone, hdisjoint⟩)
    rw [List.map_cons, ← ih' (List.disjoint_cons_right.2 ⟨hpath, (List.disjoint_cons_left.1 hmid).2⟩)]
    simp [World.cut, World.plain, hinner, hpath]

theorem Serializes.fields_of_done (h : Serializes w content path done fields outputs done') (hdisjoint : path.Disjoint done)
    (hr : r ∈ done') :
    r ∈ done ∨ ∃ inner path done mid, w.fields r = some inner ∧ Serializes w content (r :: path) done inner (content r) mid ∧
      (r :: path).Disjoint done ∧ mid ⊆ done' := by
  induction h with
  | nil => exact .inl hr
  | leaf _ _ ih => exact ih hdisjoint hr
  | active _ _ _ ih => exact ih hdisjoint hr
  | finished _ _ _ ih => exact ih hdisjoint hr
  | @fresh path done mid done' key ref inner fields outputs hpath hdone hinner hcontent hrest ih ih' =>
    have hin : (ref :: path).Disjoint done := List.disjoint_cons_left.2 ⟨hdone, hdisjoint⟩
    have hmid : path.Disjoint mid := (List.disjoint_cons_left.1 (hcontent.disjoint hin)).2
    have hlast : mid ⊆ done' := fun r hr => hrest.subset (List.mem_cons_of_mem _ hr)
    rcases ih' (List.disjoint_cons_right.2 ⟨hpath, hmid⟩) hr with hr | hr
    · rcases List.mem_cons.1 hr with rfl | hr
      · exact .inr ⟨_, _, _, _, hinner, hcontent, hin, hlast⟩
      · refine (ih hin hr).imp_right fun ⟨inner, path, done, mid, hi, hs, hd, hsub⟩ => ⟨inner, path, done, mid, hi, hs, hd, ?_⟩
        exact fun r hr => hlast (hsub hr)
    · exact .inr hr

theorem leaf_ne_object (value : Value) (r : Ref) : w.leaf value ≠ some (.object r) := by
  cases value with
  | undefined | primitive => simp [World.leaf]
  | object ref =>
    simp only [World.leaf]
    split <;> simp

theorem Serializes.object_mem (h : Serializes w content path done fields outputs done')
    (hr : (key, .object r) ∈ outputs) : r ∈ done' := by
  induction h with
  | nil => cases hr
  | leaf hl hrest ih =>
    rcases List.mem_cons.1 hr with he | hr
    · cases he
      exact absurd hl (leaf_ne_object _ _)
    · exact ih hr
  | active _ _ _ ih =>
    rcases List.mem_cons.1 hr with he | hr
    · cases he
    · exact ih hr
  | finished _ hd hrest ih =>
    rcases List.mem_cons.1 hr with he | hr
    · cases he
      exact hrest.subset hd
    · exact ih hr
  | fresh _ _ _ _ hrest _ ih' =>
    rcases List.mem_cons.1 hr with he | hr
    · cases he
      exact hrest.subset List.mem_cons_self
    · exact ih' hr

/-- A key that the metadata excludes. -/
def ClassMetadata.Excludes (metadata : ClassMetadata) (key : Key) : Prop :=
  ∃ field, fieldOf metadata.fieldMetadata key = some field ∧ field.excluded

def ClassMetadata.Exposes (metadata : ClassMetadata) (key : Key) : Prop :=
  ∃ entry ∈ metadata.fieldMetadata, entry.1 = key ∧ entry.2.exposed

theorem classField_eq_some {properties : Properties} {metadata : ClassMetadata} {field : Key × Value}
    (h : classField ref properties metadata key = some field) : field.1 = key ∧ ¬metadata.Excludes key := by
  unfold classField at h
  dsimp only at h
  split at h
  case isTrue => cases h
  case isFalse hexcluded =>
    split at h
    case isTrue => cases h
    case isFalse =>
      cases h
      refine ⟨rfl, fun ⟨field, hfield, he⟩ => hexcluded ?_⟩
      simp [hfield, he]

theorem fields_instance {cls : Class} {properties : Properties} {inner : List (Key × Value)}
    (hnode : w.node r = .instance (some cls) properties) (hinner : w.fields r = some inner) :
    ∀ field ∈ inner, ¬(w.metadata cls).Excludes field.1 ∧
      ((w.metadata cls).classOptions.excludeExtraneous → (w.metadata cls).Exposes field.1) := by
  intro field hfield
  simp only [World.fields, hnode] at hinner
  split at hinner
  case isTrue =>
    cases hinner
    obtain ⟨key, hkey, hsome⟩ := List.mem_filterMap.1 hfield
    obtain ⟨rfl, hexcludes⟩ := classField_eq_some hsome
    refine ⟨hexcludes, fun hextraneous => ?_⟩
    simp only [resolveCandidateKeys, hextraneous, if_true, List.mem_map, List.mem_filter] at hkey
    obtain ⟨entry, ⟨hentry, hexposed⟩, hkey⟩ := hkey
    exact ⟨entry, hentry, hkey, hexposed⟩
  case isFalse hnone =>
    simp only [hasMetadata, Bool.or_eq_true, Bool.not_eq_true', not_or, Bool.not_eq_false, List.isEmpty_iff] at hnone
    refine ⟨?_, fun h => absurd h hnone.2⟩
    rintro ⟨_, hfield, -⟩
    simp [fieldOf, hnone.1] at hfield

/-! ## Graphs without cycles -/

/-- An object is walked for a field of another. -/
def Edge (w : World) (r r' : Ref) : Prop := ∃ fields key, w.fields r = some fields ∧ (key, .object r') ∈ fields ∧ w.fields r' ≠ none

theorem Serializes.plain (hacyclic : ∀ r, ¬Relation.TransGen (Edge w) r r) (h : Serializes w content path done fields outputs done')
    (hpath : ∀ p ∈ path, ∀ key r, (key, .object r) ∈ fields → w.fields r ≠ none → Relation.TransGen (Edge w) p r) :
    outputs = fields.map w.plain ∧ ∀ r ∈ done', r ∈ done ∨ ∃ inner, w.fields r = some inner ∧ content r = inner.map w.plain := by
  induction h with
  | nil => exact ⟨rfl, fun r hr => .inl hr⟩
  | leaf hl _ ih =>
    obtain ⟨ho, hd⟩ := ih fun p hp key r hr => hpath p hp key r (List.mem_cons_of_mem _ hr)
    exact ⟨by rw [List.map_cons, ← ho, plain_leaf hl], hd⟩
  | active hw hp _ _ => exact absurd (hpath _ hp _ _ List.mem_cons_self hw) (hacyclic _)
  | finished hw _ _ ih =>
    obtain ⟨ho, hd⟩ := ih fun p hp key r hr => hpath p hp key r (List.mem_cons_of_mem _ hr)
    exact ⟨by rw [List.map_cons, ← ho]; simp [World.plain, hw], hd⟩
  | @fresh path done mid done' key ref inner fields outputs _ _ hinner _ _ ih ih' =>
    have hw : w.fields ref ≠ none := by simp [hinner]
    obtain ⟨hcontent, hmid⟩ := ih fun p hp key' r hr hwr => by
      have hedge : Edge w ref r := ⟨inner, key', hinner, hr, hwr⟩
      rcases List.mem_cons.1 hp with rfl | hp
      · exact .single hedge
      · exact (hpath p hp key ref List.mem_cons_self hw).tail hedge
    obtain ⟨ho, hd⟩ := ih' fun p hp key r hr => hpath p hp key r (List.mem_cons_of_mem _ hr)
    refine ⟨by rw [List.map_cons, ← ho]; simp [World.plain, hw], fun r hr => ?_⟩
    rcases hd r hr with hr | hr
    · rcases List.mem_cons.1 hr with rfl | hr
      · exact .inr ⟨inner, hinner, hcontent⟩
      · exact hmid r hr
    · exact .inr hr

/-! ## `serialize` -/

/-- What `serialize` gives for a value: output objects with their contents, made in one walk. -/
structure Represents (w : World) (value : Value) (output : Output) (content : Ref → List (Key × Output)) (done : List Ref) : Prop where
  /-- The walk is that of the specification, a reference cut where its object is in progress, and shared where it is finished. -/
  serializes : ∃ key, Serializes w content [] [] [(key, value)] [(key, output)] done
  /-- What the result holds is output objects of the walk. -/
  root r : output = .object r → r ∈ done
  closed {r : Ref} {entry : Key × Output} {r' : Ref} : r ∈ done → entry ∈ content r → entry.2 = .object r' → r' ∈ done
  /-- The contents are those of the acyclic definition, but for what is cut. -/
  contents {r : Ref} : r ∈ done → ∃ inner path, w.fields r = some inner ∧ content r = inner.map (w.cut (r :: path))
  /-- An object made from a class instance holds no excluded key, and under `excludeExtraneous` only exposed ones. -/
  instances {r : Ref} {cls : Class} {properties : Properties} : r ∈ done → w.node r = .instance (some cls) properties →
    ∀ entry ∈ content r, ¬(w.metadata cls).Excludes entry.1 ∧ ((w.metadata cls).classOptions.excludeExtraneous → (w.metadata cls).Exposes entry.1)
  /-- Where there is no cycle, nothing is cut. -/
  acyclic : (∀ r, ¬Relation.TransGen (Edge w) r r) → ∀ r ∈ done, ∃ inner, w.fields r = some inner ∧ content r = inner.map w.plain

theorem cut_fst (path : List Ref) (field : Key × Value) : (w.cut path field).1 = field.1 := by
  obtain ⟨key, value⟩ := field
  cases value with
  | undefined | primitive => rfl
  | object ref =>
    simp only [World.cut]
    split <;> rfl

theorem represents_of_serializes
    (h : Serializes w content [] [] [(key, value)] [(key, output)] done) : Represents w value output content done := by
  have hdone {r : Ref} (hr : r ∈ done) := (h.fields_of_done (List.disjoint_nil_left _) hr).resolve_left List.not_mem_nil
  have hcontents {r : Ref} (hr : r ∈ done) : ∃ inner path, w.fields r = some inner ∧ content r = inner.map (w.cut (r :: path)) := by
    obtain ⟨inner, path, _, _, hinner, hser, hdisjoint, _⟩ := hdone hr
    exact ⟨inner, path, hinner, hser.cut hdisjoint⟩
  refine ⟨⟨key, h⟩, ?_, ?_, hcontents, ?_, ?_⟩
  · rintro r rfl
    exact h.object_mem (List.mem_singleton_self _)
  · intro r entry r' hr hentry he
    obtain ⟨inner, _, _, mid, _, hser, _, hsub⟩ := hdone hr
    have hmem : (entry.1, .object r') ∈ content r := he ▸ hentry
    exact hsub (hser.object_mem hmem)
  · intro r cls properties hr hnode entry hentry
    obtain ⟨inner, path, hinner, hcontent⟩ := hcontents hr
    obtain ⟨field, hfield, rfl⟩ := List.mem_map.1 (hcontent ▸ hentry)
    rw [cut_fst]
    exact fields_instance hnode hinner field hfield
  · intro hacyclic r hr
    refine ((h.plain hacyclic fun p hp => ?_).2 r hr).resolve_left List.not_mem_nil
    cases hp

/-- An instance whose key `password` is excluded, and a plain object that it and it refer to. -/
private def accountWorld : World where
  node
    | 0 => .instance (some (.base 0)) ⟨[.text "password", .text "profile"], fun key => if key = .text "profile" then .object 1 else .primitive 0⟩
    | 1 => .plain ⟨[.text "account"], fun _ => .object 0⟩
    | _ => .opaqueObject
  metadata _ := { fieldMetadata := [(.text "password", { excluded := true })] }

end Fluo.Serialization
