import Mathlib.Order.Interval.Set.LinearOrder
import Mathlib.Data.List.Forall2
import Mathlib.Data.List.Induction
import Fluo.Lib.ObjectHeap
/-!
# Configuration is merged from its sources

Each source is an object on the heap. A later source wins, key by key where both values are
plain objects.
-/

namespace Fluo.Config
open Lib Heap

variable {P : Type}

/-- What `isPlainObject` accepts, by its address. -/
def plainObject (heap : Heap P) : Val P → Option Nat
  | .object a => if heap[a]?.any fun o => o.kind ≠ .array then some a else none
  | .atom _ => none

/-- `structuredClone`, and `fallbackClone` of what it refuses. -/
def cloneConfigDictionary (fuel : Nat) (heap : Heap P) (v : Val P) : Option (Heap P × Val P) := do
  copy (← hasFunction heap fuel v) fuel heap v

def mergeConfigEntry (merge : Heap P → Nat → Nat → Option (Heap P)) (clone : Heap P → Val P → Option (Heap P × Val P)) (target : Nat)
    (heap : Heap P) (key : Text) (sourceValue : Val P) : Option (Heap P) :=
  match (heap.get target key).bind (plainObject heap), plainObject heap sourceValue with
  | some targetValue, some s => merge heap targetValue s
  | none, some s => do
    let merged ← merge (heap ++ [{ proto := some objectPrototype }]) heap.length s
    merged.put target key (.object heap.length)
  | _, none => do
    let (heap, v) ← clone heap sourceValue
    heap.put target key v

def mergeEach (merge : Heap P → Nat → Nat → Option (Heap P)) (clone : Heap P → Val P → Option (Heap P × Val P)) (target : Nat) :
    Heap P → OrderedMap Text (Val P) → Option (Heap P)
  | heap, [] => some heap
  | heap, (key, sourceValue) :: rest => do
    mergeEach merge clone target (← mergeConfigEntry merge clone target heap key sourceValue) rest

def mergeConfigEntries : Nat → Heap P → Nat → Nat → Option (Heap P)
  | 0, _, _, _ => none
  | fuel + 1, heap, target, source => do
    mergeEach (mergeConfigEntries fuel) (cloneConfigDictionary fuel) target heap (← heap[source]?).own

/-- The first object that this allocates is `merged`. -/
def mergeConfigSources (fuel : Nat) (heap : Heap P) (sources : List Nat) : Option (Heap P) :=
  sources.foldlM (fun heap' source => mergeConfigEntries fuel heap' heap.length source) (heap ++ [{ proto := some objectPrototype }])

/-- Without a schema. The sources are the defaults, the values of the env file, the process env and the overrides. -/
def loadConfig (fuel : Nat) (heap : Heap P) (sources : List Nat) : Option (Heap P × Val P) := do
  cloneConfigDictionary fuel (← mergeConfigSources fuel heap sources) (.object heap.length)

/-! ## What the configuration should be -/

mutual
/-- What is plain in both is merged key by key, and any other value is taken whole. -/
def overlay : Option (ObjectTree P) → ObjectTree P → ObjectTree P
  | some (.node .plain low), .node .plain high => .node .plain (overlayEntries low high)
  | _, value => value
def overlayEntries : Entries P → Entries P → Entries P
  | low, .nil => low
  | low, .cons key value rest => overlayEntries (low.set key (overlay (low.get key) value)) rest
end

def mergedEntries (sources : List (Entries P)) : Entries P := sources.foldl overlayEntries .nil

/-- The value at a path of keys through plain objects. -/
def valueAt : ObjectTree P → List Text → Option (ObjectTree P)
  | t, [] => some t
  | .node .plain own, key :: path =>
    match own.get key with
    | none => none
    | some value => valueAt value path
  | _, _ :: _ => none

/-- It has a value at the path, or one on the way that is taken whole. -/
def Decides : ObjectTree P → List Text → Prop
  | _, [] => True
  | .node .plain own, key :: path =>
    match own.get key with
    | none => False
    | some value => Decides value path
  | _, _ :: _ => True

def IsWhole (t : ObjectTree P) : Prop := ∀ own, t ≠ .node .plain own

def Holding (heap : Heap P) (source : Nat) (es : Entries P) : Prop :=
  ∃ o, heap[source]? = some o ∧ HoldsEntries (fun _ _ => True) heap o.own es (Set.Iio heap.length)

/-- Loading returns new objects that hold what the sources give, the value at each path from the last source that decides it,
and writes to no object that was there. -/
def MergesInIsolation (heap : Heap P) (sources : List Nat) (trees : List (Entries P)) : Prop :=
  ∃ heap' v, Yields (fun fuel => loadConfig fuel heap sources) (heap', v) ∧ Keeps heap heap' Set.univ ∧
    Holds Disjoint heap' v (.node .plain (mergedEntries trees)) (Set.Ici heap.length) ∧
    ∀ path value, IsWhole value → (valueAt (.node .plain (mergedEntries trees)) path = some value ↔
      ∃ lower es higher, trees = lower ++ es :: higher ∧ valueAt (.node .plain es) path = some value ∧
        ∀ es' ∈ higher, ¬ Decides (.node .plain es') path)

/-! ## Sources that are merged as they should be -/

mutual
/-- Outside of arrays there is no `__proto__` and no object that is neither plain nor an array, and arrays are copied as they are. -/
def IsClean : ObjectTree P → Prop
  | .atom _ => True
  | .node kind own =>
    match kind with
    | .plain => AreClean own
    | .array => copyTree (hasFunctionEntries own) (.node .array own) = .node .array own
    | _ => False
def AreClean : Entries P → Prop
  | .nil => True
  | .cons key value rest => key ≠ underscoreProto ∧ key ∉ rest.keys ∧ IsClean value ∧ AreClean rest
end

mutual
theorem copyTree_of_isClean {keep : Bool} : ∀ {t : ObjectTree P}, IsClean t → (hasFunctionTree t = true → keep = true) → copyTree keep t = t
  | .atom a, _, _ => rfl
  | .node .plain own, h, hkeep => by
    have hown : copyEntries keep own = own := copyEntries_of_areClean h hkeep
    show ObjectTree.node .plain (copyEntries keep own) = _
    rw [hown]
  | .node .array own, h, hkeep => by
    have hcopy : copyTree (hasFunctionEntries own) (.node .array own) = .node .array own := h
    cases hfun : hasFunctionEntries own with
    | true =>
      rw [hkeep hfun, ← hfun, hcopy]
    | false =>
      rw [hfun] at hcopy
      cases keep with
      | true => exact copyTree_true_of_false hcopy
      | false => exact hcopy
  | .node (.builtin _) own, h, _ => h.elim
  | .node (.ofClass _) own, h, _ => h.elim
theorem copyEntries_of_areClean {keep : Bool} : ∀ {es : Entries P}, AreClean es → (hasFunctionEntries es = true → keep = true) → copyEntries keep es = es
  | .nil, _, _ => rfl
  | .cons key value rest, h, hkeep => by
    obtain ⟨-, -, hvalue, hrest⟩ := h
    rw [hasFunctionEntries, Bool.or_eq_true] at hkeep
    rw [copyEntries, copyTree_of_isClean hvalue fun h => hkeep (.inl h), copyEntries_of_areClean hrest fun h => hkeep (.inr h)]
end

variable {key : Text} {value : ObjectTree P} {path : List Text}

theorem AreClean.set (hkey : key ≠ underscoreProto) (hvalue : IsClean value) :
    ∀ {es : Entries P}, AreClean es → AreClean (es.set key value)
  | .nil, _ => ⟨hkey, List.not_mem_nil, hvalue, trivial⟩
  | .cons first found rest, h => by
    obtain ⟨hfirst, hnew, hfound, hrest⟩ := h
    by_cases heq : first = key
    · rw [Entries.set, if_pos heq]
      exact ⟨hkey, heq ▸ hnew, hvalue, hrest⟩
    · rw [Entries.set, if_neg heq]
      exact ⟨hfirst, fun hmem => (Entries.mem_keys_set.1 hmem).elim heq hnew, hfound, hrest.set hkey hvalue⟩

theorem AreClean.get : ∀ {es : Entries P}, AreClean es → es.get key = some value → IsClean value
  | .cons first found rest, h, hget => by
    obtain ⟨-, -, hfound, hrest⟩ := h
    by_cases heq : first = key
    · rw [Entries.get, if_pos heq] at hget
      cases hget
      exact hfound
    · rw [Entries.get, if_neg heq] at hget
      exact hrest.get hget

theorem overlay_cases (low : Option (ObjectTree P)) (high : ObjectTree P) :
    overlay low high = high ∨ ∃ l h, low = some (.node .plain l) ∧ high = .node .plain h ∧ overlay low high = .node .plain (overlayEntries l h) := by
  unfold overlay
  split
  · exact .inr ⟨_, _, rfl, rfl, rfl⟩
  · exact .inl rfl

mutual
theorem IsClean.overlay {low : Option (ObjectTree P)} (hlow : ∀ t, low = some t → IsClean t) : ∀ {high : ObjectTree P}, IsClean high → IsClean (overlay low high)
  | .atom a, h => by
    rcases overlay_cases low (.atom a) with heq | ⟨_, _, _, hhigh, _⟩
    · rw [heq]
      exact h
    · cases hhigh
  | .node kind own, h => by
    rcases overlay_cases low (.node kind own) with heq | ⟨l, high, rfl, hhigh, heq⟩
    · rw [heq]
      exact h
    · cases hhigh
      rw [heq]
      have hown : AreClean own := h
      exact AreClean.overlay (hlow _ rfl) hown
theorem AreClean.overlay {low : Entries P} (hlow : AreClean low) : ∀ {high : Entries P}, AreClean high → AreClean (overlayEntries low high)
  | .nil, _ => hlow
  | .cons key value rest, h => by
    obtain ⟨hkey, -, hvalue, hrest⟩ := h
    exact AreClean.overlay (hlow.set hkey (IsClean.overlay (fun t => hlow.get) hvalue)) hrest
end

theorem overlay_none (value : ObjectTree P) : overlay none value = value := (overlay_cases none value).elim id fun ⟨_, _, h, _⟩ => by cases h

theorem overlayEntries_eq_append {low : Entries P} : ∀ {high : Entries P}, AreClean high → (∀ key ∈ high.keys, key ∉ low.keys) →
    overlayEntries low high = low.append high
  | .nil, _, _ => (low.append_nil).symm
  | .cons key value rest, h, hnew => by
    obtain ⟨-, hkey, -, hrest⟩ := h
    have hmissing : key ∉ low.keys := hnew key List.mem_cons_self
    have hlater : ∀ key' ∈ rest.keys, key' ∉ (low.set key value).keys := by
      intro key' hmem hset
      rcases Entries.mem_keys_set.1 hset with rfl | hlow
      · exact hkey hmem
      · exact hnew key' (List.mem_cons_of_mem _ hmem) hlow
    rw [overlayEntries, Entries.get_eq_none.2 hmissing, overlay_none, overlayEntries_eq_append hrest hlater, Entries.set_of_notMem hmissing, Entries.append_assoc]
    rfl

theorem overlayEntries_nil {high : Entries P} (h : AreClean high) : overlayEntries .nil high = high := overlayEntries_eq_append h fun _ _ => List.not_mem_nil

/-! ## The value at a path -/

theorem get_overlayEntries : ∀ {low high : Entries P}, AreClean high →
    (overlayEntries low high).get key = match high.get key with
      | none => low.get key
      | some value => some (overlay (low.get key) value)
  | low, .nil, _ => rfl
  | low, .cons first value rest, h => by
    obtain ⟨-, hfirst, -, hrest⟩ := h
    rw [overlayEntries, get_overlayEntries hrest, Entries.get]
    by_cases hkey : first = key
    · subst hkey
      rw [if_pos rfl, Entries.get_eq_none.2 hfirst]
      exact Entries.get_set_self low
    · rw [if_neg hkey, Entries.get_set_of_ne (Ne.symm hkey)]

theorem plain_of_not_decides {t : ObjectTree P} (h : ¬ Decides t (key :: path)) : ∃ own, t = .node .plain own := by
  cases t with
  | atom a => exact absurd trivial h
  | node kind own =>
    cases kind with
    | plain => exact ⟨own, rfl⟩
    | array => exact absurd trivial h
    | builtin name => exact absurd trivial h
    | ofClass className => exact absurd trivial h

theorem plain_of_valueAt {t : ObjectTree P} (h : valueAt t (key :: path) = some value) : ∃ own, t = .node .plain own := by
  cases t with
  | atom a => cases h
  | node kind own =>
    cases kind with
    | plain => exact ⟨own, rfl⟩
    | array => cases h
    | builtin name => cases h
    | ofClass className => cases h

theorem valueAt_overlay (hwhole : IsWhole value) {low high : ObjectTree P} (hclean : IsClean high) :
    valueAt (overlay (some low) high) path = some value ↔ valueAt high path = some value ∨ (¬ Decides high path ∧ valueAt low path = some value) := by
  induction path generalizing low high with
  | nil =>
    rcases overlay_cases (some low) high with heq | ⟨l, h, -, rfl, heq⟩
    · simp [heq, Decides, valueAt]
    · simp [heq, Decides, valueAt, (hwhole _).symm]
  | cons key path ih =>
    by_cases hboth : ∃ l h, low = .node .plain l ∧ high = .node .plain h
    · obtain ⟨l, h, rfl, rfl⟩ := hboth
      have hentries : AreClean h := hclean
      rw [overlay, valueAt, valueAt, valueAt, Decides, get_overlayEntries hentries]
      cases hhigh : h.get key with
      | none => simp
      | some found =>
        cases hlow : l.get key with
        | none => simp [overlay_none]
        | some lower => exact ih (hentries.get hhigh)
    · have heq : overlay (some low) high = high :=
        (overlay_cases (some low) high).elim id fun ⟨l, h, hlow, hhigh, _⟩ => absurd ⟨l, h, Option.some.inj hlow, hhigh⟩ hboth
      rw [heq]
      refine (or_iff_left fun ⟨hfree, hfound⟩ => hboth ?_).symm
      -- one that does not decide is plain, and so is one that has a value below it
      obtain ⟨h, rfl⟩ := plain_of_not_decides hfree
      obtain ⟨l, rfl⟩ := plain_of_valueAt hfound
      exact ⟨l, h, rfl, rfl⟩

theorem valueAt_mergedEntries (hwhole : IsWhole value) {trees : List (Entries P)} (hclean : ∀ es ∈ trees, AreClean es) (path : List Text) :
    valueAt (.node .plain (mergedEntries trees)) path = some value ↔
      ∃ lower es higher, trees = lower ++ es :: higher ∧ valueAt (.node .plain es) path = some value ∧ ∀ es' ∈ higher, ¬ Decides (.node .plain es') path := by
  induction trees using List.reverseRecOn with
  | nil =>
    have hnone : valueAt (.node .plain (mergedEntries [])) path ≠ some value := by
      cases path with
      | nil => exact fun h => hwhole _ (Option.some.inj h).symm
      | cons key path => exact fun h => by cases h
    simp [hnone]
  | append_singleton before last ih =>
    have hlast : AreClean last := hclean last (by simp)
    have hover : ObjectTree.node .plain (mergedEntries (before ++ [last])) = overlay (some (.node .plain (mergedEntries before))) (.node .plain last) := by
      rw [mergedEntries, List.foldl_append, overlay]
      rfl
    rw [hover, valueAt_overlay hwhole (show IsClean (.node .plain last) from hlast), ih fun es hes => hclean es (List.mem_append_left _ hes)]
    constructor
    · rintro (hfound | ⟨hfree, lower, es, higher, rfl, hfound, hhigher⟩)
      · exact ⟨before, last, [], rfl, hfound, fun _ h => absurd h List.not_mem_nil⟩
      · refine ⟨lower, es, higher ++ [last], by simp, hfound, fun es' hmem => ?_⟩
        rcases List.mem_append.1 hmem with hmem | hmem
        · exact hhigher es' hmem
        · rwa [List.mem_singleton.1 hmem]
    · rintro ⟨lower, es, higher, heq, hfound, hhigher⟩
      cases higher using List.reverseRecOn with
      | nil =>
        obtain ⟨rfl, hes⟩ := List.append_inj' heq rfl
        cases hes
        exact .inl hfound
      | append_singleton higher last' =>
        rw [← List.cons_append, ← List.append_assoc] at heq
        obtain ⟨rfl, hes⟩ := List.append_inj' heq rfl
        cases hes
        exact .inr ⟨hhigher last (by simp), lower, es, higher, rfl, hfound, fun es' hmem => hhigher es' (List.mem_append_left _ hmem)⟩

/-! ## What the merge does -/

section Merge
variable {heap : Heap P} {target : Nat} {low : Entries P} {part : Set Nat}

/-- The heap after a step that writes to `part` and to what it allocates, where the target holds `es`. -/
def Merged (heap heap' : Heap P) (target : Nat) (es : Entries P) (part : Set Nat) : Prop :=
  heap.length ≤ heap'.length ∧ Keeps heap heap' (compl part) ∧
    Holds Disjoint heap' (.object target) (.node .plain es) (part ∪ Set.Ico heap.length heap'.length)

theorem cloneConfigDictionary_spec {v : Val P} {t : ObjectTree P} {part : Set Nat} (h : Holds (fun _ _ => True) heap v t part) (hclean : IsClean t) :
    ∃ more v', Yields (fun fuel => cloneConfigDictionary fuel heap v) (heap ++ more, v') ∧
      Holds Disjoint (heap ++ more) v' t (Set.Ico heap.length (heap ++ more).length) := by
  obtain ⟨more, v', hcopy, hheld⟩ := copy_spec (hasFunctionTree t) h
  refine ⟨more, v', (hasFunction_spec h).bind (g := fun keep fuel => copy keep fuel heap v) hcopy, ?_⟩
  rwa [copyTree_of_isClean hclean id] at hheld

variable {es : Entries P} {heap' : Heap P} {o : Obj P}

theorem Merged.trans {heap'' : Heap P} {es' : Entries P} (h : Merged heap heap' target es part)
    (h' : Merged heap' heap'' target es' (part ∪ Set.Ico heap.length heap'.length)) : Merged heap heap'' target es' part := by
  obtain ⟨hle, hkeeps, -⟩ := h
  obtain ⟨hle', hkeeps', hheld⟩ := h'
  refine ⟨hle.trans hle', fun x hx o ho => ?_, hheld.mono ?_⟩
  · have hlt : x < heap.length := (List.getElem?_eq_some_iff.1 ho).1
    exact hkeeps' x (fun hmem => hmem.elim hx fun hnew => absurd hlt (Nat.not_lt.2 hnew.1)) o (hkeeps x hx o ho)
  · rw [Set.union_assoc, Set.Ico_union_Ico_eq_Ico hle hle']

theorem merged_put {key : Text} (htarget : Holds Disjoint heap (.object target) (.node .plain low) part) (hpart : part ⊆ Set.Iio heap.length)
    (hkey : key ≠ underscoreProto) (hle : heap.length ≤ heap'.length) (hkeeps : Keeps heap heap' Set.univ) {v : Val P} {t : ObjectTree P}
    (hv : Holds Disjoint heap' v t (Set.Ico heap.length heap'.length)) :
    ∃ heap'', heap'.put target key v = some heap'' ∧ Merged heap heap'' target (low.set key t) part := by
  obtain ⟨o, at', others, ho, -, -, ha, -, -, hothers, hnot, -, -, hset⟩ := htarget.focus key
  have hlt : target < heap.length := hpart ha
  have ho' : heap'[target]? = some o := hkeeps target trivial o ho
  refine ⟨_, put_eq hkey ho', ?_, ?_, ?_⟩
  · rwa [List.length_set]
  · exact (hkeeps.mono (Set.subset_univ _)).trans (keeps_set (fun hmem : target ∈ compl part => hmem ha) _)
  · rw [List.length_set]
    have hnew : target ∉ Set.Ico heap.length heap'.length := fun hmem => absurd hlt (Nat.not_lt.2 hmem.1)
    refine hset _ v t _ ?_ ((hkeeps.mono (Set.subset_univ _)).trans (keeps_set hnot _)) (hv.frame (keeps_set hnew _)) ?_ hnew
    · rw [List.getElem?_set_self (by omega)]
    · exact Set.disjoint_left.2 fun x hx hx' => absurd (hpart (hothers hx')) (Nat.not_lt.2 hx.1)

theorem plainObject_object {a : Nat} (ho : heap[a]? = some o) : plainObject heap (.object a) = if o.kind ≠ .array then some a else none := by
  simp [plainObject, ho]

theorem overlay_of_not_plain {value : Option (ObjectTree P)} (h : ∀ l, value ≠ some (.node .plain l)) (high : ObjectTree P) : overlay value high = high :=
  (overlay_cases value high).elim id fun ⟨l, _, hplain, _⟩ => absurd hplain (h l)

theorem plainObject_get {key : Text} {at' : Set Nat} (hrun : IsRuntime heap) (hne : target ≠ objectPrototype) (ho : heap[target]? = some o)
    (hproper : o.proto = none ∨ o.proto = some objectPrototype) (hkey : key ≠ underscoreProto) (hlow : AreClean low)
    (hfound : (low.get key = none ∧ o.own.get key = none) ∨ ∃ t v, low.get key = some t ∧ o.own.get key = some v ∧ Holds Disjoint heap v t at') :
    ((heap.get target key).bind (plainObject heap) = none ∧ ∀ value, overlay (low.get key) value = value) ∨
    ∃ l a, low.get key = some (.node .plain l) ∧ o.own.get key = some (.object a) ∧ (heap.get target key).bind (plainObject heap) = some a ∧
      Holds Disjoint heap (.object a) (.node .plain l) at' := by
  rcases hfound with ⟨hnone, hown⟩ | ⟨t, v, hget, hown, hheld⟩
  · left
    refine ⟨?_, fun value => hnone ▸ overlay_none value⟩
    cases hread : heap.get target key with
    | none => rfl
    | some v =>
      obtain ⟨x, rfl⟩ := get_inherited hrun hne ho hproper hkey hown hread
      rfl
  · have hclean : IsClean t := hlow.get hget
    rw [get_own ho hown, hget]
    cases t with
    | atom x =>
      cases hheld
      exact .inl ⟨rfl, overlay_of_not_plain (fun l h => by cases h)⟩
    | node kind own =>
      have hlaid := hheld
      obtain ⟨a, found, below, rfl, -, hfound, rfl, -⟩ := hheld
      rw [Option.bind_some, plainObject_object hfound]
      cases hkind : found.kind with
      | plain =>
        rw [hkind] at hlaid
        exact .inr ⟨own, a, rfl, hown, rfl, hlaid⟩
      | array => exact .inl ⟨rfl, overlay_of_not_plain (fun l h => by cases h)⟩
      | builtin _ =>
        rw [hkind] at hclean
        exact hclean.elim
      | ofClass _ =>
        rw [hkind] at hclean
        exact hclean.elim

theorem mergeConfigEntry_clone {key : Text} {v : Val P} {value : ObjectTree P} {source : Set Nat} (htarget : Holds Disjoint heap (.object target) (.node .plain low) part)
    (hpart : part ⊆ Set.Iio heap.length) (hkey : key ≠ underscoreProto) (hv : Holds (fun _ _ => True) heap v value source) (hclean : IsClean value)
    (hplain : plainObject heap v = none) (hover : overlay (low.get key) value = value) :
    ∃ heap', Yields (fun fuel => mergeConfigEntry (mergeConfigEntries fuel) (cloneConfigDictionary fuel) target heap key v) heap' ∧
      Merged heap heap' target (low.set key (overlay (low.get key) value)) part := by
  obtain ⟨more, v', hclone, hheld⟩ := cloneConfigDictionary_spec hv hclean
  obtain ⟨heap', hput, hmerged⟩ := merged_put htarget hpart hkey (by simp) (keeps_append heap more Set.univ) hheld
  refine ⟨heap', (hclone.bind (g := fun cloned _ => cloned.1.put target key cloned.2) (Yields.of_forall fun _ => hput)).congr fun fuel => ?_, hover.symm ▸ hmerged⟩
  rw [mergeConfigEntry, hplain]
  cases (heap.get target key).bind (plainObject heap) <;> rfl

theorem mergeConfigEntries_of_each {source : Nat} (ho : heap[source]? = some o)
    (h : Yields (fun fuel => mergeEach (mergeConfigEntries fuel) (cloneConfigDictionary fuel) target heap o.own) heap') :
    Yields (fun fuel => mergeConfigEntries fuel heap target source) heap' :=
  Yields.of_succ (h.congr fun fuel => by simp [mergeConfigEntries, ho])

theorem Merged.fresh (h : Merged (heap ++ [o]) heap' heap.length es {heap.length}) :
    heap.length ≤ heap'.length ∧ Keeps heap heap' Set.univ ∧
      Holds Disjoint heap' (.object heap.length) (.node .plain es) (Set.Ico heap.length heap'.length) := by
  obtain ⟨hle, hkeeps, hheld⟩ := h
  rw [List.length_append, List.length_singleton] at hle hheld
  refine ⟨by omega, fun x _ found hfound => ?_, hheld.mono fun x hx => ?_⟩
  · have hlt : x < heap.length := (List.getElem?_eq_some_iff.1 hfound).1
    exact hkeeps x (fun hmem => absurd hlt (by simp [Set.mem_singleton_iff.1 hmem])) found (keeps_append heap [o] Set.univ x trivial found hfound)
  · rcases hx with rfl | hx
    · exact ⟨le_rfl, by omega⟩
    · exact ⟨by have := hx.1; omega, hx.2⟩

theorem holds_new (heap : Heap P) : Holds Disjoint (heap ++ [{ proto := some objectPrototype }]) (.object heap.length) (.node .plain .nil) {heap.length} :=
  ⟨heap.length, { proto := some objectPrototype }, ∅, rfl, rfl, List.getElem?_concat_length, rfl, fun _ => .inr rfl, Set.empty_subset _, disjoint_bot_right, rfl⟩

mutual
theorem mergeConfigEntry_spec {base : Nat} (hbase : 0 < base) {heap : Heap P} {target : Nat} {low : Entries P} {part : Set Nat} (hrun : IsRuntime heap)
    (htarget : Holds Disjoint heap (.object target) (.node .plain low) part) (hlow : AreClean low) (hle : base ≤ heap.length)
    (hpart : part ⊆ Set.Ico base heap.length) {key : Text} (hkey : key ≠ underscoreProto) {v : Val P} :
    ∀ {value : ObjectTree P} {source : Set Nat}, Holds (fun _ _ => True) heap v value source → source ⊆ Set.Iio base → IsClean value →
      ∃ heap', Yields (fun fuel => mergeConfigEntry (mergeConfigEntries fuel) (cloneConfigDictionary fuel) target heap key v) heap' ∧
        Merged heap heap' target (low.set key (overlay (low.get key) value)) part
  | .atom a, source, hv, hsource, hclean => by
    have hover : overlay (low.get key) (.atom a) = .atom a := (overlay_cases ..).elim id fun ⟨_, _, _, h, _⟩ => by cases h
    have hplain : plainObject heap v = none := by
      cases hv
      rfl
    exact mergeConfigEntry_clone htarget (hpart.trans Set.Ico_subset_Iio_self) hkey hv hclean hplain hover
  | .node .array own, source, hv, hsource, hclean => by
    have hover : overlay (low.get key) (.node .array own) = .node .array own := (overlay_cases ..).elim id fun ⟨_, _, _, h, _⟩ => by cases h
    have hplain : plainObject heap v = none := by
      obtain ⟨a, found, -, rfl, -, hfound, hkind, -⟩ := hv
      rw [plainObject_object hfound, if_neg (by simp [hkind])]
    exact mergeConfigEntry_clone htarget (hpart.trans Set.Ico_subset_Iio_self) hkey hv hclean hplain hover
  | .node .plain own, source, hv, hsource, hclean => by
    obtain ⟨s, found, below, rfl, hs, hfound, hkind, -, hbelow, -, hown⟩ := hv
    have hsplain : plainObject heap (.object s) = some s := by rw [plainObject_object hfound, if_pos (by simp [hkind])]
    have hown' : AreClean own := hclean
    obtain ⟨o, at', others, ho, hplain, hproper, ha, hat, hnat, hothers, hnot, hdisj, hvalue, hset⟩ := htarget.focus key
    have hne : target ≠ objectPrototype := fun h => by
      have hlow := (hpart ha).1
      rw [h, objectPrototype] at hlow
      omega
    rcases plainObject_get hrun hne ho (hproper hplain) hkey hlow hvalue with ⟨hread, hover⟩ | ⟨l, t, hget, howned, hread, hheld⟩
    · -- the source's object is merged into a new one
      obtain ⟨merged, heach, hfresh⟩ := mergeEach_spec hbase (hrun.keeps (keeps_append heap _ _)) (holds_new heap) trivial (hle.trans (by simp))
        (Set.singleton_subset_iff.2 ⟨hle, by simp⟩) (hown.frame (keeps_append heap _ _)) (hbelow.trans hsource) hown'
      rw [overlayEntries_nil hown'] at hfresh
      obtain ⟨hgrows, hkeeps, hnew⟩ := hfresh.fresh
      obtain ⟨heap', hput, hmerged⟩ := merged_put htarget (hpart.trans Set.Ico_subset_Iio_self) hkey hgrows hkeeps hnew
      have hmerge := mergeConfigEntries_of_each (keeps_append heap _ Set.univ s trivial found hfound) heach
      refine ⟨heap', (hmerge.bind (g := fun merged _ => merged.put target key (.object heap.length)) (Yields.of_forall fun _ => hput)).congr fun fuel => ?_,
        (hover (.node .plain own)).symm ▸ hmerged⟩
      rw [mergeConfigEntry, hread, hsplain]
    · -- it is merged into the target's own, which stays where it is
      obtain ⟨heap', heach, hgrows, hkeeps, hmerged⟩ := mergeEach_spec hbase hrun hheld (hlow.get hget) hle (hat.trans hpart) hown (hbelow.trans hsource) hown'
      refine ⟨heap', (mergeConfigEntries_of_each hfound heach).congr fun fuel => ?_, hgrows, ?_, ?_⟩
      · rw [mergeConfigEntry, hread, hsplain]
      · exact hkeeps.mono (Set.compl_subset_compl.2 hat)
      · have hover : overlay (low.get key) (.node .plain own) = .node .plain (overlayEntries l own) := by rw [hget, overlay]
        have hold : ({ o with own := o.own.set key (.object t) } : Obj P) = o := by rw [OrderedMap.set_of_get howned]
        have hfar : ∀ x ∈ part, x ∉ Set.Ico heap.length heap'.length := fun x hx hmem => absurd (hpart hx).2 (Nat.not_lt.2 hmem.1)
        have ho' : heap'[target]? = some o := hkeeps target (fun hmem => hnat hmem) o ho
        have hset' := hset heap' (.object t) _ _ (hold.symm ▸ ho') (hkeeps.mono fun x hx hmem => Set.disjoint_left.1 hdisj hmem hx) hmerged
          (Set.disjoint_union_left.2 ⟨hdisj, Set.disjoint_left.2 fun x hx hx' => hfar x (hothers hx') hx⟩) (fun hmem => hmem.elim hnat (hfar target ha))
        rw [hover]
        exact hset'.mono (Set.union_subset Set.subset_union_left (Set.union_subset_union_left _ hat))
theorem mergeEach_spec {base : Nat} (hbase : 0 < base) {heap : Heap P} {target : Nat} {low : Entries P} {part : Set Nat} (hrun : IsRuntime heap)
    (htarget : Holds Disjoint heap (.object target) (.node .plain low) part) (hlow : AreClean low) (hle : base ≤ heap.length)
    (hpart : part ⊆ Set.Ico base heap.length) {own : OrderedMap Text (Val P)} :
    ∀ {high : Entries P} {source : Set Nat}, HoldsEntries (fun _ _ => True) heap own high source → source ⊆ Set.Iio base → AreClean high →
      ∃ heap', Yields (fun fuel => mergeEach (mergeConfigEntries fuel) (cloneConfigDictionary fuel) target heap own) heap' ∧
        Merged heap heap' target (overlayEntries low high) part
  | .nil, source, hown, hsource, hclean => by
    cases hown
    refine ⟨heap, Yields.of_forall fun _ => rfl, le_rfl, fun _ _ _ h => h, ?_⟩
    exact htarget.mono Set.subset_union_left
  | .cons key value rest, source, hown, hsource, hclean => by
    obtain ⟨v, later, first, lpart, rfl, hfirst, hlater, -, hvalue, hrest⟩ := hown
    obtain ⟨hkey, -, hvclean, hrclean⟩ := hclean
    obtain ⟨heap', hentry, hmerged⟩ := mergeConfigEntry_spec hbase hrun htarget hlow hle hpart hkey hvalue (hfirst.trans hsource) hvclean
    have hkept : Keeps heap heap' (Set.Iio base) := hmerged.2.1.mono fun x hx hmem => absurd hx (Nat.not_lt.2 (hpart hmem).1)
    have hpart' : part ∪ Set.Ico heap.length heap'.length ⊆ Set.Ico base heap'.length :=
      Set.union_subset (hpart.trans (Set.Ico_subset_Ico_right hmerged.1)) (Set.Ico_subset_Ico_left hle)
    obtain ⟨heap'', heach, hmerged'⟩ := mergeEach_spec hbase (hrun.keeps (hkept.mono (Set.singleton_subset_iff.2 hbase))) hmerged.2.2
      (hlow.set hkey (IsClean.overlay (fun t => hlow.get) hvclean)) (hle.trans hmerged.1) hpart' (hrest.frame (hkept.mono (hlater.trans hsource)))
      (hlater.trans hsource) hrclean
    exact ⟨heap'', (hentry.bind heach).congr fun _ => rfl, hmerged.trans hmerged'⟩
end

def HoldingBelow (base : Nat) (heap : Heap P) (source : Nat) (es : Entries P) : Prop :=
  ∃ o, heap[source]? = some o ∧ source < base ∧ HoldsEntries (fun _ _ => True) heap o.own es (Set.Iio base)

theorem HoldingBelow.keeps {base : Nat} (hkept : Keeps heap heap' (Set.Iio base)) {source : Nat}
    (h : HoldingBelow base heap source es) : HoldingBelow base heap' source es := by
  obtain ⟨o, ho, hlt, hheld⟩ := h
  exact ⟨o, hkept source hlt o ho, hlt, hheld.frame hkept⟩

theorem mergeConfigSources_spec {base : Nat} (hbase : 0 < base) {sources : List Nat} {trees : List (Entries P)} (hrun : IsRuntime heap)
    (htarget : Holds Disjoint heap (.object target) (.node .plain low) part) (hlow : AreClean low) (hle : base ≤ heap.length)
    (hpart : part ⊆ Set.Ico base heap.length) (hsources : List.Forall₂ (HoldingBelow base heap) sources trees) (hclean : ∀ es ∈ trees, AreClean es) :
    ∃ heap', Yields (fun fuel => sources.foldlM (fun heap' source => mergeConfigEntries fuel heap' target source) heap) heap' ∧
      Merged heap heap' target (trees.foldl overlayEntries low) part := by
  induction sources generalizing trees heap low part with
  | nil =>
    cases hsources
    exact ⟨heap, Yields.of_forall fun _ => rfl, le_rfl, fun _ _ _ h => h, htarget.mono Set.subset_union_left⟩
  | cons source sources ih =>
    cases hsources with | @cons _ es _ trees hsource hrest
    obtain ⟨o, ho, hlt, hheld⟩ := hsource
    have hes : AreClean es := hclean es List.mem_cons_self
    obtain ⟨heap', heach, hmerged⟩ := mergeEach_spec hbase hrun htarget hlow hle hpart hheld (le_refl _) hes
    have hkept : Keeps heap heap' (Set.Iio base) := hmerged.2.1.mono fun x hx hmem => absurd hx (Nat.not_lt.2 (hpart hmem).1)
    have hpart' : part ∪ Set.Ico heap.length heap'.length ⊆ Set.Ico base heap'.length :=
      Set.union_subset (hpart.trans (Set.Ico_subset_Ico_right hmerged.1)) (Set.Ico_subset_Ico_left hle)
    obtain ⟨heap'', hfold, hmerged'⟩ := ih (hrun.keeps (hkept.mono (Set.singleton_subset_iff.2 hbase))) hmerged.2.2 (AreClean.overlay hlow hes)
      (hle.trans hmerged.1) hpart' (hrest.imp fun _ _ => HoldingBelow.keeps hkept) fun es hmem => hclean es (List.mem_cons_of_mem _ hmem)
    exact ⟨heap'', ((mergeConfigEntries_of_each ho heach).bind hfold).congr fun _ => rfl, hmerged.trans hmerged'⟩

end Merge

theorem AreClean.foldl {low : Entries P} (hlow : AreClean low) {trees : List (Entries P)} (h : ∀ es ∈ trees, AreClean es) :
    AreClean (trees.foldl overlayEntries low) := by
  induction trees generalizing low with
  | nil => exact hlow
  | cons es rest ih => exact ih (AreClean.overlay hlow (h es List.mem_cons_self)) fun es hmem => h es (List.mem_cons_of_mem _ hmem)

/-- Object.prototype, Array.prototype and Function.prototype. -/
private def intrinsics : Heap Nat :=
  [{ own := [("toString".toList, .atom (.function "toString".toList))], proto := none },
   { kind := .array, proto := some objectPrototype },
   { proto := some objectPrototype }]

/-- `{ "__proto__": { "admin": 1 } }`, as parsed from JSON. -/
private def polluting : Heap Nat :=
  intrinsics ++
    [{ own := [(underscoreProto, .object 4)], proto := some objectPrototype },
     { own := [("admin".toList, .atom (.primitive 1))], proto := some objectPrototype }]

end Fluo.Config
