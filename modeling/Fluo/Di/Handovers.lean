import Fluo.Di.Entries
import Fluo.Di.Records
/-!
# What is handed to whom

An instance with an `onDestroy` method that a container gives to a construction is cached in front of it, as long as every
step is in order: a construction asks only for what is or will be cached in front of it, and what a constructor, a factory or
a value provider gives is new to the containers, or cached in front of who gets it.
-/

namespace Fluo.Di

open Lib (Ahead)

variable {τ : Type}

/-! ## Instances -/

mutual
/-- The objects with an `onDestroy` method in a value: those of the elements, for the array of a multi provider. -/
def Value.disposables : Value → List Obj
  | .undefined => []
  | .object o => if o.isDisposable then [o] else []
  | .array values => disposablesOf values
def disposablesOf : List Value → List Obj
  | [] => []
  | x :: values => x.disposables ++ disposablesOf values
end

theorem mem_disposablesOf {o : Obj} {values : List Value} : o ∈ disposablesOf values ↔ ∃ x ∈ values, o ∈ x.disposables := by
  induction values with
  | nil => simp [disposablesOf]
  | cons x values ih => simp [disposablesOf, ih]

/-- What a promise is disposed for: a value that is an object with an `onDestroy` method. -/
def Value.instance? : Value → Option Obj
  | .object o => if o.isDisposable then some o else none
  | _ => none

theorem Value.mem_disposables_of_instance {x : Value} {o : Obj} (h : x.instance? = some o) : x = .object o ∧ o ∈ x.disposables := by
  unfold Value.instance? at h
  split at h
  · rename_i o'
    split at h <;> cases h
    rename_i hd
    exact ⟨rfl, by simp [Value.disposables, hd]⟩
  · cases h

def Status.value? : Status τ → Option Value
  | .fulfilled x => some x
  | _ => none

section Instances
variable (s : State τ)

def State.valueOf (q : PromiseId) : Option Value := (s.status q).bind Status.value?

def State.instanceOf (q : PromiseId) : Option Obj := (s.valueOf q).bind Value.instance?

/-- Every object with an `onDestroy` method that a provider has given so far. -/
def State.objects : List Obj :=
  s.log.flatMap (·.value.disposables) ++ (List.range s.promises).flatMap fun q => disposablesOf (s.valueOf q).toList

end Instances

/-! ## Steps in order -/

/-- The construction that the innermost methods of a call are for: its container, and its promise unless it is transient. -/
def innermost : List (Frame τ) → Option (ContainerId × Option PromiseId)
  | [] => none
  | .build c _ _ _ promise :: _ => some (c, promise)
  | _ :: st => innermost st

section Conditions
variable [DecidableEq τ] (s : State τ)

/-- `p` is disposed after `q`, as the caches are now: it has the place in front of `q` in a container, or it is at the root
and `q` is not. -/
def State.OutlivesNow (p q : PromiseId) : Prop :=
  (∃ c < s.containers, Ahead (s.entryPromises c) p q) ∨
    ∃ at' ∈ s.keyOf p, ∃ at'' ∈ s.keyOf q, at'.1 = root ∧ at''.1 ≠ root

/-- The same within one container, where `p` was cached earlier. -/
def State.LeadsNow (p q : PromiseId) : Prop :=
  ∃ c < s.containers, Ahead (s.entryPromises c) p q ∧ Ahead (s.cachedIn c) p q

/-- What is cached of a provider, if it is neither an alias nor transient. -/
def NormalizedProvider.entry (p : NormalizedProvider τ) (c : ContainerId) (key : CacheKey τ) : Option (ContainerId × CacheKey τ) :=
  match p.type with
  | .existing _ => none
  | _ => if p.scope = .transient then none else some (c, key)

/-- The entry of a cache that the running call turns to. -/
def State.target (v : Call τ) : Option (ContainerId × CacheKey τ) :=
  match v.control with
  | .resolve c t _ =>
    if t ∈ chainTokens v.stack then none
    else match s.graph.registration c t, s.graph.collectMultiProviders c t with
      | none, _ :: _ => none
      | _, _ => (s.graph.lookupProvider c t).bind fun p => p.entry (s.graph.singleSite c p) (.token p.provide)
  | .multi c p => p.entry (s.graph.multiSite c p) (.provider p)
  | _ => none

/-- The construction `q` may ask for the entry: it is cached in another container, or the entry has its place in front of
`q`. So has an entry that is made now, if `q` is not in the cache yet; and the token-keyed entries are in front of the
others. -/
def State.MayAsk (q : PromiseId) (c : ContainerId) (key : CacheKey τ) : Prop :=
  ∀ at' ∈ s.keyOf q, at'.1 = c → q ∈ s.unpublished ∨ q ∈ s.entryPromises c →
    key.isToken = true ∧ at'.2.isToken = false ∨
      key.isToken = at'.2.isToken ∧ (q ∈ s.unpublished ∨ ∃ p ∈ s.cached c key, Ahead (s.entryPromises c) p q)

/-- A construction with these dependencies may give object `o` in `x`, which the containers already have: it is cached in front
of the one that gets it, which is `promise` or, below a transient construction, the construction the call goes on with. If
`x` itself is `o`, what the factory was given is disposed after it. -/
def State.MayPass (deps : List Value) (st : List (Frame τ)) (x : Value) (o : Obj) : Option PromiseId → Prop
  | some q => (∃ p < s.promises, s.instanceOf p = some o ∧ s.LeadsNow p q) ∧
      (x.instance? = some o → ∀ o' ∈ disposablesOf deps, o' ≠ o → (∃ p < s.promises, s.instanceOf p = some o') →
        ∃ p' < s.promises, s.instanceOf p' = some o' ∧ ∀ p < s.promises, s.instanceOf p = some o → s.OutlivesNow p' p)
  | none => ∀ at' ∈ innermost st, ∀ q ∈ at'.2, q ∈ s.entryPromises at'.1 → (∃ p < s.promises, s.instanceOf p = some o) →
      ∃ p < s.promises, s.instanceOf p = some o ∧ s.OutlivesNow p q

def State.MayGive (promise : Option PromiseId) (deps : List Value) (st : List (Frame τ)) (x : Value) : Prop :=
  ∀ o ∈ x.disposables, o ∈ s.objects → s.MayPass deps st x o promise

/-- What the construction on top of the stack may give. -/
def State.MayReturn (x : Value) : List (Frame τ) → Prop
  | .build _ _ _ deps promise :: st => s.MayGive promise deps st x
  | _ => True

/-- The construction on top of the stack rejects, and its entry holds no newer promise. -/
def State.RejectsOwn : List (Frame τ) → Prop
  | .build _ _ _ _ (some q) :: _ => ∀ at' ∈ s.keyOf q, ∀ p ∈ s.cached at'.1 at'.2, p = q
  | _ => True

/-- The innermost method of a call may go on. -/
def State.MayResume (st : List (Frame τ)) : Control τ → Prop
  | .value o => s.MayReturn (.object o) st
  | .rejected _ => s.RejectsOwn st
  | _ => True

/-- The value that a constructor or a factory ends with. -/
def Outcome.value? (nextObject : Nat) : Outcome → Option Value
  | .created disposable => some (.object (.made nextObject disposable))
  | .returned x => some x
  | .threw _ => none

instance (p q : PromiseId) : Decidable (s.OutlivesNow p q) := inferInstanceAs (Decidable (_ ∨ _))

instance (p q : PromiseId) : Decidable (s.LeadsNow p q) := inferInstanceAs (Decidable (∃ c < _, _ ∧ _))

instance (q : PromiseId) (c : ContainerId) (key : CacheKey τ) : Decidable (s.MayAsk q c key) := inferInstanceAs (Decidable (∀ at' ∈ _, _))

instance (deps : List Value) (st : List (Frame τ)) (x : Value) (o : Obj) : (promise : Option PromiseId) → Decidable (s.MayPass deps st x o promise)
  | some _ => inferInstanceAs (Decidable (_ ∧ _))
  | none => inferInstanceAs (Decidable (∀ at' ∈ _, _))

instance (x : Value) : (st : List (Frame τ)) → Decidable (s.MayReturn x st)
  | .build _ _ _ deps promise :: st => inferInstanceAs (Decidable (∀ o ∈ x.disposables, o ∈ s.objects → s.MayPass deps st x o promise))
  | [] | .chain _ _ :: _ | .multi _ _ _ :: _ => inferInstanceAs (Decidable True)

instance : (st : List (Frame τ)) → Decidable (s.RejectsOwn st)
  | .build _ _ _ _ (some q) :: _ => inferInstanceAs (Decidable (∀ at' ∈ s.keyOf q, ∀ p ∈ s.cached at'.1 at'.2, p = q))
  | [] | .chain _ _ :: _ | .multi _ _ _ :: _ | .build _ _ _ _ none :: _ => inferInstanceAs (Decidable True)

instance (st : List (Frame τ)) : (control : Control τ) → Decidable (s.MayResume st control)
  | .value o => inferInstanceAs (Decidable (s.MayReturn (.object o) st))
  | .rejected _ => inferInstanceAs (Decidable (s.RejectsOwn st))
  | .resolve _ _ _ | .multi _ _ | .cached _ | .user | .fulfilled _ => inferInstanceAs (Decidable True)

/-- A step that keeps the entries of the caches in order. -/
def State.InOrder : Label τ → Prop
  | .override _ _ => False
  | .advance => ∀ k ∈ s.running, ∀ v ∈ s.call k, ∀ entry ∈ s.target v, ∀ at' ∈ innermost v.stack, ∀ q ∈ at'.2,
      s.MayAsk q entry.1 entry.2
  | .settle k outcome => ∀ v ∈ s.call k, ∀ x ∈ outcome.value? s.nextObject, s.MayReturn x v.stack
  | .resume k => ∀ v ∈ s.call k, s.MayResume v.stack v.control
  | _ => True

instance : (l : Label τ) → Decidable (s.InOrder l)
  | .override _ _ => inferInstanceAs (Decidable False)
  | .advance => inferInstanceAs (Decidable (∀ k ∈ s.running, ∀ v ∈ s.call k, ∀ entry ∈ s.target v, ∀ at' ∈ innermost v.stack, ∀ q ∈ at'.2,
      s.MayAsk q entry.1 entry.2))
  | .settle k outcome => inferInstanceAs (Decidable (∀ v ∈ s.call k, ∀ x ∈ outcome.value? s.nextObject, s.MayReturn x v.stack))
  | .resume k => inferInstanceAs (Decidable (∀ v ∈ s.call k, s.MayResume v.stack v.control))
  | .register _ _ | .createRequestScope _ | .resolve _ _ | .dispose _ | .stale _ _ | .disposal _ _ => inferInstanceAs (Decidable True)

end Conditions

variable [DecidableEq τ] {s s' base : State τ} {k : CallId} {v w : Call τ} {sync : Bool} {placed placed' order order' : List PromiseId}
  {p q r : PromiseId} {o : Obj} {x : Value}

theorem mem_objects (hw : WF s) : o ∈ s.objects ↔
    (∃ b ∈ s.log, o ∈ b.value.disposables) ∨ ∃ q x, s.valueOf q = some x ∧ o ∈ x.disposables := by
  simp only [State.objects, List.mem_append, List.mem_flatMap, mem_disposablesOf, Option.mem_toList, List.mem_range]
  refine or_congr Iff.rfl ⟨fun ⟨q, _, x, hx, ho⟩ => ⟨q, x, hx, ho⟩, fun ⟨q, x, hx, ho⟩ => ⟨q, ?_, x, hx, ho⟩⟩
  simp only [State.valueOf, State.status, Option.bind_eq_some_iff, Option.map_eq_some_iff] at hx
  obtain ⟨_, ⟨r, hr, -⟩, -⟩ := hx
  exact hw.promiseBound q r hr

omit [DecidableEq τ] in
theorem valueOf_of_instance (h : s.instanceOf q = some o) : s.valueOf q = some (.object o) ∧ o ∈ (Value.object o).disposables := by
  obtain ⟨x, hx, ho⟩ := Option.bind_eq_some_iff.1 h
  obtain ⟨rfl, hmem⟩ := x.mem_disposables_of_instance ho
  exact ⟨hx, hmem⟩

omit [DecidableEq τ] in
theorem instanceOf_eq (hv : s.valueOf q = some x) : s.instanceOf q = x.instance? := by simp [State.instanceOf, hv]

theorem WF.mem_objects_of_instance (hw : WF s) (h : s.instanceOf q = some o) : o ∈ s.objects := by
  obtain ⟨hx, ho⟩ := valueOf_of_instance h
  exact (mem_objects hw).2 (.inr ⟨q, _, hx, ho⟩)

omit [DecidableEq τ] in
theorem status_of_valueOf (h : s.valueOf q = some x) : s.status q = some (.fulfilled x) := by
  obtain ⟨σ, hσ, hx⟩ := Option.bind_eq_some_iff.1 h
  cases σ <;> cases hx
  exact hσ

theorem WF.bound_of_valueOf (hw : WF s) (h : s.valueOf q = some x) : q < s.promises := by
  obtain ⟨r, hr, -⟩ := Option.map_eq_some_iff.1 (status_of_valueOf h)
  exact hw.promiseBound q r hr

theorem State.Placing.leads (hw : WF s) (h : s.Placing placed) (hl : s.LeadsNow p q) : s.Leads (placed ++ s.unpublished) p q := by
  obtain ⟨c, -, ha, ha'⟩ := hl
  have hs := h.snapshot hw c
  rw [entryPromises_eq] at ha
  obtain ⟨_, key, _, key', hp, hq, ho⟩ := hs.outlives h.nodup ha
  obtain ⟨_, hp'⟩ := hs.keyOf ha.left
  obtain ⟨_, hq'⟩ := hs.keyOf ha.right
  rw [hp] at hp'
  rw [hq] at hq'
  cases hp'
  cases hq'
  refine ⟨c, key, key', hp, hq, fun ht => ?_, ha'.mono ((h.cached c).trans (List.sublist_append_left _ _))⟩
  rcases ho with ⟨rfl, hne⟩ | ⟨-, ⟨ht', -⟩ | ⟨heq, -⟩⟩
  · exact absurd rfl hne
  · exact ht'
  · exact heq.trans ht

theorem State.Placing.outlives (hw : WF s) (h : s.Placing placed) (hl : s.OutlivesNow p q) :
    s.Outlives (placed ++ s.unpublished) p q := by
  rcases hl with ⟨c, -, ha⟩ | ⟨⟨c, key⟩, hp, ⟨c', key'⟩, hq, hroot⟩
  · rw [entryPromises_eq] at ha
    exact (h.snapshot hw c).outlives h.nodup ha
  · exact ⟨c, key, c', key', hp, hq, .inl hroot⟩

/-! ## Founders -/

/-- The first promise with object `o`: every other one is cached in the same container, later, and is disposed before it. -/
def State.Founder (s : State τ) (order : List PromiseId) (o : Obj) (p : PromiseId) : Prop :=
  s.instanceOf p = some o ∧ ∀ q, s.instanceOf q = some o → p = q ∨ s.Leads order p q

omit [DecidableEq τ] in
theorem State.Founder.unique (hn : order.Nodup) (h : s.Founder order o p) (h' : s.Founder order o q) : p = q := by
  rcases h.2 q h'.1 with he | hl
  · exact he
  rcases h'.2 p h.1 with he | hl'
  · exact he.symm
  obtain ⟨_, _, _, -, -, -, ha⟩ := hl
  obtain ⟨_, _, _, -, -, -, ha'⟩ := hl'
  exact absurd ha' (Ahead.asymm hn ha)

structure Books (s : State τ) (placed : List PromiseId) : Prop where
  placing : s.Placing placed
  founder : ∀ q o, s.instanceOf q = some o → ∃ p, s.Founder (placed ++ s.unpublished) o p
  kept : ∀ q o p, s.instanceOf q = some o → s.Cached q → s.Founder (placed ++ s.unpublished) o p → s.Cached p
  values : ∀ q x, s.valueOf q = some x → ∀ o ∈ x.disposables, ∀ p, s.Founder (placed ++ s.unpublished) o p →
    p = q ∨ s.Leads (placed ++ s.unpublished) p q

structure Advances (s : State τ) (placed : List PromiseId) (s' : State τ) (placed' : List PromiseId) : Prop
    extends State.Extends s placed s' placed' where
  keyOf : ∀ q at', s.keyOf q = some at' → s'.keyOf q = some at'
  objects : ∀ o ∈ s.objects, o ∈ s'.objects
  values : ∀ q x, s.valueOf q = some x → s'.valueOf q = some x
  founder : ∀ o ∈ s.objects, ∀ p, s'.Founder (placed' ++ s'.unpublished) o p → s.Founder (placed ++ s.unpublished) o p
  gains : ∀ q o, s'.instanceOf q = some o → s.instanceOf q = some o ∨ o ∉ s.objects ∧ s'.Founder (placed' ++ s'.unpublished) o q ∨
    ∃ p, s.instanceOf p = some o ∧ s.Cached p ∧ s.Leads (placed ++ s.unpublished) p q

namespace Advances

omit [DecidableEq τ] in
theorem leads (hk : ∀ q at', s.keyOf q = some at' → s'.keyOf q = some at') (ho : List.Sublist order order')
    (h : s.Leads order p q) : s'.Leads order' p q := by
  obtain ⟨c, key, key', hp, hq, ht, ha⟩ := h
  exact ⟨c, key, key', hk p _ hp, hk q _ hq, ht, ha.mono ho⟩

omit [DecidableEq τ] in
theorem outlives (hk : ∀ q at', s.keyOf q = some at' → s'.keyOf q = some at') (ho : List.Sublist order order')
    (h : s.Outlives order p q) : s'.Outlives order' p q := by
  obtain ⟨c, key, c', key', hp, hq, h⟩ := h
  exact ⟨c, key, c', key', hk p _ hp, hk q _ hq, h.imp_right fun ⟨hc, h⟩ => ⟨hc, h.imp_right fun ⟨ht, ha⟩ => ⟨ht, ha.mono ho⟩⟩⟩

end Advances

theorem WF.valueOf_unpublished (hw : WF s) (hq : q ∈ s.unpublished) : s.valueOf q = none := by
  rcases hw.unpublished with hu | ⟨k, -, hpre⟩
  · rw [hu] at hq; cases hq
  · obtain ⟨b, hb, rfl⟩ := List.mem_map.1 (hpre.subset hq)
    obtain ⟨key, hr, -⟩ := hw.building k b hb
    simp [State.valueOf, State.status, hr, Status.value?]

theorem State.Extends.cached (hw : WF s) (he : s.Extends placed s' placed') (hv : (s.valueOf q).isSome) (hq : s'.Cached q) :
    s.Cached q := by
  obtain ⟨x, hx⟩ := Option.isSome_iff_exists.1 hv
  rcases he.live q (.inr hq) with (hu | hc) | hle
  · rw [hw.valueOf_unpublished hu] at hx; cases hx
  · exact hc
  · exact absurd (hw.bound_of_valueOf hx) (Nat.not_lt.2 hle)

section Step
variable (hw : WF s) (hb : Books s placed) (he : s.Extends placed s' placed') (hp' : s'.Placing placed')
  (hk : ∀ q at', s.keyOf q = some at' → s'.keyOf q = some at')
  (hkept : ∀ p q, (s.valueOf p).isSome → s.Cached p → s.Leads (placed ++ s.unpublished) p q → s'.Cached q → s'.Cached p)
include hw hb he hp' hk hkept

theorem Books.same (hval : ∀ q, s'.valueOf q = s.valueOf q) : Books s' placed' ∧
    ∀ o p, s'.Founder (placed' ++ s'.unpublished) o p → s.Founder (placed ++ s.unpublished) o p := by
  have hinst (q : PromiseId) : s'.instanceOf q = s.instanceOf q := congrArg (·.bind Value.instance?) (hval q)
  have hmono {o : Obj} {p : PromiseId} (hf : s.Founder (placed ++ s.unpublished) o p) :
      s'.Founder (placed' ++ s'.unpublished) o p := by
    refine ⟨(hinst p).trans hf.1, fun q hq => ?_⟩
    rw [hinst q] at hq
    exact (hf.2 q hq).imp_right (Advances.leads hk he.order)
  have hback {o : Obj} {p : PromiseId} (hf : s'.Founder (placed' ++ s'.unpublished) o p) :
      s.Founder (placed ++ s.unpublished) o p := by
    obtain ⟨p₀, hp₀⟩ := hb.founder p o ((hinst p).symm.trans hf.1)
    rwa [hf.unique hp'.nodup (hmono hp₀)]
  refine ⟨⟨hp', fun q o hq => ?_, fun q o p hq hc hf => ?_, fun q x hx o ho p hf => ?_⟩, fun o p => hback⟩
  · rw [hinst q] at hq
    exact (hb.founder q o hq).imp fun _ => hmono
  · rw [hinst q] at hq
    have hf := hback hf
    rcases hf.2 q hq with rfl | hl
    · exact hc
    have hqs : (s.valueOf q).isSome := by rw [(valueOf_of_instance hq).1]; rfl
    exact hkept p q (by rw [(valueOf_of_instance hf.1).1]; rfl) (hb.kept q o p hq (he.cached hw hqs hc) hf) hl hc
  · rw [hval q] at hx
    exact (hb.values q x hx o ho p (hback hf)).imp_right (Advances.leads hk he.order)

theorem Books.give (hr : s.valueOf r = none) (hval : ∀ q, s'.valueOf q = if r = q then some x else s.valueOf q)
    (hgive : ∀ o ∈ x.disposables, o ∈ s.objects → ∃ p, s.instanceOf p = some o ∧ s.Cached p ∧ s.Leads (placed ++ s.unpublished) p r) :
    Books s' placed' ∧
      (∀ o ∈ s.objects, ∀ p, s'.Founder (placed' ++ s'.unpublished) o p → s.Founder (placed ++ s.unpublished) o p) ∧
      ∀ o, x.instance? = some o → o ∉ s.objects → s'.Founder (placed' ++ s'.unpublished) o r := by
  have hold {q : PromiseId} (hq : r ≠ q) : s'.instanceOf q = s.instanceOf q := by
    simp [State.instanceOf, hval q, hq]
  have hnew : s'.instanceOf r = x.instance? := by simp [State.instanceOf, hval r]
  have hr' : s.instanceOf r = none := by simp [State.instanceOf, hr]
  have hne {q : PromiseId} {o : Obj} (hq : s.instanceOf q = some o) : r ≠ q := by
    rintro rfl
    rw [hr'] at hq
    cases hq
  -- who leads a holder of an object the containers had leads `r` too, if `r` gets the object
  have hfront {o : Obj} {p : PromiseId} (ho : o ∈ x.disposables) (hmem : o ∈ s.objects)
      (hf : s.Founder (placed ++ s.unpublished) o p) : s.Leads (placed ++ s.unpublished) p r := by
    obtain ⟨p', hp', -, hl⟩ := hgive o ho hmem
    rcases hf.2 p' hp' with rfl | hl'
    · exact hl
    · exact hl'.trans hb.placing.nodup hl
  have hmono {o : Obj} {p : PromiseId} (hf : s.Founder (placed ++ s.unpublished) o p) :
      s'.Founder (placed' ++ s'.unpublished) o p := by
    refine ⟨(hold (hne hf.1)).trans hf.1, fun q hq => ?_⟩
    by_cases hrq : r = q
    · subst hrq
      rw [hnew] at hq
      exact .inr (Advances.leads hk he.order (hfront (x.mem_disposables_of_instance hq).2 (hw.mem_objects_of_instance hf.1) hf))
    · rw [hold hrq] at hq
      exact (hf.2 q hq).imp_right (Advances.leads hk he.order)
  have hheld {o : Obj} {q : PromiseId} (ho : o ∈ s.objects) (hq : s'.instanceOf q = some o) : ∃ p, s.instanceOf p = some o := by
    by_cases hrq : r = q
    · subst hrq
      rw [hnew] at hq
      obtain ⟨p', hp', -⟩ := hgive o (x.mem_disposables_of_instance hq).2 ho
      exact ⟨p', hp'⟩
    · exact ⟨q, (hold hrq).symm.trans hq⟩
  have hback {o : Obj} {p : PromiseId} (ho : o ∈ s.objects) (hf : s'.Founder (placed' ++ s'.unpublished) o p) :
      s.Founder (placed ++ s.unpublished) o p := by
    obtain ⟨q, hq⟩ := hheld ho hf.1
    obtain ⟨p₀, hp₀⟩ := hb.founder q o hq
    rwa [hf.unique hp'.nodup (hmono hp₀)]
  have hfirst {o : Obj} (hx : x.instance? = some o) (ho : o ∉ s.objects) : s'.Founder (placed' ++ s'.unpublished) o r := by
    refine ⟨hnew.trans hx, fun q hq => ?_⟩
    by_cases hrq : r = q
    · exact .inl hrq
    · rw [hold hrq] at hq
      exact absurd (hw.mem_objects_of_instance hq) ho
  have hfounder {o : Obj} {p : PromiseId} (hx : x.instance? = some o) (ho : o ∉ s.objects)
      (hf : s'.Founder (placed' ++ s'.unpublished) o p) : p = r := hf.unique hp'.nodup (hfirst hx ho)
  refine ⟨⟨hp', fun q o hq => ?_, fun q o p hq hc hf => ?_, fun q x' hx o ho p hf => ?_⟩, fun o ho p => hback ho, fun o => hfirst⟩
  · by_cases ho : o ∈ s.objects
    · obtain ⟨p, hp⟩ := hheld ho hq
      exact (hb.founder p o hp).imp fun _ => hmono
    · by_cases hrq : r = q
      · subst hrq
        exact ⟨r, hfirst (hnew.symm.trans hq) ho⟩
      · exact absurd (hw.mem_objects_of_instance ((hold hrq).symm.trans hq)) ho
  · have hstays {p : PromiseId} (hf : s.Founder (placed ++ s.unpublished) o p) (hcached : s.Cached p)
        (hl : s.Leads (placed ++ s.unpublished) p q) : s'.Cached p :=
      hkept p q (by rw [(valueOf_of_instance hf.1).1]; rfl) hcached hl hc
    by_cases hrq : r = q
    · subst hrq
      rw [hnew] at hq
      by_cases ho : o ∈ s.objects
      · have hdisp := (x.mem_disposables_of_instance hq).2
        obtain ⟨p', hp', hcached, -⟩ := hgive o hdisp ho
        exact hstays (hback ho hf) (hb.kept p' o p hp' hcached (hback ho hf)) (hfront hdisp ho (hback ho hf))
      · rwa [hfounder hq ho hf]
    · rw [hold hrq] at hq
      have hf := hback (hw.mem_objects_of_instance hq) hf
      rcases hf.2 q hq with rfl | hl
      · exact hc
      have hqs : (s.valueOf q).isSome := by rw [(valueOf_of_instance hq).1]; rfl
      exact hstays hf (hb.kept q o p hq (he.cached hw hqs hc) hf) hl
  · rw [hval q] at hx
    split at hx
    · rename_i hrq
      subst hrq
      cases hx
      by_cases hmem : o ∈ s.objects
      · exact .inr (Advances.leads hk he.order (hfront ho hmem (hback hmem hf)))
      · by_cases hrp : r = p
        · exact .inl hrp.symm
        · exact absurd (hw.mem_objects_of_instance ((hold hrp).symm.trans hf.1)) hmem
    · have hmem : o ∈ s.objects := (mem_objects hw).2 (.inr ⟨q, x', hx, ho⟩)
      exact (hb.values q x' hx o ho p (hback hmem hf)).imp_right (Advances.leads hk he.order)

end Step

/-! ## What a step hands on -/

theorem step_resume (hs : Di.step s (.resume k) = some s') : ∃ v, s.call k = some v ∧ s.resume k v = some s' := by
  unfold Di.step at hs
  split at hs
  · cases hs
  · exact Option.bind_eq_some_iff.1 hs

theorem step_settle {outcome : Outcome} (hs : Di.step s (.settle k outcome) = some s') :
    ∃ v, s.call k = some v ∧ s.settle k v outcome = some s' := by
  unfold Di.step at hs
  split at hs
  · cases hs
  · exact Option.bind_eq_some_iff.1 hs

theorem Inv.step_stays (hi : Inv s) {l : Label τ} (hl : s.InOrder l) (hs : Di.step s l = some s') {d : ContainerId} {key : CacheKey τ}
    (hp : s.cached d key = some p) : s'.cached d key = some p ∨ (∃ e, s'.status p = some (.rejected e)) ∨
      (s'.container d).cache = ∅ ∧ ∃ errors, (s.container d).disposal = .destroying [] errors := by
  rcases hi.step_cached hs hp with hp' | hloses
  · exact .inl hp'
  cases hloses with
  | override => exact hl.elim
  | @rejects k v e c pr rest deps q st hcall hctl hst hk =>
    have hl := hl v hcall
    simp only [hctl, State.MayResume, State.RejectsOwn, hst] at hl
    obtain rfl := hl _ hk p hp
    obtain ⟨key', hr, -⟩ := hi.building k (c, pr, p) (by rw [buildsOf_eq hcall, hst]; exact List.mem_cons_self)
    obtain ⟨v', hv', hs⟩ := step_resume hs
    rw [hcall] at hv'
    cases hv'
    simp only [State.resume, hctl, hst, Option.some.injEq] at hs
    subst hs
    refine .inr (.inl ⟨e, ?_⟩)
    show ((s.fail (some p) e).goOn false k _).status p = _
    rw [goOn_status]
    simp [State.fail, State.reject, hr, State.status, State.setPromise, State.modifyCache, State.setContainer]
  | @disposed c error =>
    cases step_cases hs with
    | disposal _ ht =>
      rcases continueDisposal_cache_eq ht d with hc | ⟨rfl, hc, hd⟩
      · exact .inl ((congrArg (AList.lookup key) hc).trans hp)
      · exact .inr (.inr ⟨hc, hd⟩)

theorem Inv.step_kept (hi : Inv s) {l : Label τ} (hl : s.InOrder l) (hs : Di.step s l = some s') (hv : (s.valueOf p).isSome)
    (hp : s.Cached p) (hlead : s.Leads order p q) (hq : s'.Cached q) : s'.Cached p := by
  obtain ⟨d, key, hp⟩ := hp
  rcases hi.step_stays hl hs hp with hp' | ⟨e, he⟩ | ⟨hempty, -⟩
  · exact ⟨d, key, hp'⟩
  · obtain ⟨x, hx⟩ := Option.isSome_iff_exists.1 hv
    rw [hi.step_status hs (status_of_valueOf hx) nofun] at he
    cases he
  · obtain ⟨c, key', key'', hkp, hkq, -⟩ := hlead
    rw [hi.cached_keyOf hp] at hkp
    cases hkp
    obtain ⟨c', key₃, hq⟩ := hq
    have hkq' := (hi.step hs).cached_keyOf hq
    rw [hi.step_keyOf hs hkq] at hkq'
    cases hkq'
    simp [State.cached, hempty] at hq

/-- What a turn makes of the values of the promises: nothing, or the construction on top of the stack gives one. -/
inductive Hands (s : State τ) (v : Call τ) (s' : State τ) (w : Call τ) : Prop
  | silent : (∀ q, s'.valueOf q = s.valueOf q) → (∀ o, o ∈ s'.objects ↔ o ∈ s.objects) →
      (∀ x, w.control = .fulfilled x → v.control ≠ .user ∧ ∀ o, v.control ≠ .value o) → Hands s v s' w
  | gives {c p rest deps promise st x} : v.stack = .build c p rest deps promise :: st →
      v.control = .user ∨ (∃ o, v.control = .value o ∧ x = .object o) → w.stack = st → w.control = .fulfilled x →
      (∀ q, s'.valueOf q = if promise = some q then some x else s.valueOf q) →
      (∀ o, o ∈ s'.objects ↔ o ∈ s.objects ∨ o ∈ x.disposables) → Hands s v s' w

omit [DecidableEq τ] in
theorem valueOf_congr (h : s'.promise = s.promise) (q : PromiseId) : s'.valueOf q = s.valueOf q := by
  simp [State.valueOf, State.status, h]

theorem Inv.turn_hands (hi : Inv s) (hv : s.call k = some v) (hrun : s.running = none ∨ s.running = some k) (ht : Turn s v base sync w)
    (hvalue : ∀ o c p rest deps st, v.control = .value o → v.stack ≠ .build c p rest deps none :: st) :
    Hands s v (base.goOn sync k w) w := by
  have hi' : Inv (base.goOn sync k w) := hi.turn hv hrun ht
  have hsilent (hval : ∀ q, base.valueOf q = s.valueOf q) (hlog : base.log = s.log)
      (hw : ∀ x, w.control = .fulfilled x → v.control ≠ .user ∧ ∀ o, v.control ≠ .value o) : Hands s v (base.goOn sync k w) w := by
    have hval (q : PromiseId) : (base.goOn sync k w).valueOf q = s.valueOf q :=
      (valueOf_congr (goOn_promise base sync k w) q).trans (hval q)
    refine .silent hval (fun o => ?_) hw
    simp only [mem_objects hi'.toWF, mem_objects hi.toWF, hval, goOn_log, hlog]
  have hsame (hp : base.promise = s.promise) (hlog : base.log = s.log)
      (hw : ∀ x, w.control = .fulfilled x → v.control ≠ .user ∧ ∀ o, v.control ≠ .value o) : Hands s v (base.goOn sync k w) w :=
    hsilent (valueOf_congr hp) hlog hw
  have hbuilding {c p rest deps q st} (hst : v.stack = .build c p rest deps (some q) :: st) :
      ∃ key, s.promise q = some ⟨c, key, p, .pending⟩ := by
    obtain ⟨key, hr, -⟩ := hi.building k (c, p, q) (by rw [buildsOf_eq hv, hst]; exact List.mem_cons_self)
    exact ⟨key, hr⟩
  have hgive {c p rest deps promise st x} (hst : v.stack = .build c p rest deps promise :: st)
      (hctl : v.control = .user ∨ ∃ o, v.control = .value o ∧ x = .object o) (hpromise : base.promise = (s.complete promise x).promise)
      (hlog : base.log = s.log ∧ promise ≠ none ∨ base.log = s.log ++ [⟨p, promise, x⟩])
      (hw : w.stack = st) (hx : w.control = .fulfilled x) : Hands s v (base.goOn sync k w) w := by
    have hval (q : PromiseId) : (base.goOn sync k w).valueOf q = if promise = some q then some x else s.valueOf q := by
      rw [valueOf_congr (s := s.complete promise x) (by rw [goOn_promise, hpromise]) q]
      cases promise with
      | none => simp [State.complete]
      | some r =>
        obtain ⟨key, hr⟩ := hbuilding hst
        by_cases hq : r = q
        · subst hq
          simp [State.complete, State.fulfil, hr, State.valueOf, State.status, State.setPromise, Status.value?]
        · simp [State.complete, State.fulfil, hr, State.valueOf, State.status, State.setPromise, hq, Ne.symm hq]
    refine .gives hst hctl hw hx hval fun o => ?_
    have hpending {q : PromiseId} (hq : promise = some q) : s.valueOf q = none := by
      subst hq
      obtain ⟨key, hr⟩ := hbuilding hst
      simp [State.valueOf, State.status, hr, Status.value?]
    simp only [mem_objects hi'.toWF, mem_objects hi.toWF, hval, goOn_log]
    constructor
    · rintro (⟨b, hb, ho⟩ | ⟨q, y, hy, ho⟩)
      · rcases hlog with ⟨hlog, -⟩ | hlog <;> rw [hlog] at hb
        · exact .inl (.inl ⟨b, hb, ho⟩)
        · rcases List.mem_append.1 hb with hb | hb
          · exact .inl (.inl ⟨b, hb, ho⟩)
          · rw [List.mem_singleton.1 hb] at ho
            exact .inr ho
      · split at hy
        · cases hy
          exact .inr ho
        · exact .inl (.inr ⟨q, y, hy, ho⟩)
    · rintro ((⟨b, hb, ho⟩ | ⟨q, y, hy, ho⟩) | ho)
      · refine .inl ⟨b, ?_, ho⟩
        rcases hlog with ⟨hlog, -⟩ | hlog <;> rw [hlog]
        · exact hb
        · exact List.mem_append_left _ hb
      · refine .inr ⟨q, y, ?_, ho⟩
        rw [if_neg fun hq => by rw [hpending hq] at hy; cases hy]
        exact hy
      · rcases hlog with ⟨-, hne⟩ | hlog
        · obtain ⟨q, rfl⟩ := Option.ne_none_iff_exists'.1 hne
          exact .inr ⟨q, x, by simp, ho⟩
        · exact .inl ⟨_, by rw [hlog]; exact List.mem_append_right _ (List.mem_singleton_self _), ho⟩
  cases ht with
  | wait => exact hsame (by rw [ensureTracked_eq]) (by rw [ensureTracked_eq]) (by simp)
  | @build d key p st st' ctl sync he =>
    refine hsilent (fun q => ?_) rfl fun x _ => by cases he <;> rename_i hctl _ <;> simp_all
    by_cases hq : q = s.promises
    · subst hq
      have hnone : s.promise s.promises = none := by
        cases hr : s.promise s.promises with
        | none => rfl
        | some r => exact absurd (hi.promiseBound _ r hr) (Nat.lt_irrefl _)
      simp [State.valueOf, State.status, hnone, State.allocate, Status.value?]
    · simp [State.valueOf, State.status, State.allocate, hq]
  | @fail e c p rest deps promise st hctl hst =>
    cases promise with
    | none => exact hsame rfl rfl (by simp [hctl])
    | some r =>
      obtain ⟨key, hr⟩ := hbuilding hst
      refine hsilent (fun q => ?_) (by simp [State.fail, State.reject, hr, State.setPromise, State.modifyCache, State.setContainer])
        (by simp [hctl])
      by_cases hq : q = r
      · subst hq
        simp [State.fail, State.reject, hr, State.valueOf, State.status, State.setPromise, State.modifyCache, State.setContainer,
          Status.value?]
      · simp [State.fail, State.reject, hr, State.valueOf, State.status, State.setPromise, State.modifyCache, State.setContainer, hq]
  | @value o c p rest deps promise st hctl hst =>
    refine hgive hst (.inr ⟨o, hctl, rfl⟩) rfl (.inl ⟨?_, ?_⟩) rfl rfl
    · cases promise with
      | none => rfl
      | some q => rw [State.complete, fulfil_eq]
    · rintro rfl
      exact hvalue o c p rest deps st hctl hst
  | created hctl hst => exact hgive hst (.inl hctl) rfl (.inr rfl) rfl rfl
  | returned hctl hst => exact hgive hst (.inl hctl) rfl (.inr rfl) rfl rfl
  | leaveChain hctl hst => exact hsame rfl rfl (by simp [hctl])
  | unwind hctl hst => exact hsame rfl rfl (by simp [hctl])
  | awaited hctl => exact hsame rfl rfl (by simp [hctl])
  | multiDone hctl => exact hsame rfl rfl (by simp [hctl])
  | nextDep hctl => exact hsame rfl rfl (by simp [hctl])
  | transient he => exact hsame rfl rfl fun x _ => by cases he <;> rename_i hctl _ <;> simp_all
  | _ => exact hsame rfl rfl (by simp)

end Fluo.Di
