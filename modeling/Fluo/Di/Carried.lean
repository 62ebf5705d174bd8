import Fluo.Di.Handovers
/-!
# What calls carry

The arguments that a call has collected for its constructions, and the promise that it awaits or starts for them, stand in
front of what they are for as long as every step is in order.
-/

namespace Fluo.Di

open Lib (Ahead)

variable {τ : Type} [DecidableEq τ] {s s' base : State τ} {k : CallId} {v w : Call τ} {sync : Bool} {placed placed' order : List PromiseId}
  {p q : PromiseId} {o : Obj} {x : Value}

/-! ## What calls carry -/

def NormalizedProvider.ValuesDefault (p : NormalizedProvider τ) : Prop := ∀ o, p.type = .value o → p.scope = .default

def Near (c : ContainerId) (st : List (Frame τ)) : Prop := ∀ at' ∈ innermost st, at'.1 = c

/-- What comes of `p` may be handed to the construction, unless that is cached no more. -/
def State.Suits (s : State τ) (order : List PromiseId) (at' : Option (ContainerId × Option PromiseId)) (p : PromiseId) : Prop :=
  ∀ c q, at' = some (c, some q) → s.Live q → s.Outlives order p q

def State.Good (s : State τ) (order : List PromiseId) (at' : Option (ContainerId × Option PromiseId)) (x : Value) : Prop :=
  ∀ o ∈ x.disposables, o ∈ s.objects ∧ ∀ p, s.Founder order o p → s.Suits order at' p

def State.FedStack (s : State τ) (order : List PromiseId) : List (Frame τ) → Prop
  | [] => True
  | .chain _ _ :: st => State.FedStack s order st
  | .multi c rest instances :: st => (∀ p ∈ rest, p.ValuesDefault) ∧ Near c st ∧ (∀ x ∈ instances, s.Good order (innermost st) x) ∧
      State.FedStack s order st
  | .build c _ _ deps promise :: st => (∀ x ∈ deps, s.Good order (some (c, promise)) x) ∧
      (∀ p ∈ promise, s.Suits order (innermost st) p) ∧ State.FedStack s order st

def State.FedControl (s : State τ) (order : List PromiseId) (st : List (Frame τ)) : Control τ → Prop
  | .resolve c _ _ => Near c st
  | .multi c p => Near c st ∧ p.ValuesDefault
  | .cached p => s.Suits order (innermost st) p
  | .fulfilled x => s.Good order (innermost st) x
  | .value _ => ∀ c, innermost st ≠ some (c, none)
  | _ => True

/-- Everything that the call has and goes to get may be handed to the constructions it is for. -/
structure State.Fed (s : State τ) (order : List PromiseId) (v : Call τ) : Prop where
  stack : s.FedStack order v.stack
  control : s.FedControl order v.stack v.control

section Fed
variable {at' : Option (ContainerId × Option PromiseId)} {c : ContainerId} {st : List (Frame τ)}

omit [DecidableEq τ] in
theorem mem_builds_of_innermost (h : innermost st = some (c, some q)) : ∃ p, (c, p, q) ∈ builds st := by
  induction st with
  | nil => cases h
  | cons f st ih =>
    cases f with
    | chain | multi => exact ih h
    | build c' p rest deps promise =>
      cases h
      exact ⟨p, List.mem_cons_self⟩

theorem State.Good.array {values : List Value} (h : ∀ x ∈ values, s.Good order at' x) : s.Good order at' (.array values) := by
  intro o ho
  obtain ⟨x, hx, ho⟩ := mem_disposablesOf.1 (show o ∈ disposablesOf values from ho)
  exact h x hx o ho

omit [DecidableEq τ] in
theorem innermost_bound (hb : ∀ b ∈ builds st, b.2.2 < s.promises) (c : ContainerId) (q : PromiseId)
    (hi : innermost st = some (c, some q)) : q < s.promises := by
  obtain ⟨p, hp⟩ := mem_builds_of_innermost hi
  exact hb _ hp

section Mono
variable (h : Advances s placed s' placed')
include h

theorem Advances.suits (hq : ∀ c q, at' = some (c, some q) → q < s.promises) (hr : s.Suits (placed ++ s.unpublished) at' p) :
    s'.Suits (placed' ++ s'.unpublished) at' p := by
  intro c q hc hlive
  have hlive : s.Live q := (h.live q hlive).resolve_right (Nat.not_le.2 (hq c q hc))
  exact Advances.outlives h.keyOf h.order (hr c q hc hlive)

theorem Advances.good (hq : ∀ c q, at' = some (c, some q) → q < s.promises) (hg : s.Good (placed ++ s.unpublished) at' x) :
    s'.Good (placed' ++ s'.unpublished) at' x := by
  intro o ho
  obtain ⟨hmem, hf⟩ := hg o ho
  exact ⟨h.objects o hmem, fun p hp => h.suits hq (hf p (h.founder o hmem p hp))⟩

theorem Advances.fedStack (hb : ∀ b ∈ builds st, b.2.2 < s.promises) (hf : s.FedStack (placed ++ s.unpublished) st) :
    s'.FedStack (placed' ++ s'.unpublished) st := by
  induction st with
  | nil => trivial
  | cons f st ih =>
    cases f with
    | chain => exact ih hb hf
    | multi c rest instances =>
      obtain ⟨hrest, hnear, hgood, hf⟩ := hf
      exact ⟨hrest, hnear, fun x hx => h.good (innermost_bound hb) (hgood x hx), ih hb hf⟩
    | build c p rest deps promise =>
      obtain ⟨hgood, hsuits, hf⟩ := hf
      have hb' : ∀ b ∈ builds st, b.2.2 < s.promises := fun b hm => hb b (by
        cases promise with
        | none => exact hm
        | some q => exact List.mem_cons_of_mem _ hm)
      refine ⟨fun x hx => h.good (fun c' q hc => ?_) (hgood x hx), fun q hq => h.suits (innermost_bound hb') (hsuits q hq), ih hb' hf⟩
      cases hc
      exact hb _ List.mem_cons_self

theorem Advances.fed (hb : ∀ b ∈ builds v.stack, b.2.2 < s.promises) (hf : s.Fed (placed ++ s.unpublished) v) :
    s'.Fed (placed' ++ s'.unpublished) v := by
  refine ⟨h.fedStack hb hf.stack, ?_⟩
  have hctl := hf.control
  unfold State.FedControl at hctl ⊢
  split at hctl
  · exact hctl
  · exact hctl
  · exact h.suits (innermost_bound hb) hctl
  · exact h.good (innermost_bound hb) hctl
  · exact hctl
  · exact hctl

end Mono

/-! ## Turns -/

variable {d : ContainerId} {key : CacheKey τ} {pr : NormalizedProvider τ} {st' : List (Frame τ)} {ctl : Control τ}
  {promise : Option PromiseId}

theorem NextDep.fed {g : Graph τ} {rest deps} (h : NextDep g c pr promise st rest deps st' ctl sync) (v : Call τ)
    (hdeps : ∀ x ∈ deps, s.Good order (some (c, promise)) x) (hp : ∀ p ∈ promise, s.Suits order (innermost st) p)
    (hst : s.FedStack order st) : s.Fed order { v with stack := st', control := ctl } := by
  cases h with
  | done => exact ⟨⟨hdeps, hp, hst⟩, trivial⟩
  | absent => exact ⟨⟨hdeps, hp, hst⟩, fun o ho => by cases ho⟩
  | dep =>
    refine ⟨⟨hdeps, hp, hst⟩, ?_⟩
    rintro at' ⟨⟩
    rfl

theorem Instantiate.fed {g : Graph τ} {classes : JsMap τ (ClassMetadata τ)} (h : Instantiate g classes c pr promise st st' ctl sync)
    (v : Call τ) (hvalue : ∀ o, pr.type = .value o → promise ≠ none) (hp : ∀ p ∈ promise, s.Suits order (innermost st) p)
    (hst : s.FedStack order st) : s.Fed order { v with stack := st', control := ctl } := by
  have hnil : ∀ x ∈ ([] : List Value), s.Good order (some (c, promise)) x := fun _ hx => nomatch hx
  cases h with
  | scope => exact ⟨⟨hnil, hp, hst⟩, trivial⟩
  | value htype =>
    refine ⟨⟨hnil, hp, hst⟩, fun c' hc => hvalue _ htype ?_⟩
    cases hc
    rfl
  | deps _ _ hn => exact hn.fed v hnil hp hst

/-- What a call has entered: the entry it turns to, on the container that it is for or at the root. -/
structure Turns (s : State τ) (v : Call τ) (d : ContainerId) (key : CacheKey τ) (st : List (Frame τ)) : Prop where
  target : s.target v = some (d, key)
  near : ∀ at' ∈ innermost v.stack, d = at'.1 ∨ d = root
  same : innermost st = innermost v.stack
  stack : ∀ (s' : State τ) order, s'.FedStack order v.stack → s'.FedStack order st

theorem Graph.singleSite_mem (g : Graph τ) (c : ContainerId) (p : NormalizedProvider τ) : g.singleSite c p = c ∨ g.singleSite c p = root := by
  unfold Graph.singleSite
  split
  · exact .inr rfl
  · exact .inl rfl

theorem Graph.multiSite_mem (g : Graph τ) (c : ContainerId) (p : NormalizedProvider τ) : g.multiSite c p = c ∨ g.multiSite c p = root := by
  unfold Graph.multiSite
  split
  · exact .inr rfl
  · exact .inl rfl

omit [DecidableEq τ] in
theorem entry_eq (hne : ∀ t, pr.type ≠ .existing t) (htr : pr.scope ≠ .transient) (c : ContainerId) (key : CacheKey τ) :
    pr.entry c key = some (c, key) := by
  unfold NormalizedProvider.entry
  split
  · rename_i htype
    exact absurd htype (hne _)
  · rw [if_neg htr]

theorem Enters.turns (h : s.Fed order v) (he : Enters s.graph v d key pr st) : Turns s v d key st := by
  have hctl := h.control
  cases he with
  | @single c t a _ hctl' ht hs hne htr =>
    rw [hctl'] at hctl
    refine ⟨?_, fun at' hat => hctl at' hat ▸ s.graph.singleSite_mem c pr, rfl, fun _ _ h => h⟩
    simp only [State.target, hctl', if_neg ht]
    split
    · rename_i hr hm
      rw [hs.notMulti hr] at hm
      cases hm
    · rw [hs.lookup, Option.bind_some, entry_eq hne htr]
  | @multi c _ hctl' hne htr =>
    rw [hctl'] at hctl
    refine ⟨?_, fun at' hat => hctl.1 at' hat ▸ s.graph.multiSite_mem c pr, rfl, fun _ _ h => h⟩
    simp only [State.target, hctl', entry_eq hne htr]

section Turn
variable (hi : Inv s) (hv : s.call k = some v)
include hi hv

theorem Inv.keyOf_innermost (hst : ∀ b ∈ builds st, b ∈ builds v.stack) (hat : innermost st = some (c, some q)) :
    ∃ key, s.keyOf q = some (c, key) := by
  obtain ⟨p, hp⟩ := mem_builds_of_innermost hat
  obtain ⟨key, hr, -⟩ := hi.building k (c, p, q) (by rw [buildsOf_eq hv]; exact hst _ hp)
  exact ⟨key, by simp [State.keyOf, hr]⟩

theorem Inv.live_innermost (hst : ∀ b ∈ builds st, b ∈ builds v.stack) (hat : innermost st = some (c, some q)) (hlive : s.Live q) :
    q ∈ s.unpublished ∨ q ∈ s.entryPromises c := by
  obtain ⟨key, hk⟩ := hi.keyOf_innermost hv hst hat
  refine hlive.imp_right fun ⟨d, key', hq⟩ => ?_
  rw [hi.cached_keyOf hq] at hk
  cases hk
  exact mem_entryPromises.2 ⟨_, hq⟩

variable (hp : s.Placing placed) (hask : ∀ e ∈ s.target v, ∀ at' ∈ innermost v.stack, ∀ q ∈ at'.2, s.MayAsk q e.1 e.2)
  (ht : Turns s v d key st)
include hp hask ht

theorem Turns.suits (hc : s.cached d key = some p) : s.Suits (placed ++ s.unpublished) (innermost v.stack) p := by
  intro c q hat hlive
  obtain ⟨key', hk⟩ := hi.keyOf_innermost hv (fun _ hb => hb) hat
  refine ⟨d, key, c, key', hi.cached_keyOf hc, hk, ?_⟩
  by_cases hdc : d = c
  · subst hdc
    refine .inr ⟨rfl, ?_⟩
    rcases hask _ ht.target _ hat q rfl _ hk rfl (hi.live_innermost hv (fun _ hb => hb) hat hlive) with hkind | ⟨hkind, hu | ⟨p', hp', ha⟩⟩
    · exact .inl hkind
    · exact .inr ⟨hkind, .of_mem ((hp.cached d).subset (mem_cachedIn.2 ⟨key, hc⟩)) hu⟩
    · rw [show s.cached d key = some p' from hp'] at hc
      cases hc
      rw [entryPromises_eq] at ha
      obtain ⟨_, _, _, _, hkp, hkq, ho⟩ := (hp.snapshot hi.toWF d).outlives hp.nodup ha
      rw [hi.cached_keyOf hp'] at hkp
      rw [hk] at hkq
      cases hkp
      cases hkq
      rcases ho with ⟨hroot, hne⟩ | ⟨-, ho⟩
      · exact absurd hroot hne
      · exact ho
  · rcases ht.near _ hat with hd | hd
    · exact absurd hd hdc
    · exact .inl ⟨hd, fun hc => hdc (hd.trans hc.symm)⟩

omit hp in
theorem Turns.suits_new (hadv : Advances s placed s' placed') (hfree : s.cached d key = none)
    (horder : List.Sublist (placed ++ s.promises :: s.unpublished) (placed' ++ s'.unpublished))
    (hnew : s'.keyOf s.promises = some (d, key)) (hlive' : ∀ q, s'.Live q → s.Live q ∨ s.promises ≤ q) :
    s'.Suits (placed' ++ s'.unpublished) (innermost v.stack) s.promises := by
  intro c q hat hlive
  obtain ⟨key', hk⟩ := hi.keyOf_innermost hv (fun _ hb => hb) hat
  have hbound : q < s.promises := by
    obtain ⟨r, hr, -⟩ := Option.map_eq_some_iff.1 hk
    exact hi.promiseBound q r hr
  have hlive := (hlive' q hlive).resolve_right (Nat.not_le.2 hbound)
  refine ⟨d, key, c, key', hnew, hadv.keyOf q _ hk, ?_⟩
  by_cases hdc : d = c
  · subst hdc
    refine .inr ⟨rfl, ?_⟩
    rcases hask _ ht.target _ hat q rfl _ hk rfl (hi.live_innermost hv (fun _ hb => hb) hat hlive) with hkind | ⟨hkind, hu | ⟨p', hp', -⟩⟩
    · exact .inl hkind
    · refine .inr ⟨hkind, Ahead.mono ?_ horder⟩
      exact (Ahead.of_mem (l := [s.promises]) (List.mem_singleton_self _) hu).mono (List.sublist_append_right placed _)
    · rw [hfree] at hp'
      cases hp'
  · rcases ht.near _ hat with hd | hd
    · exact absurd hd hdc
    · exact .inl ⟨hd, fun hc => hdc (hd.trans hc.symm)⟩

end Turn

section Keeps
variable (hi : Inv s) (hv : s.call k = some v) (hb : Books s placed) (hadv : Advances s placed s' placed')
  (hfed : s.Fed (placed ++ s.unpublished) v)
include hi hv hadv hfed

omit hadv hfed in
theorem Inv.builds_bound : ∀ b ∈ builds v.stack, b.2.2 < s.promises := by
  intro b hb
  obtain ⟨key, hr, -⟩ := hi.building k b (by rw [buildsOf_eq hv]; exact hb)
  exact hi.promiseBound _ _ hr

include hb in
theorem State.Fed.awaited (hctl : v.control = .cached q) (hx : s.valueOf q = some x) :
    s'.Good (placed' ++ s'.unpublished) (innermost v.stack) x := by
  have hsuits := hfed.control
  rw [hctl] at hsuits
  refine hadv.good (innermost_bound (hi.builds_bound hv)) fun o ho => ⟨(mem_objects hi.toWF).2 (.inr ⟨q, x, hx, ho⟩), fun p hf => ?_⟩
  rcases hb.values q x hx o ho p hf with rfl | hl
  · exact hsuits
  · exact fun c q' hat hlive => hl.outlives_of hb.placing.nodup (hsuits c q' hat hlive)

include hb in
theorem State.Fed.given {rest deps} (hb' : Books s' placed') (hst : v.stack = .build c pr rest deps promise :: st)
    (hidle : s.unpublished = []) (hmay : s.MayGive promise deps st x)
    (hval : ∀ q, s'.valueOf q = if promise = some q then some x else s.valueOf q) (hobj : ∀ o ∈ x.disposables, o ∈ s'.objects) :
    s'.Good (placed' ++ s'.unpublished) (innermost st) x := by
  have hsub : ∀ b ∈ builds st, b ∈ builds v.stack := by
    intro b hm
    rw [hst]
    cases promise with
    | none => exact hm
    | some q => exact List.mem_cons_of_mem _ hm
  have hbound : ∀ b ∈ builds st, b.2.2 < s.promises := fun b hm => hi.builds_bound hv b (hsub b hm)
  have hstack := hfed.stack
  rw [hst] at hstack
  refine fun o ho => ⟨hobj o ho, fun p hf => ?_⟩
  cases promise with
  | some r =>
    have hsuits : s'.Suits (placed' ++ s'.unpublished) (innermost st) r := hadv.suits (innermost_bound hbound) (hstack.2.1 r rfl)
    rcases hb'.values r x (by simp [hval]) o ho p hf with rfl | hl
    · exact hsuits
    · exact fun c q hat hlive => hl.outlives_of hb'.placing.nodup (hsuits c q hat hlive)
  | none =>
    -- who holds the object now has held it before
    have hinst : s.instanceOf p = some o := by
      have := hf.1
      simpa [State.instanceOf, hval] using this
    have hmem := hi.toWF.mem_objects_of_instance hinst
    have hf := hadv.founder o hmem p hf
    refine hadv.suits (innermost_bound hbound) fun c q hat hlive => ?_
    have hq : q ∈ s.entryPromises c := (hi.live_innermost hv hsub hat hlive).resolve_left (by simp [hidle])
    obtain ⟨p', -, hp', ho'⟩ := hmay o ho hmem _ hat q rfl hq ⟨p, hi.toWF.bound_of_valueOf (valueOf_of_instance hinst).1, hinst⟩
    have houtlives := hb.placing.outlives hi.toWF ho'
    rcases hf.2 p' hp' with rfl | hl
    · exact houtlives
    · exact hl.outlives_of hb.placing.nodup houtlives

end Keeps

theorem State.Fed.turn (hi : Inv s) (hv : s.call k = some v) (hrun : s.running = none ∨ s.running = some k)
    (ht : Turn s v base sync w) (hb : Books s placed) (hb' : Books (base.goOn sync k w) placed')
    (hadv : Advances s placed (base.goOn sync k w) placed')
    (horder : List.Sublist (placed ++ base.unpublished) (placed' ++ (base.goOn sync k w).unpublished))
    (hgraph : ∀ c t, ∀ p ∈ s.graph.providersOf c t, p.ValuesDefault)
    (hask : ∀ e ∈ s.target v, ∀ at' ∈ innermost v.stack, ∀ q ∈ at'.2, s.MayAsk q e.1 e.2)
    (hgive : ∀ x, w.control = .fulfilled x → v.control = .user ∨ (∃ o, v.control = .value o) → s.MayReturn x v.stack)
    (hfed : s.Fed (placed ++ s.unpublished) v) :
    (base.goOn sync k w).Fed (placed' ++ (base.goOn sync k w).unpublished) w := by
  have hfed' : (base.goOn sync k w).Fed (placed' ++ (base.goOn sync k w).unpublished) v := hadv.fed (hi.builds_bound hv) hfed
  have hstack := hfed'.stack
  have hctl' := hfed'.control
  have hsuits {q : PromiseId} (h : s.Suits (placed ++ s.unpublished) (innermost v.stack) q) :
      (base.goOn sync k w).Suits (placed' ++ (base.goOn sync k w).unpublished) (innermost v.stack) q :=
    hadv.suits (innermost_bound (hi.builds_bound hv)) h
  have hvalue {o : Obj} (hctl : v.control = .value o) : ∀ c, innermost v.stack ≠ some (c, none) := by
    have := hfed.control
    rw [hctl] at this
    exact this
  have hhands := hi.turn_hands hv hrun ht fun o c p rest deps st hctl hst => hvalue hctl c (by rw [hst]; rfl)
  have hgiven (h : ∃ x, w.control = .fulfilled x ∧ (v.control = .user ∨ ∃ o, v.control = .value o)) :
      (base.goOn sync k w).Fed (placed' ++ (base.goOn sync k w).unpublished) w := by
    obtain ⟨x, hx, hctl⟩ := h
    cases hhands with
    | silent _ _ hno =>
      obtain ⟨hno, hno'⟩ := hno x hx
      rcases hctl with hctl | ⟨o, hctl⟩
      · exact absurd hctl hno
      · exact absurd hctl (hno' o)
    | @gives c p rest deps promise st x' hst _ hw hx' hval hobj =>
      rw [hx] at hx'
      cases hx'
      have hmay := hgive x hx hctl
      simp only [State.MayReturn, hst] at hmay
      have hidle : s.unpublished = [] := by
        have hsync : v.control.isSync = false := by rcases hctl with hctl | ⟨o, hctl⟩ <;> rw [hctl] <;> rfl
        rcases hrun with hr | hr
        · exact hi.idle hr
        · rw [(hi.scheduled k v hv).2 hr] at hsync; cases hsync
      refine ⟨?_, ?_⟩
      · rw [hw]
        rw [hst] at hstack
        exact hstack.2.2
      · rw [hx, hw]
        exact hfed.given hi hv hb hadv hb' hst hidle hmay hval fun o ho => (hobj o).2 (.inr ho)
  have hwait {d key st q} (he : Turns s v d key st) (hc : s.cached d key = some q) (hs : w.stack = st) (hctl : w.control = .cached q) :
      (base.goOn sync k w).Fed (placed' ++ (base.goOn sync k w).unpublished) w := by
    refine ⟨by rw [hs]; exact he.stack _ _ hstack, ?_⟩
    rw [hctl, hs]
    show State.Suits _ _ (innermost st) q
    rw [he.same]
    exact hsuits (he.suits hi hv hb.placing hask hc)
  have hsingle {c t p} (hs : s.graph.Single c t p) : p.ValuesDefault := by
    refine hgraph c t p (List.mem_append_left _ ?_)
    rw [hs.lookup]
    exact List.mem_singleton_self p
  generalize hs' : base.goOn sync k w = s' at *
  cases ht with
  | circular | missing => exact ⟨hstack, trivial⟩
  | outside he => exact ⟨(he.turns hfed).stack _ _ hstack, trivial⟩
  | @enterMulti c t a p ps hctl ht hr hm =>
    rw [hctl] at hctl'
    have hp : ∀ p' ∈ p :: ps, p'.ValuesDefault := fun p' hp' => hgraph c t p' (List.mem_append_right _ (by rw [hm]; exact hp'))
    exact ⟨⟨fun p' hp' => hp p' (List.mem_cons_of_mem _ hp'), hctl', (fun _ hx => nomatch hx), hstack⟩, hctl', hp p List.mem_cons_self⟩
  | existing hctl =>
    rw [hctl] at hctl'
    exact ⟨hstack, hctl'⟩
  | existingMulti hctl =>
    rw [hctl] at hctl'
    exact ⟨hstack, hctl'.1⟩
  | transient he hinst =>
    cases he with
    | single _ _ hs _ hscope =>
      refine hinst.fed v (fun o htype => ?_) (fun _ hp => nomatch hp) hstack
      rw [hsingle hs o htype] at hscope
      cases hscope
    | multi hctl _ hscope =>
      rw [hctl] at hctl'
      refine hinst.fed v (fun o htype => ?_) (fun _ hp => nomatch hp) hstack
      rw [hctl'.2 o htype] at hscope
      cases hscope
  | hit hctl ht hs hne hscope hq =>
    refine ⟨hstack, hsuits ?_⟩
    have he := Enters.turns hfed (.single hctl ht hs hne (by rw [hscope]; nofun))
    exact he.suits hi hv hb.placing hask hq
  | wait he hq => exact hwait (he.turns hfed) hq rfl rfl
  | build he hfree _ hinst =>
    have he := he.turns hfed
    refine hinst.fed v (fun _ _ => nofun) (fun p hp => ?_) (he.stack _ _ hstack)
    cases hp
    rw [he.same]
    refine he.suits_new hi hv hask hadv hfree horder ?_ hadv.live
    rw [← hs', goOn_keyOf]
    simp [State.keyOf, State.allocate]
  | awaited hctl hst =>
    have hgood := hfed.awaited hi hv hb hadv hctl (by rw [State.valueOf, hst]; rfl)
    exact ⟨hstack, hgood⟩
  | awaitedError => exact ⟨hstack, trivial⟩
  | value hctl => exact hgiven ⟨_, rfl, .inr ⟨_, hctl⟩⟩
  | created hctl | returned hctl => exact hgiven ⟨_, rfl, .inl hctl⟩
  | threw => exact ⟨hstack, trivial⟩
  | leaveChain hctl hst =>
    rw [hst] at hstack hctl'
    rw [hctl] at hctl'
    refine ⟨hstack, ?_⟩
    rw [hctl]
    exact hctl'
  | multiDone hctl hst =>
    rw [hst] at hstack hctl'
    rw [hctl] at hctl'
    obtain ⟨-, -, hgood, hstack⟩ := hstack
    refine ⟨hstack, State.Good.array fun y hy => ?_⟩
    rcases List.mem_append.1 hy with hy | hy
    · exact hgood y hy
    · rw [List.mem_singleton.1 hy]
      exact hctl'
  | @multiNext x c p ps instances st hctl hst =>
    rw [hst] at hstack hctl'
    rw [hctl] at hctl'
    obtain ⟨hrest, hnear, hgood, hstack⟩ := hstack
    refine ⟨⟨fun p' hp' => hrest p' (List.mem_cons_of_mem _ hp'), hnear, fun y hy => ?_, hstack⟩, hnear, hrest p List.mem_cons_self⟩
    rcases List.mem_append.1 hy with hy | hy
    · exact hgood y hy
    · rw [List.mem_singleton.1 hy]
      exact hctl'
  | nextDep hctl hst hn =>
    rw [hst] at hstack hctl'
    rw [hctl] at hctl'
    obtain ⟨hgood, hp, hstack⟩ := hstack
    refine hn.fed v (fun y hy => ?_) hp hstack
    rcases List.mem_append.1 hy with hy | hy
    · exact hgood y hy
    · rw [List.mem_singleton.1 hy]
      exact hctl'
  | @fail e c p rest deps promise st hctl hst =>
    rw [hst] at hstack
    refine ⟨hstack.2.2, ?_⟩
    rw [hctl]
    trivial
  | @unwind e f st hctl hst hne =>
    rw [hst] at hstack
    refine ⟨?_, ?_⟩
    · cases f with
      | chain => exact hstack
      | multi => exact hstack.2.2.2
      | build => exact absurd rfl (hne _ _ _ _ _)
    · rw [hctl]
      trivial

end Fed

/-! ## Runs in order -/

/-- Where the promises stand, and that every call carries only what stands in front of its constructions. -/
structure Orderly (s : State τ) (placed : List PromiseId) : Prop where
  books : Books s placed
  fed : ∀ k v, s.call k = some v → s.Fed (placed ++ s.unpublished) v
  normalized : s.Normalized

theorem State.Normalized.valuesDefault (h : s.Normalized) {c : ContainerId} {t : τ} : ∀ p ∈ s.graph.providersOf c t, p.ValuesDefault := by
  intro p hp o htype
  obtain ⟨id, provider, hmade⟩ := h.providersOf hp
  exact (normalizeProvider_spec hmade).2.2 o htype

section Orderly
variable (hi : Inv s) (ho : Orderly s placed) {l : Label τ} (hl : s.InOrder l) (hs : Di.step s l = some s')
include hi ho hl hs

theorem Orderly.quiet (he : s.Extends placed s' placed') (hp' : s'.Placing placed') (hpromise : s'.promise = s.promise)
    (hlog : s'.log = s.log) (hcalls : ∀ k v, s'.call k = some v → s.call k = some v ∨ s'.Fed (placed' ++ s'.unpublished) v) :
    Orderly s' placed' ∧ Advances s placed s' placed' := by
  have hval := valueOf_congr hpromise
  have hk : ∀ q at', s.keyOf q = some at' → s'.keyOf q = some at' := fun _ _ => hi.step_keyOf hs
  have hi' := hi.step hs
  obtain ⟨hb', hfounder⟩ := ho.books.same hi.toWF he hp' hk (fun _ _ => hi.step_kept hl hs) hval
  have hadv : Advances s placed s' placed' := by
    refine ⟨he, hk, fun o ho => ?_, fun q x hx => (hval q).trans hx, fun o _ => hfounder o, fun q o hq => ?_⟩
    · rw [mem_objects hi.toWF] at ho
      simpa only [mem_objects hi'.toWF, hval, hlog] using ho
    · rw [show s'.instanceOf q = s.instanceOf q from congrArg (·.bind Value.instance?) (hval q)] at hq
      exact .inl hq
  refine ⟨⟨hb', fun k v hv => ?_, ho.normalized.step hi hs⟩, hadv⟩
  rcases hcalls k v hv with hv | hfed
  · exact hadv.fed (hi.builds_bound hv) (ho.fed k v hv)
  · exact hfed

theorem Orderly.turn (hv : s.call k = some v) (hrun : s.running = none ∨ s.running = some k) (ht : Turn s v base sync w)
    (hs' : s' = base.goOn sync k w) (hask : ∀ e ∈ s.target v, ∀ at' ∈ innermost v.stack, ∀ q ∈ at'.2, s.MayAsk q e.1 e.2)
    (hgive : ∀ x, w.control = .fulfilled x → v.control = .user ∨ (∃ o, v.control = .value o ∧ x = .object o) → s.MayReturn x v.stack) :
    ∃ placed', Orderly s' placed' ∧ Advances s placed s' placed' := by
  have hfed := ho.fed k v hv
  have hhands : Hands s v s' w := by
    rw [hs']
    refine hi.turn_hands hv hrun ht fun o c p rest deps st hctl hst => ?_
    have := hfed.control
    rw [hctl, hst] at this
    exact this c rfl
  obtain ⟨hbase, he₁⟩ := (hi.turn_effect hv ht).placing ho.books.placing
  obtain ⟨placed', hp', he₂⟩ := hbase.goOn (hi.turn_wf hv hrun ht)
  rw [← hs'] at hp' he₂
  have he := he₁.trans he₂
  have hi' := hi.step hs
  have hk : ∀ q at', s.keyOf q = some at' → s'.keyOf q = some at' := fun _ _ => hi.step_keyOf hs
  have hkept : ∀ p q, (s.valueOf p).isSome → s.Cached p → s.Leads (placed ++ s.unpublished) p q → s'.Cached q → s'.Cached p :=
    fun _ _ => hi.step_kept hl hs
  have hdone (hb' : Books s' placed') (hadv : Advances s placed s' placed') : ∃ placed', Orderly s' placed' ∧ Advances s placed s' placed' := by
    refine ⟨placed', ⟨hb', fun j u hu => ?_, ho.normalized.step hi hs⟩, hadv⟩
    by_cases hj : j = k
    · subst hj
      rw [hs', goOn_call, Function.update_self] at hu
      cases hu
      subst hs'
      refine State.Fed.turn hi hv hrun ht ho.books hb' hadv he₂.order (fun _ _ => ho.normalized.valuesDefault) hask ?_ hfed
      rintro x hx (hctl | ⟨o, hctl⟩)
      · exact hgive x hx (.inl hctl)
      · cases hhands with
        | silent _ _ hno => exact absurd hctl ((hno x hx).2 o)
        | gives _ hctl' _ hx' =>
          rw [hx] at hx'
          cases hx'
          rcases hctl' with hctl' | hctl'
          · exact hgive x hx (.inl hctl')
          · exact hgive x hx (.inr hctl')
    · rw [hs', goOn_call, Function.update_of_ne hj, (hi.turn_effect hv ht).call] at hu
      exact hadv.fed (hi.builds_bound hu) (ho.fed j u hu)
  have hsame (hval : ∀ q, s'.valueOf q = s.valueOf q) (hobj : ∀ o ∈ s.objects, o ∈ s'.objects) :
      ∃ placed', Orderly s' placed' ∧ Advances s placed s' placed' := by
    obtain ⟨hb', hfounder⟩ := ho.books.same hi.toWF he hp' hk hkept hval
    refine hdone hb' ⟨he, hk, hobj, fun q x hx => (hval q).trans hx, fun o _ => hfounder o, fun q o hq => .inl ?_⟩
    rwa [← show s'.instanceOf q = s.instanceOf q from congrArg (·.bind Value.instance?) (hval q)]
  cases hhands with
  | silent hval hobj => exact hsame hval fun o ho => (hobj o).2 ho
  | @gives c p rest deps promise st x hst hctl hw hx hval hobj =>
    have hmay := hgive x hx hctl
    simp only [State.MayReturn, hst] at hmay
    cases promise with
    | none => exact hsame (fun q => by simp [hval]) fun o ho => (hobj o).2 (.inl ho)
    | some r =>
      obtain ⟨key, hr, -⟩ := hi.building k (c, p, r) (by rw [buildsOf_eq hv, hst]; exact List.mem_cons_self)
      have hnone : s.valueOf r = none := by simp [State.valueOf, State.status, hr, Status.value?]
      have hfront : ∀ o ∈ x.disposables, o ∈ s.objects →
          ∃ p, s.instanceOf p = some o ∧ s.Cached p ∧ s.Leads (placed ++ s.unpublished) p r := by
        intro o hox ho'
        obtain ⟨⟨p, -, hp, hl⟩, -⟩ := hmay o hox ho'
        refine ⟨p, hp, ?_, ho.books.placing.leads hi.toWF hl⟩
        obtain ⟨d, -, ha, -⟩ := hl
        exact ⟨d, mem_entryPromises.1 ha.left⟩
      have hval' : ∀ q, s'.valueOf q = if r = q then some x else s.valueOf q := fun q => by simp [hval q]
      obtain ⟨hb', hfounder, hfirst⟩ := ho.books.give hi.toWF he hp' hk hkept hnone hval' hfront
      refine hdone hb' ⟨he, hk, fun o ho => (hobj o).2 (.inl ho), fun q y hy => ?_, hfounder, fun q o hq => ?_⟩
      · rw [hval', if_neg]
        · exact hy
        · rintro rfl
          rw [hnone] at hy
          cases hy
      · by_cases hrq : r = q
        · subst hrq
          have hox : x.instance? = some o := by simpa [State.instanceOf, hval'] using hq
          refine .inr ?_
          by_cases hmem : o ∈ s.objects
          · exact .inr (hfront o (x.mem_disposables_of_instance hox).2 hmem)
          · exact .inl ⟨hmem, hfirst o hox hmem⟩
        · exact .inl (by simpa [State.instanceOf, hval', hrq] using hq)

end Orderly

theorem settle_value {outcome : Outcome} (h : s.settle k v outcome = some s') (hw : s'.call k = some w) (hx : w.control = .fulfilled x) :
    outcome.value? s.nextObject = some x := by
  have hcall {s : State τ} {w' : Call τ} (hs : s.suspend k w' = s') : w = w' := by
    have hs : s.goOn false k w' = s' := hs
    rw [← hs, goOn_call, Function.update_self] at hw
    exact (Option.some.inj hw).symm
  unfold State.settle at h
  split at h
  · cases outcome with
    | created =>
      rw [hcall (Option.some.inj h)] at hx
      cases hx
      rfl
    | returned =>
      rw [hcall (Option.some.inj h)] at hx
      cases hx
      rfl
    | threw =>
      rw [hcall (Option.some.inj h)] at hx
      cases hx
  · cases h

theorem Orderly.step (hi : Inv s) (ho : Orderly s placed) {l : Label τ} (hl : s.InOrder l) (hs : Di.step s l = some s') :
    ∃ placed', Orderly s' placed' ∧ Advances s placed s' placed' := by
  have hsync {k : CallId} {v : Call τ} (hr : s.running = none) (hv : s.call k = some v) : v.control.isSync ≠ true := by
    rw [ne_eq, hi.scheduled k v hv, hr]
    nofun
  have hidle {k : CallId} {v : Call τ} (hr : s.running = none) (hv : s.call k = some v) : s.target v = none := by
    have hsync := hsync hr hv
    unfold State.target
    split
    · rename_i hctl; exact absurd (by rw [hctl]; rfl) hsync
    · rename_i hctl; exact absurd (by rw [hctl]; rfl) hsync
    · rfl
  have houtside (hout : Outside s s') (hl' : ∀ c ps, l ≠ .override c ps) : ∃ placed', Orderly s' placed' ∧ Advances s placed s' placed' := by
    obtain ⟨placed', hp', he⟩ := ho.books.placing.step hi hl' hs
    exact ⟨placed', ho.quiet hi hl hs he hp' hout.promise hout.log fun k v hv => .inl (by rwa [hout.call] at hv)⟩
  cases step_cases hs with
  | @register c ps => exact houtside (register_outside hi.keyed c ps).1 nofun
  | override => exact hl.elim
  | createRequestScope hr hc => exact houtside (createRequestScope_outside hi.keyed hc).1 nofun
  | @dispose c => exact houtside (dispose_outside s c).1 nofun
  | stale hr ht => exact houtside (runStale_outside ht).1 nofun
  | disposal hr ht => exact houtside (continueDisposal_outside ht).1 nofun
  | @resolve c t =>
    obtain ⟨placed', hp', he⟩ := ho.books.placing.step (l := .resolve c t) hi nofun hs
    refine ⟨placed', ho.quiet hi hl hs he hp' (by rw [startResolve_eq]) (by rw [startResolve_eq]) fun k v hv => ?_⟩
    unfold State.startResolve at hv
    dsimp only at hv
    split at hv
    all_goals
      by_cases hk : k = s.calls
      · subst hk
        simp only [State.setCall, Function.update_self, Option.some.injEq] at hv
        subst hv
        refine .inr ⟨trivial, ?_⟩
        first
          | trivial
          | intro at' hat
            cases hat
      · simp only [State.setCall, Function.update_of_ne hk] at hv
        exact .inl hv
  | advance hr hv ht =>
    obtain ⟨ht⟩ := ht
    refine ho.turn hi hl hs hv (.inr hr) ht rfl (fun e he at' hat q hq => hl _ hr _ hv e he at' hat q hq) fun x _ hctl => ?_
    have hsync := (hi.scheduled _ _ hv).2 hr
    rcases hctl with hctl | ⟨o, hctl, -⟩ <;> rw [hctl] at hsync <;> cases hsync
  | resume hr hv ht =>
    obtain ⟨ht⟩ := ht
    refine ho.turn hi hl hs hv (.inl hr) ht rfl (by rw [hidle hr hv]; rintro e ⟨⟩) fun x _ hctl => ?_
    rcases hctl with hctl | ⟨o, hctl, rfl⟩
    · obtain ⟨v', hv', hs⟩ := step_resume hs
      rw [hv] at hv'
      cases hv'
      simp [State.resume, hctl] at hs
    · have hl := hl _ hv
      rw [hctl] at hl
      exact hl
  | settle hr hv hctl ht =>
    obtain ⟨ht⟩ := ht
    refine ho.turn hi hl hs hv (.inl hr) ht rfl (by rw [hidle hr hv]; rintro e ⟨⟩) fun x hx _ => ?_
    obtain ⟨v', hv', hs⟩ := step_settle hs
    rw [hv] at hv'
    cases hv'
    exact hl _ hv x (settle_value hs (by rw [goOn_call, Function.update_self]) hx)

end Fluo.Di
