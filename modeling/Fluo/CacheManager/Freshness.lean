import Fluo.CacheManager.Service
/-!
# What the cache service keeps

The invariants of the service over all interleavings of its calls: which entry
an in-flight load is under, when its entry is flagged, and that what a stale
load wrote is about to be removed.
-/

namespace Fluo.CacheManager.Service
open Fluo.Lib

variable {κ : Type} [DecidableEq κ]

/-! ## Phases -/

def Outcome.ofLoad (l : Nat) : Outcome → Prop
  | .value v => v.producer = .loader l
  | .failed => True

/-- The phases of a call whose own loader has been called, with its value. -/
def Phase.ofLoad (l : Nat) : Phase → Prop
  | .calling | .loading => True
  | .writing value | .wrote value | .cleaning value | .cleaned value => value.producer = .loader l
  | .settling outcome | .settled outcome => outcome.ofLoad l
  | .reading | .read _ | .joined _ => False

/-- The phases of a load under its entry, from its promise to its `finally`. -/
def Phase.isEntered : Phase → Bool
  | .loading | .writing _ | .wrote _ | .cleaning _ | .cleaned _ | .settling _ => true
  | _ => false

def Phase.isOpen : Phase → Bool
  | .calling | .loading | .writing _ | .wrote _ => true
  | _ => false

/-! ## The parts of a step -/

section Projections
variable (s : State κ) (k : κ)

theorem invalidate_eq : s.invalidate k = { s with
    invalidated := (s.invalidate k).invalidated, pendingInvalidations := (s.invalidate k).pendingInvalidations } := by
  unfold State.invalidate
  split
  · rfl
  · split <;> rfl

@[simp] theorem invalidate_calls : (s.invalidate k).calls = s.calls := by rw [invalidate_eq]
@[simp] theorem invalidate_store : (s.invalidate k).store = s.store := by rw [invalidate_eq]
@[simp] theorem invalidate_inflight : (s.invalidate k).inflight = s.inflight := by rw [invalidate_eq]
@[simp] theorem invalidate_calling : (s.invalidate k).calling = s.calling := by rw [invalidate_eq]
@[simp] theorem invalidate_resetVersion : (s.invalidate k).resetVersion = s.resetVersion := by rw [invalidate_eq]

theorem invalidate_invalidated (l : Nat) :
    (s.invalidate k).invalidated l = true ↔ s.invalidated l = true ∨ s.inflight k = some l := by
  unfold State.invalidate
  split
  case h_1 entry hentry =>
    by_cases hl : l = entry
    · simp [hl, hentry]
    · simp [set_ne _ _ hl, hentry, Ne.symm hl]
  case h_2 hentry => split <;> simp [hentry]

variable (c : Nat) (generation : Nat)

theorem forget_inflight (x : κ) :
    (s.forget c k generation).inflight x = if x = k ∧ s.inflight k = some c then none else s.inflight x := by
  unfold State.forget
  dsimp only
  by_cases hc : s.inflight k = some c
  · rw [if_pos hc, set]
    simp only [hc, and_true]
  · simp only [hc, if_false, and_false]

@[simp] theorem forget_calls : (s.forget c k generation).calls = s.calls := rfl
@[simp] theorem forget_store : (s.forget c k generation).store = s.store := rfl
@[simp] theorem forget_invalidated : (s.forget c k generation).invalidated = s.invalidated := rfl
@[simp] theorem forget_calling : (s.forget c k generation).calling = s.calling := rfl
@[simp] theorem forget_resetVersion : (s.forget c k generation).resetVersion = s.resetVersion := rfl

end Projections

/-! ## The entries -/

structure Inv (s : State κ) : Prop where
  loaded : ∀ l, .load l ∈ s.log → ∃ k v ttl ph, s.calls l = some (.remember k v ttl ph) ∧ ph.ofLoad l
  entered_loaded : ∀ l k v ttl ph, s.calls l = some (.remember k v ttl ph) → ph.isEntered → .load l ∈ s.log
  calling_loaded : ∀ l k v ttl, s.calls l = some (.remember k v ttl .calling) → .load l ∈ s.log
  version : ∀ c k v ttl ph, s.calls c = some (.remember k v ttl ph) → v ≤ s.resetVersion
  calling : ∀ l k v ttl, s.calls l = some (.remember k v ttl .calling) → s.calling = some l
  alone : ∀ l k v ttl, s.calls l = some (.remember k v ttl .calling) → s.inflight k = none
  registered : ∀ l k v ttl ph, s.calls l = some (.remember k v ttl ph) → ph.isEntered → v = s.resetVersion → s.inflight k = some l
  entry : ∀ k l, s.inflight k = some l → ∃ v ttl ph, s.calls l = some (.remember k v ttl ph) ∧ ph.isEntered
  joined : ∀ c k v ttl l, s.calls c = some (.remember k v ttl (.joined l)) → .load l ∈ s.log
  dels : ∀ d k, .del d k ∈ s.log → ∃ p, s.calls d = some (.simple (.del k) p)
  resets : ∀ d, .reset d ∈ s.log → ∃ p, s.calls d = some (.simple .reset p)
  sets : ∀ c k value p, s.calls c = some (.simple (.set k value) p) → ∃ d, value.producer = .caller d

namespace Inv
variable {s t : State κ} {e : Event κ}

theorem loaded_move (hi : Inv s) (hm : Moves s e t) {l : Nat} (hl : .load l ∈ s.log ++ [e]) :
    ∃ k v ttl ph, t.calls l = some (.remember k v ttl ph) ∧ ph.ofLoad l := by
  have hloaded := hi.loaded l
  rw [List.mem_append, List.mem_singleton] at hl
  cases hm <;> simp [State.put, set, State.beginPendingLoad, State.endPendingLoad, State.clear] <;>
    grind [Phase.ofLoad, Outcome.ofLoad]

variable {ttl : Ttl}

theorem entered_loaded_move (hi : Inv s) (hm : Moves s e t) {l : Nat} {k : κ} {v : Nat} {ph : Phase}
    (hl : t.calls l = some (.remember k v ttl ph)) (hp : ph.isEntered) : .load l ∈ s.log ++ [e] := by
  have hentered := hi.entered_loaded l
  have hcalling := hi.calling_loaded l
  rw [List.mem_append, List.mem_singleton]
  cases hm <;> simp [State.put, set, State.beginPendingLoad, State.endPendingLoad, State.clear] at hl <;>
    grind [Phase.isEntered]

theorem calling_loaded_move (hi : Inv s) (hm : Moves s e t) {l : Nat} {k : κ} {v : Nat}
    (hl : t.calls l = some (.remember k v ttl .calling)) : .load l ∈ s.log ++ [e] := by
  have hcalling := hi.calling_loaded l
  rw [List.mem_append, List.mem_singleton]
  cases hm <;> simp [State.put, set, State.beginPendingLoad, State.endPendingLoad, State.clear] at hl <;> grind

theorem version_move (hi : Inv s) (hm : Moves s e t) {c : Nat} {k : κ} {v : Nat} {ph : Phase}
    (hc : t.calls c = some (.remember k v ttl ph)) : v ≤ t.resetVersion := by
  have hversion := hi.version c
  cases hm <;> simp [State.put, set, State.beginPendingLoad, State.endPendingLoad, State.clear] at hc ⊢ <;> grind

theorem calling_move (hi : Inv s) (hm : Moves s e t) {l : Nat} {k : κ} {v : Nat}
    (hl : t.calls l = some (.remember k v ttl .calling)) : t.calling = some l := by
  have hcalling := hi.calling
  cases hm <;> simp [State.put, set, State.beginPendingLoad, State.endPendingLoad, State.clear] at hl ⊢ <;> grind

theorem alone_move (hi : Inv s) (hm : Moves s e t) {l : Nat} {k : κ} {v : Nat}
    (hl : t.calls l = some (.remember k v ttl .calling)) : t.inflight k = none := by
  have hcalling := hi.calling
  have halone := hi.alone
  cases hm <;> simp [State.put, set, State.beginPendingLoad, State.endPendingLoad, State.clear, forget_inflight] at hl ⊢ <;> grind

theorem registered_move (hi : Inv s) (hm : Moves s e t) {l : Nat} {k : κ} {v : Nat} {ph : Phase}
    (hl : t.calls l = some (.remember k v ttl ph)) (hp : ph.isEntered) (hv : v = t.resetVersion) : t.inflight k = some l := by
  have hregistered := hi.registered l
  have halone := hi.alone
  have hversion := hi.version l
  cases hm <;> simp [State.put, set, State.beginPendingLoad, State.endPendingLoad, State.clear, forget_inflight] at hl hv ⊢ <;>
    grind [Phase.isEntered]

theorem entry_move (hi : Inv s) (hm : Moves s e t) {l : Nat} {k : κ} (hl : t.inflight k = some l) :
    ∃ v ttl ph, t.calls l = some (.remember k v ttl ph) ∧ ph.isEntered := by
  have hentry := hi.entry
  cases hm <;> simp [State.put, set, State.beginPendingLoad, State.endPendingLoad, State.clear, forget_inflight] at hl ⊢ <;>
    grind [Phase.isEntered]

theorem joined_move (hi : Inv s) (hm : Moves s e t) {c l : Nat} {k : κ} {v : Nat}
    (hc : t.calls c = some (.remember k v ttl (.joined l))) : .load l ∈ s.log ++ [e] := by
  have hjoined := hi.joined c
  have hentry := hi.entry
  have hentered := hi.entered_loaded
  rw [List.mem_append]
  cases hm <;> simp [State.put, set, State.beginPendingLoad, State.endPendingLoad, State.clear] at hc <;> grind

theorem dels_move (hi : Inv s) (hm : Moves s e t) {d : Nat} {k : κ} (hd : .del d k ∈ s.log ++ [e]) :
    ∃ p, t.calls d = some (.simple (.del k) p) := by
  rcases List.mem_append.1 hd with hd | hd
  · obtain ⟨p, hp⟩ := hi.dels d k hd
    cases hm <;> simp [State.put, set, State.beginPendingLoad, State.endPendingLoad, State.clear] <;> grind
  · cases List.mem_singleton.1 hd
    cases hm
    exact ⟨.pending, set_self ..⟩

theorem resets_move (hi : Inv s) (hm : Moves s e t) {d : Nat} (hd : .reset d ∈ s.log ++ [e]) :
    ∃ p, t.calls d = some (.simple .reset p) := by
  rcases List.mem_append.1 hd with hd | hd
  · obtain ⟨p, hp⟩ := hi.resets d hd
    cases hm <;> simp [State.put, set, State.beginPendingLoad, State.endPendingLoad, State.clear] <;> grind
  · cases List.mem_singleton.1 hd
    cases hm
    exact ⟨.pending, set_self ..⟩

theorem sets_move (hi : Inv s) (hm : Moves s e t) {c : Nat} {k : κ} {value : Value} {p : Progress}
    (hc : t.calls c = some (.simple (.set k value) p)) : ∃ d, value.producer = .caller d := by
  have hsets := hi.sets c
  cases hm <;> simp [State.put, set, State.beginPendingLoad, State.endPendingLoad, State.clear] at hc <;> grind

theorem step {s' : State κ} (hi : Inv s) (h : Service.step s e = some s') : Inv s' := by
  obtain ⟨t, hm, rfl⟩ := step_moves h
  exact {
    loaded := fun _ hl => hi.loaded_move hm hl
    entered_loaded := fun _ _ _ _ _ hl hp => hi.entered_loaded_move hm hl hp
    calling_loaded := fun _ _ _ _ hl => hi.calling_loaded_move hm hl
    version := fun _ _ _ _ _ hc => hi.version_move hm hc
    calling := fun _ _ _ _ hl => hi.calling_move hm hl
    alone := fun _ _ _ _ hl => hi.alone_move hm hl
    registered := fun _ _ _ _ _ hl hp hv => hi.registered_move hm hl hp hv
    entry := fun _ _ hl => hi.entry_move hm hl
    joined := fun _ _ _ _ _ hc => hi.joined_move hm hc
    dels := fun _ _ hd => hi.dels_move hm hd
    resets := fun _ hd => hi.resets_move hm hd
    sets := fun _ _ _ _ hc => hi.sets_move hm hc }

omit [DecidableEq κ] in
theorem init : Inv (State.init : State κ) := by
  constructor <;> simp [State.init]

end Inv

/-! ## Cuts -/

/-- The call of `del` on a key or of `reset`. -/
def Cuts (d : Nat) (k : κ) (e : Event κ) : Prop := e = .del d k ∨ e = .reset d

/-- The loader of `l` was called before the call `d` of `del` on the key or of `reset`. -/
def CutBy (log : List (Event κ)) (l : Nat) (k : κ) (d : Nat) : Prop :=
  ∃ before e after, log = before ++ e :: after ∧ Cuts d k e ∧ .load l ∈ before

variable {log : List (Event κ)}

omit [DecidableEq κ] in
theorem cutBy_concat {e : Event κ} {l d : Nat} {k : κ} :
    CutBy (log ++ [e]) l k d ↔ CutBy log l k d ∨ Cuts d k e ∧ .load l ∈ log := by
  constructor
  · rintro ⟨before, e', after, h, hcut, hload⟩
    rcases List.eq_nil_or_concat after with rfl | ⟨after, e'', rfl⟩
    · obtain ⟨rfl, he⟩ := List.append_inj' h rfl
      cases he
      exact .inr ⟨hcut, hload⟩
    · rw [List.concat_eq_append, ← List.cons_append, ← List.append_assoc] at h
      exact .inl ⟨before, e', after, (List.append_inj' h rfl).1, hcut, hload⟩
  · rintro (⟨before, e', after, rfl, hcut, hload⟩ | ⟨hcut, hload⟩)
    · exact ⟨before, e', after ++ [e], by simp, hcut, hload⟩
    · exact ⟨log, e, [], rfl, hcut, hload⟩

omit [DecidableEq κ] in
theorem CutBy.load_mem {l d : Nat} {k : κ} (h : CutBy log l k d) : .load l ∈ log := by
  obtain ⟨before, e, after, rfl, _, hload⟩ := h
  exact List.mem_append_left _ hload

omit [DecidableEq κ] in
theorem CutBy.mem {l d : Nat} {k : κ} (h : CutBy log l k d) : .del d k ∈ log ∨ .reset d ∈ log := by
  obtain ⟨before, e, after, rfl, rfl | rfl, _⟩ := h
  · exact .inl (by simp)
  · exact .inr (by simp)

section
variable {s t : State κ} {e : Event κ}

variable {k : κ} {l : Nat} {val : Value}

omit [DecidableEq κ] in
theorem Inv.cut (hi : Inv s) {d : Nat} (h : CutBy s.log l k d) :
    (∃ p, s.calls d = some (.simple (.del k) p)) ∨ ∃ p, s.calls d = some (.simple .reset p) :=
  h.mem.imp (hi.dels d k) (hi.resets d)

/-! ## Flags -/

/-- No loader deletes its own key before it has returned its promise. -/
def Outside (s : State κ) : Event κ → Bool
  | .del _ k =>
    match s.calling.bind s.calls with
    | some (.remember key _ _ _) => key ≠ k
    | _ => true
  | _ => true

/-- An open load that has been cut is flagged, or of an earlier reset version. -/
def Flagged (s : State κ) : Prop :=
  ∀ l k d v ttl ph, CutBy s.log l k d → s.calls l = some (.remember k v ttl ph) → ph.isOpen → s.isStale l v = true

theorem Inv.open_before (hi : Inv s) (hm : Moves s e t) {v : Nat} {ttl : Ttl} {ph : Phase}
    (hload : .load l ∈ s.log) (hl : t.calls l = some (.remember k v ttl ph)) (hp : ph.isOpen) :
    ∃ ph', s.calls l = some (.remember k v ttl ph') ∧ ph'.isOpen := by
  obtain ⟨k₀, v₀, ttl₀, ph₀, hl₀, hp₀⟩ := hi.loaded l hload
  cases hm <;> simp [State.put, set, State.beginPendingLoad, State.endPendingLoad, State.clear] at hl <;>
    grind [Phase.isOpen, Phase.ofLoad]

theorem Inv.stale_mono (hi : Inv s) (hm : Moves s e t) {v : Nat} (hload : .load l ∈ s.log) (hv : v ≤ s.resetVersion)
    (hs : s.isStale l v = true) : t.isStale l v = true := by
  obtain ⟨k₀, v₀, ttl₀, ph₀, hl₀, hp₀⟩ := hi.loaded l hload
  simp only [State.isStale, Bool.or_eq_true, decide_eq_true_eq, ne_eq] at hs ⊢
  cases hm with
  | del => exact hs.imp (fun h => (invalidate_invalidated s _ l).2 (.inl h)) (by simp [State.put])
  | reset => exact .inr (by simp [State.put, State.clear]; omega)
  | @load c key version ttl cached hc =>
    have hne : l ≠ c := by
      rintro rfl
      rw [hc] at hl₀
      cases hl₀
      cases hp₀
    simpa [State.put, set, hne] using hs
  | _ => simpa [State.put, State.beginPendingLoad, State.endPendingLoad] using hs

theorem Flagged.step {s' : State κ} (hf : Flagged s) (hi : Inv s) (ho : Outside s e) (h : Service.step s e = some s') :
    Flagged s' := by
  obtain ⟨t, hm, rfl⟩ := step_moves h
  intro l k d v ttl ph hcut hl hp
  rcases cutBy_concat.1 hcut with hcut | ⟨hcut, hload⟩
  · obtain ⟨ph', hl', hp'⟩ := hi.open_before hm hcut.load_mem hl hp
    exact hi.stale_mono hm hcut.load_mem (hi.version _ _ _ _ _ hl') (hf l k d v ttl ph' hcut hl' hp')
  · obtain ⟨ph', hl', hp'⟩ := hi.open_before hm hload hl hp
    have hv := hi.version _ _ _ _ _ hl'
    by_cases hstale : s.isStale l v = true
    · exact hi.stale_mono hm hload hv hstale
    have hcurrent : v = s.resetVersion := by
      simp only [State.isStale, Bool.or_eq_true, decide_eq_true_eq, not_or, not_not] at hstale
      exact hstale.2.symm
    rcases hcut with rfl | rfl
    · -- an entered load of the current version is in flight under its key
      have hentered : ph'.isEntered := by
        cases ph' with
        | calling =>
          simp [Outside, hi.calling l k v ttl hl', hl'] at ho
        | loading | writing | wrote => rfl
        | _ => cases hp'
      have hentry := hi.registered l k v ttl ph' hl' hentered hcurrent
      cases hm
      exact Bool.or_eq_true _ _ ▸ .inl ((invalidate_invalidated s k l).2 (.inr hentry))
    · cases hm
      have hnext : s.resetVersion + 1 ≠ v := by omega
      exact Bool.or_eq_true _ _ ▸ .inr (decide_eq_true hnext)

/-! ## What a cut load has written -/

/-- The load has written, and has yet to check its entry or to remove what it wrote. -/
def Phase.isRemoving : Phase → Bool
  | .wrote _ | .cleaning _ => true
  | _ => false

/-- A value of a cut load in the store is about to be removed: by the load
itself or by the call that cut it. -/
def Stored (s : State κ) : Prop :=
  ∀ k val l, s.store k = some val → val.producer = .loader l →
    .load l ∈ s.log ∧ (∃ v ttl ph, s.calls l = some (.remember k v ttl ph)) ∧ ∀ d, CutBy s.log l k d →
      (∃ v ttl ph, s.calls l = some (.remember k v ttl ph) ∧ ph.isRemoving) ∨
        s.calls d = some (.simple (.del k) .pending) ∨ s.calls d = some (.simple .reset .pending)

theorem Inv.store_before (hi : Inv s) (hm : Moves s e t) (hval : t.store k = some val) :
    s.store k = some val ∨ (∃ c v ttl, s.calls c = some (.remember k v ttl (.writing val)) ∧
      t.calls c = some (.remember k v ttl (.wrote val))) ∨ ∃ d, val.producer = .caller d := by
  cases hm with
  | @write c key version ttl value hc =>
    by_cases hk : k = key
    · subst hk
      obtain rfl : value = val := Option.some.inj ((set_self ..).symm.trans hval)
      exact .inr (.inl ⟨c, version, ttl, hc, set_self ..⟩)
    · exact .inl ((set_ne _ _ hk).symm.trans hval)
  | @writeSet c key value hc =>
    by_cases hk : k = key
    · subst hk
      obtain rfl : value = val := Option.some.inj ((set_self ..).symm.trans hval)
      exact .inr (.inr (hi.sets _ _ _ _ hc))
    · exact .inl ((set_ne _ _ hk).symm.trans hval)
  | @erase c key | @eraseDel c key | @evict key =>
    by_cases hk : k = key
    · subst hk
      cases (set_self s.store k none).symm.trans hval
    · exact .inl ((set_ne _ _ hk).symm.trans hval)
  | wipe => cases hval
  | del => exact .inl (by simpa [State.put] using hval)
  | _ => exact .inl hval

theorem remember_after (hm : Moves s e t) {v : Nat} {ttl : Ttl} {ph : Phase}
    (hl : s.calls l = some (.remember k v ttl ph)) : ∃ ph', t.calls l = some (.remember k v ttl ph') := by
  cases hm <;> simp [State.put, set, State.beginPendingLoad, State.endPendingLoad, State.clear] <;> grind

theorem removing_after (hm : Moves s e t) {v : Nat} {ttl : Ttl} {ph : Phase}
    (hl : s.calls l = some (.remember k v ttl ph)) (hp : ph.isRemoving) (hstale : ph.isOpen → s.isStale l v = true)
    (hval : t.store k = some val) : ∃ ph', t.calls l = some (.remember k v ttl ph') ∧ ph'.isRemoving := by
  cases hm <;> simp [State.put, set, State.beginPendingLoad, State.endPendingLoad, State.clear] at hval ⊢ <;>
    grind [Phase.isRemoving, Phase.isOpen]

theorem pending_after (hm : Moves s e t) {d : Nat} (hval : t.store k = some val)
    (hd : s.calls d = some (.simple (.del k) .pending) ∨ s.calls d = some (.simple .reset .pending)) :
    t.calls d = some (.simple (.del k) .pending) ∨ t.calls d = some (.simple .reset .pending) := by
  cases hm <;> simp [State.put, set, State.beginPendingLoad, State.endPendingLoad, State.clear] at hval ⊢ <;> grind

theorem cut_pending (hm : Moves s e t) {d : Nat} (h : Cuts d k e) :
    t.calls d = some (.simple (.del k) .pending) ∨ t.calls d = some (.simple .reset .pending) := by
  rcases h with rfl | rfl
  · cases hm
    exact .inl (set_self ..)
  · cases hm
    exact .inr (set_self ..)

theorem Stored.step {s' : State κ} (hs : Stored s) (hf : Flagged s) (hi : Inv s) (h : Service.step s e = some s') : Stored s' := by
  obtain ⟨t, hm, rfl⟩ := step_moves h
  intro k val l hval hproducer
  rcases hi.store_before hm hval with hval' | ⟨c, v, ttl, hc, hc'⟩ | ⟨d, hd⟩
  · obtain ⟨hload, ⟨v, ttl, ph, hl⟩, hcuts⟩ := hs k val l hval' hproducer
    obtain ⟨ph', hl'⟩ := remember_after hm hl
    refine ⟨List.mem_append_left _ hload, ⟨v, ttl, ph', hl'⟩, fun d hcut => ?_⟩
    rcases cutBy_concat.1 hcut with hcut | ⟨hcut, _⟩
    · rcases hcuts d hcut with ⟨v, ttl, ph, hl, hp⟩ | hpending
      · obtain ⟨ph', hl', hp'⟩ := removing_after hm hl hp (hf l k d v ttl ph hcut hl) hval
        exact .inl ⟨v, ttl, ph', hl', hp'⟩
      · exact .inr (pending_after hm hval hpending)
    · exact .inr (cut_pending hm hcut)
  · -- just written: the load of `c` is that of `l`, and has yet to check its entry
    have hload := hi.entered_loaded c k v ttl _ hc rfl
    obtain ⟨_, _, _, _, hc'', hp⟩ := hi.loaded c hload
    rw [hc] at hc''
    cases hc''
    obtain rfl : c = l := Producer.loader.inj (hp.symm.trans hproducer)
    exact ⟨List.mem_append_left _ hload, ⟨v, ttl, _, hc'⟩, fun d _ => .inl ⟨v, ttl, _, hc', rfl⟩⟩
  · rw [hd] at hproducer
    cases hproducer

end

/-! ## Runs -/

theorem run_log {ok : State κ → Event κ → Prop} {s s' : State κ} {es : List (Event κ)} (h : Run step ok s es s') :
    s'.log = s.log ++ es := by
  induction h with
  | nil => simp
  | cons _ hs _ ih =>
    obtain ⟨t, _, rfl⟩ := step_moves hs
    simp [ih]

omit [DecidableEq κ] in
theorem Flagged.init : Flagged (State.init : State κ) := by
  intro l k d v ttl ph _ hl
  cases hl

omit [DecidableEq κ] in
theorem Stored.init : Stored (State.init : State κ) := by
  intro k val l hval
  cases hval

theorem run_keeps {es : List (Event κ)} {s : State κ} (h : Run step (fun s e => Outside s e) State.init es s) : Inv s ∧ Flagged s ∧ Stored s := by
  refine h.keeps (fun s => Inv s ∧ Flagged s ∧ Stored s) (fun s e s' ho hi hstep => ?_) ⟨Inv.init, Flagged.init, Stored.init⟩
  obtain ⟨hi, hf, hs⟩ := hi
  exact ⟨hi.step hstep, hf.step hi ho hstep, hs.step hf hi hstep⟩

def Call.isSettled : Call κ → Bool
  | .remember _ _ _ (.settled _) | .simple _ (.settled _) => true
  | _ => false

/-- All calls have settled. -/
def Quiet (s : State κ) : Prop := ∀ c call, s.calls c = some call → call.isSettled

/-- Once all calls have settled, the store holds under a key no value of a
loader that was called before a call of `del` on the key or of `reset`. -/
theorem no_stale_value (es : List (Event κ)) (s : State κ) (h : Run step (fun s e => Outside s e) State.init es s) (hq : Quiet s)
    (k : κ) (val : Value) (l : Nat) (hval : s.store k = some val) (hproducer : val.producer = .loader l) :
    ∀ d, ¬CutBy es l k d := by
  intro d hcut
  obtain ⟨_, _, hs⟩ := run_keeps h
  have hlog : s.log = es := run_log h
  obtain ⟨_, _, hcuts⟩ := hs k val l hval hproducer
  rcases hcuts d (hlog ▸ hcut) with ⟨v, ttl, ph, hl, hp⟩ | hd | hd
  · have hsettled := hq l _ hl
    cases ph <;> cases hp <;> cases hsettled
  · cases hq d _ hd
  · cases hq d _ hd

/-- The loader of `l` was called before the call `d` of `del` on the key or of `reset` had completed. -/
def CompletedAfter (log : List (Event κ)) (l : Nat) (k : κ) (d : Nat) : Prop :=
  ∃ before after, log = before ++ .settle d :: after ∧ .load l ∈ before ∧ (.del d k ∈ before ∨ .reset d ∈ before)

/-- A loader called while `del` waits for the store. -/
def duringDel : List (Event Nat) :=
  [.del 0 7, .remember 1 7 (.seconds 0), .read 1, .load 1, .returned 1, .erase 0, .settle 0, .resolved 1 true, .write 1,
    .checked 1, .finalize 1]

theorem duringDel_run : Run step (fun s e => Outside s e) State.init duringDel (after step State.init duringDel) :=
  Run.of_passes (fun _ _ h => h) (by decide)

theorem duringDel_quiet : Quiet (after step State.init duringDel)
  | 0, _, hc => by cases hc; rfl
  | 1, _, hc => by cases hc; rfl
  | _ + 2, _, hc => by cases hc

/-- `del` does not reach a loader that is called after it and before it has completed. -/
theorem no_stale_value_during : ∃ s, Run step (fun s e => Outside s e) State.init duringDel s ∧ Quiet s ∧
    s.store 7 = some ⟨.loader 1, true⟩ ∧ CompletedAfter duringDel 1 7 0 :=
  ⟨_, duringDel_run, duringDel_quiet, rfl,
    [.del 0 7, .remember 1 7 (.seconds 0), .read 1, .load 1, .returned 1, .erase 0], _, rfl, by decide, by decide⟩

theorem no_stale_value_duringDel : (after step State.init duringDel).store 7 = some ⟨.loader 1, true⟩ ∧ ∀ d, ¬CutBy duringDel 1 7 d :=
  ⟨rfl, no_stale_value duringDel _ duringDel_run duringDel_quiet 7 ⟨.loader 1, true⟩ 1 rfl rfl⟩

end Fluo.CacheManager.Service
