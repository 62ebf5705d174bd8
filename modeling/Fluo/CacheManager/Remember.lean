import Fluo.CacheManager.Freshness
/-!
# What remember returns and writes

When a `remember` call cannot return what a loader from before a completed
`del` or `reset` has loaded, and when what its own loader has loaded reaches
the store.
-/

namespace Fluo.CacheManager.Service
open Fluo.Lib

variable {κ : Type} [DecidableEq κ] {s t : State κ} {e : Event κ}

/-! ## The conditions -/

/-- The load has called `set` on the store, and has yet to check its entry or to remove what it wrote. -/
def Phase.isWriting : Phase → Bool
  | .writing _ | .wrote _ | .cleaning _ => true
  | _ => false

/-- The call has completed. -/
def Completed (s : State κ) (d : Nat) : Prop := ∃ operation found, s.calls d = some (.simple operation (.settled found))

/-- The load is not in flight under the key, and has no write to remove. -/
def Cleared (s : State κ) (k : κ) (l : Nat) : Prop :=
  s.inflight k ≠ some l ∧ ∀ v ttl ph, s.calls l = some (.remember k v ttl ph) → ph.isWriting = false

/-- The call of `remember` comes when no load that a completed `del` or `reset`
has cut is in flight under its key or has a write to remove. -/
def Unshared (s : State κ) (e : Event κ) : Prop :=
  ∀ c k ttl, e = .remember c k ttl → ∀ l d, CutBy s.log l k d → Completed s d → Cleared s k l

/-- `del` or `reset` was called after the `remember` call. -/
def CutSince (log : List (Event κ)) (c : Nat) (k : κ) : Prop :=
  ∃ before e after d, log = before ++ e :: after ∧ Cuts d k e ∧ ∃ ttl, .remember c k ttl ∈ before

/-- A mark that the loader's call finds is of a `del` called after its `remember`. -/
def Marked (s : State κ) (e : Event κ) : Prop :=
  ∀ c, e = .load c → ∀ k v ttl ph, s.calls c = some (.remember k v ttl ph) →
    s.pendingInvalidations k = some v → CutSince s.log c k

/-! ## Completed calls -/

structure Recorded (s : State κ) : Prop where
  settled : ∀ d, .settle d ∈ s.log → Completed s d
  waiting : ∀ l k v ttl d, s.calls l = some (.remember k v ttl .calling) → CutBy s.log l k d → ¬Completed s d
  remembered : ∀ c k ttl, .remember c k ttl ∈ s.log → ∃ v ph, s.calls c = some (.remember k v ttl ph)

theorem completed_after (hm : Moves s e t) {d : Nat} (h : Completed s d) : Completed t d := by
  obtain ⟨operation, found, h⟩ := h
  cases hm <;> simp [Completed, State.put, set, State.beginPendingLoad, State.endPendingLoad, State.clear] <;> grind

variable {k : κ} {l v : Nat} {ttl : Ttl} {s' : State κ} {es : List (Event κ)}

theorem completed_before (hi : Inv s) (hm : Moves s e t) {d : Nat}
    (hl : s.calls l = some (.remember k v ttl .calling)) (hd : s.calls d ≠ none) (h : Completed t d) : Completed s d := by
  have hcalling := hi.calling l k v ttl hl
  obtain ⟨operation, found, h⟩ := h
  unfold Completed
  cases hm <;> simp [State.put, set, State.beginPendingLoad, State.endPendingLoad, State.clear] at h ⊢ <;> grind

theorem calling_before (hm : Moves s e t)
    (hl : t.calls l = some (.remember k v ttl .calling)) :
    s.calls l = some (.remember k v ttl .calling) ∨ ∃ cached, s.calls l = some (.remember k v ttl (.read cached)) := by
  cases hm <;> simp [State.put, set, State.beginPendingLoad, State.endPendingLoad, State.clear] at hl <;> grind

theorem Recorded.step (hr : Recorded s) (hi : Inv s) (h : Service.step s e = some s') : Recorded s' := by
  obtain ⟨t, hm, rfl⟩ := step_moves h
  refine ⟨fun d hd => ?_, fun l k v ttl d hl hcut => ?_, fun c k ttl hc => ?_⟩
  · rcases List.mem_append.1 hd with hd | hd
    · exact completed_after hm (hr.settled d hd)
    · cases List.mem_singleton.1 hd
      cases hm
      exact ⟨_, _, set_self ..⟩
  · rcases cutBy_concat.1 hcut with hcut | ⟨hcut, _⟩
    · rcases calling_before hm hl with hl | ⟨cached, hl⟩
      · have hd : s.calls d ≠ none := by
          rcases hi.cut hcut with ⟨p, hp⟩ | ⟨p, hp⟩ <;> rw [hp] <;> exact Option.some_ne_none _
        exact fun hc => hr.waiting l k v ttl d hl hcut (completed_before hi hm hl hd hc)
      · obtain ⟨_, _, _, _, hl', hp⟩ := hi.loaded l hcut.load_mem
        rw [hl] at hl'
        cases hl'
        cases hp
    · rintro ⟨operation, found, hd⟩
      change t.calls d = _ at hd
      rcases cut_pending hm hcut with h | h <;> rw [h] at hd <;> cases hd
  · rcases List.mem_append.1 hc with hc | hc
    · obtain ⟨v, ph, hv⟩ := hr.remembered c k ttl hc
      obtain ⟨ph', hv'⟩ := remember_after hm hv
      exact ⟨v, ph', hv'⟩
    · cases List.mem_singleton.1 hc
      cases hm
      exact ⟨_, _, set_self ..⟩

/-! ## Loads that are gone -/

/-- What the load has loaded can no longer be read, or be written, under the key. -/
structure Gone (s : State κ) (k : κ) (l : Nat) : Prop where
  loaded : .load l ∈ s.log
  inflight : s.inflight k ≠ some l
  store : ∀ val, s.store k = some val → val.producer ≠ .loader l
  phase : ∀ v ttl ph, s.calls l = some (.remember k v ttl ph) →
    ph.isWriting = false ∧ ph ≠ .calling ∧ (ph = .loading → v ≠ s.resetVersion)

theorem inflight_before (hm : Moves s e t) (hl : t.inflight k = some l) :
    s.inflight k = some l ∨ ∃ v ttl, s.calls l = some (.remember k v ttl .calling) := by
  cases hm <;> simp [State.put, set, State.beginPendingLoad, State.endPendingLoad, State.clear, forget_inflight] at hl <;> grind

theorem gone_phase (hi : Inv s) (hm : Moves s e t) {ph : Phase} (hg : Gone s k l)
    (hl : t.calls l = some (.remember k v ttl ph)) :
    ph.isWriting = false ∧ ph ≠ .calling ∧ (ph = .loading → v ≠ t.resetVersion) := by
  have hphase := hg.phase
  have hversion := hi.version l
  obtain ⟨k₀, v₀, ttl₀, ph₀, hl₀, hp₀⟩ := hi.loaded l hg.loaded
  cases hm <;> simp [State.put, set, State.beginPendingLoad, State.endPendingLoad, State.clear] at hl ⊢ <;>
    grind [Phase.isWriting, Phase.ofLoad, State.isStale]

theorem Gone.step (hg : Gone s k l) (hi : Inv s) (h : Service.step s e = some s') : Gone s' k l := by
  obtain ⟨t, hm, rfl⟩ := step_moves h
  refine ⟨List.mem_append_left _ hg.loaded, fun hl => ?_, fun val hval hproducer => ?_, fun v ttl ph hl => gone_phase hi hm hg hl⟩
  · rcases inflight_before hm hl with hl | ⟨v, ttl, hl⟩
    · exact hg.inflight hl
    · exact (hg.phase v ttl _ hl).2.1 rfl
  · rcases hi.store_before hm hval with hval | ⟨c, v, ttl, hc, _⟩ | ⟨d, hd⟩
    · exact hg.store val hval hproducer
    · obtain ⟨_, _, _, _, hc', hp⟩ := hi.loaded c (hi.entered_loaded c k v ttl _ hc rfl)
      rw [hc] at hc'
      cases hc'
      obtain rfl : c = l := Producer.loader.inj (hp.symm.trans hproducer)
      cases (hg.phase v ttl _ hc).1
    · rw [hd] at hproducer
      cases hproducer

omit [DecidableEq κ] in
theorem gone_of_cleared (hi : Inv s) (hs : Stored s) (hr : Recorded s) {d : Nat} (hcut : CutBy s.log l k d)
    (hd : Completed s d) (hc : Cleared s k l) : Gone s k l := by
  obtain ⟨operation, found, hd'⟩ := hd
  refine ⟨hcut.load_mem, hc.1, fun val hval hproducer => ?_, fun v ttl ph hl => ⟨hc.2 v ttl ph hl, ?_, ?_⟩⟩
  · rcases (hs k val l hval hproducer).2.2 d hcut with ⟨v, ttl, ph, hl, hp⟩ | h | h
    · have := hc.2 v ttl ph hl
      cases ph <;> cases hp <;> cases this
    · rw [hd'] at h
      cases h
    · rw [hd'] at h
      cases h
  · rintro rfl
    exact hr.waiting l k v ttl d hl hcut ⟨operation, found, hd'⟩
  · rintro rfl hv
    exact hc.1 (hi.registered l k v ttl _ hl rfl hv)

/-! ## Fresh calls -/

def Outcome.avoids (l : Nat) : Outcome → Prop
  | .value v => v.producer ≠ .loader l
  | .failed => True

def Phase.avoids (l : Nat) : Phase → Prop
  | .read cached => ∀ v, cached = some v → v.producer ≠ .loader l
  | .joined load => load ≠ l
  | .settling outcome | .settled outcome => outcome.avoids l
  | _ => True

theorem Outcome.avoids_of_ofLoad {c : Nat} {outcome : Outcome} (hne : c ≠ l) (h : outcome.ofLoad c) : outcome.avoids l := by
  cases outcome with
  | failed => trivial
  | value v =>
    intro hl
    exact hne (Producer.loader.inj (Eq.trans (Eq.symm h) hl))

theorem avoids_after (hi : Inv s) (hm : Moves s e t) {c : Nat} {ph : Phase} (hne : c ≠ l)
    (hg : Gone s k l) (hc : s.calls c = some (.remember k v ttl ph)) (hp : ph.avoids l) :
    ∃ ph', t.calls c = some (.remember k v ttl ph') ∧ ph'.avoids l := by
  have hinflight := hg.inflight
  have hstore := hg.store
  have hloaded := hi.loaded
  have hentered := hi.entered_loaded c
  have hjoined := hi.joined c
  cases hm <;> simp [State.put, set, State.beginPendingLoad, State.endPendingLoad, State.clear] <;>
    grind [Phase.avoids, Outcome.avoids, Phase.ofLoad, Outcome.avoids_of_ofLoad, Outcome.ofLoad, Phase.isEntered]

/-! ## Direct calls -/

/-- How far a load that nothing cuts has come: its entry is not flagged, and
what it has settled with has been written. -/
def Phase.direct (c : Nat) (flag : Bool) (log : List (Event κ)) : Phase → Prop
  | .calling | .loading | .writing _ => flag = false
  | .wrote _ => flag = false ∧ .write c ∈ log
  | .cleaning _ | .cleaned _ => False
  | .settling outcome | .settled outcome => outcome ≠ .failed → .load c ∈ log → .write c ∈ log
  | _ => True

omit [DecidableEq κ] in
theorem Phase.direct_append {c : Nat} {flag : Bool} {log : List (Event κ)} {ph : Phase} (h : ph.direct c flag log)
    (hload : e ≠ .load c) : ph.direct c flag (log ++ [e]) := by
  cases ph with
  | wrote => exact ⟨h.1, List.mem_append_left _ h.2⟩
  | settling | settled =>
    intro hvalue hmem
    rcases List.mem_append.1 hmem with hmem | hmem
    · exact List.mem_append_left _ (h hvalue hmem)
    · exact absurd (List.mem_singleton.1 hmem).symm hload
  | _ => exact h

theorem flag_after (hi : Inv s) (hm : Moves s e t) {c : Nat} {ph : Phase}
    (hc : s.calls c = some (.remember k v ttl ph)) (hcut : ∀ d, ¬Cuts d k e) (hload : e ≠ .load c) :
    t.invalidated c = s.invalidated c := by
  cases hm with
  | @del d key =>
    by_cases hflag : s.inflight key = some c
    · obtain ⟨_, _, _, hc', _⟩ := hi.entry key c hflag
      rw [hc] at hc'
      cases hc'
      exact absurd (.inl rfl) (hcut d)
    · have hiff := invalidate_invalidated s key c
      simp only [hflag, or_false] at hiff
      exact Bool.eq_iff_iff.2 hiff
  | @load c' =>
    have hne : c ≠ c' := fun h => hload (h ▸ rfl)
    simp [State.put, set, hne]
  | _ => rfl

theorem version_after (hm : Moves s e t) (hcut : ∀ d, ¬Cuts d k e) : t.resetVersion = s.resetVersion := by
  cases hm with
  | reset => exact absurd (.inr rfl) (hcut _)
  | del => simp [State.put]
  | _ => rfl

theorem direct_after (hi : Inv s) (hm : Moves s e t) {c : Nat} {ph : Phase} (hcut : ∀ d, ¬Cuts d k e)
    (hmark : Marked s e) (hsince : ¬CutSince s.log c k) (hstorable : ttl.isStorable = true)
    (hc : s.calls c = some (.remember k s.resetVersion ttl ph)) (hp : ph.direct c (s.invalidated c) s.log) :
    ∃ ph', t.calls c = some (.remember k t.resetVersion ttl ph') ∧ ph'.direct c (t.invalidated c) (s.log ++ [e]) := by
  have hversion := version_after hm hcut
  by_cases hload : e = .load c
  · subst hload
    have hunmarked : s.pendingInvalidations k ≠ some s.resetVersion := fun h => hsince (hmark c rfl k s.resetVersion ttl ph hc h)
    cases hm with
    | load hc' =>
      rw [hc] at hc'
      cases hc'
      exact ⟨.calling, set_self .., (set_self ..).trans (decide_eq_false hunmarked)⟩
  · have hflag := flag_after hi hm hc hcut hload
    rw [hversion, hflag]
    have hloaded := hi.loaded c
    have hdirect := Phase.direct_append hp hload
    have hmem : e ∈ s.log ++ [e] := by simp
    cases hm <;> simp [State.put, set, State.beginPendingLoad, State.endPendingLoad, State.clear] <;>
      grind [Phase.direct, Phase.ofLoad, State.isStale]

/-! ## Runs -/

/-- The steps of a run that keeps clear of invalidated loads and of marks left behind. -/
structure Careful (s : State κ) (e : Event κ) : Prop where
  outside : Outside s e
  unshared : Unshared s e
  marked : Marked s e

structure Sound (s : State κ) : Prop where
  inv : Inv s
  flagged : Flagged s
  stored : Stored s
  recorded : Recorded s

theorem Sound.step (hs : Sound s) (ho : Careful s e) (h : Service.step s e = some s') : Sound s' where
  inv := hs.inv.step h
  flagged := hs.flagged.step hs.inv ho.outside h
  stored := hs.stored.step hs.flagged hs.inv h
  recorded := hs.recorded.step hs.inv h

omit [DecidableEq κ] in
theorem Sound.init : Sound (State.init : State κ) where
  inv := Inv.init
  flagged := Flagged.init
  stored := Stored.init
  recorded := by constructor <;> simp [State.init]

theorem Sound.of_run (h : Run Service.step Careful State.init es s) : Sound s :=
  h.keeps Sound (fun _ _ _ ho hs hstep => hs.step ho hstep) Sound.init

/-- The `remember` call began when a call of `del` on its key or of `reset`
had completed, before which the loader of `l` had been called. -/
def Overtaken (es : List (Event κ)) (c : Nat) (k : κ) (l : Nat) : Prop :=
  ∃ before rest ttl d, es = before ++ .remember c k ttl :: rest ∧ CutBy before l k d ∧ .settle d ∈ before

/-- Nothing cut the key once the `remember` call had begun. -/
def Uncut (es : List (Event κ)) (c : Nat) (k : κ) : Prop :=
  ∃ before rest ttl, es = before ++ .remember c k ttl :: rest ∧ ∀ e ∈ rest, ∀ d, ¬Cuts d k e

theorem split_remember {ok : State κ → Event κ → Prop} {before rest : List (Event κ)} {c : Nat}
    (h : Run step ok State.init (before ++ .remember c k ttl :: rest) s) :
    ∃ m m', Run step ok State.init before m ∧ m.log = before ∧ ok m (.remember c k ttl) ∧ m.calls c = none ∧
      Service.step m (.remember c k ttl) = some m' ∧
      m'.calls c = some (.remember k m'.resetVersion ttl .reading) ∧ Run step ok m' rest s := by
  obtain ⟨m, hm, hrest⟩ := h.of_append
  cases hrest with
  | @cons _ _ m' _ _ ho hstep hrest =>
    obtain ⟨t, hmove, rfl⟩ := step_moves hstep
    cases hmove with
    | remember hfree => exact ⟨m, _, hm, run_log hm, ho, hfree, hstep, set_self .., hrest⟩

theorem avoids_of_overtaken (h : Run step Careful State.init es s) {c : Nat}
    {val : Value} (hc : s.calls c = some (.remember k v ttl (.settled (.value val)))) (hover : Overtaken es c k l) :
    val.producer ≠ .loader l := by
  obtain ⟨before, rest, ttl', d, rfl, hcut, hsettle⟩ := hover
  obtain ⟨m, m', hm, hlog, ho, hfree, hstep, hreading, hrest⟩ := split_remember h
  have hsound := Sound.of_run hm
  have hdone := hsound.recorded.settled d (hlog ▸ hsettle)
  have hgone := gone_of_cleared hsound.inv hsound.stored hsound.recorded (hlog ▸ hcut) hdone
    (ho.unshared c k ttl' rfl l d (hlog ▸ hcut) hdone)
  have hne : c ≠ l := by
    rintro rfl
    obtain ⟨_, _, _, _, hl, _⟩ := hsound.inv.loaded c hgone.loaded
    rw [hfree] at hl
    cases hl
  have hkeeps := hrest.keeps (fun s => Sound s ∧ Gone s k l ∧ ∃ v ph, s.calls c = some (.remember k v ttl' ph) ∧ ph.avoids l)
    (fun s e s' ho hi hstep => by
      obtain ⟨hs, hg, v, ph, hc, hp⟩ := hi
      obtain ⟨t, hmove, rfl⟩ := step_moves hstep
      obtain ⟨ph', hc', hp'⟩ := avoids_after hs.inv hmove hne hg hc hp
      exact ⟨hs.step ho hstep, hg.step hs.inv hstep, v, ph', hc', hp'⟩)
    ⟨hsound.step ho hstep, hgone.step hsound.inv hstep, _, _, hreading, trivial⟩
  obtain ⟨_, _, v', ph', hc', hp'⟩ := hkeeps
  rw [hc] at hc'
  cases hc'
  exact hp'

omit [DecidableEq κ] in
theorem not_cutSince {before done : List (Event κ)} {c : Nat}
    (hfresh : ∀ ttl, .remember c k ttl ∉ before) (hdone : ∀ e ∈ done, ∀ d, ¬Cuts d k e) :
    ¬CutSince (before ++ .remember c k ttl :: done) c k := by
  rintro ⟨b, e, a, d, h, hcut, ttl', hmem⟩
  rcases List.append_eq_append_iff.1 h with ⟨m, rfl, hm⟩ | ⟨m, rfl, hm⟩
  · cases m with
    | nil => exact hfresh ttl' (by simpa using hmem)
    | cons e' m =>
      obtain ⟨_, hm⟩ := List.cons.inj hm
      exact hdone e (hm ▸ List.mem_append_right _ List.mem_cons_self) d hcut
  · exact hfresh ttl' (List.mem_append_left _ hmem)

theorem written_of_uncut (h : Run step Careful State.init es s) {c : Nat}
    {val : Value} (hc : s.calls c = some (.remember k v ttl (.settled (.value val)))) (hstorable : ttl.isStorable = true)
    (huncut : Uncut es c k) (hload : .load c ∈ es) : .write c ∈ es := by
  obtain ⟨before, rest, ttl', rfl, huncut⟩ := huncut
  obtain ⟨m, m', hm, hlog, ho, hfree, hstep, hreading, hrest⟩ := split_remember h
  have hsound := Sound.of_run hm
  have hfresh (ttl) : .remember c k ttl ∉ before := by
    intro hmem
    obtain ⟨_, _, hr⟩ := hsound.recorded.remembered c k ttl (hlog ▸ hmem)
    rw [hfree] at hr
    cases hr
  have hlog' : s.log = before ++ .remember c k ttl' :: rest := run_log h
  obtain ⟨_, _, httl⟩ := (Sound.of_run h).recorded.remembered c k ttl' (by simp [hlog'])
  rw [hc] at httl
  cases httl
  have hkeeps := (hrest.labels huncut).keeps
    (fun s => Sound s ∧ (∃ done, s.log = before ++ .remember c k ttl :: done ∧ ∀ e ∈ done, ∀ d, ¬Cuts d k e) ∧
      ∃ ph, s.calls c = some (.remember k s.resetVersion ttl ph) ∧ ph.direct c (s.invalidated c) s.log)
    (fun s e s' ho hi hstep => by
      obtain ⟨hs, ⟨done, hlog, hdone⟩, ph, hc, hp⟩ := hi
      have hsince : ¬CutSince s.log c k := hlog ▸ not_cutSince hfresh hdone
      refine ⟨hs.step ho.1 hstep, ?_⟩
      obtain ⟨t, hmove, rfl⟩ := step_moves hstep
      refine ⟨⟨done ++ [e], by simp [hlog], fun e' he' => ?_⟩, direct_after hs.inv hmove ho.2 ho.1.marked hsince hstorable hc hp⟩
      rcases List.mem_append.1 he' with he' | he'
      · exact hdone e' he'
      · exact List.mem_singleton.1 he' ▸ ho.2)
    ⟨hsound.step ho hstep, ⟨[], (run_log (Run.single ho hstep)).trans (by rw [hlog]), by simp⟩, _, hreading, trivial⟩
  obtain ⟨_, _, ph, hc', hp⟩ := hkeeps
  rw [hc] at hc'
  cases hc'
  rw [hlog'] at hp
  exact hp (by simp) hload

/-- Under the conditions, a `remember` call that begins after a completed `del`
or `reset` returns nothing loaded before it, and what its own loader has
loaded is written unless something cuts the key in between. -/
theorem remember_fresh_and_written (es : List (Event κ)) (s : State κ) (h : Run step Careful State.init es s) (c : Nat) (k : κ)
    (v : Nat) (ttl : Ttl) (val : Value) (hc : s.calls c = some (.remember k v ttl (.settled (.value val)))) :
    (∀ l, Overtaken es c k l → val.producer ≠ .loader l) ∧
      (ttl.isStorable = true → Uncut es c k → .load c ∈ es → .write c ∈ es) :=
  ⟨fun _ hover => avoids_of_overtaken h hc hover, fun hstorable huncut hload => written_of_uncut h hc hstorable huncut hload⟩

/-! ## Runs at fixed inputs -/

private def isNoLoad : Event Nat → Bool
  | .load _ => false
  | _ => true

private def unmarked (s : State Nat) : Call Nat → Bool
  | .remember k v _ _ => s.pendingInvalidations k ≠ some v
  | _ => true

/-- A test that is enough for a step to be careful: no load before a
`remember`, and no mark before a loader is called. -/
private def isUnmarked (s : State Nat) (e : Event Nat) : Bool :=
  Outside s e && match e with
  | .remember _ _ _ => s.log.all isNoLoad
  | .load c => (s.calls c).all fun call => unmarked s call
  | _ => true

private theorem careful_of_isUnmarked (s : State Nat) (e : Event Nat) (h : isUnmarked s e = true) : Careful s e := by
  unfold isUnmarked at h
  rw [Bool.and_eq_true] at h
  refine ⟨h.1, ?_, ?_⟩
  · rintro c k ttl rfl l d hcut _
    have hload := List.all_eq_true.1 h.2 _ hcut.load_mem
    cases hload
  · rintro c rfl k v ttl ph hc hmark
    simp [hc, unmarked, hmark] at h

/-- A call after a completed `del`, whose loader's value is written. -/
def afterDel : List (Event Nat) :=
  [.del 0 7, .erase 0, .settle 0, .remember 1 7 (.seconds 0), .read 1, .load 1, .returned 1, .resolved 1 true, .write 1,
    .checked 1, .finalize 1]

theorem remember_fresh_and_written_afterDel :
    (∀ l, Overtaken afterDel 1 7 l → Producer.loader 1 ≠ .loader l) ∧
      ((Ttl.seconds 0).isStorable = true → Uncut afterDel 1 7 → .load 1 ∈ afterDel → .write 1 ∈ afterDel) :=
  remember_fresh_and_written afterDel (after step State.init afterDel) (Run.of_passes careful_of_isUnmarked (by decide)) 1 7 0
    (.seconds 0) ⟨.loader 1, true⟩ rfl

/-- A call joins the load that a completed `del` has invalidated. -/
def staleJoin : List (Event Nat) :=
  [.remember 0 7 (.seconds 0), .read 0, .load 0, .returned 0, .del 1 7, .erase 1, .settle 1, .remember 2 7 (.seconds 0), .read 2,
    .join 2, .resolved 0 true, .finalize 0, .adopt 2]

/-- A mark that a call with a cached value leaves behind drops what a later call loads. -/
def markLeft : List (Event Nat) :=
  [.set 0 7 (.seconds 0) true, .write 0, .settle 0, .remember 1 7 (.seconds 0), .read 1, .del 2 7, .erase 2, .settle 2, .hit 1,
    .remember 3 7 (.seconds 0), .read 3, .load 3, .returned 3, .resolved 3 true, .finalize 3]

/-- The loader of the first call is called before the `del` that has completed
when the second begins, and its value is what the second returns; and a loader
with nothing to cut it loads a value that is not written. -/
theorem remember_joins_stale_load :
    (∃ s, Run step (fun _ _ => True) State.init staleJoin s ∧ Overtaken staleJoin 2 7 0 ∧
      s.calls 2 = some (.remember 7 0 (.seconds 0) (.settled (.value ⟨.loader 0, true⟩)))) ∧
    ∃ s, Run step (fun _ _ => True) State.init markLeft s ∧ Uncut markLeft 3 7 ∧ .load 3 ∈ markLeft ∧ .write 3 ∉ markLeft ∧
      s.calls 3 = some (.remember 7 0 (.seconds 0) (.settled (.value ⟨.loader 3, true⟩))) := by
  refine ⟨⟨after step State.init staleJoin, Run.of_passes (p := fun _ _ => true) (fun _ _ _ => trivial) (by decide), ?_, rfl⟩,
    after step State.init markLeft, Run.of_passes (p := fun _ _ => true) (fun _ _ _ => trivial) (by decide), ?_, by decide,
    by decide, rfl⟩
  · exact ⟨[.remember 0 7 (.seconds 0), .read 0, .load 0, .returned 0, .del 1 7, .erase 1, .settle 1], _, _, 1, rfl,
      ⟨[.remember 0 7 (.seconds 0), .read 0, .load 0, .returned 0], _, _, rfl, .inl rfl, by decide⟩, by decide⟩
  · refine ⟨[.set 0 7 (.seconds 0) true, .write 0, .settle 0, .remember 1 7 (.seconds 0), .read 1, .del 2 7, .erase 2, .settle 2,
      .hit 1], _, _, rfl, ?_⟩
    rintro e he d (rfl | rfl) <;> simp at he

end Fluo.CacheManager.Service
