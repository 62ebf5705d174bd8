import Fluo.Lib.Runs
/-!
# The config reloader

`createConfigReloader`, with a label for each call of a listener, so that what a listener
does itself comes between two labels. A snapshot is what `resolve` makes of the content of
the env file, where a missing file is none; the hash of a content stands for the content.
-/

namespace Fluo.Config
open Lib

variable {K C : Type}

/-- An entry of the set of listeners. A listener that is subscribed again is a new entry. -/
structure Listener (K : Type) where
  entry : Nat
  /-- The last snapshot it was called with. -/
  last : Option K := none

/-- A notification that `applyReloadNow` is in. -/
structure Round (K C : Type) where
  previous : K
  /-- What the watch event that reloads has read of the file. -/
  event : Option (Option C)
  /-- It works off a reload that was requested in an earlier round. -/
  queued : Bool
  /-- The entries below were called. -/
  called : Nat := 0

structure State (K C : Type) where
  file : Option C
  current : K
  watchedEnvFileHash : Option C
  pendingReload : Bool := false
  reloading : Option (Round K C) := none
  watching : Bool := true
  listeners : List (Listener K) := []
  /-- The entries so far. -/
  subscribed : Nat := 0

inductive Label (C : Type)
  /-- The env file is written or removed. -/
  | write (file : Option C)
  | subscribe
  | unsubscribe (entry : Nat)
  | close
  /-- `rejects` where the configuration cannot be loaded, as when the validator throws. -/
  | reload (rejects : Bool)
  | watch (rejects : Bool)
  /-- The next listener is called. -/
  | notify
  /-- The listener that was called throws. -/
  | throws
  /-- All listeners were called; what is queued is reloaded then. -/
  | finish (rejects : Bool)

namespace State

def next (s : State K C) (round : Round K C) : Option (Listener K) := s.listeners.find? fun listener => round.called ≤ listener.entry

/-- `applyReloadNow` up to the first listener. -/
def applyReloadNow (resolve : Option C → K) (s : State K C) (event : Option (Option C)) (queued rejects : Bool) : State K C :=
  if rejects then { s with reloading := none, pendingReload := false }
  else { s with current := resolve s.file, reloading := some { previous := s.current, event, queued }, pendingReload := false }

def deliver (s : State K C) (round : Round K C) (entry : Nat) : State K C :=
  { s with
    listeners := s.listeners.map fun listener => if listener.entry = entry then { listener with last := some s.current } else listener
    reloading := some { round with called := entry + 1 } }

/-- A listener that was called threw. -/
def rollback (s : State K C) (round : Round K C) : State K C := { s with current := round.previous, reloading := none, pendingReload := false }

/-- `applyReload` returns, to the watch event if it came from one. -/
def settle (s : State K C) (round : Round K C) : State K C :=
  { s with reloading := none, watchedEnvFileHash := round.event.getD s.watchedEnvFileHash }

end State

def step [DecidableEq C] (resolve : Option C → K) (s : State K C) : Label C → Option (State K C)
  | .write file => some { s with file }
  | .subscribe => some { s with listeners := s.listeners ++ [{ entry := s.subscribed }], subscribed := s.subscribed + 1 }
  | .unsubscribe entry => some { s with listeners := s.listeners.filter fun listener => listener.entry ≠ entry }
  | .close => some { s with listeners := [], watching := false }
  | .reload rejects =>
    match s.reloading with
    | some _ => some { s with pendingReload := true }
    | none => some (s.applyReloadNow resolve none false rejects)
  | .watch rejects =>
    if s.reloading.isSome || !s.watching then none
    else if s.file = s.watchedEnvFileHash then some s
    else some (s.applyReloadNow resolve (some s.file) false rejects)
  | .notify => do
    let round ← s.reloading
    let listener ← s.next round
    return s.deliver round listener.entry
  | .throws => do
    let round ← s.reloading
    if 0 < round.called then some (s.rollback round) else none
  | .finish rejects => do
    let round ← s.reloading
    if (s.next round).isSome then none
    else if s.pendingReload then some (s.applyReloadNow resolve round.event true rejects)
    else some (s.settle round)

def init (resolve : Option C → K) (file : Option C) : State K C := { file, current := resolve file, watchedEnvFileHash := file }

/-! ## What the reloader should keep -/

/-- The content that the watch event had read that the step ends without an error. -/
def processed [DecidableEq C] (s : State K C) : Label C → Option (Option C)
  | .watch _ => if s.file = s.watchedEnvFileHash then some s.file else none
  | .finish _ => if s.pendingReload then none else s.reloading.bind Round.event
  | _ => none

def UpToDate [DecidableEq C] (resolve : Option C → K) (s : State K C) (l : Label C) : Prop :=
  ∀ s' file, step resolve s l = some s' → processed s l = some file → s'.current = resolve file

/-- Where no reload is under way, each live listener that was called was last called with what is current. -/
def Agreed [DecidableEq C] (resolve : Option C → K) (s : State K C) (l : Label C) : Prop :=
  ∀ s', step resolve s l = some s' → s'.reloading = none → ∀ listener ∈ s'.listeners, ∀ snapshot, listener.last = some snapshot → snapshot = s'.current

/-- A reload that returns has called each live listener with what is current, and one that throws leaves what was current before the notification. -/
def Settled [DecidableEq C] (resolve : Option C → K) (s : State K C) (l : Label C) : Prop :=
  ∀ s' round, step resolve s l = some s' → s.reloading = some round → s'.reloading = none →
    match l with
    | .finish _ => ∀ listener ∈ s'.listeners, listener.last = some s'.current
    | .throws => s'.current = round.previous
    | _ => True

/-- A reload reads what the watch event at hand has read, or else what the baseline was taken from, and a watch event does not fail
once it has taken effect. -/
def Undisturbed (s : State K C) : Label C → Prop
  | .reload rejects => s.reloading = none → rejects = true ∨ s.file = s.watchedEnvFileHash
  | .throws => ∀ round, s.reloading = some round → round.event = none ∨ round.queued = false
  | .finish rejects => s.pendingReload = true → ∀ round, s.reloading = some round →
    match round.event with
    | none => rejects = true ∨ s.file = s.watchedEnvFileHash
    | some file => rejects = false ∧ s.file = file
  | _ => True

/-- A listener throws only where the snapshot is the one before. -/
def Calm (s : State K C) : Label C → Prop
  | .throws => ∀ round, s.reloading = some round → round.previous = s.current
  | _ => True

/-! ## What a step does -/

structure Bystands (s s' : State K C) : Prop where
  current : s'.current = s.current
  baseline : s'.watchedEnvFileHash = s.watchedEnvFileHash
  reloading : s'.reloading = s.reloading
  listeners : (s'.listeners = s.listeners ++ [{ entry := s.subscribed }] ∧ s'.subscribed = s.subscribed + 1) ∨
    (s'.listeners.Sublist s.listeners ∧ s'.subscribed = s.subscribed)

inductive Starts (s : State K C) : Label C → Option (Option C) → Bool → Bool → Prop
  | reload {rejects} : s.reloading = none → Starts s (.reload rejects) none false rejects
  | watch {rejects} : s.reloading = none → s.file ≠ s.watchedEnvFileHash → Starts s (.watch rejects) (some s.file) false rejects
  | queued {rejects round} : s.reloading = some round → s.next round = none → s.pendingReload = true → Starts s (.finish rejects) round.event true rejects

section Steps
variable {resolve : Option C → K} {s s' : State K C} {l : Label C}

theorem reloading_eq_none (h : ¬ (s.reloading.isSome || !s.watching) = true) : s.reloading = none := by
  cases hr : s.reloading with
  | none => rfl
  | some round => simp [hr] at h

theorem step_cases [DecidableEq C] (h : step resolve s l = some s') :
    (Bystands s s' ∧ l ≠ .throws ∧ ∀ rejects, l ≠ .finish rejects) ∨
    (∃ event queued rejects, Starts s l event queued rejects ∧ s' = s.applyReloadNow resolve event queued rejects) ∨
    (∃ round listener, l = .notify ∧ s.reloading = some round ∧ s.next round = some listener ∧ s' = s.deliver round listener.entry) ∨
    (∃ round, l = .throws ∧ s.reloading = some round ∧ s' = s.rollback round) ∨
    (∃ round rejects, l = .finish rejects ∧ s.reloading = some round ∧ s.next round = none ∧ s.pendingReload = false ∧ s' = s.settle round) := by
  cases l with
  | write file =>
    cases h
    exact .inl ⟨⟨rfl, rfl, rfl, .inr ⟨List.Sublist.refl _, rfl⟩⟩, by simp, by simp⟩
  | subscribe =>
    cases h
    exact .inl ⟨⟨rfl, rfl, rfl, .inl ⟨rfl, rfl⟩⟩, by simp, by simp⟩
  | unsubscribe entry =>
    cases h
    exact .inl ⟨⟨rfl, rfl, rfl, .inr ⟨List.filter_sublist, rfl⟩⟩, by simp, by simp⟩
  | close =>
    cases h
    exact .inl ⟨⟨rfl, rfl, rfl, .inr ⟨List.nil_sublist _, rfl⟩⟩, by simp, by simp⟩
  | reload rejects =>
    simp only [step] at h
    cases hr : s.reloading with
    | some round =>
      rw [hr] at h
      cases h
      exact .inl ⟨⟨rfl, rfl, hr.symm, .inr ⟨List.Sublist.refl _, rfl⟩⟩, by simp, by simp⟩
    | none =>
      rw [hr] at h
      cases h
      exact .inr (.inl ⟨none, false, rejects, .reload hr, rfl⟩)
  | watch rejects =>
    simp only [step] at h
    split at h
    · cases h
    · next hidle =>
      have hr : s.reloading = none := reloading_eq_none hidle
      split at h
      · cases h
        exact .inl ⟨⟨rfl, rfl, rfl, .inr ⟨List.Sublist.refl _, rfl⟩⟩, by simp, by simp⟩
      · next hne =>
        cases h
        exact .inr (.inl ⟨some s.file, false, rejects, .watch hr hne, rfl⟩)
  | notify =>
    obtain ⟨round, hr, h⟩ := Option.bind_eq_some_iff.1 h
    obtain ⟨listener, hnext, h⟩ := Option.bind_eq_some_iff.1 h
    cases h
    exact .inr (.inr (.inl ⟨round, listener, rfl, hr, hnext, rfl⟩))
  | throws =>
    obtain ⟨round, hr, h⟩ := Option.bind_eq_some_iff.1 h
    split at h
    · cases h
      exact .inr (.inr (.inr (.inl ⟨round, rfl, hr, rfl⟩)))
    · cases h
  | finish rejects =>
    obtain ⟨round, hr, h⟩ := Option.bind_eq_some_iff.1 h
    split at h
    · cases h
    · next hnext =>
      have hnone : s.next round = none := Option.not_isSome_iff_eq_none.1 hnext
      split at h
      · next hpending =>
        cases h
        exact .inr (.inl ⟨round.event, true, rejects, .queued hr hnone hpending, rfl⟩)
      · next hpending =>
        cases h
        exact .inr (.inr (.inr (.inr ⟨round, rejects, rfl, hr, hnone, by simpa using hpending, rfl⟩)))

end Steps

/-! ## Current is what the baseline was resolved to -/

/-- What is current is what the baseline resolves to, or the event that a reload is under way for. -/
structure Based (resolve : Option C → K) (s : State K C) : Prop where
  idle : s.reloading = none → s.current = resolve s.watchedEnvFileHash
  active : ∀ round, s.reloading = some round → s.current = resolve (round.event.getD s.watchedEnvFileHash) ∧
    (round.event = none ∨ round.queued = false → round.previous = resolve s.watchedEnvFileHash)

theorem Based.init (resolve : Option C → K) (file : Option C) : Based resolve (init resolve file) where
  idle _ := rfl
  active round hr := by cases hr

variable {l : Label C} {resolve : Option C → K} {s : State K C}

theorem Based.applyReloadNow {event : Option (Option C)} {queued rejects : Bool} (h : Based resolve s)
    (hstart : Starts s l event queued rejects) (hok : Undisturbed s l) : Based resolve (s.applyReloadNow resolve event queued rejects) := by
  have hbefore : event = none ∨ queued = false → s.current = resolve s.watchedEnvFileHash := by
    intro hwhich
    cases hstart with
    | reload hr => exact h.idle hr
    | watch hr _ => exact h.idle hr
    | queued hr _ _ =>
      obtain hevent | hqueued := hwhich
      · rw [(h.active _ hr).1, hevent]
        rfl
      · cases hqueued
  have hread : rejects = false → s.file = event.getD s.watchedEnvFileHash := by
    rintro rfl
    cases hstart with
    | reload hr => exact (hok hr).resolve_left (by simp)
    | watch hr _ => rfl
    | @queued _ round hr _ hpending =>
      have hround := hok hpending round hr
      cases hevent : round.event with
      | none =>
        rw [hevent] at hround
        exact hround.resolve_left (by simp)
      | some file =>
        rw [hevent] at hround
        exact hround.2
  cases rejects with
  | true =>
    refine ⟨fun _ => hbefore ?_, fun round hr => (by cases hr)⟩
    cases hstart with
    | reload _ => exact .inl rfl
    | watch _ _ => exact .inr rfl
    | @queued _ round hr _ hpending =>
      have hround := hok hpending round hr
      cases hevent : round.event with
      | none => exact .inl rfl
      | some file =>
        rw [hevent] at hround
        exact absurd hround.1 (by simp)
  | false =>
    refine ⟨fun hr => (by cases hr), fun round hr => ?_⟩
    cases hr
    exact ⟨congrArg resolve (hread rfl), hbefore⟩

theorem Based.step [DecidableEq C] {s' : State K C} (h : Based resolve s) (hok : Undisturbed s l)
    (hs : step resolve s l = some s') : Based resolve s' := by
  obtain ⟨hby, -, -⟩ | ⟨event, queued, rejects, hstart, rfl⟩ | ⟨round, listener, rfl, hr, hnext, rfl⟩ | ⟨round, rfl, hr, rfl⟩ | ⟨round, rejects, rfl, hr, hnone, -, rfl⟩ :=
    step_cases hs
  · constructor
    · rw [hby.reloading, hby.current, hby.baseline]
      exact h.idle
    · rw [hby.reloading, hby.current, hby.baseline]
      exact h.active
  · exact h.applyReloadNow hstart hok
  · refine ⟨fun hidle => (by cases hidle), fun round' hr' => ?_⟩
    cases hr'
    exact h.active round hr
  · exact ⟨fun _ => (h.active round hr).2 (hok round hr), fun round' hr' => by cases hr'⟩
  · exact ⟨fun _ => (h.active round hr).1, fun round' hr' => by cases hr'⟩

theorem Based.upToDate [DecidableEq C] (h : Based resolve s) : UpToDate resolve s l := by
  intro s' file hs hfile
  cases l with
  | watch rejects =>
    rw [processed] at hfile
    split at hfile
    · next heq =>
      cases hfile
      simp only [Config.step, if_pos heq] at hs
      split at hs
      · cases hs
      · next hidle =>
        cases hs
        rw [heq]
        exact h.idle (reloading_eq_none hidle)
    · cases hfile
  | finish rejects =>
    rw [processed] at hfile
    split at hfile
    · cases hfile
    · next hpending =>
      obtain ⟨round, hr, hevent⟩ := Option.bind_eq_some_iff.1 hfile
      obtain ⟨-, -, hne⟩ | ⟨event, queued, rejects', hstart, -⟩ | ⟨_, _, hl, -⟩ | ⟨_, hl, -⟩ | ⟨round', rejects', -, hr', -, -, rfl⟩ := step_cases hs
      · exact absurd rfl (hne rejects)
      · cases hstart with
        | queued _ _ hqueued => exact absurd hqueued hpending
      · cases hl
      · cases hl
      · rw [hr] at hr'
        cases hr'
        show s.current = resolve file
        rw [(h.active round hr).1, hevent]
        rfl
  | _ => cases hfile

/-! ## What the listeners were called with -/

structure Calls (s : State K C) : Prop where
  sorted : s.listeners.Pairwise fun listener later => listener.entry < later.entry
  fresh : ∀ listener ∈ s.listeners, listener.entry < s.subscribed
  bound : ∀ round, s.reloading = some round → round.called ≤ s.subscribed
  called : ∀ round, s.reloading = some round → ∀ listener ∈ s.listeners, listener.entry < round.called → listener.last = some s.current

theorem Calls.init (resolve : Option C → K) (file : Option C) : Calls (init resolve file) where
  sorted := List.Pairwise.nil
  fresh _ hmem := absurd hmem List.not_mem_nil
  bound _ hr := by cases hr
  called _ hr := by cases hr

section Calls
variable {resolve : Option C → K} {s s' : State K C} {l : Label C} {round : Round K C} {listener : Listener K}

theorem Calls.next (h : Calls s) (hnext : s.next round = some listener) : listener ∈ s.listeners ∧ round.called ≤ listener.entry ∧
    ∀ other ∈ s.listeners, other.entry < listener.entry → other.entry < round.called := by
  obtain ⟨hle, before, after, heq, hbefore⟩ := List.find?_eq_some_iff_append.1 hnext
  refine ⟨List.mem_of_find?_eq_some hnext, by simpa using hle, fun other hmem hlt => ?_⟩
  rw [heq] at hmem
  rcases List.mem_append.1 hmem with hmem | hmem
  · simpa using hbefore other hmem
  · have hsorted := h.sorted
    rw [heq, List.pairwise_append] at hsorted
    rcases List.mem_cons.1 hmem with rfl | hmem
    · exact absurd hlt (Nat.lt_irrefl _)
    · exact absurd (List.rel_of_pairwise_cons hsorted.2.1 hmem) (by omega)

theorem Calls.all_called (h : Calls s) (hr : s.reloading = some round) (hnone : s.next round = none) :
    ∀ listener ∈ s.listeners, listener.last = some s.current := by
  intro listener hmem
  have hlt := List.find?_eq_none.1 hnone listener hmem
  exact h.called round hr listener hmem (by simpa using hlt)

theorem Calls.deliver (h : Calls s) (hr : s.reloading = some round) (hnext : s.next round = some listener) : Calls (s.deliver round listener.entry) := by
  obtain ⟨hmem, hle, hbefore⟩ := h.next hnext
  refine ⟨?_, ?_, fun round' hr' => ?_, fun round' hr' other hother hlt => ?_⟩
  · rw [State.deliver, List.pairwise_map]
    exact h.sorted.imp fun {a b} hab => by split <;> split <;> exact hab
  · intro other hother
    obtain ⟨before, hbefore, rfl⟩ := List.mem_map.1 hother
    have hlt := h.fresh before hbefore
    split <;> exact hlt
  · cases hr'
    exact h.fresh listener hmem
  · cases hr'
    obtain ⟨before, hmem', rfl⟩ := List.mem_map.1 hother
    by_cases heq : before.entry = listener.entry
    · rw [if_pos heq]
      rfl
    · rw [if_neg heq] at hlt ⊢
      have hless : before.entry < listener.entry := by
        have := hlt
        simp only at this
        omega
      exact h.called round hr before hmem' (hbefore before hmem' hless)

theorem Calls.applyReloadNow (h : Calls s) (resolve : Option C → K) (event : Option (Option C)) (queued rejects : Bool) :
    Calls (s.applyReloadNow resolve event queued rejects) := by
  cases rejects with
  | true => exact ⟨h.sorted, h.fresh, fun _ hr => (by cases hr), fun _ hr => (by cases hr)⟩
  | false =>
    refine ⟨h.sorted, h.fresh, fun _ hr => ?_, fun _ hr _ _ hlt => ?_⟩
    · cases hr
      exact Nat.zero_le _
    · cases hr
      exact absurd hlt (Nat.not_lt_zero _)

theorem Calls.bystands (h : Calls s) (hby : Bystands s s') : Calls s' := by
  obtain ⟨hlisteners, hsubscribed⟩ | ⟨hsub, hsubscribed⟩ := hby.listeners
  · refine ⟨?_, ?_, ?_, ?_⟩
    · rw [hlisteners, List.pairwise_append]
      refine ⟨h.sorted, List.pairwise_singleton .., fun listener hmem later hlater => ?_⟩
      rw [List.mem_singleton.1 hlater]
      exact h.fresh listener hmem
    · intro listener hmem
      rw [hlisteners] at hmem
      rw [hsubscribed]
      rcases List.mem_append.1 hmem with hmem | hmem
      · exact Nat.lt_succ_of_lt (h.fresh listener hmem)
      · rw [List.mem_singleton.1 hmem]
        exact Nat.lt_succ_self _
    · intro round hr
      rw [hsubscribed]
      exact Nat.le_succ_of_le (h.bound round (hby.reloading ▸ hr))
    · intro round hr listener hmem hlt
      rw [hby.current]
      rw [hby.reloading] at hr
      rw [hlisteners] at hmem
      rcases List.mem_append.1 hmem with hmem | hmem
      · exact h.called round hr listener hmem hlt
      · rw [List.mem_singleton.1 hmem] at hlt
        exact absurd (h.bound round hr) (Nat.not_le.2 hlt)
  · refine ⟨h.sorted.sublist hsub, ?_, ?_, ?_⟩
    · rw [hsubscribed]
      exact fun listener hmem => h.fresh listener (hsub.subset hmem)
    · rw [hby.reloading, hsubscribed]
      exact h.bound
    · rw [hby.reloading, hby.current]
      exact fun round hr listener hmem => h.called round hr listener (hsub.subset hmem)

theorem Calls.step [DecidableEq C] (h : Calls s) (hs : step resolve s l = some s') : Calls s' := by
  obtain ⟨hby, -, -⟩ | ⟨event, queued, rejects, -, rfl⟩ | ⟨round, listener, -, hr, hnext, rfl⟩ | ⟨round, -, -, rfl⟩ | ⟨round, rejects, -, -, -, -, rfl⟩ :=
    step_cases hs
  · exact h.bystands hby
  · exact h.applyReloadNow resolve event queued rejects
  · exact h.deliver hr hnext
  · exact ⟨h.sorted, h.fresh, fun _ hr => (by cases hr), fun _ hr => (by cases hr)⟩
  · exact ⟨h.sorted, h.fresh, fun _ hr => (by cases hr), fun _ hr => (by cases hr)⟩

theorem Calls.settled [DecidableEq C] (h : Calls s) : Settled resolve s l := by
  intro s' round hs hround hidle
  obtain ⟨hby, hthrows, hfinish⟩ | ⟨event, queued, rejects, hstart, rfl⟩ | ⟨_, _, rfl, -⟩ | ⟨round', rfl, hr, rfl⟩ | ⟨round', rejects, rfl, hr, hnone, -, rfl⟩ :=
    step_cases hs
  · rw [hby.reloading, hround] at hidle
    cases hidle
  · cases rejects with
    | false => cases hidle
    | true =>
      cases hstart with
      | reload _ => trivial
      | watch _ _ => trivial
      | queued hr hnone _ => exact h.all_called hr hnone
  · trivial
  · rw [hr] at hround
    cases hround
    rfl
  · exact h.all_called hr hnone

end Calls

/-- The listeners that are still to be called were last called with what was current before. -/
structure Follows (s : State K C) : Prop where
  idle : s.reloading = none → ∀ listener ∈ s.listeners, ∀ snapshot, listener.last = some snapshot → snapshot = s.current
  active : ∀ round, s.reloading = some round → ∀ listener ∈ s.listeners, round.called ≤ listener.entry →
    ∀ snapshot, listener.last = some snapshot → snapshot = round.previous

theorem Follows.init (resolve : Option C → K) (file : Option C) : Follows (init resolve file) where
  idle _ _ hmem := absurd hmem List.not_mem_nil
  active _ hr := by cases hr

section Follows
variable {resolve : Option C → K} {s s' : State K C} {l : Label C} {round : Round K C}

theorem Follows.bystands (h : Follows s) (hby : Bystands s s') : Follows s' := by
  have hold : ∀ listener ∈ s'.listeners, ∀ snapshot, listener.last = some snapshot → listener ∈ s.listeners := by
    intro listener hmem snapshot hlast
    obtain ⟨hlisteners, -⟩ | ⟨hsub, -⟩ := hby.listeners
    · rw [hlisteners] at hmem
      rcases List.mem_append.1 hmem with hmem | hmem
      · exact hmem
      · rw [List.mem_singleton.1 hmem] at hlast
        cases hlast
    · exact hsub.subset hmem
  constructor
  · rw [hby.reloading, hby.current]
    exact fun hidle listener hmem snapshot hlast => h.idle hidle listener (hold listener hmem snapshot hlast) snapshot hlast
  · rw [hby.reloading]
    exact fun round hr listener hmem hle snapshot hlast => h.active round hr listener (hold listener hmem snapshot hlast) hle snapshot hlast

variable {event : Option (Option C)}

theorem Follows.of_starts (h : Follows s) (hcalls : Calls s) {queued rejects : Bool} (hstart : Starts s l event queued rejects) :
    ∀ listener ∈ s.listeners, ∀ snapshot, listener.last = some snapshot → snapshot = s.current := by
  intro listener hmem snapshot hlast
  cases hstart with
  | reload hr => exact h.idle hr listener hmem snapshot hlast
  | watch hr _ => exact h.idle hr listener hmem snapshot hlast
  | queued hr hnone _ =>
    rw [hcalls.all_called hr hnone listener hmem] at hlast
    exact (Option.some.inj hlast).symm

theorem Follows.applyReloadNow (h : Follows s) (hcalls : Calls s) {queued rejects : Bool}
    (hstart : Starts s l event queued rejects) : Follows (s.applyReloadNow resolve event queued rejects) := by
  have hall := h.of_starts hcalls hstart
  cases rejects with
  | true => exact ⟨fun _ => hall, fun _ hr => (by cases hr)⟩
  | false =>
    refine ⟨fun hidle => (by cases hidle), fun _ hr listener hmem _ snapshot hlast => ?_⟩
    cases hr
    exact hall listener hmem snapshot hlast

theorem Follows.deliver (h : Follows s) (hr : s.reloading = some round) {entry : Nat} (hle : round.called ≤ entry) : Follows (s.deliver round entry) := by
  refine ⟨fun hidle => (by cases hidle), fun _ hr' other hother hlater snapshot hlast => ?_⟩
  cases hr'
  obtain ⟨before, hmem, rfl⟩ := List.mem_map.1 hother
  by_cases heq : before.entry = entry
  · rw [if_pos heq] at hlater
    exact absurd hlater (by simp [heq])
  · rw [if_neg heq] at hlater hlast
    have hlt : entry < before.entry := hlater
    exact h.active round hr before hmem (by omega) snapshot hlast

theorem Follows.step [DecidableEq C] (h : Follows s) (hcalls : Calls s) (hok : Calm s l) (hs : step resolve s l = some s') : Follows s' := by
  obtain ⟨hby, -, -⟩ | ⟨event, queued, rejects, hstart, rfl⟩ | ⟨round, listener, rfl, hr, hnext, rfl⟩ | ⟨round, rfl, hr, rfl⟩ | ⟨round, rejects, -, hr, hnone, -, rfl⟩ :=
    step_cases hs
  · exact h.bystands hby
  · exact h.applyReloadNow hcalls hstart
  · exact h.deliver hr (hcalls.next hnext).2.1
  · refine ⟨fun _ listener hmem snapshot hlast => ?_, fun _ hr => (by cases hr)⟩
    by_cases hlt : listener.entry < round.called
    · rw [hcalls.called round hr listener hmem hlt] at hlast
      exact ((hok round hr).trans (Option.some.inj hlast)).symm
    · exact h.active round hr listener hmem (Nat.not_lt.1 hlt) snapshot hlast
  · refine ⟨fun _ listener hmem snapshot hlast => ?_, fun _ hr => (by cases hr)⟩
    rw [hcalls.all_called hr hnone listener hmem] at hlast
    exact (Option.some.inj hlast).symm

end Follows

/-! ## Runs -/

section Runs
variable [DecidableEq C] {resolve : Option C → K} {file : Option C} {ls : List (Label C)} {s : State K C}

theorem upToDate_of_run (h : Run (step resolve) Undisturbed (init resolve file) ls s) : Run (step resolve) (UpToDate resolve) (init resolve file) ls s :=
  h.mono_of_inv (Based resolve) (fun _ _ _ hok hi hs => hi.step hok hs) (fun _ _ _ _ hi _ => hi.upToDate) (Based.init resolve file)

theorem settled_of_run {ok : State K C → Label C → Prop} (h : Run (step resolve) ok (init resolve file) ls s) :
    Run (step resolve) (Settled resolve) (init resolve file) ls s :=
  h.mono_of_inv Calls (fun _ _ _ _ hi hs => hi.step hs) (fun _ _ _ _ hi _ => hi.settled) (Calls.init resolve file)

theorem agreed_of_run (h : Run (step resolve) Calm (init resolve file) ls s) : Run (step resolve) (Agreed resolve) (init resolve file) ls s := by
  refine h.mono_of_inv (fun s => Calls s ∧ Follows s) (fun _ _ _ hok hi hs => ⟨hi.1.step hs, hi.2.step hi.1 hok hs⟩) ?_
    ⟨Calls.init resolve file, Follows.init resolve file⟩
  intro s l s' hok hi hs s'' hs' hidle
  exact (hi.2.step hi.1 hok hs').idle hidle

end Runs

/-- No label of a run throws or finds a reload queued, and a manual reload finds the file unchanged. -/
private def harmless (s : State (Option Nat) Nat) : Label Nat → Bool
  | .reload _ => s.file = s.watchedEnvFileHash
  | .throws => false
  | .finish _ => !s.pendingReload
  | _ => true

private theorem undisturbed_of_harmless (s : State (Option Nat) Nat) (l : Label Nat) (h : harmless s l = true) : Undisturbed s l := by
  cases l with
  | reload rejects => exact fun _ => .inr (by simpa [harmless] using h)
  | throws => exact absurd h (by simp [harmless])
  | finish rejects => exact fun hpending => absurd h (by simp [harmless, hpending])
  | _ => trivial

private theorem calm_of_harmless (s : State (Option Nat) Nat) (l : Label Nat) (h : harmless s l = true) : Calm s l := by
  cases l with
  | throws => exact absurd h (by simp [harmless])
  | _ => trivial

/-- Two listeners, a changed file, a manual reload and a rejected one. -/
private def changes : List (Label Nat) :=
  [.subscribe, .subscribe, .write (some 2), .watch false, .notify, .notify, .finish false, .reload false, .notify, .unsubscribe 1, .finish false,
   .write none, .watch true]

private def agrees (s : State (Option Nat) Nat) (l : Label Nat) : Bool :=
  (step id s l).all fun s' => s'.reloading.isSome || s'.listeners.all fun listener => listener.last.all fun snapshot => snapshot = s'.current

private theorem agrees_of_agreed (s : State (Option Nat) Nat) (l : Label Nat) (h : UpToDate id s l ∧ Agreed id s l) : agrees s l = true := by
  rw [agrees, Option.all_eq_true]
  intro s' hs
  rw [Bool.or_eq_true]
  cases hr : s'.reloading with
  | some round => exact .inl rfl
  | none =>
    right
    rw [List.all_eq_true]
    intro listener hmem
    rw [Option.all_eq_true]
    exact fun snapshot hlast => decide_eq_true (h.2 s' hs hr listener hmem snapshot hlast)

private def rolledBack : List (Label Nat) := [.subscribe, .write (some 2), .reload false, .notify, .throws]

end Fluo.Config
