import Mathlib.Data.List.Nodup
import Mathlib.Data.List.Perm.Subperm
/-!
# Fixed windows

A counter that counts the calls of each key in consecutive windows of time: a call
that finds no window open opens one, which ends `length` later. In one window the
calls of a key are numbered, so no more than `limit` of them are numbered up to
`limit`.

A store that answers calls is a function of its state; two stores answer alike if
one simulates the other between any two readings of a clock that never goes back.
-/

namespace Fluo.Lib

variable {κ σ τ ι ο : Type}

/-! ## Stores -/

/-- The answers to the inputs, in turn. -/
def replies (step : σ → ι → ο × σ) : σ → List ι → List ο
  | _, [] => []
  | s, i :: is => (step s i).1 :: replies step (step s i).2 is

/-- No input is read before an earlier one. -/
def Clocked (now : ι → Int) (inputs : List ι) : Prop := (inputs.map now).Pairwise (· ≤ ·)

instance (now : ι → Int) (inputs : List ι) : Decidable (Clocked now inputs) := inferInstanceAs (Decidable (List.Pairwise _ _))

attribute [local simp] replies in
theorem replies_simulates {ι' ο' : Type} {step : σ → ι → ο × σ} {step' : τ → ι' → ο' × τ} (now : ι → Int) (input : ι → ι') (view : ο → ο')
    (R : Int → σ → τ → Prop)
    (hstep : ∀ c s t i, R c s t → c ≤ now i → view (step s i).1 = (step' t (input i)).1 ∧ R (now i) (step s i).2 (step' t (input i)).2)
    {inputs : List ι} {c : Int} {s : σ} {t : τ} (h : R c s t) (hc : ∀ i ∈ inputs, c ≤ now i) (hclock : Clocked now inputs) :
    (replies step s inputs).map view = replies step' t (inputs.map input) := by
  induction inputs generalizing c s t with
  | nil => rfl
  | cons i is ih =>
    obtain ⟨hhead, htail⟩ := List.pairwise_cons.1 hclock
    obtain ⟨heq, hnext⟩ := hstep c s t i h (hc i List.mem_cons_self)
    rw [List.map_cons, replies, replies, List.map_cons, heq, ih hnext (fun j hj => hhead _ (List.mem_map_of_mem hj)) htail]

theorem map_replies {ο' : Type} (f : ο → ο') (step : σ → ι → ο × σ) (s : σ) (inputs : List ι) :
    (replies step s inputs).map f = replies (fun s i => (f (step s i).1, (step s i).2)) s inputs := by
  induction inputs generalizing s with
  | nil => rfl
  | cons i is ih => rw [replies, replies, List.map_cons, ih]

theorem mem_zip_replies {step : σ → ι → ο × σ} {s : σ} {inputs : List ι} {i : ι} {o : ο} (h : (i, o) ∈ inputs.zip (replies step s inputs)) :
    ∃ s', o = (step s' i).1 := by
  induction inputs generalizing s with
  | nil => cases h
  | cons first rest ih =>
    rw [replies, List.zip_cons_cons] at h
    rcases List.mem_cons.1 h with heq | h
    · obtain ⟨rfl, rfl⟩ := Prod.mk.inj heq
      exact ⟨s, rfl⟩
    · exact ih h

/-! ## Windows -/

structure Window where
  count : Nat
  resetAt : Int
deriving DecidableEq

/-- One more call at a time. -/
def Window.hit (window : Option Window) (now length : Int) : Window :=
  match window with
  | none => ⟨1, now + length⟩
  | some window => if window.resetAt ≤ now then ⟨1, now + length⟩ else ⟨window.count + 1, window.resetAt⟩

theorem Window.hit_ended {window : Window} {now length : Int} (h : window.resetAt ≤ now) :
    Window.hit (some window) now length = Window.hit none now length := if_pos h

theorem Window.one_le_hit (window : Option Window) (now length : Int) : 1 ≤ (Window.hit window now length).count := by
  unfold Window.hit
  split
  · exact Nat.le_refl 1
  · split
    · exact Nat.le_refl 1
    · exact Nat.le_add_left 1 _

structure WindowCall (κ : Type) where
  key : κ
  now : Int
  length : Int

/-- The last window of each key. -/
abbrev Counter (κ : Type) := κ → Option Window

variable [DecidableEq κ]

def Counter.hit (counter : Counter κ) (call : WindowCall κ) : Window × Counter κ :=
  let window := Window.hit (counter call.key) call.now call.length
  (window, Function.update counter call.key (some window))

theorem later_of_zip {calls : List (WindowCall κ)} (hlength : ∀ call ∈ calls, 0 < call.length) {counter : Counter κ} {key : κ} {window : Window}
    (h : counter key = some window) {call : WindowCall κ} {answer : Window}
    (hmem : (call, answer) ∈ calls.zip (replies Counter.hit counter calls)) (hkey : call.key = key) :
    window.resetAt < answer.resetAt ∨ (answer.resetAt = window.resetAt ∧ window.count < answer.count) := by
  induction calls generalizing counter window with
  | nil => cases hmem
  | cons first rest ih =>
    have hpos := hlength first List.mem_cons_self
    have hrest := fun call hc => hlength call (List.mem_cons_of_mem _ hc)
    have hfirst : first.key = key → window.resetAt < (counter.hit first).1.resetAt ∨
        ((counter.hit first).1.resetAt = window.resetAt ∧ window.count < (counter.hit first).1.count) := by
      intro hk
      simp only [Counter.hit, hk, h, Window.hit]
      split
      · left
        dsimp only
        omega
      · exact .inr ⟨rfl, Nat.lt_succ_self _⟩
    rw [replies, List.zip_cons_cons] at hmem
    rcases List.mem_cons.1 hmem with heq | hmem
    · obtain ⟨rfl, rfl⟩ := Prod.mk.inj heq
      exact hfirst hkey
    · by_cases hk : first.key = key
      · have hnext : (counter.hit first).2 key = some (counter.hit first).1 := by rw [← hk]; exact Function.update_self _ _ _
        have hlater := ih hrest hnext hmem
        have hnow := hfirst hk
        omega
      · have hnext : (counter.hit first).2 key = some window := by
          rw [← h]
          exact Function.update_of_ne (Ne.symm hk) _ _
        exact ih hrest hnext hmem

theorem numbered {calls : List (WindowCall κ)} (hlength : ∀ call ∈ calls, 0 < call.length) (counter : Counter κ) :
    (calls.zip (replies Counter.hit counter calls)).Pairwise fun earlier later =>
      earlier.1.key = later.1.key → earlier.2.resetAt = later.2.resetAt → earlier.2.count < later.2.count := by
  induction calls generalizing counter with
  | nil => exact .nil
  | cons first rest ih =>
    have hrest := fun call hc => hlength call (List.mem_cons_of_mem _ hc)
    rw [replies, List.zip_cons_cons]
    refine List.pairwise_cons.2 ⟨fun later hmem hkey hreset => ?_, ih hrest _⟩
    have hnext : (counter.hit first).2 first.key = some (counter.hit first).1 := Function.update_self _ _ _
    have hlater := later_of_zip hrest hnext hmem hkey.symm
    dsimp only at hreset ⊢
    omega

theorem one_le_of_mem_replies {counter : Counter κ} {calls : List (WindowCall κ)} {answer : Window}
    (h : answer ∈ replies Counter.hit counter calls) : 1 ≤ answer.count := by
  induction calls generalizing counter with
  | nil => cases h
  | cons first rest ih =>
    rcases List.mem_cons.1 h with rfl | h
    · exact Window.one_le_hit _ _ _
    · exact ih h

theorem length_le_of_nodup {counts : List Nat} {limit : Nat} (h : counts.Nodup) (hmem : ∀ n ∈ counts, 1 ≤ n ∧ n ≤ limit) :
    counts.length ≤ limit := by
  have hsub : counts ⊆ List.range' 1 limit := by
    intro n hn
    obtain ⟨hle, hge⟩ := hmem n hn
    exact List.mem_range'_1.2 ⟨hle, by omega⟩
  have hlength := (List.subperm_of_subset h hsub).length_le
  rwa [List.length_range'] at hlength

theorem admitted_le {calls : List (WindowCall κ)} (hlength : ∀ call ∈ calls, 0 < call.length) (counter : Counter κ) (limit : Nat)
    {admitted : List (WindowCall κ × Window)} (hsub : admitted.Sublist (calls.zip (replies Counter.hit counter calls))) {key : κ} {resetAt : Int}
    (hwindow : ∀ a ∈ admitted, a.1.key = key ∧ a.2.resetAt = resetAt ∧ a.2.count ≤ limit) : admitted.length ≤ limit := by
  have hnumbered := (numbered hlength counter).sublist hsub
  have hincreasing : (admitted.map fun a => a.2.count).Pairwise (· < ·) := by
    rw [List.pairwise_map]
    refine hnumbered.imp_of_mem fun ha hb hlt => ?_
    obtain ⟨hka, hra, -⟩ := hwindow _ ha
    obtain ⟨hkb, hrb, -⟩ := hwindow _ hb
    exact hlt (hka.trans hkb.symm) (hra.trans hrb.symm)
  have hmem : ∀ n ∈ admitted.map fun a => a.2.count, 1 ≤ n ∧ n ≤ limit := by
    intro n hn
    obtain ⟨a, ha, rfl⟩ := List.mem_map.1 hn
    exact ⟨one_le_of_mem_replies (List.of_mem_zip (hsub.subset ha)).2, (hwindow a ha).2.2⟩
  have hle := length_le_of_nodup (hincreasing.imp fun hlt => Nat.ne_of_lt hlt) hmem
  rwa [List.length_map] at hle

end Fluo.Lib
