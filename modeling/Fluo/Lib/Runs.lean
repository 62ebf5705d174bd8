import Mathlib.Algebra.GroupWithZero.Nat
import Mathlib.Order.WellFounded
import Mathlib.Data.List.Basic
/-!
# Runs of a labelled step function

A system is a partial step function `step : σ → ℓ → Option σ`: a label names
one choice of the environment or the scheduler, and `none` says that the label
is not enabled. A `Run` is a sequence of enabled labels whose every step also
meets a side condition `ok`, so "in every run whose steps all satisfy `ok`"
is a statement about every `Run`.
-/

namespace Fluo.Lib

variable {σ ℓ : Type*} {step : σ → ℓ → Option σ}

/-- Runs of `step` whose steps all meet `ok`. -/
inductive Run (step : σ → ℓ → Option σ) (ok : σ → ℓ → Prop) : σ → List ℓ → σ → Prop
  | nil {s} : Run step ok s [] s
  | cons {s l s' ls s''} : ok s l → step s l = some s' → Run step ok s' ls s'' →
      Run step ok s (l :: ls) s''

namespace Run
variable {ok ok' : σ → ℓ → Prop} {s s' s'' : σ} {ls ls' : List ℓ}

theorem single {l : ℓ} (ho : ok s l) (hs : step s l = some s') : Run step ok s [l] s' :=
  .cons ho hs .nil

theorem append (h : Run step ok s ls s') (h' : Run step ok s' ls' s'') : Run step ok s (ls ++ ls') s'' := by
  induction h with
  | nil => exact h'
  | cons ho hs _ ih => exact .cons ho hs (ih h')

theorem of_append {ls ls' : List ℓ} {s s'' : σ} (h : Run step ok s (ls ++ ls') s'') :
    ∃ s', Run step ok s ls s' ∧ Run step ok s' ls' s'' := by
  induction ls generalizing s with
  | nil => exact ⟨s, .nil, h⟩
  | cons l ls ih =>
    cases h with
    | cons ho hs h =>
      obtain ⟨s', hl, hr⟩ := ih h
      exact ⟨s', .cons ho hs hl, hr⟩

theorem mono (himp : ∀ s l, ok s l → ok' s l) (h : Run step ok s ls s') : Run step ok' s ls s' := by
  induction h with
  | nil => exact .nil
  | cons ho hs _ ih => exact .cons (himp _ _ ho) hs ih

theorem and (h : Run step ok s ls s') (h' : Run step ok' s ls s'') : Run step (fun s l => ok s l ∧ ok' s l) s ls s' := by
  induction h with
  | nil => exact .nil
  | cons ho hs _ ih =>
    cases h' with
    | cons ho' hs' h' =>
      rw [hs] at hs'
      cases hs'
      exact .cons ⟨ho, ho'⟩ hs (ih h')

theorem labels {p : ℓ → Prop} (h : Run step ok s ls s') (hp : ∀ l ∈ ls, p l) : Run step (fun s l => ok s l ∧ p l) s ls s' := by
  induction h with
  | nil => exact .nil
  | cons ho hs _ ih =>
    exact .cons ⟨ho, hp _ List.mem_cons_self⟩ hs (ih fun l hl => hp l (List.mem_cons_of_mem _ hl))

theorem keeps (I : σ → Prop) (hstep : ∀ s l s', ok s l → I s → step s l = some s' → I s')
    (h : Run step ok s ls s') (h0 : I s) : I s' := by
  induction h with
  | nil => exact h0
  | cons ho hs _ ih => exact ih (hstep _ _ _ ho h0 hs)

theorem mono_of_inv (I : σ → Prop) (hstep : ∀ s l s', ok s l → I s → step s l = some s' → I s')
    (hok : ∀ s l s', ok s l → I s → step s l = some s' → ok' s l) (h : Run step ok s ls s') (h0 : I s) : Run step ok' s ls s' := by
  induction h with
  | nil => exact .nil
  | cons ho hs _ ih => exact .cons (hok _ _ _ ho h0 hs) hs (ih (hstep _ _ _ ho h0 hs))

end Run

/-! ## Execution -/

/-- The state after the labels; it stays where a label is not enabled. -/
def after (step : σ → ℓ → Option σ) (s : σ) : List ℓ → σ
  | [] => s
  | l :: ls => after step ((step s l).getD s) ls

/-- Every label is enabled in turn, and passes the test `p` there. -/
def passes (step : σ → ℓ → Option σ) (p : σ → ℓ → Bool) (s : σ) : List ℓ → Bool
  | [] => true
  | l :: ls => p s l && (step s l).isSome && passes step p ((step s l).getD s) ls

theorem Run.of_passes {ok : σ → ℓ → Prop} {p : σ → ℓ → Bool} (hp : ∀ s l, p s l = true → ok s l) :
    ∀ {ls : List ℓ} {s : σ}, passes step p s ls = true → Run step ok s ls (after step s ls)
  | [], _, _ => .nil
  | l :: ls, s, h => by
    simp only [passes, Bool.and_eq_true] at h
    obtain ⟨⟨hl, he⟩, h⟩ := h
    obtain ⟨s', hs⟩ := Option.isSome_iff_exists.1 he
    rw [hs] at h
    have hr := Run.of_passes hp h
    simp only [after, hs]
    exact .cons (hp s l hl) hs hr

theorem Run.passes {ok : σ → ℓ → Prop} {p : σ → ℓ → Bool} (hp : ∀ s l, ok s l → p s l = true) {ls : List ℓ} {s s' : σ}
    (h : Run step ok s ls s') : passes step p s ls = true := by
  induction h with
  | nil => rfl
  | cons ho hs _ ih => simp [Fluo.Lib.passes, hp _ _ ho, hs, ih]

theorem step_after {s : σ} {l : ℓ} (h : (step s l).isSome = true) : step s l = some (after step s [l]) := by
  obtain ⟨s', hs⟩ := Option.isSome_iff_exists.1 h
  simp [after, hs]

/-! ## Termination -/

/-- If every allowed step from a state satisfying the invariant pays one out
of the measure, and a label `l` pays at most `gain l` in, a run is no longer
than the measure of its first state and all the gains. -/
theorem Run.length_le {ok : σ → ℓ → Prop} (I : σ → Prop) (μ : σ → Nat) (gain : ℓ → Nat)
    (hstep : ∀ s l s', ok s l → I s → step s l = some s' → I s' ∧ μ s' + 1 ≤ μ s + gain l) {ls : List ℓ} {s s' : σ}
    (h : Run step ok s ls s') (h0 : I s) : ls.length + μ s' ≤ μ s + (ls.map gain).sum := by
  induction h with
  | nil => simp
  | cons ho hs _ ih =>
    obtain ⟨hi, hle⟩ := hstep _ _ _ ho h0 hs
    have := ih hi
    simp only [List.length_cons, List.map_cons, List.sum_cons]
    omega

end Fluo.Lib
