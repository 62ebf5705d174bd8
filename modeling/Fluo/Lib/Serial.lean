import Mathlib.Data.List.Basic
/-!
# Calls one after another

The log of calls each of which starts when the one before it has finished, and logs that
are on the way to such a one.
-/

namespace Fluo.Lib

variable {α : Type}

inductive CallEvent (α : Type)
  | started (a : α)
  | finished (a : α)
deriving DecidableEq

/-- The log of the calls, one after another. -/
def serial (calls : List α) : List (CallEvent α) := calls.flatMap fun a => [.started a, .finished a]

/-- The start of the first call. -/
def started (calls : List α) : List (CallEvent α) := (calls.head?.map CallEvent.started).toList

/-- What is left of the log when the first call is in progress. -/
def unfinished (calls : List α) : List (CallEvent α) := (serial calls).tail

@[simp] theorem serial_nil : serial ([] : List α) = [] := rfl

@[simp] theorem serial_append (calls calls' : List α) : serial (calls ++ calls') = serial calls ++ serial calls' := List.flatMap_append

@[simp] theorem started_nil : started ([] : List α) = [] := rfl

@[simp] theorem unfinished_nil : unfinished ([] : List α) = [] := rfl

theorem started_append_unfinished (calls : List α) : started calls ++ unfinished calls = serial calls := by
  cases calls <;> rfl

theorem unfinished_cons (a : α) (calls : List α) : unfinished (a :: calls) = .finished a :: (started calls ++ unfinished calls) := by
  rw [started_append_unfinished]
  rfl

/-! ## Logs of calls at the same time -/

def startedCalls (log : List (CallEvent α)) : List α := log.filterMap fun
  | .started a => some a
  | .finished _ => none

def finishedCalls (log : List (CallEvent α)) : List α := log.filterMap fun
  | .started _ => none
  | .finished a => some a

@[simp] theorem startedCalls_append (log log' : List (CallEvent α)) : startedCalls (log ++ log') = startedCalls log ++ startedCalls log' :=
  List.filterMap_append

@[simp] theorem finishedCalls_append (log log' : List (CallEvent α)) : finishedCalls (log ++ log') = finishedCalls log ++ finishedCalls log' :=
  List.filterMap_append

@[simp] theorem startedCalls_finished (a : α) (log : List (CallEvent α)) : startedCalls (.finished a :: log) = startedCalls log := rfl

@[simp] theorem finishedCalls_finished (a : α) (log : List (CallEvent α)) : finishedCalls (.finished a :: log) = a :: finishedCalls log := rfl

@[simp] theorem startedCalls_started (calls : List α) : startedCalls (started calls) = calls.take 1 := by
  cases calls <;> rfl

@[simp] theorem finishedCalls_started (calls : List α) : finishedCalls (started calls) = [] := by
  cases calls <;> rfl

@[simp] theorem startedCalls_serial (calls : List α) : startedCalls (serial calls) = calls := by
  induction calls with
  | nil => rfl
  | cons a calls ih => exact congrArg (a :: ·) ih

/-- The calls of the first kind one after another, then those of the second started in turn,
and when these have finished those of the third one after another. -/
inductive Phased (first second third : List α) (log : List (CallEvent α)) : Prop
  | first (h : log <+: serial first)
  | second (l : List (CallEvent α)) (h : log = serial first ++ l) (hs : startedCalls l <+: second)
  | third (l l' : List (CallEvent α)) (h : log = serial first ++ l ++ l') (hs : startedCalls l = second)
      (hf : (finishedCalls l).Perm second) (ht : l' <+: serial third)

theorem startedCalls_prefix {log log' : List (CallEvent α)} (h : log <+: log') : startedCalls log <+: startedCalls log' := by
  obtain ⟨rest, rfl⟩ := h
  exact ⟨startedCalls rest, (startedCalls_append log rest).symm⟩

theorem Phased.startedCalls_isPrefix {first second third : List α} {log : List (CallEvent α)} (h : Phased first second third log) :
    startedCalls log <+: first ++ second ++ third := by
  cases h with
  | first h =>
    have hp := startedCalls_prefix h
    rw [startedCalls_serial] at hp
    exact (hp.trans (List.prefix_append first second)).trans (List.prefix_append _ third)
  | second l h hs =>
    rw [h, startedCalls_append, startedCalls_serial]
    exact ((List.prefix_append_right_inj first).2 hs).trans (List.prefix_append _ third)
  | third l l' h hs _ ht =>
    have hp := startedCalls_prefix ht
    rw [startedCalls_serial] at hp
    rw [h, startedCalls_append, startedCalls_append, startedCalls_serial, hs]
    exact (List.prefix_append_right_inj _).2 hp

end Fluo.Lib
