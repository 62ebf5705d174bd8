import Mathlib.Order.WithBot
import Fluo.Lib.OrderedMap
/-!
# Bounded maps whose entries expire

A map from the oldest entry to the newest. An entry is there until its deadline, if it has one,
and putting one into a full map drops the oldest of those that are still there.
-/

namespace Fluo.Lib

variable {κ ν τ : Type} [LinearOrder τ]

/-- Is an entry with this deadline there? -/
def isLive (now : τ) (deadline : Option τ) : Bool := deadline.all fun deadline => now < deadline

/-- Entries have their value and their deadline. -/
abbrev Expiring (κ ν τ : Type) := OrderedMap κ (ν × Option τ)

namespace Expiring

def live (map : Expiring κ ν τ) (now : τ) : Expiring κ ν τ := map.filter fun entry => isLive now entry.2.2

variable [DecidableEq κ]

def get (map : Expiring κ ν τ) (now : τ) (key : κ) : Option ν := (OrderedMap.get (map.live now) key).map Prod.fst

def erase (map : Expiring κ ν τ) (key : κ) : Expiring κ ν τ := map.filter fun entry => entry.1 ≠ key

/-- The newest entries, as many as there may be. -/
def newest (capacity : Nat) (map : Expiring κ ν τ) : Expiring κ ν τ := map.drop (map.length - capacity)

def put (capacity : Nat) (map : Expiring κ ν τ) (now : τ) (key : κ) (value : ν) (deadline : Option τ) : Expiring κ ν τ :=
  newest capacity ((map.live now).erase key ++ [(key, value, deadline)])

theorem isLive_mono {now later : τ} {deadline : Option τ} (hle : now ≤ later) (h : isLive later deadline = true) :
    isLive now deadline = true := by
  cases deadline with
  | none => rfl
  | some deadline =>
    simp only [isLive, Option.all_some, decide_eq_true_eq] at h ⊢
    exact hle.trans_lt h

omit [DecidableEq κ] in
@[simp] theorem live_live (map : Expiring κ ν τ) {now later : τ} (hle : now ≤ later) : (map.live now).live later = map.live later := by
  simp only [live, List.filter_filter]
  refine List.filter_congr fun entry _ => ?_
  cases hlater : isLive later entry.2.2 with
  | false => rfl
  | true => simp [isLive_mono hle hlater]

theorem live_erase (map : Expiring κ ν τ) (now : τ) (key : κ) : (map.erase key).live now = (map.live now).erase key := by
  simp only [live, erase, List.filter_filter]
  exact List.filter_congr fun _ _ => Bool.and_comm _ _

end Expiring

end Fluo.Lib
