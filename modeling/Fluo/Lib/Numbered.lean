import Fluo.Lib.FreshName
import Fluo.Lib.Memo
import Fluo.Lib.Uri
/-!
# Numbered names

The candidates for a name that is to be unused: the name itself, and then the name with a number from 2 on.
-/

namespace Fluo.Lib

theorem toNat_digit {n : Nat} {c : Char} (h : c ∈ (toString n).toList) : c.toNat.toUInt16.toNat ≤ 57 ∧ c.toNat.toUInt16.toNat = c.toNat := by
  rw [Nat.toString_eq_repr, Nat.toList_repr] at h
  have hdigit := (Char.isDigit_iff_toNat.1 (Nat.isDigit_of_mem_toDigits (by decide) (by decide) h)).2
  have hlt : c.toNat < 65536 := Nat.lt_of_le_of_lt hdigit (by decide)
  rw [Nat.toUInt16_eq, UInt16.toNat_ofNat', Nat.mod_eq_of_lt hlt]
  exact ⟨hdigit, rfl⟩

theorem units_toString_injective {m n : Nat} (h : units (toString m) = units (toString n)) : m = n := by
  have hback : ∀ k : Nat, (units (toString k)).map (fun u => Char.ofNat u.toNat) = (toString k).toList := by
    intro k
    rw [units, List.map_map]
    refine (List.map_congr_left fun c hc => ?_).trans (List.map_id _)
    show Char.ofNat c.toNat.toUInt16.toNat = c
    rw [(toNat_digit hc).2, Char.ofNat_toNat]
  exact toString_injective (by rw [← hback m, ← hback n, h])

/-- The candidates for a name, from the name itself on. -/
def numberedBy (separator name : Utf16) : Nat → Utf16
  | 0 => name
  | i + 1 => name ++ separator ++ units (toString (i + 2))

theorem numberedBy_injective (separator name : Utf16) : Function.Injective (numberedBy separator name) := by
  have hlength : ∀ i, numberedBy separator name (i + 1) ≠ name := by
    intro i h
    have hlist := List.append_cancel_left ((List.append_assoc _ _ _).symm.trans (h.trans (List.append_nil name).symm))
    have hempty : units (toString (i + 2)) = [] := (List.append_eq_nil_iff.1 hlist).2
    rw [units, List.map_eq_nil_iff, Nat.toString_eq_repr, Nat.toList_repr] at hempty
    exact Nat.toDigits_ne_nil hempty
  intro i j h
  cases i with
  | zero =>
    cases j with
    | zero => rfl
    | succ j => exact absurd h.symm (hlength j)
  | succ i =>
    cases j with
    | zero => exact absurd h (hlength i)
    | succ j => exact congrArg Nat.succ (Nat.add_right_cancel (units_toString_injective (List.append_cancel_left h)))

/-- The first candidate that is not used. -/
def unusedBy (separator : Utf16) (used : List Utf16) (name : Utf16) : Utf16 := firstUnused used (numberedBy separator name) used.length 0

theorem unusedBy_notMem (separator : Utf16) (used : List Utf16) (name : Utf16) : unusedBy separator used name ∉ used :=
  firstUnused_notMem (numberedBy_injective separator name) 0

end Fluo.Lib
