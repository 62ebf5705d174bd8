import Mathlib.Data.Rat.Floor
/-!
# Numbers of the language

The values of a number: the finite ones, the infinities and what is no number; how
they compare, and which divide which.
-/

namespace Fluo.Lib

inductive JsNumber
  | nan
  | infinity (negative : Bool)
  | finite (value : ℚ)
deriving DecidableEq

namespace JsNumber

def ofInt (value : ℤ) : JsNumber := .finite value

/-- The multiple of a power of 2 that has 53 binary digits and is nearest to an integer, the even one of two. -/
def nearest (value : ℕ) : ℕ :=
  let step := 2 ^ (value.log2 - 52)
  let below := value / step
  let past := value % step
  if step < 2 * past ∨ step = 2 * past ∧ below % 2 = 1 then (below + 1) * step else below * step

/-- The number nearest to an integer. From 2^1024 on it is the infinite one. -/
def ofNat (value : ℕ) : JsNumber := if nearest value < (2 ^ 256) ^ 4 then .finite (nearest value) else .infinity false

def isNaN : JsNumber → Bool
  | .nan => true
  | _ => false

def isFinite : JsNumber → Bool
  | .finite _ => true
  | _ => false

def isInteger : JsNumber → Bool
  | .finite value => value.isInt
  | _ => false

/-- `a <= b` -/
def le : JsNumber → JsNumber → Bool
  | .nan, _ | _, .nan => false
  | .infinity true, _ | _, .infinity false => true
  | .finite a, .finite b => a ≤ b
  | _, _ => false

/-- `a < b` -/
def lt (a b : JsNumber) : Bool := le a b && !le b a

/-- `a === b` -/
def strictEqual (a b : JsNumber) : Bool := a == b && !a.isNaN

/-- `value % divisor === 0` -/
def isDivisibleBy : JsNumber → JsNumber → Bool
  | .finite value, .finite divisor => divisor != 0 && (value / divisor).isInt
  | .finite value, .infinity _ => value == 0
  | _, _ => false

theorem ofNat_of_lt {value : ℕ} (h : value < 2 ^ 53) : ofNat value = .finite value := by
  have hlog : value.log2 - 52 = 0 := by
    by_cases hzero : value = 0
    · rw [hzero]
      rfl
    · have hlt := (Nat.log2_lt hzero).2 h
      omega
  have hnearest : nearest value = value := by
    rw [nearest, hlog, pow_zero, Nat.mod_one, Nat.div_one, if_neg (by omega), Nat.mul_one]
  have hbound : 2 ^ 53 < (2 ^ 256) ^ 4 := by decide
  rw [ofNat, hnearest, if_pos (Nat.lt_trans h hbound)]

theorem lt_finite (a b : ℚ) : lt (.finite a) (.finite b) = decide (a < b) := by
  rw [lt, le, le, ← decide_not, ← Bool.decide_and]
  congr 1
  exact propext lt_iff_le_not_ge.symm

end JsNumber

end Fluo.Lib
