import Mathlib.Data.UInt
import Mathlib.Dynamics.PeriodicPts.Lemmas
import Mathlib.Tactic.Ring
/-!
# The 32-bit FNV-1a hash

The hash of a sequence of code units, and how freely it can be steered: from every state of the hash every
other state is reached by printable ASCII characters alone.
-/

namespace Fluo.Lib
open Function

/-! ## Words over injective steps -/

section Reaches
variable {σ β : Type*} {step : σ → β → σ} {p : β → Prop} {s t u : σ}

/-- A word of letters that meet `p` leads from `s` to `t`. -/
def Reaches (step : σ → β → σ) (p : β → Prop) (s t : σ) : Prop := ∃ word : List β, (∀ b ∈ word, p b) ∧ word.foldl step s = t

theorem Reaches.refl (s : σ) : Reaches step p s s := ⟨[], nofun, rfl⟩

theorem Reaches.single {b : β} (hb : p b) (s : σ) : Reaches step p s (step s b) :=
  ⟨[b], fun _ hmem => List.mem_singleton.1 hmem ▸ hb, rfl⟩

theorem Reaches.trans (h : Reaches step p s t) (h' : Reaches step p t u) : Reaches step p s u := by
  obtain ⟨word, hword, rfl⟩ := h
  obtain ⟨word', hword', rfl⟩ := h'
  refine ⟨word ++ word', fun b hmem => ?_, List.foldl_append⟩
  exact (List.mem_append.1 hmem).elim (hword b) (hword' b)

theorem foldl_replicate_eq_iterate (n : Nat) (b : β) (s : σ) : (List.replicate n b).foldl step s = (fun s => step s b)^[n] s := by
  induction n generalizing s with
  | zero => rfl
  | succ n ih => exact ih (step s b)

variable [Finite σ]

theorem Reaches.symm_single {b : β} (hb : p b) (hinjective : Injective fun s => step s b) (s : σ) : Reaches step p (step s b) s := by
  obtain ⟨n, hpos, hperiod⟩ := mem_periodicPts.1 (hinjective.mem_periodicPts s)
  obtain ⟨n, rfl⟩ := Nat.exists_eq_succ_of_ne_zero (Nat.pos_iff_ne_zero.1 hpos)
  refine ⟨List.replicate n b, fun _ hmem => List.eq_of_mem_replicate hmem ▸ hb, ?_⟩
  rw [foldl_replicate_eq_iterate]
  exact hperiod

theorem Reaches.symm (hinjective : ∀ b, Injective fun s => step s b) (h : Reaches step p s t) : Reaches step p t s := by
  obtain ⟨word, hword, rfl⟩ := h
  induction word generalizing s with
  | nil => exact .refl s
  | cons b word ih =>
    have hback := ih (s := step s b) fun c hmem => hword c (List.mem_cons_of_mem _ hmem)
    exact hback.trans (.symm_single (hword b List.mem_cons_self) (hinjective b) s)

end Reaches

/-! ## The hash -/

def fnvMix (hash : UInt32) (unit : UInt16) : UInt32 := (hash ^^^ unit.toUInt32) * 0x01000193

def fnv1a (text : List UInt16) : UInt32 := text.foldl fnvMix 0x811c9dc5

/-- Printable ASCII but for the quotation mark and the reverse solidus. -/
def Printable (unit : UInt16) : Prop := 0x20 ≤ unit ∧ unit < 0x7f ∧ unit ≠ 0x22 ∧ unit ≠ 0x5c

instance : DecidablePred Printable := fun unit => inferInstanceAs (Decidable (0x20 ≤ unit ∧ unit < 0x7f ∧ unit ≠ 0x22 ∧ unit ≠ 0x5c))

theorem fnvMix_injective (unit : UInt16) : Injective fun hash => fnvMix hash unit := by
  intro hash hash' h
  have hinverse : (0x01000193 : UInt32) * 0x359c449b = 1 := by decide
  have hxor : hash ^^^ unit.toUInt32 = hash' ^^^ unit.toUInt32 := by
    have hmul := congrArg (· * (0x359c449b : UInt32)) h
    simpa only [fnvMix, UInt32.mul_assoc, hinverse, UInt32.mul_one] using hmul
  exact (UInt32.xor_left_inj _).1 hxor

theorem foldl_fnvMix_injective (text : List UInt16) : Injective fun hash => text.foldl fnvMix hash := by
  induction text with
  | nil => exact injective_id
  | cons unit text ih => exact ih.comp (fnvMix_injective unit)

instance finite_uint32 : Finite UInt32 := Finite.of_injective UInt32.toFin fun _ _ => UInt32.toFin_inj.1

theorem foldl_fnvMix_surjective (text : List UInt16) : Surjective fun hash => text.foldl fnvMix hash :=
  Finite.injective_iff_surjective.1 (foldl_fnvMix_injective text)

/-- Printable characters lead from one state of the hash to the other. -/
abbrev Steered (hash hash' : UInt32) : Prop := Reaches fnvMix Printable hash hash'

theorem Steered.symm {hash hash' : UInt32} (h : Steered hash hash') : Steered hash' hash := Reaches.symm fnvMix_injective h

theorem exists_printable_xor : ∀ n < 128, ∃ unit ∈ [(0x41 : UInt16), 0x61, 0x21], Printable unit ∧ Printable (unit ^^^ UInt16.ofNat n) := by
  decide +kernel

theorem steered_of_high {hash hash' : UInt32} (h : hash.toNat / 128 = hash'.toNat / 128) : Steered hash hash' := by
  have hlow : (hash ^^^ hash').toNat < 128 := by
    rw [UInt32.toNat_xor]
    have hshift := Nat.shiftRight_xor_distrib (a := hash.toNat) (b := hash'.toNat) (i := 7)
    simp only [Nat.shiftRight_eq_div_pow, Nat.reducePow, h, Nat.xor_self] at hshift
    omega
  obtain ⟨unit, -, hunit, hunit'⟩ := exists_printable_xor _ hlow
  have hmix : fnvMix hash unit = fnvMix hash' (unit ^^^ UInt16.ofNat (hash ^^^ hash').toNat) := by
    have hxor : (UInt16.ofNat (hash ^^^ hash').toNat).toUInt32 = hash ^^^ hash' := by
      rw [← UInt32.toNat_inj, UInt16.toNat_toUInt32, UInt16.toNat_ofNat', Nat.mod_eq_of_lt (Nat.lt_of_lt_of_le hlow (by decide))]
    rw [fnvMix, fnvMix, UInt16.toUInt32_xor, hxor, UInt32.xor_comm unit.toUInt32, ← UInt32.xor_assoc, ← UInt32.xor_assoc, UInt32.xor_comm hash' hash,
      UInt32.xor_assoc hash, UInt32.xor_self, UInt32.xor_zero]
  have hleft : Steered hash (fnvMix hash unit) := .single hunit hash
  have hright : Steered hash' (fnvMix hash' (unit ^^^ UInt16.ofNat (hash ^^^ hash').toNat)) := .single hunit' hash'
  rw [hmix] at hleft
  exact hleft.trans hright.symm

theorem steered_mul (hash : UInt32) : Steered hash (hash * 0x01000193) := by
  have hmixed : fnvMix (hash ^^^ 0x41) 0x41 = hash * 0x01000193 := by
    rw [fnvMix, UInt32.xor_assoc, show (0x41 : UInt32) ^^^ (0x41 : UInt16).toUInt32 = 0 from by decide, UInt32.xor_zero]
  have hfree : Steered hash (hash ^^^ 0x41) := by
    refine steered_of_high ?_
    have hshift := Nat.shiftRight_xor_distrib (a := hash.toNat) (b := 0x41) (i := 7)
    simp only [Nat.shiftRight_eq_div_pow, Nat.reducePow, Nat.reduceDiv, Nat.xor_zero] at hshift
    rw [UInt32.toNat_xor]
    exact hshift.symm
  have hstep : Steered (hash ^^^ 0x41) (fnvMix (hash ^^^ 0x41) 0x41) := .single (by decide) _
  rw [hmixed] at hstep
  exact hfree.trans hstep

section
open scoped UInt32.CommRing

theorem toNat_mul_128_add (high low : UInt32) (hlow : low.toNat < 128) : (128 * high + low).toNat / 128 = (128 * high).toNat / 128 := by
  rw [UInt32.toNat_add, UInt32.toNat_mul, show (128 : UInt32).toNat = 128 from rfl]
  omega

theorem steered_carry (high : UInt32) : Steered (128 * high) (128 * (high + 131075)) := by
  have hinverse : (0x359c449b : UInt32) * 0x01000193 = 1 := by decide
  have hprime : (0x01000193 : UInt32) = 128 * 131075 + 19 := by decide
  let before : UInt32 := high * 0x359c449b
  have hbefore : 128 * before * 0x01000193 = 128 * high := by
    calc 128 * before * 0x01000193 = 128 * high * (0x359c449b * 0x01000193) := by ring
      _ = 128 * high := by rw [hinverse, mul_one]
  have hcarried : (128 * before + 1) * 0x01000193 = 128 * (high + 131075) + 19 := by
    calc (128 * before + 1) * 0x01000193 = 128 * before * 0x01000193 + 0x01000193 := by ring
      _ = 128 * high + (128 * 131075 + 19) := by rw [hbefore, hprime]
      _ = 128 * (high + 131075) + 19 := by ring
  have hplain := steered_mul (128 * before)
  have hnext : Steered (128 * before) (128 * before + 1) := steered_of_high (toNat_mul_128_add before 1 (by decide)).symm
  have hcarry := steered_mul (128 * before + 1)
  rw [hbefore] at hplain
  rw [hcarried] at hcarry
  exact hplain.symm.trans (hnext.trans (hcarry.trans (steered_of_high (toNat_mul_128_add _ 19 (by decide)))))

theorem steered_carries (high : UInt32) (n : Nat) : Steered (128 * high) (128 * (high + n * 131075)) := by
  induction n with
  | zero => simpa using Reaches.refl (128 * high)
  | succ n ih =>
    have hlast := steered_carry (high + n * 131075)
    rw [show high + n * 131075 + 131075 = high + ((n + 1 : Nat) : UInt32) * 131075 by push_cast; ring] at hlast
    exact ih.trans hlast

theorem steered_zero (hash : UInt32) : Steered hash 0 := by
  have hinverse : (0x8e38aaab : UInt32) * 131075 = 1 := by decide
  let high := UInt32.ofNat (hash.toNat / 128)
  have hhigh : Steered hash (128 * high) := by
    refine steered_of_high ?_
    have hlt := hash.toNat_lt
    rw [UInt32.toNat_mul, UInt32.toNat_ofNat', show (128 : UInt32).toNat = 128 from rfl]
    omega
  -- So many carries that the sum runs over.
  have hcarries := steered_carries high (-high * 0x8e38aaab).toNat
  have hsum : high + ((-high * 0x8e38aaab).toNat : UInt32) * 131075 = 0 := by
    calc high + ((-high * 0x8e38aaab).toNat : UInt32) * 131075
      _ = high + UInt32.ofNat (-high * 0x8e38aaab).toNat * 131075 := rfl
      _ = high + -high * 0x8e38aaab * 131075 := by rw [UInt32.ofNat_toNat]
      _ = high + -high * (0x8e38aaab * 131075) := by rw [mul_assoc]
      _ = 0 := by rw [hinverse, mul_one, add_neg_cancel]
  rw [hsum, mul_zero] at hcarries
  exact hhigh.trans hcarries

theorem steered (hash hash' : UInt32) : Steered hash hash' := (steered_zero hash).trans (steered_zero hash').symm

end

end Fluo.Lib
