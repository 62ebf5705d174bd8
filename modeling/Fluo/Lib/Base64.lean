import Mathlib.Data.List.Basic
/-!
# Base64

Octets in groups of three as characters in groups of four, each of six bits. The decoder
reads both alphabets and passes over the other characters, the padding among them.
-/

namespace Fluo.Lib.Base64

def char (sextet : Nat) : Char :=
  if sextet < 26 then Char.ofNat (0x41 + sextet)
  else if sextet < 52 then Char.ofNat (0x61 + (sextet - 26))
  else if sextet < 62 then Char.ofNat (0x30 + (sextet - 52))
  else if sextet = 62 then '+'
  else '/'

/-- The six bits of a character of either alphabet. -/
def sextet (c : Char) : Option Nat :=
  if 'A' ≤ c ∧ c ≤ 'Z' then some (c.toNat - 0x41)
  else if 'a' ≤ c ∧ c ≤ 'z' then some (c.toNat - 0x61 + 26)
  else if '0' ≤ c ∧ c ≤ '9' then some (c.toNat - 0x30 + 52)
  else if c = '+' ∨ c = '-' then some 62
  else if c = '/' ∨ c = '_' then some 63
  else none

def sextets : List Nat → List Nat
  | [] => []
  | [a] => [a / 4, a % 4 * 16]
  | [a, b] => [a / 4, a % 4 * 16 + b / 16, b % 16 * 4]
  | a :: b :: c :: rest => a / 4 :: (a % 4 * 16 + b / 16) :: (b % 16 * 4 + c / 64) :: c % 64 :: sextets rest

def octets : List Nat → List Nat
  | [] => []
  | [_] => []
  | [p, q] => [p * 4 + q / 16]
  | [p, q, r] => [p * 4 + q / 16, q % 16 * 16 + r / 4]
  | p :: q :: r :: s :: rest => (p * 4 + q / 16) :: (q % 16 * 16 + r / 4) :: (r % 4 * 64 + s) :: octets rest

def padding (length : Nat) : List Char := List.replicate ((3 - length % 3) % 3) '='

def encode (octets : List Nat) : List Char := (sextets octets).map char ++ padding octets.length

def decode (text : List Char) : List Nat := octets (text.filterMap sextet)

@[simp] theorem sextet_char {n : Nat} (h : n < 64) : sextet (char n) = some n := by
  have hall : ∀ m < 64, sextet (char m) = some m := by decide
  exact hall n h

@[simp] theorem sextet_padding : sextet '=' = none := rfl

theorem sextets_lt {os : List Nat} (h : ∀ o ∈ os, o < 0x100) : ∀ n ∈ sextets os, n < 64 := by
  induction os using sextets.induct with
  | case1 => simp [sextets]
  | case2 a =>
    simp only [sextets, List.forall_mem_cons, List.not_mem_nil, false_implies, implies_true, and_true] at h ⊢
    omega
  | case3 a b =>
    simp only [sextets, List.forall_mem_cons, List.not_mem_nil, false_implies, implies_true, and_true] at h ⊢
    omega
  | case4 a b c rest ih =>
    simp only [sextets, List.forall_mem_cons] at h ⊢
    exact ⟨by omega, by omega, by omega, by omega, ih h.2.2.2⟩

theorem octets_sextets {os : List Nat} (h : ∀ o ∈ os, o < 0x100) : octets (sextets os) = os := by
  induction os using sextets.induct with
  | case1 => rfl
  | case2 a =>
    simp only [sextets, octets, List.cons.injEq, and_true]
    omega
  | case3 a b =>
    have hb : b < 0x100 := h b (by simp)
    simp only [sextets, octets, List.cons.injEq, and_true]
    omega
  | case4 a b c rest ih =>
    simp only [List.forall_mem_cons] at h
    simp only [sextets, octets, List.cons.injEq, ih h.2.2.2, and_true]
    omega

theorem filterMap_char {ns : List Nat} (h : ∀ n ∈ ns, n < 64) : (ns.map char).filterMap sextet = ns := by
  induction ns with
  | nil => rfl
  | cons n rest ih =>
    rw [List.forall_mem_cons] at h
    simp [h.1, ih h.2]

theorem filterMap_padding (length : Nat) : (padding length).filterMap sextet = [] := by
  simp [padding, List.filterMap_replicate]

theorem filterMap_encode {os : List Nat} (h : ∀ o ∈ os, o < 0x100) : (encode os).filterMap sextet = sextets os := by
  rw [encode, List.filterMap_append, filterMap_char (sextets_lt h), filterMap_padding, List.append_nil]

theorem decode_encode {os : List Nat} (h : ∀ o ∈ os, o < 0x100) : decode (encode os) = os := by
  rw [decode, filterMap_encode h, octets_sextets h]

theorem filterMap_map {f : Char → Char} (hf : ∀ c, sextet (f c) = sextet c) (text : List Char) :
    (text.map f).filterMap sextet = text.filterMap sextet := by
  have hcomp : sextet ∘ f = sextet := funext hf
  rw [List.filterMap_map, hcomp]

theorem filterMap_filter {p : Char → Bool} (hp : ∀ c, p c = false → sextet c = none) (text : List Char) :
    (text.filter p).filterMap sextet = text.filterMap sextet := by
  rw [List.filterMap_filter]
  refine List.filterMap_congr fun c _ => ?_
  split
  next => rfl
  next h => exact (hp c (by simpa using h)).symm

theorem decode_congr {s t : List Char} (h : s.filterMap sextet = t.filterMap sextet) : decode s = decode t := by
  rw [decode, decode, h]

theorem mem_encode {os : List Nat} (h : ∀ o ∈ os, o < 0x100) {c : Char} (hc : c ∈ encode os) : (sextet c).isSome ∨ c = '=' := by
  rcases List.mem_append.1 hc with hc | hc
  · obtain ⟨n, hn, rfl⟩ := List.mem_map.1 hc
    exact .inl (by simp [sextets_lt h n hn])
  · exact .inr (List.eq_of_mem_replicate hc)

end Fluo.Lib.Base64
