import Mathlib.Data.List.Basic
/-!
# URI components

Strings as sequences of UTF-16 code units, their code points, the UTF-8 octets
of a code point, and the percent-encoding of a component. Encoding fails on a
lone surrogate and is injective where it does not fail.
-/

namespace Fluo.Lib

variable {α β : Type}

/-! ## Prefix codes -/

/-- Below `p`, a codeword of `f` can be read back from the front of a text. -/
def PrefixCode (p : α → Prop) (f : α → List β) : Prop :=
  ∀ a b r s, p a → p b → f a ++ r = f b ++ s → a = b ∧ r = s

theorem PrefixCode.flatMap_inj {p : α → Prop} {f : α → List β} (hf : PrefixCode p f) (hne : ∀ a, f a ≠ []) :
    ∀ {xs ys : List α}, (∀ x ∈ xs, p x) → (∀ y ∈ ys, p y) → xs.flatMap f = ys.flatMap f → xs = ys
  | [], [], _, _, _ => rfl
  | [], y :: ys, _, _, h => absurd (List.append_eq_nil_iff.1 h.symm).1 (hne y)
  | x :: xs, [], _, _, h => absurd (List.append_eq_nil_iff.1 h).1 (hne x)
  | x :: xs, y :: ys, hx, hy, h => by
    obtain ⟨rfl, hrest⟩ := hf x y _ _ (hx x List.mem_cons_self) (hy y List.mem_cons_self) h
    rw [hf.flatMap_inj hne (fun z hz => hx z (List.mem_cons_of_mem _ hz)) (fun z hz => hy z (List.mem_cons_of_mem _ hz)) hrest]

/-! ## Separators -/

theorem append_cons_inj {c : α} {a b x y : List α} (hx : c ∉ x) (hy : c ∉ y) (h : a ++ c :: x = b ++ c :: y) : a = b ∧ x = y := by
  rcases List.append_eq_append_iff.1 h with ⟨m, rfl, hm⟩ | ⟨m, rfl, hm⟩
  · cases m with
    | nil => exact ⟨(List.append_nil a).symm, (List.cons.inj hm).2⟩
    | cons d m =>
      obtain ⟨rfl, rfl⟩ := List.cons.inj hm
      exact absurd (List.mem_append_right m List.mem_cons_self) hx
  · cases m with
    | nil => exact ⟨List.append_nil b, (List.cons.inj hm).2.symm⟩
    | cons d m =>
      obtain ⟨rfl, rfl⟩ := List.cons.inj hm
      exact absurd (List.mem_append_right m List.mem_cons_self) hy

variable [DecidableEq α]

/-- The parts of a text between separators, without the empty ones. -/
def fields (c : α) (xs : List α) : List (List α) := (xs.splitOn c).filter (· ≠ [])

theorem fields_nil (c : α) : fields c [] = [] := by simp [fields]

theorem fields_append_cons (c : α) (xs ys : List α) : fields c (xs ++ c :: ys) = fields c xs ++ fields c ys := by
  rw [fields, List.splitOn_eq_splitOnP, List.splitOnP_append_cons (p := (· == c)) _ _ (beq_self_eq_true c), List.filter_append]
  rfl

theorem fields_of_notMem {c : α} {xs : List α} (h : c ∉ xs) (hne : xs ≠ []) : fields c xs = [xs] := by
  rw [fields, List.splitOn_eq_splitOnP, List.splitOnP_eq_singleton fun x hx => beq_false_of_ne (ne_of_mem_of_not_mem hx h)]
  simp [hne]

theorem mem_fields {c u : α} {xs : List α} (h : u ∈ xs) (hu : u ≠ c) : ∃ text ∈ fields c xs, u ∈ text := by
  by_cases hc : c ∈ xs
  · obtain ⟨a, b, rfl, ha⟩ := List.eq_append_cons_of_mem hc
    rw [fields_append_cons]
    rcases List.mem_append.1 h with h | h
    · rw [fields_of_notMem ha (List.ne_nil_of_mem h)]
      exact ⟨a, List.mem_append_left _ List.mem_cons_self, h⟩
    · obtain ⟨text, ht, hm⟩ := mem_fields ((List.mem_cons.1 h).resolve_left hu) hu
      exact ⟨text, List.mem_append_right _ ht, hm⟩
  · rw [fields_of_notMem hc (List.ne_nil_of_mem h)]
    exact ⟨xs, List.mem_cons_self, h⟩
termination_by xs.length
decreasing_by subst_vars; simp; omega

theorem notMem_fields {c : α} {xs text : List α} (h : text ∈ fields c xs) : c ∉ text ∧ text ≠ [] := by
  by_cases hc : c ∈ xs
  · obtain ⟨a, b, rfl, ha⟩ := List.eq_append_cons_of_mem hc
    rw [fields_append_cons] at h
    rcases List.mem_append.1 h with h | h
    · by_cases hne : a = []
      · subst hne
        simp [fields_nil] at h
      · rw [fields_of_notMem ha hne, List.mem_singleton] at h
        subst h
        exact ⟨ha, hne⟩
    · exact notMem_fields h
  · by_cases hne : xs = []
    · subst hne
      simp [fields_nil] at h
    · rw [fields_of_notMem hc hne, List.mem_singleton] at h
      subst h
      exact ⟨hc, hne⟩
termination_by xs.length
decreasing_by subst_vars; simp; omega

theorem fields_intercalate (c : α) : ∀ texts : List (List α), fields c ([c].intercalate texts) = texts.flatMap (fields c)
  | [] => fields_nil c
  | [xs] => by simp [List.intercalate]
  | xs :: ys :: rest => by
    have ih := fields_intercalate c (ys :: rest)
    rw [List.flatMap_cons, ← ih, ← fields_append_cons]
    simp [List.intercalate]

/-! ## Code points -/

abbrev Utf16 := List UInt16

instance : LawfulBEq Utf16 := inferInstance

/-- The code units of a text of the basic plane. -/
def units (s : String) : Utf16 := s.toList.map fun c => c.toNat.toUInt16

def isHighSurrogate (u : UInt16) : Bool := 0xD800 ≤ u.toNat && u.toNat < 0xDC00

def isLowSurrogate (u : UInt16) : Bool := 0xDC00 ≤ u.toNat && u.toNat < 0xE000

/-- The code points of a text, none on a lone surrogate. -/
def codePoints : Utf16 → Option (List Nat)
  | [] => some []
  | [u] => if isHighSurrogate u || isLowSurrogate u then none else some [u.toNat]
  | u :: v :: rest =>
    if isHighSurrogate u then
      if isLowSurrogate v then (codePoints rest).map fun cs => (0x10000 + (u.toNat - 0xD800) * 0x400 + (v.toNat - 0xDC00)) :: cs
      else none
    else if isLowSurrogate u then none
    else (codePoints (v :: rest)).map fun cs => u.toNat :: cs

/-- The code units of a code point. -/
def codeUnits (c : Nat) : Utf16 :=
  if c < 0x10000 then [c.toUInt16]
  else [(0xD800 + (c - 0x10000) / 0x400).toUInt16, (0xDC00 + (c - 0x10000) % 0x400).toUInt16]

theorem codePoints_spec {s : Utf16} {cs : List Nat} (h : codePoints s = some cs) :
    s = cs.flatMap codeUnits ∧ ∀ c ∈ cs, c < 0x110000 := by
  have hunit (u : UInt16) : codeUnits u.toNat = [u] ∧ u.toNat < 0x110000 := by
    have := u.toNat_lt
    refine ⟨?_, by omega⟩
    rw [codeUnits, if_pos (by omega)]
    simp
  fun_induction codePoints s generalizing cs with
  | case1 => cases h; simp
  | case2 => cases h
  | case3 u hu =>
    cases h
    simp [hunit]
  | case4 u v rest hu hv ih =>
    obtain ⟨cs', hcs, rfl⟩ := Option.map_eq_some_iff.1 h
    obtain ⟨hrest, hlt⟩ := ih hcs
    simp only [isHighSurrogate, isLowSurrogate, Bool.and_eq_true, decide_eq_true_eq] at hu hv
    refine ⟨?_, List.forall_mem_cons.2 ⟨by omega, hlt⟩⟩
    rw [List.flatMap_cons, codeUnits, if_neg (by omega), ← hrest]
    have hu' : 0xD800 + (0x10000 + (u.toNat - 0xD800) * 0x400 + (v.toNat - 0xDC00) - 0x10000) / 0x400 = u.toNat := by omega
    have hv' : 0xDC00 + (0x10000 + (u.toNat - 0xD800) * 0x400 + (v.toNat - 0xDC00) - 0x10000) % 0x400 = v.toNat := by omega
    rw [hu', hv']
    simp
  | case5 => cases h
  | case6 => cases h
  | case7 u v rest hu hl ih =>
    obtain ⟨cs', hcs, rfl⟩ := Option.map_eq_some_iff.1 h
    obtain ⟨hrest, hlt⟩ := ih hcs
    refine ⟨?_, List.forall_mem_cons.2 ⟨(hunit u).2, hlt⟩⟩
    rw [List.flatMap_cons, ← hrest, (hunit u).1]
    rfl

/-! ## UTF-8 -/

/-- The octets of a code point. -/
def utf8 (c : Nat) : List Nat :=
  if c < 0x80 then [c]
  else if c < 0x800 then [0xC0 + c / 0x40, 0x80 + c % 0x40]
  else if c < 0x10000 then [0xE0 + c / 0x1000, 0x80 + c / 0x40 % 0x40, 0x80 + c % 0x40]
  else [0xF0 + c / 0x40000, 0x80 + c / 0x1000 % 0x40, 0x80 + c / 0x40 % 0x40, 0x80 + c % 0x40]

theorem utf8_ne_nil (c : Nat) : utf8 c ≠ [] := by
  unfold utf8
  split_ifs <;> simp

theorem utf8_lt {c : Nat} (h : c < 0x110000) : ∀ b ∈ utf8 c, b < 0x100 := by
  unfold utf8
  split_ifs <;> simp only [List.mem_cons, List.not_mem_nil, or_false, forall_eq_or_imp, forall_eq] <;> omega

theorem utf8_prefixCode : PrefixCode (· < 0x110000) utf8 := by
  intro c d r s hc hd h
  unfold utf8 at h
  split_ifs at h <;> simp only [List.cons_append, List.nil_append, List.cons.injEq] at h <;>
    first
    | exact absurd h.1 (by omega)
    | exact ⟨by omega, by simp_all⟩

/-! ## Percent-encoding -/

/-- The code points that are not escaped: `A-Z a-z 0-9 - _ . ! ~ * ' ( )`. -/
def isUnescaped (c : Nat) : Bool :=
  'A'.toNat ≤ c && c ≤ 'Z'.toNat || 'a'.toNat ≤ c && c ≤ 'z'.toNat || '0'.toNat ≤ c && c ≤ '9'.toNat ||
    "-_.!~*'()".toList.any (·.toNat == c)

def hexDigit (n : Nat) : UInt16 := if n < 10 then (0x30 + n).toUInt16 else (0x37 + n).toUInt16

def percentByte (b : Nat) : Utf16 := [0x25, hexDigit (b / 16), hexDigit (b % 16)]

def encodeCodePoint (c : Nat) : Utf16 := if isUnescaped c then [c.toUInt16] else (utf8 c).flatMap percentByte

/-- `encodeURIComponent`: none where the text is malformed. -/
def encodeURIComponent (s : Utf16) : Option Utf16 := (codePoints s).map (·.flatMap encodeCodePoint)

/-- The encoding of one octet. -/
def octet (b : Nat) : Utf16 := if isUnescaped b then [b.toUInt16] else percentByte b

theorem isUnescaped_lt {c : Nat} (h : isUnescaped c = true) : c < 0x80 := by
  simp [isUnescaped] at h
  omega

theorem utf8_of_lt {c : Nat} (h : c < 0x80) : utf8 c = [c] := if_pos h

theorem encodeCodePoint_eq (c : Nat) : encodeCodePoint c = (utf8 c).flatMap octet := by
  unfold encodeCodePoint
  split
  next h => simp [utf8_of_lt (isUnescaped_lt h), octet, h]
  next h =>
    refine List.flatMap_congr fun b hb => ?_
    have hb' : isUnescaped b = false := by
      by_cases hc : c < 0x80
      · rw [utf8_of_lt hc, List.mem_singleton] at hb
        exact hb ▸ Bool.eq_false_iff.2 h
      · refine Bool.eq_false_iff.2 fun hu => ?_
        have := isUnescaped_lt hu
        unfold utf8 at hb
        split_ifs at hb <;> simp at hb <;> omega
    simp [octet, hb']

theorem hexDigit_inj {m n : Nat} (hm : m < 16) (hn : n < 16) (h : hexDigit m = hexDigit n) : m = n := by
  have hall : ∀ a b : Fin 16, hexDigit a = hexDigit b → a = b := by decide
  exact congrArg Fin.val (hall ⟨m, hm⟩ ⟨n, hn⟩ h)

theorem toUInt16_inj {m n : Nat} (hm : m < 0x10000) (hn : n < 0x10000) (h : m.toUInt16 = n.toUInt16) : m = n := by
  have := congrArg UInt16.toNat h
  rwa [UInt16.toNat_ofNat_of_lt' hm, UInt16.toNat_ofNat_of_lt' hn] at this

theorem octet_prefixCode : PrefixCode (· < 0x100) octet := by
  have hpercent {c : Nat} (hc : isUnescaped c = true) : c.toUInt16 ≠ 0x25 := fun h => by
    have := isUnescaped_lt hc
    rw [toUInt16_inj (n := 0x25) (by omega) (by omega) h] at hc
    exact absurd hc (by decide)
  intro a b r s ha hb h
  unfold octet at h
  split at h <;> split at h
  next => exact ⟨toUInt16_inj (by omega) (by omega) (List.cons.inj h).1, (List.cons.inj h).2⟩
  next hu _ => exact absurd (List.cons.inj h).1 (hpercent hu)
  next _ hu => exact absurd (List.cons.inj h).1.symm (hpercent hu)
  next =>
    obtain ⟨-, h⟩ := List.cons.inj h
    obtain ⟨hhigh, h⟩ := List.cons.inj h
    obtain ⟨hlow, h⟩ := List.cons.inj h
    have := hexDigit_inj (by omega) (by omega) hhigh
    have := hexDigit_inj (by omega) (by omega) hlow
    exact ⟨by omega, h⟩

theorem octet_ne_nil (b : Nat) : octet b ≠ [] := by
  unfold octet percentByte
  split <;> simp

theorem encodeURIComponent_eq_some {s t : Utf16} : encodeURIComponent s = some t ↔
    ∃ cs, codePoints s = some cs ∧ t = (cs.flatMap utf8).flatMap octet := by
  unfold encodeURIComponent
  rw [Option.map_eq_some_iff]
  refine exists_congr fun cs => and_congr_right fun _ => ?_
  rw [List.flatMap_assoc, List.flatMap_congr fun c _ => encodeCodePoint_eq c]
  exact eq_comm

theorem encodeURIComponent_inj {s s' t : Utf16} (h : encodeURIComponent s = some t) (h' : encodeURIComponent s' = some t) : s = s' := by
  obtain ⟨cs, hs, rfl⟩ := encodeURIComponent_eq_some.1 h
  obtain ⟨cs', hs', ht⟩ := encodeURIComponent_eq_some.1 h'
  obtain ⟨rfl, hlt⟩ := codePoints_spec hs
  obtain ⟨rfl, hlt'⟩ := codePoints_spec hs'
  have hoctets {cs : List Nat} (h : ∀ c ∈ cs, c < 0x110000) : ∀ b ∈ cs.flatMap utf8, b < 0x100 := fun b hb =>
    have ⟨c, hc, hb⟩ := List.mem_flatMap.1 hb
    utf8_lt (h c hc) b hb
  have hbytes := octet_prefixCode.flatMap_inj octet_ne_nil (hoctets hlt) (hoctets hlt') ht
  rw [utf8_prefixCode.flatMap_inj utf8_ne_nil hlt hlt' hbytes]

theorem encodeURIComponent_alphabet {s t : Utf16} (h : encodeURIComponent s = some t) : ∀ u ∈ t, isUnescaped u.toNat = true ∨ u = 0x25 := by
  have hhex : ∀ n : Fin 16, isUnescaped (hexDigit n).toNat = true := by decide
  obtain ⟨cs, hs, rfl⟩ := encodeURIComponent_eq_some.1 h
  intro u hu
  obtain ⟨b, hb, hu⟩ := List.mem_flatMap.1 hu
  obtain ⟨c, hc, hb⟩ := List.mem_flatMap.1 hb
  have hlt := utf8_lt ((codePoints_spec hs).2 c hc) b hb
  unfold octet at hu
  split at hu
  next hb =>
    rw [List.mem_singleton.1 hu, UInt16.toNat_ofNat_of_lt' (Nat.lt_trans hlt (by decide))]
    exact .inl hb
  next =>
    simp only [percentByte, List.mem_cons, List.not_mem_nil, or_false] at hu
    rcases hu with rfl | rfl | rfl
    · exact .inr rfl
    · exact .inl (hhex ⟨b / 16, by omega⟩)
    · exact .inl (hhex ⟨b % 16, by omega⟩)

theorem encodeURIComponent_notMem {s t : Utf16} (h : encodeURIComponent s = some t) {u : UInt16}
    (hu : isUnescaped u.toNat = false) (hp : u ≠ 0x25) : u ∉ t := fun hm =>
  (encodeURIComponent_alphabet h u hm).elim (fun hu' => Bool.false_ne_true (hu ▸ hu')) hp

end Fluo.Lib
