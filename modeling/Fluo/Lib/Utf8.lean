import Fluo.Lib.Uri
/-!
# Reading UTF-8

The decoder of octets that a text is read with: an ill-formed sequence is read as a
replacement character. Texts are of scalar values. What a text is encoded to is read back,
and octets that are split are read as before where no part starts inside of a character.
-/

namespace Fluo.Lib

abbrev Text := List Char

namespace Utf8

/-- The octets of a text. -/
def encode (text : Text) : List Nat := text.flatMap fun c => utf8 c.toNat

def replacement : Char := Char.ofNat 0xFFFD

/-- A character of which the first octets have been read: how many are needed, between which bounds the next one is, and its bits so far. -/
structure Pending where
  needed : Nat
  lower : Nat := 0x80
  upper : Nat := 0xBF
  bits : Nat

inductive Reading
  | char (c : Char)
  | more (pending : Pending)
  | bad

/-- The first octet of a character. -/
def lead (b : Nat) : Reading :=
  if b < 0x80 then .char (Char.ofNat b)
  else if 0xC2 ≤ b ∧ b ≤ 0xDF then .more { needed := 1, bits := b - 0xC0 }
  else if 0xE0 ≤ b ∧ b ≤ 0xEF then
    .more { needed := 2, lower := if b = 0xE0 then 0xA0 else 0x80, upper := if b = 0xED then 0x9F else 0xBF, bits := b - 0xE0 }
  else if 0xF0 ≤ b ∧ b ≤ 0xF4 then
    .more { needed := 3, lower := if b = 0xF0 then 0x90 else 0x80, upper := if b = 0xF4 then 0x8F else 0xBF, bits := b - 0xF0 }
  else .bad

/-- The next octet of a character. -/
def Pending.next (p : Pending) (b : Nat) : Reading :=
  if p.lower ≤ b ∧ b ≤ p.upper then
    let bits := p.bits * 0x40 + (b - 0x80)
    if p.needed ≤ 1 then .char (Char.ofNat bits) else .more { needed := p.needed - 1, bits }
  else .bad

/-- What an octet adds to the text, and what is pending after it. -/
def readLead (b : Nat) : Text × Option Pending :=
  match lead b with
  | .char c => ([c], none)
  | .more p => ([], some p)
  | .bad => ([replacement], none)

def read : Option Pending → Nat → Text × Option Pending
  | none, b => readLead b
  | some p, b =>
    match p.next b with
    | .char c => ([c], none)
    | .more p => ([], some p)
    -- the octet is read again, as the first of a character
    | .bad => (replacement :: (readLead b).1, (readLead b).2)

def readAll : Option Pending → List Nat → Text × Option Pending
  | pending, [] => ([], pending)
  | pending, b :: rest =>
    let next := readAll (read pending b).2 rest
    ((read pending b).1 ++ next.1, next.2)

/-- At the end, a character of which octets are missing is ill-formed. -/
def flush : Option Pending → Text
  | none => []
  | some _ => [replacement]

def decode (octets : List Nat) : Text := (readAll none octets).1 ++ flush (readAll none octets).2

/-! ## Encoded texts -/

theorem readAll_append (pending : Option Pending) (xs ys : List Nat) : readAll pending (xs ++ ys) =
    ((readAll pending xs).1 ++ (readAll (readAll pending xs).2 ys).1, (readAll (readAll pending xs).2 ys).2) := by
  induction xs generalizing pending with
  | nil => rfl
  | cons b rest ih => simp only [List.cons_append, readAll, ih, List.append_assoc]

theorem encode_append (s t : Text) : encode (s ++ t) = encode s ++ encode t := List.flatMap_append

theorem encode_cons (c : Char) (text : Text) : encode (c :: text) = utf8 c.toNat ++ encode text := List.flatMap_cons

theorem toNat_bounds (c : Char) : c.toNat < 0xD800 ∨ 0xDFFF < c.toNat ∧ c.toNat < 0x110000 := c.valid

theorem next_mk {needed lower upper bits x : Nat} (hlower : lower ≤ 0x80 + x) (hupper : 0x80 + x ≤ upper) :
    Pending.next ⟨needed, lower, upper, bits⟩ (0x80 + x) =
      if needed ≤ 1 then .char (Char.ofNat (bits * 0x40 + x)) else .more { needed := needed - 1, bits := bits * 0x40 + x } := by
  rw [Pending.next, if_pos ⟨hlower, hupper⟩, Nat.add_sub_cancel_left]

theorem readAll_utf8 (c : Char) : readAll none (utf8 c.toNat) = ([c], none) := by
  have hc := toNat_bounds c
  unfold utf8
  split_ifs with h1 h2 h3
  · simp [readAll, read, readLead, lead, h1]
  · have hlead : lead (0xC0 + c.toNat / 0x40) = .more { needed := 1, bits := c.toNat / 0x40 } := by
      rw [lead, if_neg (by omega), if_pos (by omega), Nat.add_sub_cancel_left]
    have hbits : c.toNat / 0x40 * 0x40 + c.toNat % 0x40 = c.toNat := by omega
    simp only [readAll, read, readLead, hlead]
    rw [next_mk (by omega) (by omega), if_pos (by omega), hbits, Char.ofNat_toNat]
    rfl
  · have hlead : lead (0xE0 + c.toNat / 0x1000) = .more {
        needed := 2, lower := if 0xE0 + c.toNat / 0x1000 = 0xE0 then 0xA0 else 0x80
        upper := if 0xE0 + c.toNat / 0x1000 = 0xED then 0x9F else 0xBF, bits := c.toNat / 0x1000 } := by
      rw [lead, if_neg (by omega), if_neg (by omega), if_pos (by omega), Nat.add_sub_cancel_left]
    have hlower : (if 0xE0 + c.toNat / 0x1000 = 0xE0 then 0xA0 else 0x80) ≤ 0x80 + c.toNat / 0x40 % 0x40 := by
      split_ifs <;> omega
    have hupper : 0x80 + c.toNat / 0x40 % 0x40 ≤ (if 0xE0 + c.toNat / 0x1000 = 0xED then 0x9F else 0xBF) := by
      split_ifs <;> omega
    have hbits : (c.toNat / 0x1000 * 0x40 + c.toNat / 0x40 % 0x40) * 0x40 + c.toNat % 0x40 = c.toNat := by omega
    simp only [readAll, read, readLead, hlead]
    rw [next_mk hlower hupper, if_neg (by omega)]
    dsimp only
    rw [next_mk (by omega) (by omega), if_pos (by omega), hbits, Char.ofNat_toNat]
    rfl
  · have hlead : lead (0xF0 + c.toNat / 0x40000) = .more {
        needed := 3, lower := if 0xF0 + c.toNat / 0x40000 = 0xF0 then 0x90 else 0x80
        upper := if 0xF0 + c.toNat / 0x40000 = 0xF4 then 0x8F else 0xBF, bits := c.toNat / 0x40000 } := by
      rw [lead, if_neg (by omega), if_neg (by omega), if_neg (by omega), if_pos (by omega), Nat.add_sub_cancel_left]
    have hlower : (if 0xF0 + c.toNat / 0x40000 = 0xF0 then 0x90 else 0x80) ≤ 0x80 + c.toNat / 0x1000 % 0x40 := by
      split_ifs <;> omega
    have hupper : 0x80 + c.toNat / 0x1000 % 0x40 ≤ (if 0xF0 + c.toNat / 0x40000 = 0xF4 then 0x8F else 0xBF) := by
      split_ifs <;> omega
    have hbits : ((c.toNat / 0x40000 * 0x40 + c.toNat / 0x1000 % 0x40) * 0x40 + c.toNat / 0x40 % 0x40) * 0x40 + c.toNat % 0x40 = c.toNat := by
      omega
    simp only [readAll, read, readLead, hlead]
    rw [next_mk hlower hupper, if_neg (by omega)]
    dsimp only
    rw [next_mk (by omega) (by omega), if_neg (by omega)]
    dsimp only
    rw [next_mk (by omega) (by omega), if_pos (by omega), hbits, Char.ofNat_toNat]
    rfl

theorem readAll_encode (text : Text) : readAll none (encode text) = (text, none) := by
  induction text with
  | nil => rfl
  | cons c text ih => rw [encode_cons, readAll_append, readAll_utf8, ih, List.singleton_append]

theorem decode_encode (text : Text) : decode (encode text) = text := by
  rw [decode, readAll_encode, flush, List.append_nil]

theorem read_spec (pending : Option Pending) (b : Nat) : (read pending b).1 ≠ [] ∨ (read pending b).2.isSome = true := by
  have hlead : (readLead b).1 ≠ [] ∨ (readLead b).2.isSome = true := by
    unfold readLead
    split
    · exact .inl (List.cons_ne_nil _ _)
    · exact .inr rfl
    · exact .inl (List.cons_ne_nil _ _)
  unfold read
  split
  · exact hlead
  · split
    · exact .inl (List.cons_ne_nil _ _)
    · exact .inr rfl
    · exact .inl (List.cons_ne_nil _ _)

theorem readAll_spec {pending : Option Pending} {octets : List Nat} (h : octets ≠ []) :
    (readAll pending octets).1 ≠ [] ∨ (readAll pending octets).2.isSome = true := by
  induction octets generalizing pending with
  | nil => exact absurd rfl h
  | cons b rest ih =>
    rw [readAll]
    by_cases hrest : rest = []
    · subst hrest
      simpa [readAll] using read_spec pending b
    · exact (ih hrest).imp_left (List.append_ne_nil_of_right_ne_nil _)

theorem decode_ne_nil {octets : List Nat} (h : octets ≠ []) : decode octets ≠ [] := by
  intro hnil
  obtain ⟨hread, hflush⟩ := List.append_eq_nil_iff.1 hnil
  rcases readAll_spec h with hne | hpending
  · exact hne hread
  · obtain ⟨pending, hpending⟩ := Option.isSome_iff_exists.1 hpending
    rw [hpending] at hflush
    cases hflush

theorem flatten_map_encode (texts : List Text) : (texts.map encode).flatten = encode texts.flatten := by
  induction texts with
  | nil => rfl
  | cons text rest ih => rw [List.map_cons, List.flatten_cons, ih, List.flatten_cons, encode_append]

theorem flatMap_decode_map (texts : List Text) : (texts.map encode).flatMap decode = texts.flatten := by
  rw [List.flatMap_map, List.flatMap_congr fun text _ => decode_encode text]
  exact List.flatMap_id'

/-! ## Octets in chunks -/

/-- An octet that no character begins with. -/
def IsTail (b : Nat) : Prop := 0x80 ≤ b ∧ b < 0xC0

instance (b : Nat) : Decidable (IsTail b) := inferInstanceAs (Decidable (_ ∧ _))

/-- The chunk begins inside of a character. -/
def StartsInside (chunk : List Nat) : Prop := ∃ b ∈ chunk.head?, IsTail b

instance (chunk : List Nat) : Decidable (StartsInside chunk) := inferInstanceAs (Decidable (∃ b ∈ chunk.head?, IsTail b))

/-- How a character is read: as it is, or, where it is split, as replacement characters. -/
def Reads (c : Char) (text : Text) : Prop := text = [c] ∨ 0x80 ≤ c.toNat ∧ 2 ≤ text.length ∧ ∀ x ∈ text, x = replacement

theorem utf8_spec (c : Char) : ∃ b rest, utf8 c.toNat = b :: rest ∧ ¬ IsTail b ∧ (∀ t ∈ rest, IsTail t) ∧ (rest ≠ [] → 0x80 ≤ c.toNat) := by
  have hc := toNat_bounds c
  unfold utf8 IsTail
  split_ifs with h1 h2 h3
  · exact ⟨_, _, rfl, by omega, by simp, fun h => absurd rfl h⟩
  · exact ⟨_, _, rfl, by omega, by simp only [List.mem_cons, List.not_mem_nil, or_false, forall_eq]; omega, fun _ => by omega⟩
  · refine ⟨_, _, rfl, by omega, ?_, fun _ => by omega⟩
    simp only [List.mem_cons, List.not_mem_nil, or_false, forall_eq_or_imp, forall_eq]
    omega
  · refine ⟨_, _, rfl, by omega, ?_, fun _ => by omega⟩
    simp only [List.mem_cons, List.not_mem_nil, or_false, forall_eq_or_imp, forall_eq]
    omega

theorem decode_utf8_append (c : Char) (octets : List Nat) : decode (utf8 c.toNat ++ octets) = c :: decode octets := by
  rw [decode, readAll_append, readAll_utf8]
  rfl

theorem decode_tails {tails : List Nat} (h : ∀ t ∈ tails, IsTail t) (octets : List Nat) :
    decode (tails ++ octets) = List.replicate tails.length replacement ++ decode octets := by
  induction tails with
  | nil => rfl
  | cons t rest ih =>
    have ht := h t List.mem_cons_self
    unfold IsTail at ht
    have hlead : lead t = .bad := by
      rw [lead, if_neg (by omega), if_neg (by omega), if_neg (by omega), if_neg (by omega)]
    have hcons (octets : List Nat) : decode (t :: octets) = replacement :: decode octets := by
      rw [decode, readAll, read, readLead, hlead]
      rfl
    rw [List.cons_append, hcons, ih fun t hmem => h t (List.mem_cons_of_mem _ hmem)]
    rfl

theorem decode_part {c : Char} {part rest : List Nat} (h : part ++ rest = utf8 c.toNat) (hpart : part ≠ []) (hrest : rest ≠ []) :
    decode part = [replacement] := by
  have hread := readAll_utf8 c
  rw [← h, readAll_append, Prod.mk.injEq] at hread
  obtain ⟨htext, hend⟩ := hread
  -- what reads the rest emits the character, as nothing is pending after it
  have hlater : (readAll (readAll none part).2 rest).1 ≠ [] := (readAll_spec hrest).resolve_right (by simp [hend])
  have hnone : (readAll none part).1 = [] := by
    have hlength := congrArg List.length htext
    have hpos := List.length_pos_iff.2 hlater
    rw [List.length_append, List.length_singleton] at hlength
    exact List.eq_nil_of_length_eq_zero (by omega)
  have hlast : (readAll none part).2.isSome = true := (readAll_spec hpart).resolve_left (fun hne => hne hnone)
  obtain ⟨pending, hpending⟩ := Option.isSome_iff_exists.1 hlast
  rw [decode, hnone, hpending]
  rfl

theorem exists_chunk_of_flatten {chunks : List (List Nat)} {xs ys : List Nat} (h : chunks.flatten = xs ++ ys) (hne : xs ≠ []) :
    ∃ pieces x y tail, chunks = pieces ++ (x ++ y) :: tail ∧ pieces.flatten ++ x = xs ∧ x ≠ [] ∧ y ++ tail.flatten = ys := by
  induction chunks generalizing xs with
  | nil => exact absurd (List.append_eq_nil_iff.1 h.symm).1 hne
  | cons chunk rest ih =>
    rw [List.flatten_cons] at h
    rcases List.append_eq_append_iff.1 h with ⟨more, rfl, hmore⟩ | ⟨more, rfl, hmore⟩
    · by_cases hnil : more = []
      · subst hnil
        rw [List.append_nil] at hne ⊢
        exact ⟨[], chunk, [], rest, by simp, by simp, hne, by simpa using hmore⟩
      · obtain ⟨pieces, x, y, tail, rfl, hx, hxne, hy⟩ := ih hmore hnil
        exact ⟨chunk :: pieces, x, y, tail, rfl, by rw [List.flatten_cons, List.append_assoc, hx], hxne, hy⟩
    · exact ⟨[], xs, more, rest, rfl, rfl, hne, hmore.symm⟩

theorem decode_pieces {c : Char} {pieces : List (List Nat)} {x : List Nat} (h : pieces.flatten ++ x = utf8 c.toNat) (hx : x ≠ [])
    (hne : pieces.flatten ≠ []) : pieces.flatMap decode ≠ [] ∧ ∀ z ∈ pieces.flatMap decode, z = replacement := by
  induction pieces with
  | nil => exact absurd rfl hne
  | cons piece rest ih =>
    rw [List.flatMap_cons]
    by_cases hpiece : piece = []
    · subst hpiece
      exact ih h hne
    · rw [List.flatten_cons, List.append_assoc] at h
      rw [decode_part h hpiece (List.append_ne_nil_of_right_ne_nil _ hx)]
      refine ⟨List.cons_ne_nil _ _, fun z hz => ?_⟩
      rcases List.mem_cons.1 hz with rfl | hz
      · rfl
      · obtain ⟨part, hpart, hz⟩ := List.mem_flatMap.1 hz
        obtain ⟨b, tails, hutf8, -, htails, -⟩ := utf8_spec c
        obtain ⟨first, more, rfl⟩ := List.exists_cons_of_ne_nil hpiece
        rw [hutf8, List.cons_append, List.cons.injEq] at h
        have hall : ∀ t ∈ part, IsTail t := fun t ht => htails t (by
          rw [← h.2]
          exact List.mem_append_right _ (List.mem_append_left _ (List.mem_flatten.2 ⟨part, hpart, ht⟩)))
        have hdecode := decode_tails hall []
        rw [List.append_nil] at hdecode
        rw [hdecode] at hz
        simpa [decode, readAll, flush] using List.eq_of_mem_replicate ((List.mem_append.1 hz).resolve_right (by simp [decode, readAll, flush]))

theorem reads_chunks {text : Text} {chunks : List (List Nat)} (h : chunks.flatten = encode text) :
    ∃ parts, List.Forall₂ Reads text parts ∧ chunks.flatMap decode = parts.flatten ∧
      ((∃ chunk ∈ chunks, StartsInside chunk) → ∃ part ∈ parts, 2 ≤ part.length) := by
  induction text generalizing chunks with
  | nil =>
    have hall : ∀ chunk ∈ chunks, chunk = [] := List.flatten_eq_nil_iff.1 h
    refine ⟨[], .nil, List.flatMap_eq_nil_iff.2 fun chunk hmem => ?_, ?_⟩
    · rw [hall chunk hmem]
      rfl
    · rintro ⟨chunk, hmem, b, hb, -⟩
      rw [hall chunk hmem] at hb
      cases hb
  | cons c text ih =>
    obtain ⟨pieces, x, y, tail, rfl, hx, hxne, hy⟩ := exists_chunk_of_flatten (h.trans (encode_cons c text)) (utf8_ne_nil _)
    have hflatten : (y :: tail).flatten = encode text := by rw [List.flatten_cons, hy]
    obtain ⟨parts, hparts, hdecode, hinside⟩ := ih hflatten
    have htail (hchunk : ∃ chunk ∈ tail, StartsInside chunk) : ∃ part ∈ parts, 2 ≤ part.length :=
      hinside (hchunk.imp fun chunk h => ⟨List.mem_cons_of_mem _ h.1, h.2⟩)
    obtain ⟨first, rest, hutf8, hfirst, hrest, hlow⟩ := utf8_spec c
    by_cases hpieces : pieces.flatten = []
    · rw [hpieces, List.nil_append] at hx
      have hall : ∀ piece ∈ pieces, piece = [] := List.flatten_eq_nil_iff.1 hpieces
      refine ⟨[c] :: parts, .cons (.inl rfl) hparts, ?_, ?_⟩
      · have hnil : pieces.flatMap decode = [] := List.flatMap_eq_nil_iff.2 fun piece hmem => by
          rw [hall piece hmem]
          rfl
        rw [List.flatMap_append, hnil, List.nil_append, List.flatMap_cons, hx, decode_utf8_append, List.flatten_cons, ← hdecode, List.flatMap_cons]
        rfl
      · rintro ⟨chunk, hmem, hchunk⟩
        rcases List.mem_append.1 hmem with hmem | hmem
        · obtain ⟨b, hb, -⟩ := hchunk
          rw [hall chunk hmem] at hb
          cases hb
        · rcases List.mem_cons.1 hmem with rfl | hmem
          · obtain ⟨b, hb, hbtail⟩ := hchunk
            rw [hx, hutf8] at hb
            cases hb
            exact absurd hbtail hfirst
          · obtain ⟨part, hpart, hlength⟩ := htail ⟨chunk, hmem, hchunk⟩
            exact ⟨part, List.mem_cons_of_mem _ hpart, hlength⟩
    · obtain ⟨hne, hall⟩ := decode_pieces hx hxne hpieces
      have htails : ∀ t ∈ x, IsTail t := by
        obtain ⟨b, more, hmore⟩ := List.exists_cons_of_ne_nil hpieces
        rw [hmore, hutf8, List.cons_append, List.cons.injEq] at hx
        exact fun t ht => hrest t (by rw [← hx.2]; exact List.mem_append_right _ ht)
      have hread : Reads c (pieces.flatMap decode ++ List.replicate x.length replacement) := by
        refine .inr ⟨hlow ?_, ?_, ?_⟩
        · rintro rfl
          have hlength := congrArg List.length hx
          have := List.length_pos_iff.2 hpieces
          have := List.length_pos_iff.2 hxne
          rw [hutf8, List.length_append, List.length_singleton] at hlength
          omega
        · have := List.length_pos_iff.2 hne
          have := List.length_pos_iff.2 hxne
          rw [List.length_append, List.length_replicate]
          omega
        · intro z hz
          rcases List.mem_append.1 hz with hz | hz
          · exact hall z hz
          · exact List.eq_of_mem_replicate hz
      refine ⟨_ :: parts, .cons hread hparts, ?_, fun _ => ⟨_, List.mem_cons_self, ?_⟩⟩
      · rw [List.flatMap_append, List.flatMap_cons, decode_tails htails, List.flatten_cons, ← hdecode, List.flatMap_cons]
        simp only [List.append_assoc]
      · have := List.length_pos_iff.2 hne
        have := List.length_pos_iff.2 hxne
        rw [List.length_append, List.length_replicate]
        omega

theorem length_le_of_reads {text : Text} {parts : List Text} (h : List.Forall₂ Reads text parts) : text.length ≤ parts.flatten.length ∧
    ((∃ part ∈ parts, 2 ≤ part.length) → text.length < parts.flatten.length) := by
  induction h with
  | nil => exact ⟨Nat.le_refl _, fun ⟨part, hmem, _⟩ => absurd hmem List.not_mem_nil⟩
  | @cons c part text parts hread _ ih =>
    have hpos : 1 ≤ part.length := by
      rcases hread with rfl | ⟨-, hlength, -⟩
      · exact Nat.le_refl _
      · omega
    rw [List.flatten_cons, List.length_append, List.length_cons]
    refine ⟨by omega, ?_⟩
    rintro ⟨long, hmem, hlength⟩
    rcases List.mem_cons.1 hmem with rfl | hmem
    · omega
    · have := ih.2 ⟨long, hmem, hlength⟩
      omega

theorem encode_cut {text : Text} {xs ys : List Nat} (h : xs ++ ys = encode text) (hys : ¬ StartsInside ys) :
    ∃ s t, text = s ++ t ∧ xs = encode s ∧ ys = encode t := by
  induction text generalizing xs with
  | nil =>
    obtain ⟨rfl, rfl⟩ := List.append_eq_nil_iff.1 h
    exact ⟨[], [], rfl, rfl, rfl⟩
  | cons c text ih =>
    by_cases hxs : xs = []
    · subst hxs
      exact ⟨[], c :: text, rfl, rfl, h⟩
    · rw [encode_cons] at h
      rcases List.append_eq_append_iff.1 h with ⟨more, hmore, rfl⟩ | ⟨more, rfl, hmore⟩
      · by_cases hnil : more = []
        · subst hnil
          rw [List.append_nil] at hmore
          exact ⟨[c], text, rfl, by rw [← hmore, encode_cons]; exact (List.append_nil _).symm, rfl⟩
        · obtain ⟨first, rest, hutf8, -, hrest, -⟩ := utf8_spec c
          obtain ⟨b, xs, rfl⟩ := List.exists_cons_of_ne_nil hxs
          obtain ⟨b', more, rfl⟩ := List.exists_cons_of_ne_nil hnil
          rw [hutf8, List.cons_append, List.cons.injEq] at hmore
          exact absurd ⟨b', rfl, hrest b' (by rw [hmore.2]; exact List.mem_append_right _ List.mem_cons_self)⟩ hys
      · obtain ⟨s, t, rfl, rfl, rfl⟩ := ih hmore.symm
        exact ⟨c :: s, t, rfl, by rw [encode_cons], rfl⟩

theorem exists_texts {text : Text} {chunks : List (List Nat)} (h : chunks.flatten = encode text) (hchunks : ∀ chunk ∈ chunks, ¬ StartsInside chunk) :
    ∃ texts : List Text, chunks = texts.map encode ∧ texts.flatten = text := by
  induction chunks generalizing text with
  | nil =>
    have hnil := readAll_encode text
    rw [← h] at hnil
    exact ⟨[], rfl, (Prod.mk.inj hnil).1⟩
  | cons chunk rest ih =>
    have hrest : ∀ chunk ∈ rest, ¬ StartsInside chunk := fun chunk hmem => hchunks chunk (List.mem_cons_of_mem _ hmem)
    have hflatten : ¬ StartsInside rest.flatten := by
      clear h ih hchunks
      induction rest with
      | nil =>
        rintro ⟨b, hb, -⟩
        cases hb
      | cons next rest ih =>
        cases next with
        | nil => exact ih fun chunk hmem => hrest chunk (List.mem_cons_of_mem _ hmem)
        | cons b more => exact hrest (b :: more) List.mem_cons_self
    obtain ⟨s, t, rfl, rfl, ht⟩ := encode_cut h hflatten
    obtain ⟨texts, rfl, rfl⟩ := ih ht hrest
    exact ⟨s :: texts, rfl, rfl⟩

theorem flatMap_decode_eq_iff {text : Text} {chunks : List (List Nat)} (h : chunks.flatten = encode text) :
    chunks.flatMap decode = text ↔ ∀ chunk ∈ chunks, ¬ StartsInside chunk := by
  constructor
  · intro heq chunk hmem hinside
    obtain ⟨parts, hparts, hdecode, hsplit⟩ := reads_chunks h
    have hlength := (length_le_of_reads hparts).2 (hsplit ⟨chunk, hmem, hinside⟩)
    rw [← hdecode, heq] at hlength
    exact Nat.lt_irrefl _ hlength
  · intro hchunks
    obtain ⟨texts, rfl, rfl⟩ := exists_texts h hchunks
    exact flatMap_decode_map texts

end Utf8
end Fluo.Lib
