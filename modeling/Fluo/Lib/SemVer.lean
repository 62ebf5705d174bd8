import Mathlib.Data.Char
import Mathlib.Data.List.Lex
import Mathlib.Data.Prod.Lex
import Mathlib.Data.Sum.Order
import Fluo.Lib.Utf8
/-!
# Semantic versions

The grammar of a version as its syntax and the text of that, and the precedence of versions
as the order of a key. Three-way comparisons that are made one after another report the
lexicographic order.
-/

namespace Fluo.Lib

/-! ## Three-way comparisons -/

/-- A comparison that is positive, zero or negative as the left side is above, equal to or below the right one. -/
def Reports {α : Type} [LT α] (comparison : ℤ) (left right : α) : Prop :=
  (comparison = 1 ∧ right < left) ∨ (comparison = 0 ∧ left = right) ∨ (comparison = -1 ∧ left < right)

namespace Reports
variable {α β : Type} [LinearOrder α] [LinearOrder β] {comparison next : ℤ} {left right : α}

theorem pos_iff (h : Reports comparison left right) : 0 < comparison ↔ right < left := by
  rcases h with ⟨rfl, hlt⟩ | ⟨rfl, rfl⟩ | ⟨rfl, hlt⟩
  · simpa using hlt
  · simp
  · simpa using hlt.le

theorem of_compare (left right : α) {_ : Decidable (right < left)} {_ : Decidable (left < right)} :
    Reports (if right < left then 1 else if left < right then -1 else 0) left right := by
  rcases lt_trichotomy left right with h | rfl | h
  · exact .inr (.inr ⟨by rw [if_neg h.not_gt, if_pos h], h⟩)
  · exact .inr (.inl ⟨by simp, rfl⟩)
  · exact .inl ⟨if_pos h, h⟩

theorem map {f : α → β} (hf : StrictMono f) (h : Reports comparison left right) : Reports comparison (f left) (f right) :=
  h.imp (And.imp_right fun hlt => hf hlt) (Or.imp (And.imp_right (congrArg f)) (And.imp_right fun hlt => hf hlt))

theorem lex {first second : β} (h : Reports comparison left right) (hnext : left = right → Reports next first second) :
    Reports (if comparison ≠ 0 then comparison else next) (toLex (left, first)) (toLex (right, second)) := by
  unfold Reports
  rw [Prod.Lex.toLex_lt_toLex, Prod.Lex.toLex_lt_toLex, toLex_inj, Prod.mk.injEq]
  rcases h with ⟨rfl, hlt⟩ | ⟨rfl, rfl⟩ | ⟨rfl, hlt⟩
  · exact .inl ⟨rfl, .inl hlt⟩
  · exact (hnext rfl).imp (And.imp_right fun hlt => .inr ⟨rfl, hlt⟩)
      (Or.imp (And.imp_right fun heq => ⟨rfl, heq⟩) (And.imp_right fun hlt => .inr ⟨rfl, hlt⟩))
  · exact .inr (.inr ⟨rfl, .inl hlt⟩)

theorem cons {rest rest' : List α} (h : Reports comparison left right) (hnext : Reports next rest rest') :
    Reports (if comparison ≠ 0 then comparison else next) (left :: rest) (right :: rest') := by
  unfold Reports
  rw [List.cons_lt_cons_iff, List.cons_lt_cons_iff, List.cons.injEq]
  rcases h with ⟨rfl, hlt⟩ | ⟨rfl, rfl⟩ | ⟨rfl, hlt⟩
  · exact .inl ⟨rfl, .inl hlt⟩
  · exact hnext.imp (And.imp_right fun hlt => .inr ⟨rfl, hlt⟩)
      (Or.imp (And.imp_right fun heq => ⟨rfl, heq⟩) (And.imp_right fun hlt => .inr ⟨rfl, hlt⟩))
  · exact .inr (.inr ⟨rfl, .inl hlt⟩)

end Reports

/-! ## The grammar -/

namespace SemVer

def isIdentifierChar (c : Char) : Bool := c.isAlphanum || c == '-'

/-- A build identifier. -/
structure Word where
  text : Text
  nonempty : text ≠ []
  chars : ∀ c ∈ text, isIdentifierChar c = true

/-- A prerelease identifier. A numeric one is written without leading zeros, another one has a character that is no digit. -/
inductive Identifier
  | numeric (value : Nat)
  | alphanumeric (word : Word) (other : ∃ c ∈ word.text, c.isDigit = false)

structure Version where
  major : Nat
  minor : Nat
  patch : Nat
  /-- None for a normal version. -/
  prerelease : List Identifier
  /-- None without build metadata. -/
  build : List Word

def Identifier.text : Identifier → Text
  | .numeric value => Nat.toDigits 10 value
  | .alphanumeric word _ => word.text

/-- The identifiers of a part, with what introduces it. -/
def partText (mark : Char) (identifiers : List Text) : Text := if identifiers = [] then [] else mark :: ['.'].intercalate identifiers

def Version.text (version : Version) : Text :=
  Nat.toDigits 10 version.major ++ '.' :: (Nat.toDigits 10 version.minor ++ '.' :: (Nat.toDigits 10 version.patch ++
    (partText '-' (version.prerelease.map Identifier.text) ++ partText '+' (version.build.map Word.text))))

/-! ## Precedence -/

/-- Numeric identifiers are in the order of their values, and below the others, which are in the order of their characters. -/
def Identifier.key : Identifier → ℕ ⊕ₗ Text
  | .numeric value => Sum.inlₗ value
  | .alphanumeric word _ => Sum.inrₗ word.text

/-- A normal version is above its prereleases. -/
def prereleaseKey (prerelease : List Identifier) : WithTop (List (ℕ ⊕ₗ Text)) :=
  if prerelease = [] then ⊤ else (prerelease.map Identifier.key : List (ℕ ⊕ₗ Text))

def Version.key (version : Version) : ℕ ×ₗ ℕ ×ₗ ℕ ×ₗ WithTop (List (ℕ ⊕ₗ Text)) :=
  toLex (version.major, toLex (version.minor, toLex (version.patch, prereleaseKey version.prerelease)))

/-- The first version has the lower precedence. -/
def Precedes (v w : Version) : Prop := v.key < w.key

/-- The numbers of a version, those of its prerelease among them. -/
def Version.numbers (version : Version) : List Nat :=
  version.major :: version.minor :: version.patch :: version.prerelease.filterMap fun
    | .numeric value => some value
    | .alphanumeric _ _ => none

end SemVer

end Fluo.Lib
