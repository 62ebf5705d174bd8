import Mathlib.Data.Char
import Mathlib.Order.Lattice
import Mathlib.Data.List.Infix
import Fluo.Lib.Utf8
/-!
# Glob patterns

Patterns in which `*` stands for any text, `?` for one character and brackets for one of a set,
with `\` before a character that stands for itself.
-/

namespace Fluo.Lib.Glob

inductive Token
  | any
  | one
  | char (c : Char)
  | set (negated : Bool) (ranges : List (Char × Char))

/-- The tokens of a pattern, inside of a set with its ranges so far. A set that is not closed ends with the pattern. -/
def tokens : Option (Bool × List (Char × Char)) → Text → List Token
  | none, [] => []
  | some (negated, ranges), [] => [.set negated ranges]
  | none, '\\' :: c :: rest => .char c :: tokens none rest
  | none, '*' :: rest => .any :: tokens none rest
  | none, '?' :: rest => .one :: tokens none rest
  | none, '[' :: '^' :: rest => tokens (some (true, [])) rest
  | none, '[' :: rest => tokens (some (false, [])) rest
  | none, c :: rest => .char c :: tokens none rest
  | some (negated, ranges), '\\' :: c :: rest => tokens (some (negated, ranges ++ [(c, c)])) rest
  | some (negated, ranges), ']' :: rest => .set negated ranges :: tokens none rest
  | some (negated, ranges), first :: '-' :: last :: rest => tokens (some (negated, ranges ++ [(min first last, max first last)])) rest
  | some (negated, ranges), c :: rest => tokens (some (negated, ranges ++ [(c, c)])) rest

def matchTokens : List Token → Text → Bool
  | [], text => text.isEmpty
  | .any :: pattern, text => text.tails.any (matchTokens pattern)
  | _ :: _, [] => false
  | .one :: pattern, _ :: rest => matchTokens pattern rest
  | .char c :: pattern, first :: rest => first == c && matchTokens pattern rest
  | .set negated ranges :: pattern, first :: rest =>
    (ranges.any fun range => range.1 ≤ first && first ≤ range.2) != negated && matchTokens pattern rest

def globMatches (pattern text : Text) : Bool := matchTokens (tokens none pattern) text

def specials : List Char := ['*', '?', '[', '\\']

theorem tokens_cons_of_notMem {c : Char} (h : c ∉ specials) (rest : Text) : tokens none (c :: rest) = .char c :: tokens none rest := by
  simp only [specials, List.mem_cons, List.not_mem_nil, or_false, not_or] at h
  exact tokens.eq_8 c rest (by simp [h]) (by simp [h]) (by simp [h]) (by simp [h]) (by simp [h])

theorem globMatches_literal {literal : Text} (h : ∀ c ∈ literal, c ∉ specials) (text : Text) :
    globMatches (literal ++ ['*']) text = true ↔ literal <+: text := by
  unfold globMatches
  induction literal generalizing text with
  | nil =>
    refine iff_of_true (List.any_eq_true.2 ⟨[], ?_, rfl⟩) List.nil_prefix
    exact (List.mem_tails _ _).2 List.nil_suffix
  | cons c literal ih =>
    obtain ⟨hfirst, hrest⟩ := List.forall_mem_cons.1 h
    rw [List.cons_append, tokens_cons_of_notMem hfirst]
    cases text with
    | nil => simp [matchTokens]
    | cons first rest =>
      rw [matchTokens, Bool.and_eq_true, beq_iff_eq, ih hrest, List.cons_prefix_cons, eq_comm]

example : globMatches "[x]:*".toList "x:k".toList = true := by decide

end Fluo.Lib.Glob
