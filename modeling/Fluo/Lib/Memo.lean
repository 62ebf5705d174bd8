import Mathlib.Data.List.Basic
/-!
# Memo tables

A computation over a state of memo tables answers `a` when, from every state
that meets the invariant of the tables, it returns `a` and keeps the invariant.
The entries of a table carry the revision they were computed at. Revisions are
strings: the numbers of a chain of owners, joined by a slash.
-/

namespace Fluo.Lib

variable {σ α β : Type}

/-! ## Answers -/

def Answers (I : σ → Prop) (m : StateM σ α) (a : α) : Prop := ∀ s, I s → (m.run s).run.1 = a ∧ I (m.run s).run.2

namespace Answers
variable {I : σ → Prop} {m : StateM σ α} {a : α}

theorem pure (a : α) : Answers I (Pure.pure a) a := fun _ h => ⟨rfl, h⟩

theorem bind {f : α → StateM σ β} {b : β} (h : Answers I m a) (hf : Answers I (f a) b) : Answers I (m >>= f) b := by
  intro s hs
  obtain ⟨ha, hi⟩ := h s hs
  have hb := hf _ hi
  rw [← ha] at hb
  exact hb

theorem anyM {p : α → StateM σ Bool} {q : α → Bool} {l : List α} (h : ∀ x ∈ l, Answers I (p x) (q x)) :
    Answers I (l.anyM p) (l.any q) := by
  induction l with
  | nil => exact .pure false
  | cons x rest ih =>
    obtain ⟨hx, hrest⟩ := List.forall_mem_cons.1 h
    refine hx.bind ?_
    rw [List.any_cons]
    cases q x with
    | true => exact .pure true
    | false => exact ih hrest

end Answers

/-- Return the entry that `read` finds, or compute the value and `write` it. -/
def memo (read : σ → Option α) (write : α → σ → σ) (m : StateM σ α) : StateM σ α := fun s =>
  match read s with
  | some a => (a, s)
  | none => ((m.run s).run.1, write (m.run s).run.1 (m.run s).run.2)

theorem Answers.memo {I : σ → Prop} {read : σ → Option α} {write : α → σ → σ} {m : StateM σ α} {a : α}
    (hread : ∀ s b, I s → read s = some b → b = a) (hwrite : ∀ s, I s → I (write a s)) (h : Answers I m a) :
    Answers I (Lib.memo read write m) a := by
  intro s hs
  unfold Lib.memo
  cases hr : read s with
  | some b =>
    have hb := hread s b hs hr
    simp only [StateT.run, Id.run, hr]
    exact ⟨hb, hs⟩
  | none =>
    obtain ⟨ha, hi⟩ := h s hs
    simp only [StateT.run, Id.run] at ha hi ⊢
    simp only [hr, ha]
    exact ⟨trivial, hwrite _ hi⟩

/-! ## Revisions -/

theorem toDigits_injective {m n : Nat} (h : Nat.toDigits 10 m = Nat.toDigits 10 n) : m = n := by
  induction m using Nat.strongRecOn generalizing n with
  | ind m ih =>
    have hchar : ∀ {a b : Nat}, a < 10 → b < 10 → a.digitChar = b.digitChar → a = b := by
      intro a b ha hb hab
      have := congrArg Char.toNat hab
      rw [Nat.toNat_digitChar_of_lt_ten ha, Nat.toNat_digitChar_of_lt_ten hb] at this
      omega
    have hm := @Nat.toDigits_eq_if 10 m (by decide)
    have hn := @Nat.toDigits_eq_if 10 n (by decide)
    rw [h] at hm
    rw [hm] at hn
    split at hn <;> split at hn
    · simp only [List.cons.injEq, and_true] at hn
      exact hchar ‹_› ‹_› hn
    · have := congrArg List.length hn
      simp [Nat.toDigits_ne_nil] at this
    · have := congrArg List.length hn
      simp [Nat.toDigits_ne_nil] at this
    · obtain ⟨hdiv, hmod⟩ := List.append_inj' hn rfl
      have := ih (m / 10) (Nat.div_lt_self (by omega) (by decide)) hdiv
      have := hchar (Nat.mod_lt m (by decide)) (Nat.mod_lt n (by decide)) (List.singleton_inj.1 hmod)
      omega

/-- The revision of an owner whose chain of owners, itself first, has the given revision numbers. -/
def revision : List Nat → String
  | [] => ""
  | [n] => toString n
  | n :: owners => revision owners ++ "/" ++ toString n

theorem slash_notMem (n : Nat) : '/' ∉ (toString n).toList := by
  intro h
  rw [Nat.toString_eq_repr, Nat.toList_repr] at h
  exact absurd (Nat.isDigit_of_mem_toDigits (by decide) (by decide) h) (by decide)

theorem toString_injective {m n : Nat} (h : (toString m).toList = (toString n).toList) : m = n := by
  rw [Nat.toString_eq_repr, Nat.toString_eq_repr, Nat.toList_repr, Nat.toList_repr] at h
  exact toDigits_injective h

theorem revision_injective : ∀ {l l' : List Nat}, l.length = l'.length → revision l = revision l' → l = l'
  | [], [], _, _ => rfl
  | [m], [n], _, h => by rw [toString_injective (congrArg String.toList h)]
  | m :: m' :: l, n :: n' :: l', hlen, h => by
    have hlist := congrArg (fun s => s.toList.reverse) h
    simp only [revision, String.toList_append, List.reverse_append] at hlist
    have hslash : ("/" : String).toList.reverse = ['/'] := rfl
    rw [hslash, List.singleton_append, List.singleton_append] at hlist
    -- the last number stands behind the last slash
    have hhead := congrArg (List.splitOn '/') hlist
    rw [List.splitOn_append_cons_self_of_not_mem (by simpa using slash_notMem m),
      List.splitOn_append_cons_self_of_not_mem (by simpa using slash_notMem n), List.cons.injEq] at hhead
    have hmn : m = n := toString_injective (List.reverse_injective hhead.1)
    subst hmn
    have htail := (List.cons.inj (List.append_cancel_left hlist)).2
    rw [revision_injective (Nat.succ.inj hlen) (String.toList_injective (List.reverse_injective htail))]

/-- An entry of a memo table. -/
structure Plan (α : Type) where
  revision : String
  value : α

variable {κ : Type} {owners : List κ}

/-- The entry was computed at an earlier revision of the owners, or at this one
and then its value meets `P`. -/
def Recorded (P : α → Prop) (owners : List κ) (now : κ → Nat) (plan : Plan α) : Prop :=
  ∃ old : κ → Nat, plan.revision = revision (owners.map old) ∧ (∀ c ∈ owners, old c ≤ now c) ∧
    ((∀ c ∈ owners, old c = now c) → P plan.value)

namespace Recorded
variable {P P' : α → Prop} {now now' : κ → Nat} {plan : Plan α}

theorem write {a : α} (h : P a) : Recorded P owners now ⟨revision (owners.map now), a⟩ :=
  ⟨now, rfl, fun _ _ => Nat.le_refl _, fun _ => h⟩

theorem read (h : Recorded P owners now plan) (hr : plan.revision = revision (owners.map now)) : P plan.value := by
  obtain ⟨old, ho, _, hp⟩ := h
  have heq := revision_injective (by simp) (ho.symm.trans hr)
  exact hp fun c hc => List.map_inj_left.1 heq c hc

theorem keep (h : Recorded P owners now plan) (hn : ∀ c ∈ owners, now' c = now c) (hp : ∀ a, P a → P' a) :
    Recorded P' owners now' plan := by
  obtain ⟨old, ho, hle, hold⟩ := h
  exact ⟨old, ho, fun c hc => by rw [hn c hc]; exact hle c hc, fun he => hp _ (hold fun c hc => (he c hc).trans (hn c hc))⟩

theorem advance (h : Recorded P owners now plan) (hn : ∀ c ∈ owners, now c ≤ now' c) {c : κ} (hc : c ∈ owners) (hlt : now c < now' c) :
    Recorded P' owners now' plan := by
  obtain ⟨old, ho, hle, _⟩ := h
  refine ⟨old, ho, fun d hd => Nat.le_trans (hle d hd) (hn d hd), fun he => ?_⟩
  have := hle c hc
  rw [he c hc] at this
  exact absurd hlt (Nat.not_lt.2 this)

end Recorded

end Fluo.Lib
