import Fluo.Lib.OrderedMap
/-!
# The last of each key

Of a list, the entries that are all kept and, of the others, the last with each
key: by recursion, and as a scan that keeps an index for each key.
-/

namespace Fluo.Lib

variable {α β κ : Type} [DecidableEq κ] (key : α → κ) (keep : α → Bool)

/-- An entry is replaced by a later one with its key. -/
def replacedIn (a : α) (rest : List α) : Bool := rest.any fun b => !keep b && decide (key b = key a)

def latest : List α → List α
  | [] => []
  | a :: rest => if keep a || !replacedIn key keep a rest then a :: latest rest else latest rest

variable {key keep}

attribute [local simp] latest in
theorem latest_sublist (xs : List α) : (latest key keep xs).Sublist xs := by
  induction xs with
  | nil => exact .slnil
  | cons a rest ih =>
    rw [latest]
    split
    · exact ih.cons_cons a
    · exact ih.cons a

theorem latest_map (f : β → α) (xs : List β) : latest key keep (xs.map f) = (latest (key ∘ f) (keep ∘ f) xs).map f := by
  induction xs with
  | nil => rfl
  | cons b rest ih =>
    have hreplaced : replacedIn key keep (f b) (rest.map f) = replacedIn (key ∘ f) (keep ∘ f) b rest := by
      simp [replacedIn, Function.comp_def]
    rw [List.map_cons, latest, latest, ih, hreplaced]
    simp only [Function.comp_apply]
    split <;> rfl

theorem filter_latest_keep (k : κ) (xs : List α) :
    (latest key keep xs).filter (fun a => keep a && decide (key a = k)) = xs.filter fun a => keep a && decide (key a = k) := by
  induction xs with
  | nil => rfl
  | cons a rest ih =>
    rw [latest]
    cases ha : keep a <;> simp only [Bool.true_or, Bool.false_or, if_true]
    · split <;> simp [ha, ih]
    · simp [List.filter_cons, ha, ih]

theorem filter_latest_others (k : κ) (xs : List α) :
    (latest key keep xs).filter (fun a => !keep a && decide (key a = k)) =
      (xs.filter fun a => !keep a && decide (key a = k)).getLast?.toList := by
  induction xs with
  | nil => rfl
  | cons a rest ih =>
    rw [latest]
    by_cases ha : !keep a && decide (key a = k)
    · obtain ⟨hkeep, hkey⟩ : keep a = false ∧ key a = k := by simpa using ha
      have hreplaced : replacedIn key keep a rest = (rest.filter fun a => !keep a && decide (key a = k)).any fun _ => true := by
        rw [replacedIn, hkey, List.any_filter]
        simp
      rw [List.filter_cons_of_pos (by simpa using ha), hkeep, hreplaced]
      cases hrest : rest.filter fun a => !keep a && decide (key a = k) with
      | nil => simp [hkeep, hkey, ih, hrest]
      | cons b others => simp [ih, hrest]
    · have hskip (l : List α) : (a :: l).filter (fun a => !keep a && decide (key a = k)) = l.filter fun a => !keep a && decide (key a = k) :=
        List.filter_cons_of_neg ha
      rw [hskip]
      split
      · rw [hskip, ih]
      · exact ih

/-- What a scan knows of the entries it has seen: the index of the last with each key. -/
structure Indexed (indexes : OrderedMap κ Nat) (done : List α) : Prop where
  keyed : indexes.Keyed
  mem k i : (k, i) ∈ indexes ↔ ∃ a, done[i]? = some a ∧ keep a = false ∧ key a = k ∧ replacedIn key keep a (done.drop (i + 1)) = false

theorem Indexed.nil : @Indexed _ _ _ key keep [] [] := ⟨by simp [OrderedMap.Keyed], by simp⟩

theorem Indexed.concat {indexes : OrderedMap κ Nat} {done : List α} (h : @Indexed _ _ _ key keep indexes done) (a : α) :
    @Indexed _ _ _ key keep (if keep a then indexes else indexes.set (key a) done.length) (done ++ [a]) := by
  have hsplit (i) (b) : (done ++ [a])[i]? = some b ↔ (i < done.length ∧ done[i]? = some b) ∨ (i = done.length ∧ a = b) := by
    rcases Nat.lt_trichotomy i done.length with hi | rfl | hi
    · simp [List.getElem?_append_left hi, hi, Nat.ne_of_lt hi]
    · simp
    · simp only [List.getElem?_append_right (Nat.le_of_lt hi)]
      have hne : i - done.length ≠ 0 := by omega
      simp [hne, Nat.not_lt_of_lt hi, Nat.ne_of_gt hi]
  have hdrop (i) (hi : i < done.length) (b) : replacedIn key keep b ((done ++ [a]).drop (i + 1)) =
      (replacedIn key keep b (done.drop (i + 1)) || (!keep a && decide (key a = key b))) := by
    rw [List.drop_append_of_le_length hi, replacedIn, replacedIn, List.any_append]
    simp
  have hlast (b) : replacedIn key keep b ((done ++ [a]).drop (done.length + 1)) = false := by simp [replacedIn]
  cases ha : keep a with
  | true =>
    refine ⟨h.keyed, fun k i => ?_⟩
    rw [if_pos rfl, h.mem]
    constructor
    · rintro ⟨b, hb, hkeep, hkey, hrest⟩
      have hi : i < done.length := (List.getElem?_eq_some_iff.1 hb).1
      exact ⟨b, (hsplit i b).2 (.inl ⟨hi, hb⟩), hkeep, hkey, by simp [hdrop i hi, hrest, ha]⟩
    · rintro ⟨b, hb, hkeep, hkey, hrest⟩
      rcases (hsplit i b).1 hb with ⟨hi, hb⟩ | ⟨_, rfl⟩
      · exact ⟨b, hb, hkeep, hkey, by simpa [hdrop i hi, ha] using hrest⟩
      · simp [ha] at hkeep
  | false =>
    refine ⟨h.keyed.set _ _, fun k i => ?_⟩
    rw [if_neg (by simp), OrderedMap.mem_set h.keyed, h.mem]
    constructor
    · rintro (⟨rfl, rfl⟩ | ⟨hne, b, hb, hkeep, hkey, hrest⟩)
      · exact ⟨a, (hsplit _ a).2 (.inr ⟨rfl, rfl⟩), ha, rfl, hlast a⟩
      · have hi : i < done.length := (List.getElem?_eq_some_iff.1 hb).1
        have hother : key a ≠ key b := fun he => hne (hkey ▸ he.symm)
        exact ⟨b, (hsplit i b).2 (.inl ⟨hi, hb⟩), hkeep, hkey, by simp [hdrop i hi, hrest, hother]⟩
    · rintro ⟨b, hb, hkeep, hkey, hrest⟩
      rcases (hsplit i b).1 hb with ⟨hi, hb⟩ | ⟨rfl, rfl⟩
      · simp only [hdrop i hi, Bool.or_eq_false_iff, ha, Bool.not_false, Bool.true_and, decide_eq_false_iff_not] at hrest
        exact .inr ⟨fun he => hrest.2 (he ▸ hkey.symm), b, hb, hkeep, hkey, hrest.1⟩
      · exact .inl ⟨hkey.symm, rfl⟩

theorem filter_zipIdx_eq_latest {P : α × Nat → Bool} {xs : List α} {n : Nat}
    (h : ∀ i a, xs[i]? = some a → P (a, n + i) = (keep a || !replacedIn key keep a (xs.drop (i + 1)))) :
    ((xs.zipIdx n).filter P).map Prod.fst = latest key keep xs := by
  induction xs generalizing n with
  | nil => rfl
  | cons a rest ih =>
    have htail := ih (n := n + 1) fun i b hb => by
      have hb' := h (i + 1) b (by simpa using hb)
      rwa [show n + 1 + i = n + (i + 1) by omega]
    have hhead : P (a, n) = (keep a || !replacedIn key keep a rest) := by simpa using h 0 a rfl
    rw [List.zipIdx_cons, List.filter_cons, hhead, latest]
    split
    · rw [List.map_cons, htail]
    · exact htail

theorem select_eq_latest {indexes : OrderedMap κ Nat} {xs : List α} (h : @Indexed _ _ _ key keep indexes xs) :
    ((xs.zipIdx.filter fun e => keep e.1 || decide (e.2 ∈ indexes.map Prod.snd)).map Prod.fst) = latest key keep xs := by
  refine filter_zipIdx_eq_latest fun i a ha => ?_
  rw [Nat.zero_add]
  cases hkeep : keep a with
  | true => rfl
  | false =>
    have hiff : i ∈ indexes.map Prod.snd ↔ replacedIn key keep a (xs.drop (i + 1)) = false := by
      simp only [List.mem_map, Prod.exists, exists_eq_right, h.mem]
      constructor
      · rintro ⟨k, b, hb, _, _, hrest⟩
        cases ha.symm.trans hb
        exact hrest
      · exact fun hrest => ⟨key a, a, ha, hkeep, rfl, hrest⟩
    rw [Bool.false_or, Bool.false_or]
    cases hr : replacedIn key keep a (xs.drop (i + 1)) <;> simp [hiff, hr]

end Fluo.Lib
