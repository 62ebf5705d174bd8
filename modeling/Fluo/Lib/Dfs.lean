import Mathlib.Data.Finset.Card
/-!
# Depth-first order

`visit` is the usual depth-first search with a list of finished nodes and a
path of nodes in progress: a node is finished after all of its children, and a
node that is met again while it is in progress closes a cycle. The list of
finished nodes is then a topological order, children first.

The nodes come from a function that may fail, and the recursion has fuel; a
number of nodes is enough.
-/

namespace Fluo.Lib.Dfs

open Relation

variable {α ε : Type*}

/-- Why a search stops early. -/
inductive Halt (α ε : Type*)
  | cycle (a : α)
  | failed (e : ε)
  | fuel

/-- `b` is a child of `a`. -/
def Edge (children : α → Except ε (List α)) (a b : α) : Prop := ∃ cs, children a = .ok cs ∧ b ∈ cs

variable (children : α → Except ε (List α))

/-- Every node is listed once, after its children. -/
structure Sorted (done : List α) : Prop where
  nodup : done.Nodup
  ordered : ∀ before a after, done = before ++ a :: after → ∃ cs, children a = .ok cs ∧ ∀ c ∈ cs, c ∈ before

theorem Sorted.nil : Sorted children [] := ⟨.nil, by simp⟩

variable {children} {n : Nat} {visiting done done' : List α} {a b : α}

theorem Sorted.snoc (h : Sorted children done) (ha : a ∉ done) {cs : List α} (hc : children a = .ok cs)
    (hcs : ∀ c ∈ cs, c ∈ done) : Sorted children (done ++ [a]) := by
  refine ⟨List.nodup_append.2 ⟨h.nodup, by simp, fun x hx y hy he => ?_⟩, fun before b after he => ?_⟩
  · rw [List.mem_singleton] at hy
    exact ha (hy ▸ he ▸ hx)
  · rcases List.eq_nil_or_concat after with rfl | ⟨init, last, rfl⟩
    · obtain ⟨rfl, hab⟩ := List.append_inj' he rfl
      cases hab
      exact ⟨cs, hc, hcs⟩
    · have he' : done ++ [a] = (before ++ b :: init) ++ [last] := by simpa using he
      exact h.ordered before b init (List.append_inj' he' rfl).1

theorem Sorted.before (h : Sorted children done) {before after : List α} (he : done = before ++ a :: after)
    (hr : TransGen (Edge children) a b) : b ∈ before := by
  induction hr using TransGen.head_induction_on generalizing before after with
  | single hab =>
    obtain ⟨cs, hcs, hb⟩ := hab
    obtain ⟨cs', hcs', hmem⟩ := h.ordered _ _ _ he
    rw [hcs] at hcs'
    cases hcs'
    exact hmem b hb
  | @head a c hac hcb ih =>
    obtain ⟨cs, hcs, hc⟩ := hac
    obtain ⟨cs', hcs', hmem⟩ := h.ordered _ _ _ he
    rw [hcs] at hcs'
    cases hcs'
    obtain ⟨p, q, rfl⟩ := List.append_of_mem (hmem c hc)
    have he' : done = p ++ c :: (q ++ a :: after) := by simpa using he
    exact List.mem_append_left _ (ih he')

theorem Sorted.reaches (h : Sorted children done) (ha : a ∈ done) (hr : ReflTransGen (Edge children) a b) : b ∈ done := by
  rcases reflTransGen_iff_eq_or_transGen.1 hr with rfl | hr
  · exact ha
  · obtain ⟨p, q, rfl⟩ := List.append_of_mem ha
    exact List.mem_append_left _ (h.before rfl hr)

theorem Sorted.acyclic (h : Sorted children done) (ha : a ∈ done) : ¬ TransGen (Edge children) a a := by
  intro hr
  obtain ⟨p, q, rfl⟩ := List.append_of_mem ha
  exact (List.nodup_append.1 h.nodup).2.2 a (h.before rfl hr) a List.mem_cons_self rfl

theorem Sorted.children_ok (h : Sorted children done) (ha : a ∈ done) : ∃ cs, children a = .ok cs ∧ ∀ c ∈ cs, c ∈ done := by
  obtain ⟨p, q, rfl⟩ := List.append_of_mem ha
  obtain ⟨cs, hcs, hmem⟩ := h.ordered p a q rfl
  exact ⟨cs, hcs, fun c hc => List.mem_append_left _ (hmem c hc)⟩

theorem Sorted.acc (h : Sorted children done) (ha : a ∈ done) : Acc (fun c p => Edge children p c) a := by
  obtain ⟨before, after, he⟩ := List.append_of_mem ha
  induction hn : before.length using Nat.strong_induction_on generalizing a before after with
  | _ n ih =>
    obtain ⟨cs, hcs, hmem⟩ := h.ordered before a after he
    refine ⟨a, fun c hc => ?_⟩
    obtain ⟨cs', hcs', hc⟩ := hc
    rw [hcs, Except.ok.injEq] at hcs'
    subst hcs'
    obtain ⟨q, r, hbefore⟩ := List.append_of_mem (hmem c hc)
    have hlt : q.length < n := by
      rw [← hn, hbefore, List.length_append, List.length_cons]
      omega
    have he' : done = q ++ c :: (r ++ a :: after) := by rw [he, hbefore, List.append_assoc, List.cons_append]
    exact ih q.length hlt (he' ▸ by simp) q _ he' rfl

/-! ## Results -/

/-- What visiting the nodes of `roots` adds to the finished nodes. -/
structure Extends (children : α → Except ε (List α)) (visiting done done' : List α) (roots : List α) : Prop where
  sorted : Sorted children done'
  kept : done <+: done'
  visited : ∀ a ∈ roots, a ∈ done'
  new : ∀ x ∈ done', x ∈ done ∨ x ∉ visiting ∧ ∃ a ∈ roots, ReflTransGen (Edge children) a x

theorem Extends.fold (visiting : List α) {f : List α → α → Except (Halt α ε) (List α)}
    (hf : ∀ done a done', Sorted children done → f done a = .ok done' → Extends children visiting done done' [a])
    {roots : List α} (hs : Sorted children done) (h : roots.foldlM f done = .ok done') :
    Extends children visiting done done' roots := by
  induction roots generalizing done with
  | nil =>
    cases h
    exact ⟨hs, List.prefix_rfl, by simp, fun x hx => .inl hx⟩
  | cons a rest ih =>
    rw [List.foldlM_cons] at h
    cases hfa : f done a with
    | error e => rw [hfa] at h; cases h
    | ok mid =>
      rw [hfa] at h
      have h₁ := hf done a mid hs hfa
      have h₂ := ih h₁.sorted h
      refine ⟨h₂.sorted, h₁.kept.trans h₂.kept, fun b hb => ?_, fun x hx => ?_⟩
      · rcases List.mem_cons.1 hb with rfl | hb
        · exact h₂.kept.subset (h₁.visited _ List.mem_cons_self)
        · exact h₂.visited b hb
      · rcases h₂.new x hx with hx | ⟨hv, b, hb, hr⟩
        · rcases h₁.new x hx with hx | ⟨hv, b, hb, hr⟩
          · exact .inl hx
          · exact .inr ⟨hv, b, List.mem_cons.2 (.inl (List.mem_singleton.1 hb)), hr⟩
        · exact .inr ⟨hv, b, List.mem_cons_of_mem _ hb, hr⟩

/-- What a stop of the search of `roots` says about the graph. -/
def Explains (children : α → Except ε (List α)) (roots : List α) : Halt α ε → Prop
  | .cycle b => TransGen (Edge children) b b ∧ ∃ a ∈ roots, ReflTransGen (Edge children) a b
  | .failed e => ∃ x, children x = .error e ∧ ∃ a ∈ roots, ReflTransGen (Edge children) a x
  | .fuel => True

theorem fold_error {f : List α → α → Except (Halt α ε) (List α)} {h : Halt α ε} {P : Halt α ε → Prop} {roots : List α}
    (hf : ∀ a ∈ roots, ∀ done h, f done a = .error h → P h) (he : roots.foldlM f done = .error h) : P h := by
  induction roots generalizing done with
  | nil => cases he
  | cons a rest ih =>
    rw [List.foldlM_cons] at he
    cases hfa : f done a with
    | error e =>
      rw [hfa] at he
      cases he
      exact hf a List.mem_cons_self _ _ hfa
    | ok mid =>
      rw [hfa] at he
      exact ih (fun b hb => hf b (List.mem_cons_of_mem _ hb)) he

/-! ## The search -/

variable [DecidableEq α]

def visit (children : α → Except ε (List α)) : Nat → List α → List α → α → Except (Halt α ε) (List α)
  | 0, _, _, _ => .error .fuel
  | n + 1, visiting, done, a =>
    if a ∈ done then .ok done
    else if a ∈ visiting then .error (.cycle a)
    else match children a with
      | .error e => .error (.failed e)
      | .ok cs => match cs.foldlM (visit children n (a :: visiting)) done with
        | .error h => .error h
        | .ok done' => .ok (done' ++ [a])

theorem visit_ok (hs : Sorted children done) (h : visit children n visiting done a = .ok done') :
    Extends children visiting done done' [a] := by
  induction n generalizing visiting done done' a with
  | zero => cases h
  | succ n ih =>
    rw [visit] at h
    split at h
    · rename_i ha
      cases h
      exact ⟨hs, List.prefix_rfl, by simpa using ha, fun x hx => .inl hx⟩
    · rename_i ha
      split at h
      · cases h
      · rename_i hv
        split at h
        · cases h
        · rename_i cs hcs
          split at h
          · cases h
          · rename_i mid hfold
            cases h
            have hm := Extends.fold (a :: visiting) (fun _ _ _ hs h => ih hs h) hs hfold
            have ham : a ∉ mid := fun hmem => (hm.new a hmem).elim ha fun hx => hx.1 List.mem_cons_self
            refine ⟨hm.sorted.snoc ham hcs hm.visited, hm.kept.trans (List.prefix_append _ _), by simp, fun x hx => ?_⟩
            rcases List.mem_append.1 hx with hx | hx
            · rcases hm.new x hx with hx | ⟨hxv, c, hc, hr⟩
              · exact .inl hx
              · exact .inr ⟨fun hxv' => hxv (List.mem_cons_of_mem _ hxv'), a, by simp, .head ⟨cs, hcs, hc⟩ hr⟩
            · rw [List.mem_singleton] at hx
              subst hx
              exact .inr ⟨hv, _, by simp, .refl⟩

theorem visit_error {h : Halt α ε} (hpath : ∀ v ∈ visiting, TransGen (Edge children) v a)
    (he : visit children n visiting done a = .error h) : Explains children [a] h := by
  induction n generalizing visiting done a h with
  | zero => cases he; trivial
  | succ n ih =>
    rw [visit] at he
    split at he
    · cases he
    · split at he
      · rename_i hv
        cases he
        exact ⟨hpath a hv, a, by simp, .refl⟩
      · split at he
        · rename_i e hc
          cases he
          exact ⟨a, hc, a, by simp, .refl⟩
        · rename_i cs hcs
          split at he
          · rename_i h' hfold
            cases he
            refine fold_error (P := Explains children [a]) (fun c hc done h hv => ?_) hfold
            have hac : Edge children a c := ⟨cs, hcs, hc⟩
            have := ih (fun v hv => ?_) hv
            · cases h with
              | cycle b =>
                obtain ⟨hb, c', hc', hr⟩ := this
                rw [List.mem_singleton.1 hc'] at hr
                exact ⟨hb, a, by simp, .head hac hr⟩
              | failed e =>
                obtain ⟨x, hx, c', hc', hr⟩ := this
                rw [List.mem_singleton.1 hc'] at hr
                exact ⟨x, hx, a, by simp, .head hac hr⟩
              | fuel => trivial
            · rcases List.mem_cons.1 hv with rfl | hv
              · exact .single hac
              · exact (hpath v hv).tail hac
          · cases he

theorem visit_fuel (V : Finset α) (hclosed : ∀ x ∈ V, ∀ y, Edge children x y → y ∈ V) (ha : a ∈ V)
    (hn : (V \ visiting.toFinset).card < n) : visit children n visiting done a ≠ .error .fuel := by
  induction n generalizing visiting done a with
  | zero => exact absurd hn (Nat.not_lt_zero _)
  | succ n ih =>
    rw [visit]
    split
    · simp
    · split
      · simp
      · rename_i hv
        split
        · simp
        · rename_i cs hcs
          split
          · rename_i h hfold
            refine fold_error (P := fun h => Except.error h ≠ Except.error Halt.fuel) (fun c hc done h hvisit heq => ?_) hfold
            cases heq
            refine ih (hclosed a ha c ⟨cs, hcs, hc⟩) ?_ hvisit
            have hlt : (V \ (a :: visiting).toFinset).card < (V \ visiting.toFinset).card := by
              refine Finset.card_lt_card (Finset.ssubset_iff_subset_ne.2 ⟨?_, fun heq => ?_⟩)
              · exact Finset.sdiff_subset_sdiff (Finset.Subset.refl _) (by simp)
              · have : a ∈ V \ visiting.toFinset := by simp [ha, hv]
                rw [← heq] at this
                simp at this
            omega
          · simp

/-! ## Searching from several roots -/

/-- The depth-first order of what the roots lead to. -/
def order (children : α → Except ε (List α)) (n : Nat) (roots : List α) : Except (Halt α ε) (List α) :=
  roots.foldlM (visit children n []) []

variable {roots : List α}

theorem order_ok (h : order children n roots = .ok done) :
    Sorted children done ∧ ∀ x, x ∈ done ↔ ∃ a ∈ roots, ReflTransGen (Edge children) a x := by
  have he := Extends.fold [] (fun _ _ _ hs h => visit_ok hs h) (Sorted.nil children) h
  refine ⟨he.sorted, fun x => ⟨fun hx => ?_, fun ⟨a, ha, hr⟩ => he.sorted.reaches (he.visited a ha) hr⟩⟩
  rcases he.new x hx with hx | ⟨_, hr⟩
  · cases hx
  · exact hr

theorem order_ok_iff (V : Finset α) (hroots : ∀ a ∈ roots, a ∈ V) (hclosed : ∀ x ∈ V, ∀ y, Edge children x y → y ∈ V)
    (hn : V.card < n) : (∃ done, order children n roots = .ok done) ↔
      ∀ a ∈ roots, ∀ x, ReflTransGen (Edge children) a x → ¬ TransGen (Edge children) x x ∧ ∃ cs, children x = .ok cs := by
  constructor
  · rintro ⟨done, h⟩ a ha x hr
    obtain ⟨hs, hmem⟩ := order_ok h
    have hx := (hmem x).2 ⟨a, ha, hr⟩
    obtain ⟨cs, hcs, _⟩ := hs.children_ok hx
    exact ⟨hs.acyclic hx, cs, hcs⟩
  · intro hgood
    cases h : order children n roots with
    | ok done => exact ⟨done, rfl⟩
    | error e =>
      refine (fold_error (P := fun _ => False) (fun a ha done e hv => ?_) h).elim
      have hex := visit_error (by simp) hv
      cases e with
      | cycle b =>
        obtain ⟨hb, a', ha', hr⟩ := hex
        rw [List.mem_singleton.1 ha'] at hr
        exact (hgood a ha b hr).1 hb
      | failed e =>
        obtain ⟨x, hx, a', ha', hr⟩ := hex
        rw [List.mem_singleton.1 ha'] at hr
        obtain ⟨cs, hcs⟩ := (hgood a ha x hr).2
        rw [hx] at hcs
        cases hcs
      | fuel => exact visit_fuel V hclosed (hroots a ha) (by simpa using hn) hv

omit [DecidableEq α] in
theorem foldlM_congr {f g : List α → α → Except (Halt α ε) (List α)} (h : ∀ a ∈ roots, ∀ done, f done a = g done a) (done : List α) :
    roots.foldlM f done = roots.foldlM g done := by
  induction roots generalizing done with
  | nil => rfl
  | cons a rest ih =>
    rw [List.foldlM_cons, List.foldlM_cons, h a List.mem_cons_self]
    exact congrArg _ (funext fun mid => ih (fun b hb => h b (List.mem_cons_of_mem _ hb)) mid)

theorem visit_congr {children' : α → Except ε (List α)} (h : ∀ x, ReflTransGen (Edge children) a x → children x = children' x) :
    visit children n visiting done a = visit children' n visiting done a := by
  induction n generalizing a visiting done with
  | zero => rfl
  | succ n ih =>
    rw [visit, visit, ← h a .refl]
    cases hcs : children a with
    | error e => rfl
    | ok cs =>
      dsimp only
      rw [foldlM_congr fun c hc done => ih fun x hx => h x (.head ⟨cs, hcs, hc⟩ hx)]

theorem order_congr {children' : α → Except ε (List α)}
    (h : ∀ a ∈ roots, ∀ x, ReflTransGen (Edge children) a x → children x = children' x) : order children n roots = order children' n roots :=
  foldlM_congr (fun a ha _ => visit_congr (h a ha)) []

theorem acc_of_acyclic (V : Finset α) (ha : a ∈ V) (hclosed : ∀ x ∈ V, ∀ y, Edge children x y → y ∈ V)
    (hgood : ∀ x, ReflTransGen (Edge children) a x → ¬ TransGen (Edge children) x x ∧ ∃ cs, children x = .ok cs) :
    Acc (fun c p => Edge children p c) a := by
  have hroots : ∀ b ∈ [a], b ∈ V := by
    intro b hb
    rwa [List.mem_singleton.1 hb]
  obtain ⟨done, hdone⟩ := (order_ok_iff V hroots hclosed (Nat.lt_succ_self _)).2 fun b hb x hx => hgood x (List.mem_singleton.1 hb ▸ hx)
  obtain ⟨hsorted, hmem⟩ := order_ok hdone
  exact hsorted.acc ((hmem a).2 ⟨a, List.mem_cons_self, .refl⟩)

end Fluo.Lib.Dfs
