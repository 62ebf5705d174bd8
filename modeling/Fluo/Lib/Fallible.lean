import Mathlib.Data.List.Basic
/-!
# Computations that may fail

When a computation in `Except` returns: the rules for its sequences and loops.
-/

namespace Fluo.Lib

variable {ε α β : Type}

theorem bind_eq_ok {x : Except ε α} {f : α → Except ε β} {b : β} : (x >>= f) = .ok b ↔ ∃ a, x = .ok a ∧ f a = .ok b := by
  constructor
  · intro h
    cases x with
    | error e => cases h
    | ok a => exact ⟨a, rfl, h⟩
  · rintro ⟨a, rfl, h⟩
    exact h

theorem bind_eq_error {x : Except ε α} {f : α → Except ε β} {e : ε} :
    (x >>= f) = .error e ↔ x = .error e ∨ ∃ a, x = .ok a ∧ f a = .error e := by
  cases x with
  | error e' => simp [bind, Except.bind]
  | ok a => simp [bind, Except.bind]

theorem ok_bind {a : α} {f : α → Except ε β} : (Except.ok a >>= f) = f a := rfl

theorem seq_eq_ok {x : Except ε Unit} {f : Unit → Except ε β} {b : β} : (x >>= f) = .ok b ↔ x = .ok () ∧ f () = .ok b := by
  rw [bind_eq_ok]
  exact ⟨fun ⟨_, hx, hf⟩ => ⟨hx, hf⟩, fun ⟨hx, hf⟩ => ⟨(), hx, hf⟩⟩

theorem forM_eq_ok {l : List α} {f : α → Except ε Unit} : l.forM f = .ok () ↔ ∀ x ∈ l, f x = .ok () := by
  induction l with
  | nil => simp [List.forM, pure, Except.pure]
  | cons x rest ih =>
    change (f x >>= fun _ => rest.forM f) = .ok () ↔ _
    rw [seq_eq_ok, List.forall_mem_cons, ih]

theorem mapM_eq_ok {l : List α} {f : α → Except ε β} {g : α → β} (hf : ∀ x ∈ l, f x = .ok (g x)) : l.mapM f = .ok (l.map g) := by
  induction l with
  | nil => rfl
  | cons x rest ih =>
    rw [List.mapM_cons, hf x List.mem_cons_self, ih fun y hy => hf y (List.mem_cons_of_mem _ hy)]
    rfl

theorem mapM_eq_ok_map {f : α → Except ε β} {g : α → β} (hf : ∀ x y, f x = .ok y → y = g x) :
    ∀ {l : List α} {ys : List β}, l.mapM f = .ok ys → ys = l.map g
  | [], _, h => by cases h; rfl
  | x :: rest, ys, h => by
    rw [List.mapM_cons, bind_eq_ok] at h
    obtain ⟨y, hy, h⟩ := h
    obtain ⟨zs, hzs, h⟩ := bind_eq_ok.1 h
    cases h
    rw [List.map_cons, hf x y hy, mapM_eq_ok_map hf hzs]

theorem mem_of_mapM_eq_ok {f : α → Except ε β} {y : β} :
    ∀ {l : List α} {ys : List β}, l.mapM f = .ok ys → y ∈ ys → ∃ x ∈ l, f x = .ok y
  | [], _, h, hy => by cases h; cases hy
  | x :: rest, ys, h, hy => by
    rw [List.mapM_cons, bind_eq_ok] at h
    obtain ⟨z, hz, h⟩ := h
    obtain ⟨zs, hzs, h⟩ := bind_eq_ok.1 h
    cases h
    rcases List.mem_cons.1 hy with rfl | hy
    · exact ⟨x, List.mem_cons_self, hz⟩
    · obtain ⟨w, hw, hfw⟩ := mem_of_mapM_eq_ok hzs hy
      exact ⟨w, List.mem_cons_of_mem _ hw, hfw⟩

theorem exists_of_mapM_eq_ok {f : α → Except ε β} {x : α} :
    ∀ {l : List α} {ys : List β}, l.mapM f = .ok ys → x ∈ l → ∃ y ∈ ys, f x = .ok y
  | [], _, _, hx => by cases hx
  | z :: rest, ys, h, hx => by
    rw [List.mapM_cons, bind_eq_ok] at h
    obtain ⟨y, hy, h⟩ := h
    obtain ⟨zs, hzs, h⟩ := bind_eq_ok.1 h
    cases h
    rcases List.mem_cons.1 hx with rfl | hx
    · exact ⟨y, List.mem_cons_self, hy⟩
    · obtain ⟨w, hw, hfw⟩ := exists_of_mapM_eq_ok hzs hx
      exact ⟨w, List.mem_cons_of_mem _ hw, hfw⟩

theorem length_of_mapM_eq_ok {f : α → Except ε β} : ∀ {l : List α} {ys : List β}, l.mapM f = .ok ys → ys.length = l.length
  | [], _, h => by cases h; rfl
  | x :: rest, ys, h => by
    rw [List.mapM_cons, bind_eq_ok] at h
    obtain ⟨y, -, h⟩ := h
    obtain ⟨zs, hzs, h⟩ := bind_eq_ok.1 h
    cases h
    exact congrArg Nat.succ (length_of_mapM_eq_ok hzs)

theorem check_eq_ok {c : Prop} [Decidable c] {e : ε} : (if c then Except.ok () else .error e) = .ok () ↔ c := by
  split <;> simp_all

theorem guard_eq_ok {c : Prop} [Decidable c] {e : ε} {x : Except ε α} {a : α} :
    (if c then Except.error e else x) = .ok a ↔ ¬c ∧ x = .ok a := by
  split <;> simp_all

end Fluo.Lib
