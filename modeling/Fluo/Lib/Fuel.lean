import Mathlib.Data.List.Basic
/-!
# Programs that may run out of fuel

A program on a state `σ` returns, or runs out of the fuel it was given.
`Returns m post s` says that `m` returns from `s`, and `post` holds of what it
returns and of the state it leaves.
-/

namespace Fluo.Lib

variable {σ α β : Type}

def Returns (m : StateT σ Option α) (post : α → σ → Prop) (s : σ) : Prop := ∃ a s', m s = some (a, s') ∧ post a s'

namespace Returns
variable {post : α → σ → Prop} {s : σ}

theorem mono {m : StateT σ Option α} {post' : α → σ → Prop} (h : Returns m post s) (himp : ∀ a s', post a s' → post' a s') :
    Returns m post' s := by
  obtain ⟨a, s', hm, hp⟩ := h
  exact ⟨a, s', hm, himp a s' hp⟩

theorem pure {a : α} (h : post a s) : Returns (Pure.pure a) post s := ⟨a, s, rfl, h⟩

theorem bind {m : StateT σ Option α} {f : α → StateT σ Option β} {post : β → σ → Prop}
    (h : Returns m (fun a s' => Returns (f a) post s') s) : Returns (m >>= f) post s := by
  obtain ⟨a, s', hm, b, s'', hf, hp⟩ := h
  refine ⟨b, s'', ?_, hp⟩
  show StateT.bind m f s = _
  rw [StateT.bind, hm]
  exact hf

theorem get {post : σ → σ → Prop} (h : post s s) : Returns (MonadState.get : StateT σ Option σ) post s := ⟨s, s, rfl, h⟩

theorem set {s' : σ} {post : PUnit → σ → Prop} (h : post ⟨⟩ s') : Returns (MonadStateOf.set s' : StateT σ Option PUnit) post s :=
  ⟨⟨⟩, s', rfl, h⟩

theorem modify {f : σ → σ} {post : PUnit → σ → Prop} (h : post ⟨⟩ (f s)) : Returns (modify f : StateT σ Option PUnit) post s :=
  ⟨⟨⟩, f s, rfl, h⟩

theorem map {f : α → β} {m : StateT σ Option α} {post : β → σ → Prop} (h : Returns m (fun a s' => post (f a) s') s) :
    Returns (f <$> m) post s := by
  obtain ⟨a, s', hm, hp⟩ := h
  refine ⟨f a, s', ?_, hp⟩
  show StateT.map f m s = _
  rw [StateT.map, hm]
  rfl

theorem foldlM {f : β → α → StateT σ Option β} {l : List α} {b : β} (inv : β → σ → Prop)
    (hstep : ∀ b, ∀ a ∈ l, ∀ s, inv b s → Returns (f b a) inv s) (h : inv b s) : Returns (l.foldlM f b) inv s := by
  induction l generalizing b s with
  | nil => exact pure h
  | cons a rest ih =>
    rw [List.foldlM_cons]
    have hfirst := hstep b a List.mem_cons_self s h
    exact bind (hfirst.mono fun b' s' h' => ih (fun b a ha => hstep b a (List.mem_cons_of_mem _ ha)) h')

theorem mapM {f : α → StateT σ Option β} {l : List α} (inv : σ → Prop) (good : β → Prop)
    (hstep : ∀ a ∈ l, ∀ s, inv s → Returns (f a) (fun b s' => good b ∧ inv s') s) (h : inv s) :
    Returns (l.mapM f) (fun bs s' => (∀ b ∈ bs, good b) ∧ inv s') s := by
  induction l generalizing s with
  | nil =>
    rw [List.mapM_nil]
    exact pure ⟨fun _ hb => absurd hb List.not_mem_nil, h⟩
  | cons a rest ih =>
    rw [List.mapM_cons]
    refine bind ((hstep a List.mem_cons_self s h).mono fun b s₁ hb => ?_)
    refine bind ((ih (fun a ha => hstep a (List.mem_cons_of_mem _ ha)) hb.2).mono fun bs s₂ hbs => ?_)
    exact pure ⟨List.forall_mem_cons.2 ⟨hb.1, hbs.1⟩, hbs.2⟩

theorem forM {f : α → StateT σ Option PUnit} {l : List α} (inv : σ → Prop) (done : α → σ → Prop)
    (hstep : ∀ a ∈ l, ∀ s, inv s → Returns (f a) (fun _ s' => inv s' ∧ done a s' ∧ ∀ a', done a' s → done a' s') s) (h : inv s) :
    Returns (l.forM f) (fun _ s' => inv s' ∧ (∀ a ∈ l, done a s') ∧ ∀ a', done a' s → done a' s') s := by
  induction l generalizing s with
  | nil => exact pure ⟨h, fun _ ha => absurd ha List.not_mem_nil, fun _ ha => ha⟩
  | cons a rest ih =>
    refine bind ((hstep a List.mem_cons_self s h).mono fun _ s₁ h₁ => ?_)
    obtain ⟨hinv, ha, hlasts⟩ := h₁
    refine (ih (fun a ha => hstep a (List.mem_cons_of_mem _ ha)) hinv).mono fun _ s₂ h₂ => ?_
    exact ⟨h₂.1, List.forall_mem_cons.2 ⟨h₂.2.2 a ha, h₂.2.1⟩, fun a' ha' => h₂.2.2 a' (hlasts a' ha')⟩

end Returns

/-- With enough fuel `p` holds. -/
def Enough (p : Nat → Prop) : Prop := ∃ n, ∀ fuel, n ≤ fuel → p fuel

namespace Enough
variable {p q : Nat → Prop}

theorem mono (h : Enough p) (himp : ∀ fuel, p fuel → q fuel) : Enough q := h.imp fun _ hn fuel hfuel => himp fuel (hn fuel hfuel)

theorem congr (h : ∀ fuel, p fuel ↔ q fuel) : Enough p ↔ Enough q :=
  ⟨fun hp => hp.mono fun fuel => (h fuel).1, fun hq => hq.mono fun fuel => (h fuel).2⟩

theorem and (hp : Enough p) (hq : Enough q) : Enough fun fuel => p fuel ∧ q fuel := by
  obtain ⟨n, hn⟩ := hp
  obtain ⟨m, hm⟩ := hq
  exact ⟨max n m, fun fuel hfuel => ⟨hn fuel (by omega), hm fuel (by omega)⟩⟩

theorem forall_mem {l : List α} {p : α → Nat → Prop} : Enough (fun fuel => ∀ a ∈ l, p a fuel) ↔ ∀ a ∈ l, Enough (p a) := by
  constructor
  · intro h a ha
    exact h.mono fun fuel hfuel => hfuel a ha
  · intro h
    induction l with
    | nil => exact ⟨0, fun _ _ _ ha => absurd ha List.not_mem_nil⟩
    | cons a rest ih =>
      obtain ⟨hfirst, hrest⟩ := List.forall_mem_cons.1 h
      exact (hfirst.and (ih hrest)).mono fun fuel hfuel => List.forall_mem_cons.2 hfuel

theorem imp {c : Prop} : Enough (fun fuel => c → p fuel) ↔ (c → Enough p) := by
  constructor
  · intro h hc
    exact h.mono fun fuel hfuel => hfuel hc
  · intro h
    by_cases hc : c
    · exact (h hc).mono fun fuel hfuel _ => hfuel
    · exact ⟨0, fun _ _ hc' => absurd hc' hc⟩

theorem succ : Enough (fun fuel => p (fuel + 1)) ↔ Enough p := by
  constructor
  · rintro ⟨n, hn⟩
    refine ⟨n + 1, fun fuel hfuel => ?_⟩
    obtain ⟨less, rfl⟩ : ∃ less, fuel = less + 1 := ⟨fuel - 1, by omega⟩
    exact hn less (by omega)
  · rintro ⟨n, hn⟩
    exact ⟨n, fun fuel hfuel => hn (fuel + 1) (by omega)⟩

end Enough

/-- With enough fuel the result is `a`. -/
def Yields (f : Nat → Option α) (a : α) : Prop := ∃ n, ∀ fuel, n ≤ fuel → f fuel = some a

namespace Yields
variable {f : Nat → Option α} {g : α → Nat → Option β} {a : α} {b : β}

theorem of_forall (h : ∀ fuel, f fuel = some a) : Yields f a := ⟨0, fun fuel _ => h fuel⟩

theorem bind (hf : Yields f a) (hg : Yields (g a) b) : Yields (fun fuel => f fuel >>= fun a => g a fuel) b := by
  obtain ⟨n, hn⟩ := hf
  obtain ⟨m, hm⟩ := hg
  refine ⟨max n m, fun fuel hfuel => ?_⟩
  have hfirst : f fuel = some a := hn fuel (Nat.le_trans (Nat.le_max_left ..) hfuel)
  show f fuel >>= (fun a => g a fuel) = some b
  rw [hfirst]
  exact hm fuel (Nat.le_trans (Nat.le_max_right ..) hfuel)

theorem of_succ (h : Yields (fun fuel => f (fuel + 1)) a) : Yields f a := by
  obtain ⟨n, hn⟩ := h
  refine ⟨n + 1, fun fuel hfuel => ?_⟩
  obtain ⟨less, rfl⟩ : ∃ less, fuel = less + 1 := ⟨fuel - 1, by omega⟩
  exact hn less (by omega)

theorem congr {f' : Nat → Option α} (h : Yields f a) (heq : ∀ fuel, f' fuel = f fuel) : Yields f' a := by
  obtain ⟨n, hn⟩ := h
  exact ⟨n, fun fuel hfuel => (heq fuel).trans (hn fuel hfuel)⟩

end Yields

/-! ## Loops that collect lists -/

theorem flatten_mapM_eq_nil {f : α → Option (List β)} {l : List α} :
    (do let lists ← l.mapM f; return lists.flatten : Option (List β)) = some [] ↔ ∀ a ∈ l, f a = some [] := by
  induction l with
  | nil => simp
  | cons a rest ih =>
    rw [List.forall_mem_cons, ← ih, List.mapM_cons]
    cases hfirst : f a with
    | none => simp
    | some first => cases hrest : rest.mapM f <;> simp

theorem flatMap_mapM_eq_nil {κ : Type} {f : α → Option (κ × List β)} {l : List α} :
    (∃ lists, l.mapM f = some lists ∧ lists.flatMap Prod.snd = []) ↔ ∀ a ∈ l, ∃ list, f a = some list ∧ list.2 = [] := by
  induction l with
  | nil => simp
  | cons a rest ih =>
    rw [List.forall_mem_cons, ← ih, List.mapM_cons]
    cases hfirst : f a with
    | none => simp
    | some first =>
      cases hrest : rest.mapM f with
      | none => simp
      | some lists => simp [-List.flatMap_eq_nil_iff, List.flatMap_cons]

theorem mapM_filter {f f' : α → Option β} {p : α → Bool} {q : β → Bool} (hf : ∀ a b, f a = some b → q b = p a)
    (hf' : ∀ a, p a = true → f' a = f a) : ∀ {l : List α} {bs : List β}, l.mapM f = some bs → (l.filter p).mapM f' = some (bs.filter q)
  | [], _, h => by cases h; rfl
  | a :: rest, bs, h => by
    rw [List.mapM_cons] at h
    obtain ⟨b, hb, h⟩ := Option.bind_eq_some_iff.1 h
    obtain ⟨bs', hbs, h⟩ := Option.bind_eq_some_iff.1 h
    cases h
    have hrest := mapM_filter hf hf' hbs
    rw [List.filter_cons, List.filter_cons, hf a b hb]
    split
    case isTrue hkept => rw [List.mapM_cons, hf' a hkept, hb, hrest]; rfl
    case isFalse => exact hrest

end Fluo.Lib
