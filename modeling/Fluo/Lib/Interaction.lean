import Mathlib.Data.List.Basic
/-!
# Interactive programs

A program asks its environment questions. An answer is a value or an
exception, and what the program does next depends on it, so a statement about
every path of a program is a statement about every behaviour of the
environment. A monitor watches the answers: `p.Ends m post s` says that every
path of `p` which `m` allows from `s` ends as `post` says.
-/

namespace Fluo.Lib

inductive Prog (ε : Type) {Q : Type} (A : Q → Type) (α : Type)
  | ret (a : α)
  | throw (e : ε)
  | ask (q : Q) (k : Except ε (A q) → Prog ε A α)

namespace Prog
variable {ε Q : Type} {A : Q → Type} {α β : Type}

protected def bind (f : α → Prog ε A β) : Prog ε A α → Prog ε A β
  | ret a => f a
  | throw e => throw e
  | ask q k => ask q fun r => (k r).bind f

instance : Monad (Prog ε A) where
  pure := ret
  bind p f := p.bind f

protected theorem bind_assoc {γ : Type} {f : α → Prog ε A β} {g : β → Prog ε A γ} :
    ∀ p : Prog ε A α, (p.bind f).bind g = p.bind fun a => (f a).bind g
  | ret _ => rfl
  | throw _ => rfl
  | ask _ k => congrArg _ (funext fun r => Prog.bind_assoc (k r))

protected theorem bind_pure : ∀ p : Prog ε A α, p.bind ret = p
  | ret _ => rfl
  | throw _ => rfl
  | ask _ k => congrArg _ (funext fun r => Prog.bind_pure (k r))

instance : LawfulMonad (Prog ε A) :=
  .mk' _ Prog.bind_pure (fun _ _ => rfl) fun p _ _ => p.bind_assoc

def ofExcept : Except ε α → Prog ε A α
  | .ok a => ret a
  | .error e => throw e

def perform (q : Q) : Prog ε A (A q) := ask q ofExcept

/-- The outcome of a program as a value. -/
def attempt : Prog ε A α → Prog ε A (Except ε α)
  | ret a => ret (.ok a)
  | throw e => ret (.error e)
  | ask q k => ask q fun r => (k r).attempt

def tryCatch (p : Prog ε A α) (handler : ε → Prog ε A α) : Prog ε A α := do
  match ← p.attempt with
  | .ok a => ret a
  | .error e => handler e

def tryFinally (p : Prog ε A α) (finalizer : Prog ε A Unit) : Prog ε A α := do
  let outcome ← p.attempt
  finalizer
  ofExcept outcome

end Prog

/-! ## Monitors -/

structure Monitor (ε : Type) {Q : Type} (A : Q → Type) (σ : Type) where
  allows : σ → (q : Q) → Except ε (A q) → Prop
  after : σ → (q : Q) → Except ε (A q) → σ

namespace Prog
variable {ε Q : Type} {A : Q → Type} {α β σ : Type}

def Ends (m : Monitor ε A σ) (post : σ → Except ε α → Prop) : Prog ε A α → σ → Prop
  | ret a, s => post s (.ok a)
  | throw e, s => post s (.error e)
  | ask q k, s => ∀ r, m.allows s q r → (k r).Ends m post (m.after s q r)

variable {m : Monitor ε A σ}

variable {post : σ → Except ε α → Prop} {s : σ} {f : α → Prog ε A β}

theorem Ends.mono {post' : σ → Except ε α → Prop} (himp : ∀ s r, post s r → post' s r) :
    ∀ {p : Prog ε A α} {s : σ}, p.Ends m post s → p.Ends m post' s
  | ret _, _, h => himp _ _ h
  | throw _, _, h => himp _ _ h
  | ask _ _, _, h => fun r hr => (h r hr).mono himp

@[simp] theorem ends_pure {a : α} : (pure a : Prog ε A α).Ends m post s ↔ post s (.ok a) := .rfl

@[simp] theorem ends_ret {a : α} : (ret a : Prog ε A α).Ends m post s ↔ post s (.ok a) := .rfl

@[simp] theorem ends_throw {e : ε} :
    (throw e : Prog ε A α).Ends m post s ↔ post s (.error e) := .rfl

/-- What a sequence has to end in, after its first part. -/
def andThen (m : Monitor ε A σ) (post : σ → Except ε β → Prop) (f : α → Prog ε A β) (s : σ) : Except ε α → Prop
  | .ok a => (f a).Ends m post s
  | .error e => post s (.error e)

@[simp] theorem andThen_ok {post : σ → Except ε β → Prop} {a : α} :
    andThen m post f s (.ok a) ↔ (f a).Ends m post s := .rfl

@[simp] theorem andThen_error {post : σ → Except ε β → Prop} {e : ε} :
    andThen m post f s (.error e) ↔ post s (.error e) := .rfl

@[simp] theorem ends_bind {post : σ → Except ε β → Prop} :
    ∀ {p : Prog ε A α} {s : σ}, (p >>= f).Ends m post s ↔ p.Ends m (andThen m post f) s
  | ret _, _ => .rfl
  | throw _, _ => .rfl
  | ask _ _, _ => forall_congr' fun _ => imp_congr_right fun _ => ends_bind

@[simp] theorem ends_ofExcept {r : Except ε α} :
    (ofExcept r : Prog ε A α).Ends m post s ↔ post s r := by
  cases r <;> exact .rfl

@[simp] theorem ends_perform {q : Q} {post : σ → Except ε (A q) → Prop} :
    (perform q).Ends m post s ↔ ∀ r, m.allows s q r → post (m.after s q r) r :=
  forall_congr' fun _ => imp_congr_right fun _ => ends_ofExcept

@[simp] theorem ends_attempt {post : σ → Except ε (Except ε α) → Prop} :
    ∀ {p : Prog ε A α} {s : σ}, p.attempt.Ends m post s ↔ p.Ends m (fun s r => post s (.ok r)) s
  | ret _, _ => .rfl
  | throw _, _ => .rfl
  | ask _ _, _ => forall_congr' fun _ => imp_congr_right fun _ => ends_attempt

/-- What a caught program has to end in. -/
def orElse (m : Monitor ε A σ) (post : σ → Except ε α → Prop) (handler : ε → Prog ε A α) (s : σ) : Except ε α → Prop
  | .ok a => post s (.ok a)
  | .error e => (handler e).Ends m post s

@[simp] theorem ends_tryCatch {p : Prog ε A α} {handler : ε → Prog ε A α} :
    (p.tryCatch handler).Ends m post s ↔ p.Ends m (orElse m post handler) s := by
  unfold tryCatch
  rw [ends_bind, ends_attempt]
  have hr : (fun s r => andThen m post (fun r => match r with | .ok a => ret a | .error e => handler e) s (.ok r)) =
      orElse m post handler := by
    funext s r
    cases r <;> rfl
  rw [← hr]

theorem Ends.exists {I : σ → Prop} (hask : ∀ s q, I s → ∃ r, m.allows s q r ∧ I (m.after s q r)) :
    ∀ {p : Prog ε A α} {s : σ}, I s → p.Ends m post s → ∃ s r, I s ∧ post s r
  | ret _, _, hi, h => ⟨_, _, hi, h⟩
  | throw _, _, hi, h => ⟨_, _, hi, h⟩
  | ask q _, s, hi, h =>
    have ⟨r, hr, hi⟩ := hask s q hi
    Ends.exists hask hi (h r hr)

/-! ## Execution -/

/-- The program against an environment with a state of its own. -/
def exec (answer : (q : Q) → σ → Except ε (A q) × σ) : Prog ε A α → σ → Except ε α × σ
  | ret a, s => (.ok a, s)
  | throw e, s => (.error e, s)
  | ask q k, s => (k (answer q s).1).exec answer (answer q s).2

variable {answer : (q : Q) → σ → Except ε (A q) × σ}

/-- What a sequence does with the outcome of its first part. -/
def continueWith (answer : (q : Q) → σ → Except ε (A q) × σ) (f : α → Prog ε A β) : Except ε α × σ → Except ε β × σ
  | (.ok a, s) => (f a).exec answer s
  | (.error e, s) => (.error e, s)

@[simp] theorem exec_pure {a : α} : (pure a : Prog ε A α).exec answer s = (.ok a, s) := rfl

@[simp] theorem exec_throw {e : ε} : (throw e : Prog ε A α).exec answer s = (.error e, s) := rfl

@[simp] theorem exec_bind :
    ∀ {p : Prog ε A α} {s : σ}, (p >>= f).exec answer s = continueWith answer f (p.exec answer s)
  | ret _, _ => rfl
  | throw _, _ => rfl
  | ask _ k, _ => exec_bind (p := k _)

@[simp] theorem exec_ofExcept {r : Except ε α} : (ofExcept r : Prog ε A α).exec answer s = (r, s) := by
  cases r <;> rfl

@[simp] theorem exec_perform {q : Q} : (perform q).exec answer s = answer q s := exec_ofExcept

@[simp] theorem exec_attempt :
    ∀ {p : Prog ε A α} {s : σ}, p.attempt.exec answer s = (.ok (p.exec answer s).1, (p.exec answer s).2)
  | ret _, _ => rfl
  | throw _, _ => rfl
  | ask _ k, _ => exec_attempt (p := k _)

/-! ## Two executions -/

/-- The two programs end alike, in states related by `R`. -/
def Alike (answer answer' : (q : Q) → σ → Except ε (A q) × σ) (R : σ → σ → Prop) (p p' : Prog ε A α) (s s' : σ) : Prop :=
  (p.exec answer s).1 = (p'.exec answer' s').1 ∧ R (p.exec answer s).2 (p'.exec answer' s').2

section
variable {answer' : (q : Q) → σ → Except ε (A q) × σ} {R R' : σ → σ → Prop} {s s' : σ}

theorem Alike.pure {a : α} (h : R s s') : Alike answer answer' R (pure a) (pure a) s s' := ⟨rfl, h⟩

theorem Alike.throw {e : ε} (h : R s s') : Alike answer answer' R (Prog.throw e : Prog ε A α) (Prog.throw e) s s' := ⟨rfl, h⟩

theorem Alike.bind {p p' : Prog ε A α} {f f' : α → Prog ε A β} (h : Alike answer answer' R p p' s s')
    (herror : ∀ s s', R s s' → R' s s') (hok : ∀ a s s', R s s' → Alike answer answer' R' (f a) (f' a) s s') :
    Alike answer answer' R' (p >>= f) (p' >>= f') s s' := by
  obtain ⟨he, hr⟩ := h
  unfold Alike
  rw [exec_bind, exec_bind]
  revert he hr
  obtain ⟨r, t⟩ := p.exec answer s
  obtain ⟨r', t'⟩ := p'.exec answer' s'
  rintro rfl hr
  cases r with
  | ok a => exact hok a t t' hr
  | error e => exact ⟨rfl, herror t t' hr⟩

theorem Alike.attempt_bind {p p' : Prog ε A α} {f f' : Except ε α → Prog ε A β} (h : Alike answer answer' R p p' s s')
    (hf : ∀ r s s', R s s' → Alike answer answer' R' (f r) (f' r) s s') :
    Alike answer answer' R' (p.attempt >>= f) (p'.attempt >>= f') s s' := by
  unfold Alike
  rw [exec_bind, exec_bind, exec_attempt, exec_attempt, h.1]
  exact hf _ _ _ h.2

end

end Prog
end Fluo.Lib
