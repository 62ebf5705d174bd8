import Fluo.Lib.Runs
/-!
# Refresh token rotation

`RefreshTokenService` with rotation enabled, over a store that offers the
atomic `consume` and no `rotate`. A `rotateRefreshToken` call is a sequence of
store operations with an `await` after each, so the operations of any number of
calls interleave in any order.

The store is anything that keeps the contract of `RefreshTokenStore`; it is
stated with the subject for whom a token can be consumed.
-/

namespace Fluo.Jwt

open Lib (Run after passes step_after)

/-- A `randomUUID`: no id is drawn twice. -/
abbrev TokenId := Nat

structure RefreshTokenRecord where
  id : TokenId
  subject : String
  family : String
  expiresAt : Nat
  createdAt : Nat
  used : Bool
  deriving DecidableEq

inductive RefreshTokenConsumeResult
  | consumed
  | alreadyUsed
  | expired
  | notFound
  | mismatch
  | invalid

structure RefreshTokenConsumeInput where
  tokenId : TokenId
  subject : String
  family : String
  now : Nat

/-! ## Stores -/

/-- A store whose operations are atomic. `subjectOf` says which tokens can be
consumed, and for whom. -/
structure RefreshTokenStore (σ : Type) where
  save : σ → RefreshTokenRecord → σ
  revoke : σ → TokenId → σ
  revokeBySubject : σ → String → σ
  consume : σ → RefreshTokenConsumeInput → RefreshTokenConsumeResult × σ
  subjectOf : σ → TokenId → Option String
  /-- A token is consumed for its own subject, and no second time. -/
  consumed : ∀ s i, (consume s i).1 = .consumed → subjectOf s i.tokenId = some i.subject ∧
    subjectOf (consume s i).2 i.tokenId = none
  /-- Only `save` makes a token consumable. -/
  consume_keeps : ∀ s i t u, subjectOf (consume s i).2 t = some u → subjectOf s t = some u
  revoke_keeps : ∀ s i t u, subjectOf (revoke s i) t = some u → subjectOf s t = some u
  revokeBySubject_keeps : ∀ s v t u, subjectOf (revokeBySubject s v) t = some u → subjectOf s t = some u ∧ u ≠ v
  saved : ∀ s r t u, subjectOf (save s r) t = some u → t = r.id ∧ u = r.subject ∨ subjectOf s t = some u

/-- A `Map` from token ids to records. -/
abbrev Records := TokenId → Option RefreshTokenRecord

/-- `InMemoryRefreshTokenStore.consume` -/
def Records.consume (s : Records) (i : RefreshTokenConsumeInput) : RefreshTokenConsumeResult × Records :=
  match s i.tokenId with
  | none => (.notFound, s)
  | some r =>
    if r.subject ≠ i.subject ∨ r.family ≠ i.family then (.mismatch, s)
    else if r.expiresAt ≤ i.now then (.expired, s)
    else if r.used then (.alreadyUsed, s)
    else (.consumed, fun t => if t = i.tokenId then some { r with used := true } else s t)

/-- The subject for whom an unused record can be consumed. -/
def Records.subjectOf (s : Records) (t : TokenId) : Option String := (s t).bind fun r => if r.used then none else some r.subject

theorem Records.consume_keeps (s : Records) (i : RefreshTokenConsumeInput) (t : TokenId) (u : String)
    (h : (s.consume i).2.subjectOf t = some u) : s.subjectOf t = some u := by
  unfold Records.consume at h
  split at h
  · exact h
  · split at h
    · exact h
    · split at h
      · exact h
      · split at h
        · exact h
        · simp only [Records.subjectOf] at h ⊢
          split at h
          · simp at h
          · exact h

/-- The store that the tests of the service use, without its `rotate`. -/
def inMemoryRefreshTokenStore : RefreshTokenStore Records where
  save s r := fun t => if t = r.id then some r else s t
  revoke s i := fun t => if t = i then none else s t
  revokeBySubject s v := fun t => (s t).filter fun r => r.subject ≠ v
  consume := Records.consume
  subjectOf := Records.subjectOf
  consumed s i h := by grind [Records.consume, Records.subjectOf]
  consume_keeps := Records.consume_keeps
  revoke_keeps s i t u h := by
    simp only [Records.subjectOf] at h ⊢
    split at h
    · cases h
    · exact h
  revokeBySubject_keeps s v t u h := by
    obtain ⟨r, hr, hu⟩ := Option.bind_eq_some_iff.1 h
    obtain ⟨hr, hv⟩ := Option.filter_eq_some_iff.1 hr
    refine ⟨by simp only [Records.subjectOf, hr]; exact hu, ?_⟩
    split at hu
    · cases hu
    · cases hu; simpa using hv
  saved s r t u h := by
    simp only [Records.subjectOf] at h ⊢
    split at h
    · rename_i ht
      simp only [Option.bind_some] at h
      split at h
      · cases h
      · cases h; exact .inl ⟨ht, rfl⟩
    · exact .inr h

/-- What a signed refresh token says. -/
structure RefreshTokenClaims where
  jti : TokenId
  sub : String
  family : String
  deriving DecidableEq

inductive JwtError
  | invalidToken (message : String)
  | expiredToken (message : String)
  deriving DecidableEq

/-- How far a `rotateRefreshToken` call has come. -/
inductive Stage
  /-- It awaits `store.consume`. -/
  | consuming
  /-- The old token is consumed; it awaits `store.save` of the next record. -/
  | saving
  /-- The old token was already used; it awaits `store.revokeBySubject`. -/
  | revoking
  | rotated
  | failed (error : JwtError)
  deriving DecidableEq

/-- The error of a call that has detected a reuse and revoked the subject. -/
def reuseDetected : JwtError := .invalidToken "Refresh token reuse detected."

structure Call where
  claims : RefreshTokenClaims
  next : RefreshTokenRecord
  stage : Stage
  deriving DecidableEq

structure State (σ : Type) where
  store : σ
  calls : List Call := []
  /-- Records of `issueRefreshToken` calls that are signed and not yet saved. -/
  issuing : List RefreshTokenRecord := []
  nextId : TokenId := 0
  /-- The tokens that calls have returned. A verified token is one of them. -/
  known : List RefreshTokenClaims := []

inductive Label
  /-- `issueRefreshToken` signs a token of a new family. -/
  | issue (subject family : String) (createdAt expiresAt : Nat)
  /-- The oldest pending `issueRefreshToken` saves its record and returns. -/
  | saveIssued
  /-- `rotateRefreshToken` verifies the token and signs the next one. -/
  | rotate (claims : RefreshTokenClaims) (createdAt expiresAt : Nat)
  /-- The next store operation of call `k`. -/
  | advance (k : Nat) (now : Nat)
  | revokeRefreshToken (tokenId : TokenId)
  | revokeAllForSubject (subject : String)

variable {σ : Type} (store : RefreshTokenStore σ)

def RefreshTokenRecord.claims (r : RefreshTokenRecord) : RefreshTokenClaims := ⟨r.id, r.subject, r.family⟩

/-- What `rotateRefreshToken` does with the result of `consume`. -/
def Stage.afterConsume : RefreshTokenConsumeResult → Stage
  | .consumed => .saving
  | .alreadyUsed => .revoking
  | .expired => .failed (.expiredToken "Refresh token has expired.")
  | .notFound | .invalid => .failed (.invalidToken "Refresh token record was not found.")
  | .mismatch => .failed (.invalidToken "Refresh token record does not match token claims.")

/-- One store operation of a `rotateRefreshToken` call. -/
def Call.advance (c : Call) (s : σ) (now : Nat) : Option (Stage × σ) :=
  match c.stage with
  | .consuming =>
    let (result, s') := store.consume s ⟨c.claims.jti, c.claims.sub, c.claims.family, now⟩
    some (.afterConsume result, s')
  | .saving => some (.rotated, store.save s c.next)
  | .revoking => some (.failed reuseDetected, store.revokeBySubject s c.claims.sub)
  | _ => none

def step (s : State σ) : Label → Option (State σ)
  | .issue subject family createdAt expiresAt => some { s with
      issuing := s.issuing ++ [⟨s.nextId, subject, family, expiresAt, createdAt, false⟩], nextId := s.nextId + 1 }
  | .saveIssued => match s.issuing with
    | [] => none
    | r :: rest => some { s with store := store.save s.store r, issuing := rest, known := r.claims :: s.known }
  | .rotate claims createdAt expiresAt =>
    if claims ∈ s.known then
      some { s with
        calls := s.calls ++ [⟨claims, ⟨s.nextId, claims.sub, claims.family, expiresAt, createdAt, false⟩, .consuming⟩]
        nextId := s.nextId + 1 }
    else none
  | .advance k now => do
    let c ← s.calls[k]?
    let (stage, store') ← c.advance store s.store now
    return { s with
      store := store'
      calls := s.calls.set k { c with stage }
      known := if stage = .rotated then c.next.claims :: s.known else s.known }
  | .revokeRefreshToken tokenId => some { s with store := store.revoke s.store tokenId }
  | .revokeAllForSubject subject => some { s with store := store.revokeBySubject s.store subject }

/-! ## Invariant -/

/-- The call has consumed its token: it is rotated, or will be. -/
def Call.Consumed (c : Call) : Prop := c.stage = .saving ∨ c.stage = .rotated

structure Inv (s : State σ) : Prop where
  nextIds : ∀ c ∈ s.calls, c.next.id < s.nextId
  issuingIds : ∀ r ∈ s.issuing, r.id < s.nextId
  knownIds : ∀ t ∈ s.known, t.jti < s.nextId
  subject : ∀ c ∈ s.calls, c.next.subject = c.claims.sub
  presented : ∀ c ∈ s.calls, c.claims ∈ s.known
  /-- Only saved records are handed out. -/
  unsaved : ∀ c ∈ s.calls, c.stage ≠ .rotated → ∀ t ∈ s.known, t.jti ≠ c.next.id
  unissued : ∀ r ∈ s.issuing, ∀ t ∈ s.known, t.jti ≠ r.id
  issuingNext : ∀ c ∈ s.calls, ∀ r ∈ s.issuing, c.next.id ≠ r.id
  issuingNodup : (s.issuing.map (·.id)).Nodup
  nextUnique : ∀ (j k : Nat) (c d : Call), s.calls[j]? = some c → s.calls[k]? = some d → c.next.id = d.next.id → j = k
  knownSubject : ∀ t ∈ s.known, ∀ t' ∈ s.known, t.jti = t'.jti → t.sub = t'.sub
  consumable : ∀ t u, store.subjectOf s.store t = some u → ∃ c ∈ s.known, c.jti = t ∧ c.sub = u
  spent : ∀ c ∈ s.calls, c.Consumed → store.subjectOf s.store c.claims.jti = none
  /-- The token of a finished rotation is handed out. -/
  rotated : ∀ c ∈ s.calls, c.stage = .rotated → c.next.claims ∈ s.known
  once : ∀ (j k : Nat) (c d : Call), s.calls[j]? = some c → s.calls[k]? = some d → c.Consumed → d.Consumed →
    c.claims.jti = d.claims.jti → j = k

theorem Inv.init (s₀ : σ) (h : ∀ t, store.subjectOf s₀ t = none) : Inv store { store := s₀ } := by
  constructor <;> simp [h]

variable {store} {s s' : State σ}

theorem Call.advance_cases {c : Call} {now : Nat} {stage : Stage} {x y : σ} (h : c.advance store x now = some (stage, y)) :
    (c.stage = .consuming ∧ stage = .saving ∧ store.subjectOf x c.claims.jti = some c.claims.sub ∧
      store.subjectOf y c.claims.jti = none ∧ ∀ t u, store.subjectOf y t = some u → store.subjectOf x t = some u) ∨
    (c.stage = .consuming ∧ stage ≠ .saving ∧ stage ≠ .rotated ∧
      ∀ t u, store.subjectOf y t = some u → store.subjectOf x t = some u) ∨
    (c.stage = .saving ∧ stage = .rotated ∧ y = store.save x c.next) ∨
    (c.stage = .revoking ∧ stage = .failed reuseDetected ∧ y = store.revokeBySubject x c.claims.sub) := by
  unfold Call.advance at h
  split at h
  · rename_i hs
    simp only [Option.some.injEq, Prod.mk.injEq] at h
    obtain ⟨rfl, rfl⟩ := h
    generalize hi : (⟨c.claims.jti, c.claims.sub, c.claims.family, now⟩ : RefreshTokenConsumeInput) = i
    have hkeeps := store.consume_keeps x i
    cases hr : (store.consume x i).1 with
    | consumed =>
      obtain ⟨h₁, h₂⟩ := store.consumed x i hr
      subst hi
      exact .inl ⟨hs, rfl, h₁, h₂, hkeeps⟩
    | _ => exact .inr (.inl ⟨hs, by simp [Stage.afterConsume], by simp [Stage.afterConsume], hkeeps⟩)
  · rename_i hs
    cases h
    exact .inr (.inr (.inl ⟨hs, rfl, rfl⟩))
  · rename_i hs
    cases h
    exact .inr (.inr (.inr ⟨hs, rfl, rfl⟩))
  · cases h

theorem Inv.revoked (h : Inv store s) {y : σ} (hy : ∀ t u, store.subjectOf y t = some u → store.subjectOf s.store t = some u) :
    Inv store { s with store := y } := by
  refine { h with consumable := fun t u ht => h.consumable t u (hy t u ht), spent := fun c hc hcon => ?_ }
  cases hsub : store.subjectOf y c.claims.jti with
  | none => rfl
  | some u =>
    have := hy _ _ hsub
    rw [h.spent c hc hcon] at this
    cases this

theorem Inv.issue (h : Inv store s) (subject family : String) (createdAt expiresAt : Nat) : Inv store { s with
    issuing := s.issuing ++ [⟨s.nextId, subject, family, expiresAt, createdAt, false⟩], nextId := s.nextId + 1 } := by
  have hmem : ∀ {r : RefreshTokenRecord}, r ∈ s.issuing ++ [⟨s.nextId, subject, family, expiresAt, createdAt, false⟩] →
      r ∈ s.issuing ∨ r.id = s.nextId := by
    intro r hr
    rcases List.mem_append.1 hr with hr | hr
    · exact .inl hr
    · rw [List.mem_singleton.1 hr]; exact .inr rfl
  refine { h with
    nextIds := fun c hc => Nat.lt_succ_of_lt (h.nextIds c hc)
    issuingIds := fun r hr => ?_, knownIds := fun t ht => Nat.lt_succ_of_lt (h.knownIds t ht)
    unissued := fun r hr t ht => ?_, issuingNext := fun c hc r hr => ?_, issuingNodup := ?_ }
  · rcases hmem hr with hr | hr
    · exact Nat.lt_succ_of_lt (h.issuingIds r hr)
    · rw [hr]; exact Nat.lt_succ_self _
  · rcases hmem hr with hr | hr
    · exact h.unissued r hr t ht
    · rw [hr]; exact Nat.ne_of_lt (h.knownIds t ht)
  · rcases hmem hr with hr | hr
    · exact h.issuingNext c hc r hr
    · rw [hr]; exact Nat.ne_of_lt (h.nextIds c hc)
  · rw [List.map_append, List.nodup_append]
    refine ⟨h.issuingNodup, by simp, ?_⟩
    simp only [List.map_cons, List.map_nil, List.mem_singleton, List.mem_map]
    rintro _ ⟨r, hr, rfl⟩ _ rfl
    exact Nat.ne_of_lt (h.issuingIds r hr)

theorem Inv.save (h : Inv store s) {r : RefreshTokenRecord} (hid : r.id < s.nextId) (hnew : ∀ t ∈ s.known, t.jti ≠ r.id)
    (hnext : ∀ c ∈ s.calls, c.stage ≠ .rotated → r.id ≠ c.next.id) (hissuing : ∀ r' ∈ s.issuing, r.id ≠ r'.id) :
    Inv store { s with store := store.save s.store r, known := r.claims :: s.known } := by
  refine { h with
    knownIds := List.forall_mem_cons.2 ⟨hid, h.knownIds⟩
    presented := fun c hc => List.mem_cons_of_mem _ (h.presented c hc)
    unsaved := fun c hc hs => List.forall_mem_cons.2 ⟨hnext c hc hs, h.unsaved c hc hs⟩
    unissued := fun r' hr' => List.forall_mem_cons.2 ⟨hissuing r' hr', h.unissued r' hr'⟩
    rotated := fun c hc hs => List.mem_cons_of_mem _ (h.rotated c hc hs)
    knownSubject := ?_, consumable := fun t u ht => ?_, spent := fun c hc hcon => ?_ }
  · refine List.forall_mem_cons.2 ⟨List.forall_mem_cons.2 ⟨fun _ => rfl, fun t ht he => ?_⟩, fun t ht => ?_⟩
    · exact absurd he.symm (hnew t ht)
    · exact List.forall_mem_cons.2 ⟨fun he => absurd he (hnew t ht), h.knownSubject t ht⟩
  · rcases store.saved _ _ _ _ ht with ⟨rfl, rfl⟩ | ht
    · exact ⟨r.claims, List.mem_cons_self, rfl, rfl⟩
    · obtain ⟨c, hc, hcu⟩ := h.consumable t u ht
      exact ⟨c, List.mem_cons_of_mem _ hc, hcu⟩
  · cases hsub : store.subjectOf (store.save s.store r) c.claims.jti with
    | none => rfl
    | some u =>
      rcases store.saved _ _ _ _ hsub with ⟨he, _⟩ | hsub
      · exact absurd he (hnew _ (h.presented c hc))
      · rw [h.spent c hc hcon] at hsub; cases hsub

theorem Inv.rotate (h : Inv store s) {claims : RefreshTokenClaims} (hk : claims ∈ s.known) (createdAt expiresAt : Nat) :
    Inv store { s with
      calls := s.calls ++ [⟨claims, ⟨s.nextId, claims.sub, claims.family, expiresAt, createdAt, false⟩, .consuming⟩]
      nextId := s.nextId + 1 } := by
  generalize hc : (⟨claims, ⟨s.nextId, claims.sub, claims.family, expiresAt, createdAt, false⟩, .consuming⟩ : Call) = c
  have hid : c.next.id = s.nextId := by rw [← hc]
  have hnot : ¬ c.Consumed := by rw [← hc]; simp [Call.Consumed]
  have hmem : ∀ {P : Call → Prop}, (∀ d ∈ s.calls, P d) → P c → ∀ d ∈ s.calls ++ [c], P d := by
    intro P hold hnew d hd
    rcases List.mem_append.1 hd with hd | hd
    · exact hold d hd
    · rw [List.mem_singleton.1 hd]; exact hnew
  have hget : ∀ {j d}, (s.calls ++ [c])[j]? = some d → s.calls[j]? = some d ∨ j = s.calls.length ∧ d = c := by
    intro j d hd
    rcases Nat.lt_trichotomy j s.calls.length with hj | hj | hj
    · rw [List.getElem?_append_left hj] at hd; exact .inl hd
    · subst hj; simp at hd; exact .inr ⟨rfl, hd.symm⟩
    · rw [List.getElem?_append_right (Nat.le_of_lt hj), List.getElem?_eq_none] at hd
      · cases hd
      · simp only [List.length_singleton]; omega
  refine { h with
    nextIds := hmem (fun d hd => Nat.lt_succ_of_lt (h.nextIds d hd)) (by rw [hid]; exact Nat.lt_succ_self _)
    issuingIds := fun r hr => Nat.lt_succ_of_lt (h.issuingIds r hr)
    knownIds := fun t ht => Nat.lt_succ_of_lt (h.knownIds t ht)
    subject := hmem h.subject (by rw [← hc]), presented := hmem h.presented (by rw [← hc]; exact hk)
    unsaved := hmem h.unsaved fun _ t ht => by rw [hid]; exact Nat.ne_of_lt (h.knownIds t ht)
    issuingNext := hmem h.issuingNext fun r hr => by rw [hid]; exact Nat.ne_of_gt (h.issuingIds r hr)
    nextUnique := fun j k d e hd he heq => ?_
    spent := hmem h.spent fun hcon => absurd hcon hnot
    rotated := hmem h.rotated fun hs => absurd (.inr hs) hnot
    once := fun j k d e hd he hcd hce heq => ?_ }
  · rcases hget hd with hd' | ⟨rfl, rfl⟩ <;> rcases hget he with he' | ⟨rfl, rfl⟩
    · exact h.nextUnique j k d e hd' he' heq
    · exact absurd (heq.trans hid) (Nat.ne_of_lt (h.nextIds d (List.mem_of_getElem? hd')))
    · exact absurd (heq.symm.trans hid) (Nat.ne_of_lt (h.nextIds e (List.mem_of_getElem? he')))
    · rfl
  · rcases hget hd with hd | ⟨rfl, rfl⟩
    · rcases hget he with he | ⟨rfl, rfl⟩
      · exact h.once j k d e hd he hcd hce heq
      · exact absurd hce hnot
    · exact absurd hcd hnot

/-! ## Steps -/

theorem getElem?_set_cases {l : List Call} {k j : Nat} {c d : Call} (h : (l.set k c)[j]? = some d) :
    j = k ∧ d = c ∨ j ≠ k ∧ l[j]? = some d := by
  rw [List.getElem?_set] at h
  split at h
  · rename_i hk
    split at h
    · exact .inl ⟨hk.symm, (Option.some.inj h).symm⟩
    · cases h
  · rename_i hk
    exact .inr ⟨Ne.symm hk, h⟩

theorem Inv.set (h : Inv store s) {k : Nat} {c : Call} (hc : s.calls[k]? = some c) {stage : Stage} {y : σ}
    (hstage : c.stage ≠ .rotated ∧ stage ≠ .rotated) (hy : ∀ t u, store.subjectOf y t = some u → store.subjectOf s.store t = some u)
    (hcon : stage = .saving → store.subjectOf s.store c.claims.jti ≠ none ∧ store.subjectOf y c.claims.jti = none) :
    Inv store { s with store := y, calls := s.calls.set k { c with stage } } := by
  have hmem : ∀ {P : Call → Prop}, (∀ d ∈ s.calls, P d) → P { c with stage } → ∀ d ∈ s.calls.set k { c with stage }, P d := by
    intro P hold hnew d hd
    rcases List.mem_or_eq_of_mem_set hd with hd | rfl
    · exact hold d hd
    · exact hnew
  have hcm := List.mem_of_getElem? hc
  have hnone : ∀ t, store.subjectOf s.store t = none → store.subjectOf y t = none := by
    intro t ht
    cases hs : store.subjectOf y t with
    | none => rfl
    | some u => rw [hy t u hs] at ht; cases ht
  refine { h with
    nextIds := hmem h.nextIds (h.nextIds c hcm), subject := hmem h.subject (h.subject c hcm)
    presented := hmem h.presented (h.presented c hcm)
    unsaved := hmem h.unsaved fun _ => h.unsaved c hcm hstage.1
    issuingNext := hmem h.issuingNext (h.issuingNext c hcm)
    rotated := hmem h.rotated fun hs => absurd hs hstage.2
    nextUnique := fun i j d e hd he heq => ?_, consumable := fun t u ht => h.consumable t u (hy t u ht)
    spent := hmem (fun d hd hcd => hnone _ (h.spent d hd hcd)) fun hcd => ?_
    once := fun i j d e hd he hcd hce heq => ?_ }
  · rcases getElem?_set_cases hd with ⟨rfl, rfl⟩ | ⟨_, hd'⟩ <;> rcases getElem?_set_cases he with ⟨rfl, rfl⟩ | ⟨_, he'⟩
    · rfl
    · exact h.nextUnique _ _ c e hc he' heq
    · exact h.nextUnique _ _ d c hd' hc heq
    · exact h.nextUnique _ _ d e hd' he' heq
  · exact (hcon (hcd.resolve_right hstage.2)).2
  · -- the token that is consumed now was not consumed before
    have hfresh : ∀ d ∈ s.calls, d.Consumed → Call.Consumed { c with stage } → d.claims.jti ≠ c.claims.jti :=
      fun d hd hcd hcc heq => (hcon (hcc.resolve_right hstage.2)).1 (heq ▸ h.spent d hd hcd)
    rcases getElem?_set_cases hd with ⟨rfl, rfl⟩ | ⟨_, hd'⟩ <;> rcases getElem?_set_cases he with ⟨rfl, rfl⟩ | ⟨_, he'⟩
    · rfl
    · exact absurd heq.symm (hfresh e (List.mem_of_getElem? he') hce hcd)
    · exact absurd heq (hfresh d (List.mem_of_getElem? hd') hcd hce)
    · exact h.once _ _ d e hd' he' hcd hce heq

theorem Inv.finish (h : Inv store s) {k : Nat} {c : Call} (hc : s.calls[k]? = some c) (hs : c.stage = .saving) :
    Inv store { s with store := store.save s.store c.next, calls := s.calls.set k { c with stage := .rotated },
                       known := c.next.claims :: s.known } := by
  have hcm := List.mem_of_getElem? hc
  have hnew := h.unsaved c hcm (by rw [hs]; decide)
  have hother : ∀ d ∈ s.calls.set k { c with stage := .rotated }, d = { c with stage := .rotated } ∨
      d ∈ s.calls ∧ c.next.id ≠ d.next.id := by
    intro d hd
    obtain ⟨j, hj⟩ := List.mem_iff_getElem?.1 hd
    rcases getElem?_set_cases hj with ⟨rfl, rfl⟩ | ⟨hne, hj⟩
    · exact .inl rfl
    · exact .inr ⟨List.mem_of_getElem? hj, fun heq => hne (h.nextUnique k j c d hc hj heq).symm⟩
  have hspent : ∀ d ∈ s.calls, d.Consumed → store.subjectOf (store.save s.store c.next) d.claims.jti = none := by
    intro d hd hcd
    cases hsub : store.subjectOf (store.save s.store c.next) d.claims.jti with
    | none => rfl
    | some u =>
      rcases store.saved _ _ _ _ hsub with ⟨he, _⟩ | hsub
      · exact absurd he (hnew _ (h.presented d hd))
      · rw [h.spent d hd hcd] at hsub; cases hsub
  refine ⟨fun d hd => ?_, h.issuingIds, List.forall_mem_cons.2 ⟨h.nextIds c hcm, h.knownIds⟩, fun d hd => ?_, fun d hd => ?_,
    fun d hd hds => ?_, fun r hr => List.forall_mem_cons.2 ⟨h.issuingNext c hcm r hr, h.unissued r hr⟩, fun d hd => ?_,
    h.issuingNodup, fun i j d e hd he heq => ?_, ?_, fun t u ht => ?_, fun d hd hcd => ?_, fun d hd hds => ?_,
    fun i j d e hd he hcd hce heq => ?_⟩
  · rcases hother d hd with rfl | ⟨hd, _⟩
    · exact h.nextIds c hcm
    · exact h.nextIds d hd
  · rcases hother d hd with rfl | ⟨hd, _⟩
    · exact h.subject c hcm
    · exact h.subject d hd
  · rcases hother d hd with rfl | ⟨hd, _⟩
    · exact List.mem_cons_of_mem _ (h.presented c hcm)
    · exact List.mem_cons_of_mem _ (h.presented d hd)
  · rcases hother d hd with rfl | ⟨hd, hne⟩
    · exact absurd rfl hds
    · exact List.forall_mem_cons.2 ⟨hne, h.unsaved d hd hds⟩
  · rcases hother d hd with rfl | ⟨hd, _⟩
    · exact h.issuingNext c hcm
    · exact h.issuingNext d hd
  · rcases getElem?_set_cases hd with ⟨rfl, rfl⟩ | ⟨_, hd'⟩ <;> rcases getElem?_set_cases he with ⟨rfl, rfl⟩ | ⟨_, he'⟩
    · rfl
    · exact h.nextUnique _ _ c e hc he' heq
    · exact h.nextUnique _ _ d c hd' hc heq
    · exact h.nextUnique _ _ d e hd' he' heq
  · refine List.forall_mem_cons.2 ⟨List.forall_mem_cons.2 ⟨fun _ => rfl, fun t ht he => absurd he.symm (hnew t ht)⟩, fun t ht => ?_⟩
    exact List.forall_mem_cons.2 ⟨fun he => absurd he (hnew t ht), h.knownSubject t ht⟩
  · rcases store.saved _ _ _ _ ht with ⟨rfl, rfl⟩ | ht
    · exact ⟨_, List.mem_cons_self, rfl, rfl⟩
    · obtain ⟨t', ht', he⟩ := h.consumable t u ht
      exact ⟨t', List.mem_cons_of_mem _ ht', he⟩
  · rcases hother d hd with rfl | ⟨hd, _⟩
    · exact hspent c hcm (.inl hs)
    · exact hspent d hd hcd
  · rcases hother d hd with rfl | ⟨hd, _⟩
    · exact List.mem_cons_self
    · exact List.mem_cons_of_mem _ (h.rotated d hd hds)
  · rcases getElem?_set_cases hd with ⟨rfl, rfl⟩ | ⟨_, hd'⟩ <;> rcases getElem?_set_cases he with ⟨rfl, rfl⟩ | ⟨_, he'⟩
    · rfl
    · exact h.once _ _ c e hc he' (.inl hs) hce heq
    · exact h.once _ _ d c hd' hc hcd (.inl hs) heq
    · exact h.once _ _ d e hd' he' hcd hce heq

theorem Inv.step (h : Inv store s) {l : Label} (hs : Jwt.step store s l = some s') : Inv store s' := by
  cases l with
  | issue subject family createdAt expiresAt => cases hs; exact h.issue _ _ _ _
  | saveIssued =>
    simp only [Jwt.step] at hs
    split at hs
    · cases hs
    · rename_i r rest hr
      cases hs
      have hmem : ∀ r' ∈ r :: rest, r' ∈ s.issuing := fun r' hr' => hr ▸ hr'
      have hnodup := h.issuingNodup
      rw [hr, List.map_cons, List.nodup_cons] at hnodup
      have hi : Inv store { s with issuing := rest } := { h with
        issuingIds := fun r' hr' => h.issuingIds r' (hmem r' (List.mem_cons_of_mem _ hr'))
        unissued := fun r' hr' => h.unissued r' (hmem r' (List.mem_cons_of_mem _ hr'))
        issuingNext := fun c hc r' hr' => h.issuingNext c hc r' (hmem r' (List.mem_cons_of_mem _ hr'))
        issuingNodup := hnodup.2 }
      have hrm := hmem r List.mem_cons_self
      exact hi.save (h.issuingIds r hrm) (h.unissued r hrm) (fun c hc _ => (h.issuingNext c hc r hrm).symm)
        fun r' hr' he => hnodup.1 (List.mem_map.2 ⟨r', hr', he.symm⟩)
  | rotate claims createdAt expiresAt =>
    simp only [Jwt.step] at hs
    split at hs <;> cases hs
    exact h.rotate ‹_› _ _
  | advance k now =>
    obtain ⟨c, hc, hs⟩ := Option.bind_eq_some_iff.1 hs
    obtain ⟨⟨stage, y⟩, ha, hs⟩ := Option.bind_eq_some_iff.1 hs
    cases hs
    rcases Call.advance_cases ha with ⟨hcs, rfl, h₁, h₂, hy⟩ | ⟨hcs, hsav, hrot, hy⟩ | ⟨hcs, rfl, rfl⟩ | ⟨hcs, rfl, rfl⟩
    · exact h.set hc ⟨by rw [hcs]; decide, by decide⟩ hy fun _ => ⟨by rw [h₁]; simp, h₂⟩
    · rw [if_neg hrot]
      exact h.set hc ⟨by rw [hcs]; decide, hrot⟩ hy fun hsv => absurd hsv hsav
    · exact h.finish hc hcs
    · exact h.set hc ⟨by rw [hcs]; decide, by decide⟩ (fun t u ht => (store.revokeBySubject_keeps _ _ _ _ ht).1)
        fun hsv => by cases hsv
  | revokeRefreshToken tokenId => cases hs; exact h.revoked fun t u ht => store.revoke_keeps _ _ _ _ ht
  | revokeAllForSubject subject =>
    cases hs
    exact h.revoked fun t u ht => (store.revokeBySubject_keeps _ _ _ _ ht).1

/-! ## Reuse reports -/

/-- A reuse report revokes no subject of which a rotation is between its
`consume` and its `save`. -/
def Undisturbed (s : State σ) : Label → Prop
  | .advance k _ => ∀ b, s.calls[k]? = some b → b.stage = .revoking →
      ∀ a ∈ s.calls, a.claims.sub = b.claims.sub → a.stage ≠ .saving
  | _ => True

/-- What is left of a subject after a report that saw the calls `old`: its
calls can not consume any more, nor can their successors be consumed. -/
structure Reported (store : RefreshTokenStore σ) (u : String) (old : List Call) (s : State σ) : Prop where
  inv : Inv store s
  /-- Every old call keeps its index, its claims and its next record. -/
  kept : ∀ (j : Nat) (a : Call), old[j]? = some a → ∃ stage, s.calls[j]? = some { a with stage }
  stuck : ∀ (j : Nat) (a c : Call), old[j]? = some a → a.claims.sub = u → s.calls[j]? = some c →
    c.stage ≠ .saving ∧ (c.stage = .consuming → store.subjectOf s.store c.claims.jti = none)
  gone : ∀ a ∈ old, a.claims.sub = u → store.subjectOf s.store a.next.id = none
  /-- What is rotated of their successors was rotated before the report. -/
  before : ∀ a ∈ old, a.claims.sub = u → ∀ (j : Nat) (c : Call), s.calls[j]? = some c → c.Consumed →
    c.claims.jti = a.next.id → old[j]? = some c ∧ c.stage = .rotated

theorem Inv.successor_subject (h : Inv store s) {a c : Call} (ha : a ∈ s.calls) (hc : c ∈ s.calls)
    (he : c.claims.jti = a.next.id) : c.claims.sub = a.claims.sub := by
  have hrot : a.stage = .rotated := Classical.by_contradiction fun hne => h.unsaved a ha hne _ (h.presented c hc) he
  have := h.knownSubject _ (h.presented c hc) _ (h.rotated a ha hrot) he
  rw [this, ← h.subject a ha]
  rfl

theorem Inv.reported (h : Inv store s) {k now : Nat} {b : Call} (hb : s.calls[k]? = some b) (hrev : b.stage = .revoking)
    (hok : Undisturbed s (.advance k now)) (hs : Jwt.step store s (.advance k now) = some s') :
    Reported store b.claims.sub s'.calls s' := by
  have h' := h.step hs
  obtain ⟨c, hc, hs⟩ := Option.bind_eq_some_iff.1 hs
  obtain ⟨⟨stage, y⟩, ha, hs⟩ := Option.bind_eq_some_iff.1 hs
  rw [hb] at hc
  cases hc
  obtain ⟨rfl, rfl⟩ : stage = .failed reuseDetected ∧ y = store.revokeBySubject s.store b.claims.sub := by
    rcases Call.advance_cases ha with ⟨hcs, _⟩ | ⟨hcs, _⟩ | ⟨hcs, _⟩ | ⟨_, rfl, rfl⟩
    · rw [hrev] at hcs; cases hcs
    · rw [hrev] at hcs; cases hcs
    · rw [hrev] at hcs; cases hcs
    · exact ⟨rfl, rfl⟩
  cases hs
  -- nothing of the subject is left in the store
  have hnone : ∀ t, (∀ u, store.subjectOf (store.revokeBySubject s.store b.claims.sub) t = some u → u = b.claims.sub) →
      store.subjectOf (store.revokeBySubject s.store b.claims.sub) t = none := by
    intro t ht
    cases hsub : store.subjectOf (store.revokeBySubject s.store b.claims.sub) t with
    | none => rfl
    | some u => exact absurd (ht u hsub) (store.revokeBySubject_keeps _ _ _ _ hsub).2
  have hstage : ∀ (j : Nat) (a : Call), (s.calls.set k { b with stage := .failed reuseDetected })[j]? = some a →
      a.claims.sub = b.claims.sub → a.stage ≠ .saving := by
    intro j a ha hsub
    rcases getElem?_set_cases ha with ⟨_, rfl⟩ | ⟨_, ha⟩
    · simp
    · exact hok b hb hrev a (List.mem_of_getElem? ha) hsub
  refine ⟨h', fun j a ha => ⟨a.stage, ha⟩, fun j a c ha hsub hc => ?_, fun a ha hsub => ?_, fun a ha hsub j c hc hcon he => ?_⟩
  · rw [ha] at hc
    cases hc
    refine ⟨hstage j a ha hsub, fun _ => hnone _ fun u hu => ?_⟩
    obtain ⟨t, ht, htj, rfl⟩ := h'.consumable _ u hu
    rw [← hsub]
    exact h'.knownSubject t ht _ (h'.presented a (List.mem_of_getElem? ha)) htj
  · refine hnone _ fun u hu => ?_
    obtain ⟨t, ht, htj, rfl⟩ := h'.consumable _ u hu
    -- the next record is saved, so its call is rotated
    have hrot : a.stage = .rotated := Classical.by_contradiction fun hne => h'.unsaved a ha hne t ht htj
    rw [h'.knownSubject t ht _ (h'.rotated a ha hrot) htj, ← hsub, ← h'.subject a ha]
    rfl
  · have hcs := h'.successor_subject ha (List.mem_of_getElem? hc) he
    exact ⟨hc, hcon.resolve_left (hstage j c hc (hcs.trans hsub))⟩

section Reported
variable {u : String} {old : List Call}

theorem Reported.mem (h : Reported store u old s) {j : Nat} {a : Call} (ha : old[j]? = some a) :
    ∃ a' ∈ s.calls, a'.claims = a.claims ∧ a'.next = a.next := by
  obtain ⟨stage, hs⟩ := h.kept j a ha
  exact ⟨_, List.mem_of_getElem? hs, rfl, rfl⟩

theorem Reported.frame (h : Reported store u old s) (hinv : Inv store s') (hcalls : s'.calls = s.calls)
    (hst : ∀ t, (∃ c ∈ s.calls, t = c.claims.jti ∨ t = c.next.id) → store.subjectOf s.store t = none →
      store.subjectOf s'.store t = none) : Reported store u old s' := by
  refine ⟨hinv, hcalls ▸ h.kept, fun j a c ha hsub hc => ?_, fun a ha hsub => ?_, hcalls ▸ h.before⟩
  · rw [hcalls] at hc
    obtain ⟨h₁, h₂⟩ := h.stuck j a c ha hsub hc
    exact ⟨h₁, fun hcs => hst _ ⟨c, List.mem_of_getElem? hc, .inl rfl⟩ (h₂ hcs)⟩
  · obtain ⟨j, hj⟩ := List.mem_iff_getElem?.1 ha
    obtain ⟨a', ha', -, hn⟩ := h.mem hj
    exact hst _ ⟨a', ha', .inr (by rw [hn])⟩ (h.gone a ha hsub)

theorem Reported.rotate (h : Reported store u old s) (hinv : Inv store s') {c : Call} (hc : ¬ c.Consumed)
    (hcalls : s'.calls = s.calls ++ [c]) (hst : s'.store = s.store) : Reported store u old s' := by
  have hold : ∀ {j : Nat} {a : Call}, old[j]? = some a → s'.calls[j]? = s.calls[j]? := by
    intro j a ha
    obtain ⟨stage, hs⟩ := h.kept j a ha
    rw [hcalls, List.getElem?_append_left (List.getElem?_eq_some_iff.1 hs).1]
  refine ⟨hinv, fun j a ha => by rw [hold ha]; exact h.kept j a ha, fun j a d ha hsub hd => ?_, hst ▸ h.gone,
    fun a ha hsub j d hd hcon he => ?_⟩
  · rw [hold ha] at hd
    rw [hst]
    exact h.stuck j a d ha hsub hd
  · rw [hcalls] at hd
    rcases Nat.lt_or_ge j s.calls.length with hj | hj
    · rw [List.getElem?_append_left hj] at hd
      exact h.before a ha hsub j d hd hcon he
    · rw [List.getElem?_append_right hj, List.getElem?_singleton] at hd
      split at hd
      · cases hd; exact absurd hcon hc
      · cases hd

/-- The store operation of a call. The report has left a call of the subject
nothing to consume, and no call a successor of the subject. -/
theorem Reported.advance (h : Reported store u old s) {k now : Nat} (hs : Jwt.step store s (.advance k now) = some s') :
    Reported store u old s' := by
  have hinv := h.inv.step hs
  obtain ⟨c, hc, hs⟩ := Option.bind_eq_some_iff.1 hs
  obtain ⟨⟨stage, y⟩, ha, hs⟩ := Option.bind_eq_some_iff.1 hs
  have hcm := List.mem_of_getElem? hc
  have hcalls : s'.calls = s.calls.set k { c with stage } := by cases hs; rfl
  have hstore : s'.store = y := by cases hs; rfl
  clear hs
  have hkept : ∀ (j : Nat) (a : Call), old[j]? = some a → ∃ stage, s'.calls[j]? = some { a with stage } := by
    intro j a haj
    obtain ⟨st, hst⟩ := h.kept j a haj
    rw [hcalls, List.getElem?_set]
    split
    · rename_i hkj
      subst hkj
      rw [hc] at hst
      cases hst
      exact ⟨stage, by rw [if_pos (List.getElem?_eq_some_iff.1 hc).1]⟩
    · exact ⟨st, hst⟩
  -- every stored token that matters was stored before
  have hnone : ∀ t, (c.stage = .saving → t ≠ c.next.id) → store.subjectOf s.store t = none → store.subjectOf y t = none := by
    intro t ht hn
    cases hy : store.subjectOf y t with
    | none => rfl
    | some v =>
      have hkeeps : store.subjectOf s.store t = some v := by
        rcases Call.advance_cases ha with ⟨_, _, _, _, hk⟩ | ⟨_, _, _, hk⟩ | ⟨hcs, _, rfl⟩ | ⟨_, _, rfl⟩
        · exact hk t v hy
        · exact hk t v hy
        · exact (store.saved _ _ _ _ hy).resolve_left fun he => ht hcs he.1
        · exact (store.revokeBySubject_keeps _ _ _ _ hy).1
      rw [hn] at hkeeps
      cases hkeeps
  have hnext : ∀ {j : Nat} {a : Call}, old[j]? = some a → a.claims.sub = u → c.stage = .saving → a.next.id ≠ c.next.id := by
    intro j a haj hsub hcs he
    obtain ⟨st, hst⟩ := h.kept j a haj
    have := h.inv.nextUnique j k _ c hst hc he
    subst this
    exact (h.stuck j a c haj hsub hc).1 hcs
  refine ⟨hinv, hkept, fun j a d haj hsub hd => ?_, fun a ham hsub => ?_, fun a ham hsub j d hd hcon he => ?_⟩
  · rw [hcalls] at hd
    rw [hstore]
    rcases getElem?_set_cases hd with ⟨rfl, rfl⟩ | ⟨hne, hd⟩
    · obtain ⟨h₁, h₂⟩ := h.stuck j a c haj hsub hc
      rcases Call.advance_cases ha with ⟨hcs, _, hsome, _⟩ | ⟨hcs, hsv, _, _⟩ | ⟨hcs, _⟩ | ⟨hcs, rfl, _⟩
      · rw [h₂ hcs] at hsome; cases hsome
      · exact ⟨hsv, fun _ => hnone _ (fun hc' => absurd hc' h₁) (h₂ hcs)⟩
      · exact absurd hcs h₁
      · exact ⟨by simp, by simp⟩
    · obtain ⟨h₁, h₂⟩ := h.stuck j a d haj hsub hd
      refine ⟨h₁, fun hcs => hnone _ (fun hc' => ?_) (h₂ hcs)⟩
      exact h.inv.unsaved c hcm (by rw [hc']; decide) _ (h.inv.presented d (List.mem_of_getElem? hd))
  · obtain ⟨j, haj⟩ := List.mem_iff_getElem?.1 ham
    rw [hstore]
    exact hnone _ (hnext haj hsub) (h.gone a ham hsub)
  · rw [hcalls] at hd
    obtain ⟨i, hai⟩ := List.mem_iff_getElem?.1 ham
    rcases getElem?_set_cases hd with ⟨rfl, rfl⟩ | ⟨_, hd⟩
    · rcases Call.advance_cases ha with ⟨hcs, _, hsome, _⟩ | ⟨_, hsv, hrot, _⟩ | ⟨hcs, _⟩ | ⟨_, rfl, _⟩
      · -- it would consume a successor that is gone
        have he' : c.claims.jti = a.next.id := he
        rw [he', h.gone a ham hsub] at hsome
        cases hsome
      · exact absurd hcon (by simp [Call.Consumed, hsv, hrot])
      · have hsv := (h.before a ham hsub j c hc (.inl hcs) he).2
        rw [hcs] at hsv
        cases hsv
      · exact absurd hcon (by simp [Call.Consumed])
    · exact h.before a ham hsub j d hd hcon he

theorem Reported.step (h : Reported store u old s) {l : Label} (hs : Jwt.step store s l = some s') :
    Reported store u old s' := by
  have hinv := h.inv.step hs
  have hnone : ∀ {y : σ}, (∀ t v, store.subjectOf y t = some v → store.subjectOf s.store t = some v) →
      ∀ t, store.subjectOf s.store t = none → store.subjectOf y t = none := by
    intro y hy t ht
    cases hsub : store.subjectOf y t with
    | none => rfl
    | some v => rw [hy t v hsub] at ht; cases ht
  cases l with
  | issue => cases hs; exact h.frame hinv rfl fun _ _ ht => ht
  | saveIssued =>
    simp only [Jwt.step] at hs
    split at hs
    · cases hs
    · rename_i r rest hr
      cases hs
      refine h.frame hinv rfl fun t ⟨c, hc, ht⟩ hn => ?_
      cases hsub : store.subjectOf (store.save s.store r) t with
      | none => rfl
      | some v =>
        have hrm : r ∈ s.issuing := hr ▸ List.mem_cons_self
        rcases store.saved _ _ _ _ hsub with ⟨rfl, _⟩ | hsub
        · rcases ht with ht | ht
          · exact absurd ht.symm (h.inv.unissued r hrm _ (h.inv.presented c hc))
          · exact absurd ht.symm (h.inv.issuingNext c hc r hrm)
        · rw [hn] at hsub; cases hsub
  | rotate claims createdAt expiresAt =>
    simp only [Jwt.step] at hs
    split at hs <;> cases hs
    exact h.rotate hinv (by simp [Call.Consumed]) rfl rfl
  | advance k now => exact h.advance hs
  | revokeRefreshToken tokenId =>
    cases hs
    exact h.frame hinv rfl fun t _ => hnone (fun t v => store.revoke_keeps _ _ _ _) t
  | revokeAllForSubject subject =>
    cases hs
    exact h.frame hinv rfl fun t _ => hnone (fun t v ht => (store.revokeBySubject_keeps _ _ _ _ ht).1) t

end Reported

/-! ## Rotation safety -/

/-- In every run from a store without tokens whose reuse reports are all
undisturbed, a token is rotated at most once, and after a report no successor
that a call of the subject had signed by then is rotated any more. -/
theorem rotation_safety (store : RefreshTokenStore σ) {s₀ : σ} (hempty : ∀ t, store.subjectOf s₀ t = none) {ls : List Label}
    (hr : Run (Jwt.step store) Undisturbed { store := s₀ } ls s) :
    (∀ (j k : Nat) (c d : Call), s.calls[j]? = some c → s.calls[k]? = some d → c.Consumed → d.Consumed →
      c.claims.jti = d.claims.jti → j = k) ∧
    ∀ (ls₁ ls₂ : List Label) (k now : Nat) (s₁ s₂ : State σ) (b : Call),
      Run (Jwt.step store) Undisturbed { store := s₀ } ls₁ s₁ →
      s₁.calls[k]? = some b → b.stage = .revoking → Undisturbed s₁ (.advance k now) →
      Jwt.step store s₁ (.advance k now) = some s₂ → Run (Jwt.step store) Undisturbed s₂ ls₂ s →
      ∀ a ∈ s₂.calls, a.claims.sub = b.claims.sub → ∀ (j : Nat) (c : Call), s.calls[j]? = some c → c.Consumed →
        c.claims.jti = a.next.id → s₂.calls[j]? = some c := by
  have hinv : ∀ {ls : List Label} {s : State σ}, Run (Jwt.step store) Undisturbed { store := s₀ } ls s → Inv store s :=
    fun hr => hr.keeps (Inv store) (fun _ _ _ _ h hs => h.step hs) (Inv.init store s₀ hempty)
  refine ⟨(hinv hr).once, fun ls₁ ls₂ k now s₁ s₂ b hr₁ hb hrev hok hs hr₂ a ha hsub j c hc hcon he => ?_⟩
  have hrep := hr₂.keeps (Reported store b.claims.sub s₂.calls) (fun _ _ _ _ h hs => h.step hs)
    ((hinv hr₁).reported hb hrev hok hs)
  exact (hrep.before a ha hsub j c hc hcon he).1

/-- Two calls present the token `0`; the second is late, and reports it. -/
private def presentedTwice : List Label := [.issue "u" "f" 0 9, .saveIssued, .rotate ⟨0, "u", "f"⟩ 1 9, .rotate ⟨0, "u", "f"⟩ 1 9]

private def reach (s : State Records) (ls : List Label) : State Records := after (Jwt.step inMemoryRefreshTokenStore) s ls

private def nobody : State Records := { store := fun _ => none }

/-- Both calls have consumed, and the report is next; in the first state call
`0` has saved its successor, in the second it has not. -/
private def inOrder : State Records := reach nobody (presentedTwice ++ [.advance 0 2, .advance 0 2, .advance 1 2])
private def overtaken : State Records := reach nobody (presentedTwice ++ [.advance 0 2, .advance 1 2])

private def isUndisturbed (s : State Records) : Label → Bool
  | .advance k _ => s.calls[k]?.all fun b => b.stage ≠ .revoking ||
      s.calls.all fun a => a.claims.sub ≠ b.claims.sub || a.stage ≠ .saving
  | _ => true

private theorem undisturbed_of (s : State Records) (l : Label) (h : isUndisturbed s l = true) : Undisturbed s l := by
  cases l with
  | advance k now =>
    intro b hb hrev a ha hsub hs
    simp only [isUndisturbed, hb, Option.all_some, hrev, ne_eq, not_true_eq_false, decide_false, Bool.false_or,
      List.all_eq_true, Bool.or_eq_true, decide_eq_true_eq] at h
    exact (h a ha).elim (absurd hsub) (absurd hs)
  | _ => trivial

theorem rotation_safety_inOrder : isUndisturbed inOrder (.advance 1 2) = true ∧ ∀ (j : Nat) (c : Call),
    (reach (reach inOrder [.advance 1 2]) [.rotate ⟨1, "u", "f"⟩ 3 9, .advance 2 3]).calls[j]? = some c → c.Consumed →
    c.claims.jti = 1 → (reach inOrder [.advance 1 2]).calls[j]? = some c := by
  have hrun : ∀ {s : State Records} {ls : List Label}, passes (Jwt.step inMemoryRefreshTokenStore) isUndisturbed s ls = true →
      Run (Jwt.step inMemoryRefreshTokenStore) Undisturbed s ls (reach s ls) := Run.of_passes undisturbed_of
  have hpre : Run (Jwt.step inMemoryRefreshTokenStore) Undisturbed nobody _ inOrder := hrun (by decide)
  have hok : isUndisturbed inOrder (.advance 1 2) = true := by decide
  have hreport : Jwt.step inMemoryRefreshTokenStore inOrder (.advance 1 2) = some (reach inOrder [.advance 1 2]) :=
    step_after (by decide)
  have hpost : Run (Jwt.step inMemoryRefreshTokenStore) Undisturbed (reach inOrder [.advance 1 2])
      [.rotate ⟨1, "u", "f"⟩ 3 9, .advance 2 3] _ := hrun (by decide)
  exact ⟨hok, (rotation_safety inMemoryRefreshTokenStore (fun _ => rfl)
    (hpre.append (.cons (undisturbed_of _ _ hok) hreport hpost))).2 _ _ 1 2 inOrder _
    ⟨⟨0, "u", "f"⟩, ⟨2, "u", "f", 9, 1, false⟩, .revoking⟩ hpre (by decide) rfl (undisturbed_of _ _ hok) hreport hpost
    ⟨⟨0, "u", "f"⟩, ⟨1, "u", "f", 9, 1, false⟩, .rotated⟩ (by decide) rfl⟩

/-- The report comes between the `consume` and the `save` of call `0`, and the
successor of call `0` is rotated after it. -/
theorem rotation_safety_overtaken : ¬ ∀ (ls₁ ls₂ : List Label) (k now : Nat) (s₁ s₂ s : State Records) (b : Call),
    Run (Jwt.step inMemoryRefreshTokenStore) (fun _ _ => True) nobody ls₁ s₁ →
    s₁.calls[k]? = some b → b.stage = .revoking → Jwt.step inMemoryRefreshTokenStore s₁ (.advance k now) = some s₂ →
    Run (Jwt.step inMemoryRefreshTokenStore) (fun _ _ => True) s₂ ls₂ s →
    ∀ a ∈ s₂.calls, a.claims.sub = b.claims.sub → ∀ (j : Nat) (c : Call), s.calls[j]? = some c → c.Consumed →
      c.claims.jti = a.next.id → s₂.calls[j]? = some c := by
  intro h
  have hrun : ∀ {s : State Records} {ls : List Label}, passes (Jwt.step inMemoryRefreshTokenStore) (fun _ _ => true) s ls = true →
      Run (Jwt.step inMemoryRefreshTokenStore) (fun _ _ => True) s ls (reach s ls) := Run.of_passes fun _ _ _ => trivial
  have hpre : Run (Jwt.step inMemoryRefreshTokenStore) (fun _ _ => True) nobody _ overtaken := hrun (by decide)
  have hreport : Jwt.step inMemoryRefreshTokenStore overtaken (.advance 1 2) = some (reach overtaken [.advance 1 2]) :=
    step_after (by decide)
  have hpost : Run (Jwt.step inMemoryRefreshTokenStore) (fun _ _ => True) (reach overtaken [.advance 1 2])
      [.advance 0 2, .rotate ⟨1, "u", "f"⟩ 3 9, .advance 2 3, .advance 2 3] _ := hrun (by decide)
  have hkept := h _ _ 1 2 overtaken _ _ ⟨⟨0, "u", "f"⟩, ⟨2, "u", "f", 9, 1, false⟩, .revoking⟩ hpre (by decide) rfl
    hreport hpost ⟨⟨0, "u", "f"⟩, ⟨1, "u", "f", 9, 1, false⟩, .saving⟩ (by decide) rfl
    2 ⟨⟨1, "u", "f"⟩, ⟨3, "u", "f", 9, 3, false⟩, .rotated⟩ (by decide) (.inr rfl) rfl
  exact absurd hkept (by decide)

end Fluo.Jwt
