import Fluo.Lib.FixedWindow
import Fluo.Lib.OrderedMap
import Fluo.Lib.Runs
import Fluo.Lib.Slots
/-!
# The rate limit middleware

`createRateLimitMiddleware` over its in-memory store: each `await` of a store call is
a point at which other requests go on. Times are milliseconds, and a request keeps
the time that it read first.
-/

namespace Fluo.Http.RateLimit
open Fluo.Lib

abbrev RateLimitStoreEntry := Window

structure RateLimitOptions where
  limit : Nat
  windowMs : Int

/-! ## The store -/

structure RateLimitStore (κ : Type) where
  map : OrderedMap κ RateLimitStoreEntry := []
  nextSweepAt : Int := 0

variable {κ : Type} [DecidableEq κ]

namespace RateLimitStore

def get (store : RateLimitStore κ) (key : κ) : Option RateLimitStoreEntry := store.map.get key

def set (store : RateLimitStore κ) (key : κ) (entry : RateLimitStoreEntry) : RateLimitStore κ := { store with map := store.map.set key entry }

def increment (store : RateLimitStore κ) (key : κ) : Nat × RateLimitStore κ :=
  match store.map.get key with
  | none => (0, store)
  | some entry => (entry.count + 1, store.set key ⟨entry.count + 1, entry.resetAt⟩)

omit [DecidableEq κ] in
/-- The next sweep is at the earliest end of the entries that are left, or at any time if none is. -/
def evict (store : RateLimitStore κ) (now : Int) : RateLimitStore κ :=
  if now < store.nextSweepAt then store
  else
    let kept := store.map.filter fun entry => now < entry.2.resetAt
    { map := kept, nextSweepAt := ((kept.map (·.2.resetAt)).min?).getD 0 }

end RateLimitStore

/-! ## Requests -/

inductive Answer
  /-- `next()` -/
  | passedOn
  | tooManyRequests (retryAfter : Int)

inductive Phase
  /-- The store has been swept. -/
  | arrived
  /-- With the end of the window that the request got, if it got one. -/
  | read (resetAt : Option Int)
  /-- With the end of the window that the request counts in, and its number there. -/
  | counted (resetAt : Int) (count : Nat)
  | answered (resetAt : Int) (count : Nat) (answer : Answer)

structure Request (κ : Type) where
  key : κ
  now : Int
  phase : Phase := .arrived

structure State (κ : Type) where
  clock : Int := 0
  store : RateLimitStore κ := {}
  requests : List (Request κ) := []
  /-- The windows that requests have opened, by their key and their end. -/
  windows : List (κ × Int) := []

inductive Label (κ : Type)
  | tick (time : Int)
  | arrive (key : κ)
  /-- `store.get` -/
  | read (i : Nat)
  /-- `store.set` or `store.increment` -/
  | write (i : Nat)
  | answer (i : Nat)

/-- `!entry || now >= entry.resetAt`, of the entry that a request got. -/
def opens (found : Option Int) (now : Int) : Bool :=
  match found with
  | none => true
  | some resetAt => resetAt ≤ now

/-- `Math.ceil(ms / 1000)` -/
def ceilSeconds (ms : Int) : Int := -(-ms / 1000)

def answerOf (limit : Nat) (request : Request κ) (resetAt : Int) (count : Nat) : Answer :=
  if limit < count then .tooManyRequests (ceilSeconds (resetAt - request.now)) else .passedOn

def State.setPhase (s : State κ) (i : Nat) (request : Request κ) (phase : Phase) : State κ :=
  { s with requests := s.requests.set i { request with phase } }

/-- `store.set`, in a window of its own. -/
def State.openWindow (s : State κ) (options : RateLimitOptions) (i : Nat) (request : Request κ) : State κ :=
  let resetAt := request.now + options.windowMs
  { s.setPhase i request (.counted resetAt 1) with
    store := s.store.set request.key ⟨1, resetAt⟩
    windows := (request.key, resetAt) :: s.windows }

/-- `store.increment`, in the window that the request got. -/
def State.count (s : State κ) (i : Nat) (request : Request κ) (resetAt : Int) : State κ :=
  let (count, store) := s.store.increment request.key
  { s.setPhase i request (.counted resetAt count) with store }

/-- `createRateLimitMiddleware(options).handle`, between two of its awaits at a time. -/
def step (options : RateLimitOptions) (s : State κ) : Label κ → Option (State κ)
  | .tick time => if s.clock ≤ time then some { s with clock := time } else none
  | .arrive key => some { s with store := s.store.evict s.clock, requests := s.requests ++ [{ key, now := s.clock }] }
  | .read i => do
    let request ← s.requests[i]?
    match request.phase with
    | .arrived => return s.setPhase i request (.read ((s.store.get request.key).map (·.resetAt)))
    | _ => none
  | .write i => do
    let request ← s.requests[i]?
    match request.phase with
    | .read found =>
      match found with
      | some resetAt => return if resetAt ≤ request.now then s.openWindow options i request else s.count i request resetAt
      | none => return s.openWindow options i request
    | _ => none
  | .answer i => do
    let request ← s.requests[i]?
    match request.phase with
    | .counted resetAt count => return s.setPhase i request (.answered resetAt count (answerOf options.limit request resetAt count))
    | _ => none

/-! ## What a step does -/

section Steps
variable {options : RateLimitOptions} {s s' : State κ}

inductive Moves (options : RateLimitOptions) (s : State κ) : Label κ → State κ → Prop
  | tick {time} : s.clock ≤ time → Moves options s (.tick time) { s with clock := time }
  | arrive {key} : Moves options s (.arrive key) { s with store := s.store.evict s.clock, requests := s.requests ++ [{ key, now := s.clock }] }
  | read {i request} : s.requests[i]? = some request → request.phase = .arrived →
      Moves options s (.read i) (s.setPhase i request (.read ((s.store.get request.key).map (·.resetAt))))
  | opens {i request found} : s.requests[i]? = some request → request.phase = .read found → opens found request.now = true →
      Moves options s (.write i) (s.openWindow options i request)
  | counts {i request resetAt} : s.requests[i]? = some request → request.phase = .read (some resetAt) → request.now < resetAt →
      Moves options s (.write i) (s.count i request resetAt)
  | answer {i request resetAt count} : s.requests[i]? = some request → request.phase = .counted resetAt count →
      Moves options s (.answer i) (s.setPhase i request (.answered resetAt count (answerOf options.limit request resetAt count)))

theorem step_moves {l : Label κ} (h : step options s l = some s') : Moves options s l s' := by
  cases l with
  | tick time =>
    simp only [step] at h
    split at h
    · next hle =>
      cases h
      exact .tick hle
    · cases h
  | arrive key =>
    cases h
    exact .arrive
  | read i =>
    obtain ⟨request, hrequest, h⟩ := Option.bind_eq_some_iff.1 h
    split at h
    · next hphase =>
      cases h
      exact .read hrequest hphase
    · cases h
  | write i =>
    obtain ⟨request, hrequest, h⟩ := Option.bind_eq_some_iff.1 h
    split at h
    · next found hphase =>
      split at h
      · next resetAt =>
        split at h
        · next hle =>
          cases h
          exact .opens hrequest hphase (decide_eq_true hle)
        · next hlt =>
          cases h
          exact .counts hrequest hphase (Int.not_le.1 hlt)
      · cases h
        exact .opens hrequest hphase rfl
    · cases h
  | answer i =>
    obtain ⟨request, hrequest, h⟩ := Option.bind_eq_some_iff.1 h
    split at h
    · next resetAt count hphase =>
      cases h
      exact .answer hrequest hphase
    · cases h

end Steps

/-! ## Undisturbed runs -/

def Request.isInFlight (request : Request κ) : Bool :=
  match request.phase with
  | .arrived | .read _ => true
  | _ => false

def Request.number (request : Request κ) : Option (Int × Nat) :=
  match request.phase with
  | .counted resetAt count | .answered resetAt count _ => some (resetAt, count)
  | _ => none

def Request.hasPassed (request : Request κ) : Bool :=
  match request.phase with
  | .answered _ _ .passedOn => true
  | _ => false

/-- No request is still to write when another one sweeps away or opens a window of its key, unless it took its time when the
swept window had ended, or in the window that is opened and has yet to read the store. -/
def Undisturbed (s : State κ) : Label κ → Prop
  | .arrive _ => ∀ request ∈ s.requests, request.isInFlight = true → ∀ entry, s.store.get request.key = some entry →
      (s.store.evict s.clock).get request.key = none → entry.resetAt ≤ request.now
  | .write i => ∀ request found, s.requests[i]? = some request → request.phase = .read found → opens found request.now = true →
      ∀ (j : Nat) other, j ≠ i → s.requests[j]? = some other → other.isInFlight = true → other.key = request.key →
        other.phase = .arrived ∧ request.now ≤ other.now
  | _ => True

/-- The requests of a key that came in a window and have been passed on. -/
def passedIn (options : RateLimitOptions) (s : State κ) (key : κ) (resetAt : Int) : List (Request κ) :=
  s.requests.filter fun request =>
    request.key = key ∧ resetAt - options.windowMs ≤ request.now ∧ request.now < resetAt ∧ request.hasPassed = true

section Store
variable {store : RateLimitStore κ}

theorem get_evict (h : store.map.Keyed) (now : Int) (key : κ) : (store.evict now).get key = store.get key ∨
    ((store.evict now).get key = none ∧ ∃ entry, store.get key = some entry ∧ entry.resetAt ≤ now) := by
  unfold RateLimitStore.evict
  split
  · exact .inl rfl
  · simp only [RateLimitStore.get, OrderedMap.get_filter h]
    cases hget : store.map.get key with
    | none => exact .inl rfl
    | some entry =>
      rw [Option.filter_some]
      split
      · exact .inl rfl
      · next hend => exact .inr ⟨rfl, entry, rfl, by simpa using hend⟩

omit [DecidableEq κ] in
theorem keyed_evict (h : store.map.Keyed) (now : Int) : (store.evict now).map.Keyed := by
  unfold RateLimitStore.evict
  split
  · exact h
  · exact h.filter _

theorem get_set_self (key : κ) (entry : RateLimitStoreEntry) : (store.set key entry).get key = some entry := OrderedMap.get_set_self _ _ _

theorem get_set_ne {key key' : κ} (h : key' ≠ key) (entry : RateLimitStoreEntry) : (store.set key entry).get key' = store.get key' :=
  OrderedMap.get_set_of_ne _ h _

end Store

/-! ## What holds in undisturbed runs -/

def State.IsCurrent (s : State κ) (key : κ) (resetAt : Int) : Prop := ∃ entry, s.store.get key = some entry ∧ entry.resetAt = resetAt

structure Request.Sound (options : RateLimitOptions) (s : State κ) (request : Request κ) : Prop where
  past : request.now ≤ s.clock
  /-- Its time is in the current window, or after the end. -/
  inFlight : request.isInFlight = true → ∀ resetAt, (request.key, resetAt) ∈ s.windows →
    (s.IsCurrent request.key resetAt ∧ resetAt - options.windowMs ≤ request.now) ∨ resetAt ≤ request.now
  absent : request.phase = .read none → s.store.get request.key = none
  found : ∀ resetAt, request.phase = .read (some resetAt) →
    s.IsCurrent request.key resetAt ∨ (s.store.get request.key = none ∧ resetAt ≤ request.now)
  numbered : ∀ resetAt count, request.number = some (resetAt, count) → (request.key, resetAt) ∈ s.windows ∧
    resetAt - options.windowMs ≤ request.now ∧ request.now < resetAt ∧ 1 ≤ count ∧
    ∀ entry, s.store.get request.key = some entry → entry.resetAt = resetAt → count ≤ entry.count
  passed : request.hasPassed = true → ∃ resetAt count, request.number = some (resetAt, count) ∧ count ≤ options.limit

def Distinct (request other : Request κ) : Prop :=
  request.key = other.key → ∀ resetAt count count', request.number = some (resetAt, count) → other.number = some (resetAt, count') → count ≠ count'

structure Inv (options : RateLimitOptions) (s : State κ) : Prop where
  keyed : s.store.map.Keyed
  opened : ∀ key entry, s.store.get key = some entry → (key, entry.resetAt) ∈ s.windows
  started : ∀ w ∈ s.windows, w.2 - options.windowMs ≤ s.clock
  ended : ∀ w ∈ s.windows, s.IsCurrent w.1 w.2 ∨ w.2 ≤ s.clock
  /-- No window of a key opens before the ones before it have ended. -/
  apart : s.windows.Pairwise fun later earlier => later.1 = earlier.1 → earlier.2 ≤ later.2 - options.windowMs
  requests : ∀ (j : Nat) request, s.requests[j]? = some request → request.Sound options s
  distinct : Apart Distinct s.requests

section Invariant
variable {options : RateLimitOptions} {s s' : State κ}

theorem Inv.init : Inv options ({} : State κ) where
  keyed := List.nodup_nil
  opened := nofun
  started := nofun
  ended := nofun
  apart := .nil
  requests := nofun
  distinct := .nil

variable {request : Request κ} {i : Nat} {resetAt : Int}

omit [DecidableEq κ] in
theorem number_of_isInFlight (h : request.isInFlight = true) : request.number = none := by
  unfold Request.isInFlight at h
  unfold Request.number
  split at h
  · next hphase => rw [hphase]
  · next found hphase => rw [hphase]
  · cases h

omit [DecidableEq κ] in
theorem distinct_of_number_none {other : Request κ} (h : request.number = none) : Distinct request other ∧ Distinct other request := by
  constructor
  · intro _ _ _ _ hn
    rw [h] at hn
    cases hn
  · intro _ _ _ _ _ hn
    rw [h] at hn
    cases hn

omit [DecidableEq κ] in
theorem Distinct.of_number_eq {request' other : Request κ} (h : Distinct request other ∧ Distinct other request)
    (hkey : request'.key = request.key) (hnumber : request'.number = request.number) : Distinct request' other ∧ Distinct other request' := by
  unfold Distinct at h ⊢
  rw [hkey, hnumber]
  exact h

theorem Request.Sound.frame (h : request.Sound options s) (hclock : s.clock ≤ s'.clock)
    (hget : s'.store.get request.key = s.store.get request.key)
    (hwindows : ∀ resetAt, (request.key, resetAt) ∈ s'.windows ↔ (request.key, resetAt) ∈ s.windows) : request.Sound options s' := by
  have hcurrent : ∀ resetAt, s'.IsCurrent request.key resetAt ↔ s.IsCurrent request.key resetAt := by
    intro resetAt
    unfold State.IsCurrent
    rw [hget]
  exact
    { past := Int.le_trans h.past hclock
      inFlight := fun hflight resetAt hw => by
        rw [hcurrent]
        exact h.inFlight hflight resetAt ((hwindows resetAt).1 hw)
      absent := fun hphase => hget.trans (h.absent hphase)
      found := fun resetAt hphase => by
        rw [hcurrent, hget]
        exact h.found resetAt hphase
      numbered := fun resetAt count hnumber => by
        rw [hwindows, hget]
        exact h.numbered resetAt count hnumber
      passed := h.passed }

theorem Inv.tick (h : Inv options s) {time : Int} (hle : s.clock ≤ time) : Inv options { s with clock := time } where
  keyed := h.keyed
  opened := h.opened
  started w hw := Int.le_trans (h.started w hw) hle
  ended w hw := (h.ended w hw).imp_right fun hend => Int.le_trans hend hle
  apart := h.apart
  requests j request hr := (h.requests j request hr).frame hle rfl fun _ => Iff.rfl
  distinct := h.distinct

theorem Inv.arrive (h : Inv options s) {key : κ} (hundisturbed : Undisturbed s (.arrive key)) :
    Inv options { s with store := s.store.evict s.clock, requests := s.requests ++ [{ key, now := s.clock }] } where
  keyed := keyed_evict h.keyed s.clock
  opened key entry hentry := by
    rcases get_evict h.keyed s.clock key with hsame | ⟨hgone, -⟩
    · exact h.opened key entry (hsame ▸ hentry)
    · rw [hgone] at hentry
      cases hentry
  started := h.started
  ended w hw := by
    rcases h.ended w hw with ⟨entry, hentry, hend⟩ | hend
    · rcases get_evict h.keyed s.clock w.1 with hsame | ⟨-, entry', hentry', hend'⟩
      · exact .inl ⟨entry, hsame.trans hentry, hend⟩
      · rw [hentry] at hentry'
        cases hentry'
        exact .inr (hend ▸ hend')
    · exact .inr hend
  apart := h.apart
  requests j request hrequest := by
    rcases getElem?_concat_iff.1 hrequest with ⟨-, rfl⟩ | hrequest
    · refine ⟨Int.le_refl _, fun _ resetAt hw => ?_, nofun, nofun, nofun, nofun⟩
      rcases h.ended _ hw with ⟨entry, hentry, hend⟩ | hend
      · rcases get_evict h.keyed s.clock key with hsame | ⟨-, entry', hentry', hend'⟩
        · exact .inl ⟨⟨entry, hsame.trans hentry, hend⟩, h.started _ hw⟩
        · rw [hentry] at hentry'
          cases hentry'
          exact .inr (Int.le_trans (Int.le_of_eq hend.symm) hend')
      · exact .inr hend
    · have hsound := h.requests j request hrequest
      rcases get_evict h.keyed s.clock request.key with hsame | ⟨hgone, entry, hentry, -⟩
      · exact hsound.frame (Int.le_refl _) hsame fun _ => Iff.rfl
      · -- what is swept away had ended before the request took its time
        have hpast : request.isInFlight = true → entry.resetAt ≤ request.now := fun hflight =>
          hundisturbed request (List.mem_of_getElem? hrequest) hflight entry hentry hgone
        exact
          { past := hsound.past
            inFlight := fun hflight resetAt hw => by
              rcases hsound.inFlight hflight resetAt hw with ⟨⟨entry', hentry', hend⟩, -⟩ | hend
              · rw [hentry] at hentry'
                cases hentry'
                exact .inr (hend ▸ hpast hflight)
              · exact .inr hend
            absent := fun _ => hgone
            found := fun resetAt hphase => by
              have hflight : request.isInFlight = true := by rw [Request.isInFlight, hphase]
              rcases hsound.found resetAt hphase with ⟨entry', hentry', hend⟩ | ⟨-, hend⟩
              · rw [hentry] at hentry'
                cases hentry'
                exact .inr ⟨hgone, hend ▸ hpast hflight⟩
              · exact .inr ⟨hgone, hend⟩
            numbered := fun resetAt count hnumber => by
              obtain ⟨hw, hstart, hend, hpos, -⟩ := hsound.numbered resetAt count hnumber
              refine ⟨hw, hstart, hend, hpos, fun entry' hentry' => ?_⟩
              rw [hgone] at hentry'
              cases hentry'
            passed := hsound.passed }
  distinct := h.distinct.concat fun other _ => distinct_of_number_none rfl

theorem Inv.setPhase (h : Inv options s) (hi : s.requests[i]? = some request) {phase : Phase}
    (hsound : Request.Sound options s { request with phase })
    (hnumber : Request.number { request with phase } = request.number) : Inv options (s.setPhase i request phase) where
  keyed := h.keyed
  opened := h.opened
  started := h.started
  ended := h.ended
  apart := h.apart
  requests j other hother := by
    rcases (getElem?_set_iff hi).1 hother with ⟨-, rfl⟩ | ⟨-, hother⟩
    · exact hsound.frame (Int.le_refl _) rfl fun _ => Iff.rfl
    · exact (h.requests j other hother).frame (Int.le_refl _) rfl fun _ => Iff.rfl
  distinct := h.distinct.set hi fun j other hj hother =>
    Distinct.of_number_eq ⟨h.distinct i j _ _ (Ne.symm hj) hi hother, h.distinct j i _ _ hj hother hi⟩ rfl hnumber

theorem Inv.read (h : Inv options s) (hi : s.requests[i]? = some request) (hphase : request.phase = .arrived) :
    Inv options (s.setPhase i request (.read ((s.store.get request.key).map (·.resetAt)))) := by
  have hsound := h.requests i request hi
  have hflight : request.isInFlight = true := by rw [Request.isInFlight, hphase]
  refine h.setPhase hi ⟨hsound.past, fun _ => hsound.inFlight hflight, ?_, ?_, nofun, nofun⟩ (by rw [number_of_isInFlight hflight]; rfl)
  · intro hread
    simpa using hread
  · intro resetAt hread
    obtain ⟨entry, hentry, hend⟩ : ∃ entry, s.store.get request.key = some entry ∧ entry.resetAt = resetAt := by simpa using hread
    exact .inl ⟨entry, hentry, hend⟩

theorem Inv.answer (h : Inv options s) (hi : s.requests[i]? = some request) {count : Nat}
    (hphase : request.phase = .counted resetAt count) :
    Inv options (s.setPhase i request (.answered resetAt count (answerOf options.limit request resetAt count))) := by
  have hsound := h.requests i request hi
  have hnumber : request.number = some (resetAt, count) := by rw [Request.number, hphase]
  refine h.setPhase hi ⟨hsound.past, nofun, nofun, nofun, ?_, ?_⟩ hnumber.symm
  · intro resetAt' count' hn
    exact hsound.numbered resetAt' count' (hnumber.trans hn)
  · intro hpassed
    refine ⟨resetAt, count, rfl, Nat.le_of_not_lt fun hlt => ?_⟩
    simp [Request.hasPassed, answerOf, hlt] at hpassed

theorem ended_of_opens (h : Inv options s) (hi : s.requests[i]? = some request) {found : Option Int}
    (hphase : request.phase = .read found) (hopens : opens found request.now = true)
    (hw : (request.key, resetAt) ∈ s.windows) : resetAt ≤ request.now := by
  have hsound := h.requests i request hi
  have hflight : request.isInFlight = true := by rw [Request.isInFlight, hphase]
  rcases hsound.inFlight hflight resetAt hw with ⟨⟨entry, hentry, hend⟩, -⟩ | hend
  · cases found with
    | none =>
      rw [hsound.absent hphase] at hentry
      cases hentry
    | some end' =>
      rcases hsound.found end' hphase with ⟨entry', hentry', hend'⟩ | ⟨hgone, -⟩
      · rw [hentry] at hentry'
        cases hentry'
        rw [← hend, hend']
        exact of_decide_eq_true hopens
      · rw [hgone] at hentry
        cases hentry
  · exact hend

theorem Inv.openWindow (h : Inv options s) (hpos : 0 < options.windowMs) (hi : s.requests[i]? = some request)
    {found : Option Int} (hphase : request.phase = .read found) (hopens : opens found request.now = true)
    (hundisturbed : Undisturbed s (.write i)) : Inv options (s.openWindow options i request) := by
  have hended : ∀ resetAt, (request.key, resetAt) ∈ s.windows → resetAt ≤ request.now := fun _ => ended_of_opens h hi hphase hopens
  have hpast := (h.requests i request hi).past
  have hself : (s.openWindow options i request).store.get request.key = some ⟨1, request.now + options.windowMs⟩ := get_set_self _ _
  have hothers : ∀ key, key ≠ request.key → (s.openWindow options i request).store.get key = s.store.get key := fun key hne => get_set_ne hne _
  refine ⟨h.keyed.set _ _, ?_, ?_, ?_, ?_, ?_, ?_⟩
  · intro key entry hentry
    by_cases hkey : key = request.key
    · rw [hkey, hself] at hentry
      cases hentry
      exact hkey ▸ List.mem_cons_self
    · rw [hothers key hkey] at hentry
      exact List.mem_cons_of_mem _ (h.opened key entry hentry)
  · intro w hw
    rcases List.mem_cons.1 hw with rfl | hw
    · change request.now + options.windowMs - options.windowMs ≤ s.clock
      omega
    · exact h.started w hw
  · rintro ⟨key, resetAt⟩ hw
    rcases List.mem_cons.1 hw with heq | hw
    · cases heq
      exact .inl ⟨_, hself, rfl⟩
    · by_cases hkey : key = request.key
      · exact .inr (Int.le_trans (hended resetAt (hkey ▸ hw)) hpast)
      · rcases h.ended _ hw with ⟨entry, hentry, hend⟩ | hend
        · exact .inl ⟨entry, (hothers key hkey).trans hentry, hend⟩
        · exact .inr hend
  · refine List.pairwise_cons.2 ⟨fun w hw hkey => ?_, h.apart⟩
    have hend := hended w.2 (by rw [show request.key = w.1 from hkey]; exact hw)
    change w.2 ≤ request.now + options.windowMs - options.windowMs
    omega
  · intro j other hother
    rcases (getElem?_set_iff hi).1 hother with ⟨-, rfl⟩ | ⟨hj, hother⟩
    · refine ⟨hpast, nofun, nofun, nofun, ?_, nofun⟩
      rintro resetAt count hnumber
      cases hnumber
      refine ⟨List.mem_cons_self, by dsimp only; omega, by dsimp only; omega, Nat.le_refl 1, fun entry hentry _ => ?_⟩
      rw [hself] at hentry
      cases hentry
      exact Nat.le_refl 1
    · have hsound := h.requests j other hother
      by_cases hkey : other.key = request.key
      · refine ⟨hsound.past, ?_, ?_, ?_, ?_, hsound.passed⟩
        · intro hflight resetAt hw
          obtain ⟨-, hlater⟩ := hundisturbed request found hi hphase hopens j other hj hother hflight hkey
          rcases List.mem_cons.1 hw with heq | hw
          · obtain rfl : resetAt = request.now + options.windowMs := congrArg Prod.snd heq
            refine .inl ⟨⟨_, hkey ▸ hself, rfl⟩, ?_⟩
            omega
          · exact .inr (Int.le_trans (hended resetAt (hkey ▸ hw)) hlater)
        · intro hread
          have hflight : other.isInFlight = true := by rw [Request.isInFlight, hread]
          obtain ⟨harrived, -⟩ := hundisturbed request found hi hphase hopens j other hj hother hflight hkey
          rw [harrived] at hread
          cases hread
        · intro resetAt hread
          have hflight : other.isInFlight = true := by rw [Request.isInFlight, hread]
          obtain ⟨harrived, -⟩ := hundisturbed request found hi hphase hopens j other hj hother hflight hkey
          rw [harrived] at hread
          cases hread
        · intro resetAt count hnumber
          obtain ⟨hw, hstart, hend, hpos', -⟩ := hsound.numbered resetAt count hnumber
          refine ⟨List.mem_cons_of_mem _ hw, hstart, hend, hpos', fun entry hentry heq => ?_⟩
          rw [hkey, hself] at hentry
          cases hentry
          have hle := hended resetAt (hkey ▸ hw)
          dsimp only at heq
          omega
      · refine hsound.frame (Int.le_refl _) (hothers _ hkey) fun resetAt => ⟨fun hw => ?_, List.mem_cons_of_mem _⟩
        rcases List.mem_cons.1 hw with heq | hw
        · exact absurd (congrArg Prod.fst heq) hkey
        · exact hw
  · refine h.distinct.set hi fun j other hj hother => ?_
    have hnew : ∀ {resetAt count}, other.key = request.key → other.number = some (resetAt, count) → resetAt ≠ request.now + options.windowMs := by
      intro resetAt count hkey hnumber heq
      have hle := hended resetAt (hkey ▸ ((h.requests j other hother).numbered resetAt count hnumber).1)
      omega
    constructor
    · intro hkey resetAt count count' hn hn'
      cases hn
      exact absurd rfl (hnew hkey.symm hn')
    · intro hkey resetAt count count' hn hn'
      cases hn'
      exact absurd rfl (hnew hkey hn)

theorem count_eq {entry : RateLimitStoreEntry} (hentry : s.store.get request.key = some entry)
    (resetAt : Int) : s.count i request resetAt = { s.setPhase i request (.counted resetAt (entry.count + 1)) with
      store := s.store.set request.key ⟨entry.count + 1, entry.resetAt⟩ } := by
  rw [RateLimitStore.get] at hentry
  simp only [State.count, RateLimitStore.increment, hentry]

theorem Inv.count (h : Inv options s) (hi : s.requests[i]? = some request)
    (hphase : request.phase = .read (some resetAt)) (hopen : request.now < resetAt) : Inv options (s.count i request resetAt) := by
  have hsound := h.requests i request hi
  have hflight : request.isInFlight = true := by rw [Request.isInFlight, hphase]
  obtain ⟨entry, hentry, hend⟩ : s.IsCurrent request.key resetAt := by
    rcases hsound.found resetAt hphase with hcurrent | ⟨-, hle⟩
    · exact hcurrent
    · exact absurd hle (Int.not_le.2 hopen)
  have hw : (request.key, resetAt) ∈ s.windows := hend ▸ h.opened _ _ hentry
  have hstart : resetAt - options.windowMs ≤ request.now := by
    rcases hsound.inFlight hflight resetAt hw with ⟨-, hstart⟩ | hle
    · exact hstart
    · exact absurd hle (Int.not_le.2 hopen)
  rw [count_eq hentry]
  set store := s.store.set request.key ⟨entry.count + 1, entry.resetAt⟩
  have hself : store.get request.key = some ⟨entry.count + 1, entry.resetAt⟩ := get_set_self _ _
  have hothers : ∀ key, key ≠ request.key → store.get key = s.store.get key := fun key hne => get_set_ne hne _
  have hcurrent : ∀ key end', s.IsCurrent key end' → ∃ entry', store.get key = some entry' ∧ entry'.resetAt = end' := by
    rintro key end' ⟨entry', hentry', hend'⟩
    by_cases hkey : key = request.key
    · rw [hkey, hentry] at hentry'
      cases hentry'
      rw [hkey]
      exact ⟨_, hself, hend'⟩
    · exact ⟨entry', (hothers key hkey).trans hentry', hend'⟩
  refine ⟨h.keyed.set _ _, ?_, h.started, fun w hmem => (h.ended w hmem).imp_left (hcurrent _ _), h.apart, ?_, ?_⟩
  · intro key entry' hentry'
    by_cases hkey : key = request.key
    · obtain ⟨-, rfl⟩ : _ ∧ entry' = ⟨entry.count + 1, entry.resetAt⟩ := ⟨hkey, Option.some.inj ((hkey ▸ hentry').symm.trans hself)⟩
      rw [hkey]
      exact h.opened _ entry hentry
    · exact h.opened key entry' ((hothers key hkey).symm.trans hentry')
  · intro j other hother
    rcases (getElem?_set_iff hi).1 hother with ⟨-, rfl⟩ | ⟨hj, hother⟩
    · refine ⟨hsound.past, nofun, nofun, nofun, ?_, nofun⟩
      rintro end' count hnumber
      cases hnumber
      refine ⟨hw, hstart, hopen, Nat.le_add_left 1 _, fun entry' hentry' _ => ?_⟩
      obtain rfl : entry' = ⟨entry.count + 1, entry.resetAt⟩ := Option.some.inj (hentry'.symm.trans hself)
      exact Nat.le_refl _
    · have hother' := h.requests j other hother
      by_cases hkey : other.key = request.key
      · refine ⟨hother'.past, ?_, ?_, ?_, ?_, hother'.passed⟩
        · intro hflight' end' hmem
          exact (hother'.inFlight hflight' end' hmem).imp_left (And.imp_left (hcurrent _ _))
        · intro hread
          have hgone := hother'.absent hread
          rw [hkey, hentry] at hgone
          cases hgone
        · intro end' hread
          rcases hother'.found end' hread with hcur | ⟨hgone, -⟩
          · exact .inl (hcurrent _ _ hcur)
          · rw [hkey, hentry] at hgone
            cases hgone
        · intro end' count hnumber
          obtain ⟨hmem, hstart', hend', hpos, hcount'⟩ := hother'.numbered end' count hnumber
          refine ⟨hmem, hstart', hend', hpos, fun entry' hentry' heq => ?_⟩
          obtain rfl : entry' = ⟨entry.count + 1, entry.resetAt⟩ := Option.some.inj ((hkey ▸ hentry').symm.trans hself)
          exact Nat.le_succ_of_le (hcount' entry (hkey ▸ hentry) heq)
      · exact hother'.frame (Int.le_refl _) (hothers _ hkey) fun _ => Iff.rfl
  · -- the number is one more than any other number of the window
    have hnew : ∀ (j : Nat) other count, s.requests[j]? = some other → other.key = request.key → other.number = some (resetAt, count) →
        count ≠ entry.count + 1 := by
      intro j other count hother hkey hnumber
      have hle := ((h.requests j other hother).numbered resetAt count hnumber).2.2.2.2 entry (hkey ▸ hentry) hend
      omega
    refine h.distinct.set hi fun j other hj hother => ⟨?_, ?_⟩
    · intro hkey end' count count' hn hn'
      cases hn
      exact (hnew j other count' hother hkey.symm hn').symm
    · intro hkey end' count count' hn hn'
      cases hn'
      exact hnew j other count hother hkey hn

theorem step_inv (hpos : 0 < options.windowMs) {l : Label κ} (hundisturbed : Undisturbed s l) (h : Inv options s) (hstep : step options s l = some s') :
    Inv options s' := by
  cases step_moves hstep with
  | tick hle => exact h.tick hle
  | arrive => exact h.arrive hundisturbed
  | read hi hphase => exact h.read hi hphase
  | opens hi hphase hopens => exact h.openWindow hpos hi hphase hopens hundisturbed
  | counts hi hphase hopen => exact h.count hi hphase hopen
  | answer hi hphase => exact h.answer hi hphase

theorem window_eq (h : Inv options s) {key : κ} {resetAt' now : Int} (hw : (key, resetAt) ∈ s.windows) (hw' : (key, resetAt') ∈ s.windows)
    (hstart : resetAt - options.windowMs ≤ now) (hend : now < resetAt) (hstart' : resetAt' - options.windowMs ≤ now) (hend' : now < resetAt') :
    resetAt = resetAt' := by
  let Overlap (a b : κ × Int) := a.1 = b.1 → b.2 ≤ a.2 - options.windowMs ∨ a.2 ≤ b.2 - options.windowMs ∨ a.2 = b.2
  have hself : ∀ a ∈ s.windows, Overlap a a := fun _ _ _ => .inr (.inr rfl)
  have hlater : s.windows.Pairwise Overlap := h.apart.imp fun hab heq => .inl (hab heq)
  have hearlier : s.windows.Pairwise (flip Overlap) := h.apart.imp fun hab heq => .inr (.inl (hab heq.symm))
  have hor := hlater.forall_of_forall_of_flip hself hearlier hw hw' rfl
  dsimp only at hor
  omega

theorem passedIn_le (h : Inv options s) {key : κ} (hw : (key, resetAt) ∈ s.windows) :
    (passedIn options s key resetAt).length ≤ options.limit := by
  have hnumber : ∀ request ∈ passedIn options s key resetAt, request.key = key ∧
      ∃ count, request.number = some (resetAt, count) ∧ 1 ≤ count ∧ count ≤ options.limit := by
    intro request hmem
    obtain ⟨hrequest, hfilter⟩ := List.mem_filter.1 hmem
    obtain ⟨rfl, hstart, hend, hpassed⟩ := of_decide_eq_true hfilter
    obtain ⟨j, hj⟩ := List.getElem?_of_mem hrequest
    have hsound := h.requests j request hj
    obtain ⟨resetAt', count, hnumber, hle⟩ := hsound.passed hpassed
    obtain ⟨hw', hstart', hend', hone, -⟩ := hsound.numbered resetAt' count hnumber
    obtain rfl := window_eq h hw hw' hstart hend hstart' hend'
    exact ⟨rfl, count, hnumber, hone, hle⟩
  let counts := (passedIn options s key resetAt).map fun request => (request.number.map (·.2)).getD 0
  have hnodup : counts.Nodup := by
    have hdistinct : (passedIn options s key resetAt).Pairwise Distinct := h.distinct.pairwise.sublist List.filter_sublist
    refine List.pairwise_map.2 (hdistinct.imp_of_mem fun {a b} ha hb hab => ?_)
    obtain ⟨hka, count, hna, -⟩ := hnumber a ha
    obtain ⟨hkb, count', hnb, -⟩ := hnumber b hb
    simpa [hna, hnb] using hab (hka.trans hkb.symm) resetAt count count' hna hnb
  have hbounds : ∀ n ∈ counts, 1 ≤ n ∧ n ≤ options.limit := by
    intro n hn
    obtain ⟨request, hmem, rfl⟩ := List.mem_map.1 hn
    obtain ⟨-, count, hcount, hone, hle⟩ := hnumber request hmem
    simpa [hcount] using And.intro hone hle
  have hlength := length_le_of_nodup hnodup hbounds
  rwa [List.length_map] at hlength

end Invariant

/-! ## The limit -/

theorem passedIn_eq_nil {options : RateLimitOptions} (h : options.windowMs ≤ 0) (s : State κ) (key : κ) (resetAt : Int) :
    passedIn options s key resetAt = [] := by
  refine List.filter_eq_nil_iff.2 fun request _ hin => ?_
  obtain ⟨-, hstart, hend, -⟩ := of_decide_eq_true hin
  omega

/-- In a run in which no window is opened or swept away under a request that is still to write, a window of a key passes on
`limit` requests at most. -/
theorem passedIn_le_limit {options : RateLimitOptions} {ls : List (Label κ)} {s : State κ} (h : Run (step options) Undisturbed {} ls s)
    {key : κ} {resetAt : Int} (hw : (key, resetAt) ∈ s.windows) : (passedIn options s key resetAt).length ≤ options.limit := by
  rcases Int.lt_or_le 0 options.windowMs with hpos | hnone
  · exact passedIn_le (h.keeps (Inv options) (fun _ _ _ hok hinv hstep => step_inv hpos hok hinv hstep) .init) hw
  · rw [passedIn_eq_nil hnone]
    exact Nat.zero_le _

def isAlone (s : State κ) : Label κ → Bool
  | .arrive _ => s.requests.all fun request => !request.isInFlight
  | .write i => (s.requests.eraseIdx i).all fun request => !request.isInFlight
  | _ => true

theorem undisturbed_of_isAlone {s : State κ} {l : Label κ} (h : isAlone s l = true) : Undisturbed s l := by
  cases l with
  | arrive key =>
    intro request hrequest hflight
    have hidle := List.all_eq_true.1 h request hrequest
    rw [hflight] at hidle
    cases hidle
  | write i =>
    intro request found _ _ _ j other hj hother hflight
    have hidle := List.all_eq_true.1 h other (List.mem_eraseIdx_iff_getElem?.2 ⟨j, hj, hother⟩)
    rw [hflight] at hidle
    cases hidle
  | _ => trivial

/-- Two requests of a client, one after the other. -/
def inTurn : List (Label String) := [.arrive "127.0.0.1", .read 0, .write 0, .answer 0, .arrive "127.0.0.1", .read 1, .write 1, .answer 1]

theorem passedIn_le_limit_inTurn : (passedIn ⟨1, 1000⟩ (after (step ⟨1, 1000⟩) {} inTurn) "127.0.0.1" 1000).length ≤ 1 :=
  passedIn_le_limit (Run.of_passes (fun _ _ => undisturbed_of_isAlone) (by decide : passes (step ⟨1, 1000⟩) isAlone {} inTurn = true)) (by decide)

/-- Two requests of a client, which both read the store before the first has written. -/
def atOnce : List (Label String) := [.arrive "127.0.0.1", .arrive "127.0.0.1", .read 0, .read 1, .write 0, .write 1, .answer 0, .answer 1]

theorem passedIn_atOnce : ¬ ∀ (options : RateLimitOptions), 1 ≤ options.limit → ∀ (ls : List (Label String)) (s : State String),
    Run (step options) (fun _ _ => True) {} ls s → ∀ key resetAt, (key, resetAt) ∈ s.windows →
      (passedIn options s key resetAt).length ≤ options.limit := by
  intro h
  have hrun : Run (step ⟨1, 1000⟩) (fun _ _ => True) {} atOnce (after (step ⟨1, 1000⟩) {} atOnce) :=
    Run.of_passes (fun _ _ _ => trivial) (by decide : passes (step ⟨1, 1000⟩) (fun _ _ => true) {} atOnce = true)
  exact absurd (h ⟨1, 1000⟩ (Nat.le_refl 1) atOnce _ hrun "127.0.0.1" 1000 (by decide)) (by decide)

end Fluo.Http.RateLimit
