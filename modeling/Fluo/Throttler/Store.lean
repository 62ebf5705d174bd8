import Fluo.Lib.FixedWindow
import Fluo.Lib.OrderedMap
/-!
# Throttler stores

`createMemoryThrottlerStore`, whose map is swept when an entry may have expired, and
`RedisThrottlerStore`, whose script runs on the server. Times are milliseconds. The
key of both is any `κ`.
-/

namespace Fluo.Throttler
open Fluo.Lib

structure ThrottlerStoreEntry where
  count : Nat
  resetAt : Int
  /-- `[throttlerRetryAfterMsSymbol]` -/
  retryAfterMs : Option Int := none

/-- A call of `consume`: the key, the server's `TIME` that goes with `input.now`, and the input. -/
structure ConsumeCall (κ : Type) where
  key : κ
  seconds : Nat
  micros : Nat
  ttlSeconds : Int

variable {κ : Type}

/-- The time in milliseconds, as the script reads it. -/
def ConsumeCall.now (call : ConsumeCall κ) : Int := (call.seconds * 1000 + call.micros / 1000 : Nat)

def ThrottlerStoreEntry.window (entry : ThrottlerStoreEntry) : Window := ⟨entry.count, entry.resetAt⟩

/-- The call, of a plain counter. -/
def ConsumeCall.plain (call : ConsumeCall κ) : WindowCall κ := ⟨call.key, call.now, call.ttlSeconds * 1000⟩

/-! ## In memory -/

def consumeWindow (entry : Option ThrottlerStoreEntry) (now ttlSeconds : Int) : ThrottlerStoreEntry :=
  let resetAt := now + ttlSeconds * 1000
  match entry with
  | none => { count := 1, resetAt }
  | some entry => if entry.resetAt ≤ now then { count := 1, resetAt } else { count := entry.count + 1, resetAt := entry.resetAt }

structure MemoryStore (κ : Type) where
  map : OrderedMap κ ThrottlerStoreEntry := []
  nextSweepAt : Int := 0

/-- The earliest end of the entries, `0` if there is none. -/
def earliest (entries : List ThrottlerStoreEntry) : Int := ((entries.map (·.resetAt)).min?).getD 0

def sweepExpiredEntries (map : OrderedMap κ ThrottlerStoreEntry) (now : Int) : Int × OrderedMap κ ThrottlerStoreEntry :=
  let kept := map.filter fun entry => now < entry.2.resetAt
  (earliest (kept.map Prod.snd), kept)

variable [DecidableEq κ]

namespace MemoryStore

omit [DecidableEq κ] in
def sweep (store : MemoryStore κ) (now : Int) : MemoryStore κ :=
  if store.nextSweepAt ≤ now then
    let (nextSweepAt, map) := sweepExpiredEntries store.map now
    { map, nextSweepAt }
  else store

def consume (store : MemoryStore κ) (call : ConsumeCall κ) : ThrottlerStoreEntry × MemoryStore κ :=
  let store := store.sweep call.now
  let nextEntry := consumeWindow (store.map.get call.key) call.now call.ttlSeconds
  (nextEntry, {
    map := store.map.set call.key nextEntry
    nextSweepAt := if store.nextSweepAt = 0 then nextEntry.resetAt else min store.nextSweepAt nextEntry.resetAt })

end MemoryStore

/-! ## In Redis -/

/-- What the server does with a key that has a time to live: it is there until that has passed. -/
structure Redis where
  hasExpired : (expiresAt now : Int) → Bool
  live : ∀ expiresAt now, now < expiresAt → hasExpired expiresAt now = false

/-- What the script keeps under a key, with the time at which it expires. -/
structure RedisEntry where
  count : Nat
  resetAt : Int
  expiresAt : Int

abbrev RedisStore (κ : Type) := κ → Option RedisEntry

omit [DecidableEq κ] in
/-- `GET` -/
def RedisStore.get (store : RedisStore κ) (redis : Redis) (key : κ) (now : Int) : Option RedisEntry :=
  (store key).filter fun entry => !redis.hasExpired entry.expiresAt now

/-- What the script makes of what it has read: the count, and the end of the window. -/
def RedisEntry.next (raw : Option RedisEntry) (now ttlMs : Int) : Nat × Int :=
  match raw with
  | none => (1, now + ttlMs)
  | some decoded => if decoded.resetAt ≤ now then (1, now + ttlMs) else (decoded.count + 1, decoded.resetAt)

/-- `CONSUME_LUA`, and `parseConsumeResult` of what it returns. -/
def RedisStore.consume (redis : Redis) (store : RedisStore κ) (call : ConsumeCall κ) : ThrottlerStoreEntry × RedisStore κ :=
  let now := call.now
  let (count, resetAt) := RedisEntry.next (store.get redis call.key now) now (call.ttlSeconds * 1000)
  let ttlMsLeft := max (resetAt - now) 1
  ({ count, resetAt, retryAfterMs := some ttlMsLeft }, Function.update store call.key (some { count, resetAt, expiresAt := now + ttlMsLeft }))

/-! ## Both are plain counters -/

structure MemoryStore.Counts (now : Int) (store : MemoryStore κ) (counter : Counter κ) : Prop where
  keyed : store.map.Keyed
  agrees key : (store.map.get key).map ThrottlerStoreEntry.window = counter key ∨
    (store.map.get key = none ∧ ∃ window, counter key = some window ∧ window.resetAt ≤ now)

theorem MemoryStore.Counts.mono {c now : Int} {store : MemoryStore κ} {counter : Counter κ} (h : Counts c store counter) (hle : c ≤ now) :
    Counts now store counter :=
  ⟨h.keyed, fun key => (h.agrees key).imp_right fun hswept => ⟨hswept.1, hswept.2.imp fun _ hw => ⟨hw.1, Int.le_trans hw.2 hle⟩⟩⟩

theorem MemoryStore.Counts.sweep {c now : Int} {store : MemoryStore κ} {counter : Counter κ} (h : Counts c store counter) (hle : c ≤ now) :
    Counts now (store.sweep now) counter := by
  have hlater := h.mono hle
  unfold MemoryStore.sweep
  split
  · refine ⟨h.keyed.filter _, fun key => ?_⟩
    simp only [sweepExpiredEntries, OrderedMap.get_filter h.keyed]
    rcases hlater.agrees key with hkey | ⟨hnone, hended⟩
    · cases hget : store.map.get key with
      | none =>
        rw [hget] at hkey
        exact .inl hkey
      | some entry =>
        rw [hget] at hkey
        by_cases hend : now < entry.resetAt
        · rw [Option.filter_some, if_pos (decide_eq_true hend)]
          exact .inl hkey
        · rw [Option.filter_some, if_neg (by simpa using hend)]
          exact .inr ⟨rfl, entry.window, hkey.symm, Int.not_lt.1 hend⟩
    · rw [hnone]
      exact .inr ⟨rfl, hended⟩
  · exact hlater

theorem MemoryStore.Counts.consume {c : Int} {store : MemoryStore κ} {counter : Counter κ} {call : ConsumeCall κ}
    (h : Counts c store counter) (hle : c ≤ call.now) :
    (store.consume call).1.window = (counter.hit call.plain).1 ∧ Counts call.now (store.consume call).2 (counter.hit call.plain).2 := by
  have hs := h.sweep hle
  have hwindow : (consumeWindow ((store.sweep call.now).map.get call.key) call.now call.ttlSeconds).window = (counter.hit call.plain).1 := by
    rcases hs.agrees call.key with hkey | ⟨hnone, window, hcounter, hended⟩
    · simp only [Counter.hit, ConsumeCall.plain, ← hkey]
      cases (store.sweep call.now).map.get call.key with
      | none => rfl
      | some entry =>
        simp only [consumeWindow, Option.map_some, Window.hit, ThrottlerStoreEntry.window]
        split <;> rfl
    · simp only [Counter.hit, ConsumeCall.plain, hnone, hcounter, Window.hit_ended hended]
      rfl
  refine ⟨hwindow, hs.keyed.set call.key _, fun key => ?_⟩
  by_cases hkey : key = call.key
  · left
    subst hkey
    have hcounter : (counter.hit call.plain).2 call.key = some (counter.hit call.plain).1 := Function.update_self _ _ _
    rw [MemoryStore.consume, OrderedMap.get_set_self, Option.map_some, hwindow, hcounter]
  · have hother : (counter.hit call.plain).2 key = counter key := Function.update_of_ne hkey _ _
    simp only [MemoryStore.consume, OrderedMap.get_set_of_ne _ hkey, hother]
    exact hs.agrees key

omit [DecidableEq κ] in
theorem consumeWindow_retryAfterMs (entry : Option ThrottlerStoreEntry) (now ttlSeconds : Int) :
    (consumeWindow entry now ttlSeconds).retryAfterMs = none := by
  unfold consumeWindow
  dsimp only
  split
  · rfl
  · split <;> rfl

/-- At a time, the server has the window of a key, which it keeps to its end. -/
def RedisStore.Counts (store : RedisStore κ) (counter : Counter κ) : Prop :=
  ∀ key, (store key).map (fun entry => ⟨entry.count, entry.resetAt⟩) = counter key ∧ ∀ entry, store key = some entry → entry.resetAt ≤ entry.expiresAt

omit [DecidableEq κ] in
theorem RedisStore.Counts.next {redis : Redis} {store : RedisStore κ} {counter : Counter κ} (h : Counts store counter) (key : κ)
    (now ttlMs : Int) : RedisEntry.next (store.get redis key now) now ttlMs =
      ((Window.hit (counter key) now ttlMs).count, (Window.hit (counter key) now ttlMs).resetAt) := by
  obtain ⟨hkey, hkept⟩ := h key
  rw [← hkey, RedisStore.get]
  cases hentry : store key with
  | none => rfl
  | some entry =>
    rw [Option.map_some, Option.filter_some]
    cases hexpired : redis.hasExpired entry.expiresAt now with
    | true =>
      have hended : entry.resetAt ≤ now := by
        refine Int.not_lt.1 fun hlt => ?_
        have hlive := redis.live entry.expiresAt now (Int.lt_of_lt_of_le hlt (hkept entry hentry))
        rw [hlive] at hexpired
        cases hexpired
      rw [Window.hit_ended hended]
      rfl
    | false =>
      simp only [Bool.not_false, if_true, RedisEntry.next, Window.hit]
      split <;> rfl

theorem RedisStore.Counts.consume {redis : Redis} {store : RedisStore κ} {counter : Counter κ} (h : Counts store counter) (call : ConsumeCall κ) :
    (store.consume redis call).1.window = (counter.hit call.plain).1 ∧
      (store.consume redis call).1.retryAfterMs = some (max ((counter.hit call.plain).1.resetAt - call.now) 1) ∧
      Counts (store.consume redis call).2 (counter.hit call.plain).2 := by
  have hnext : RedisEntry.next (store.get redis call.key call.now) call.now (call.ttlSeconds * 1000) =
      ((counter.hit call.plain).1.count, (counter.hit call.plain).1.resetAt) := h.next call.key _ _
  have hcounter : (counter.hit call.plain).2 = Function.update counter call.key (some (counter.hit call.plain).1) := rfl
  generalize (counter.hit call.plain).1 = window at hnext hcounter ⊢
  rw [hcounter, RedisStore.consume, hnext]
  refine ⟨rfl, rfl, fun key => ?_⟩
  dsimp only
  by_cases hk : key = call.key
  · subst hk
    rw [Function.update_self, Function.update_self]
    refine ⟨rfl, fun entry hentry => ?_⟩
    cases hentry
    dsimp only
    omega
  · rw [Function.update_of_ne hk, Function.update_of_ne hk]
    exact h key

theorem MemoryStore.counts_empty (now : Int) : Counts now ({} : MemoryStore κ) fun _ => none :=
  ⟨List.nodup_nil, fun _ => .inl rfl⟩

omit [DecidableEq κ] in
theorem RedisStore.counts_empty : RedisStore.Counts (fun _ : κ => none) fun _ => none := fun _ => ⟨rfl, nofun⟩

end Fluo.Throttler
