import Mathlib.Data.Rat.Encodable
import Fluo.CacheManager.MemoryStore
import Fluo.Lib.Glob
import Fluo.Lib.Runs
/-!
# The Redis store

`RedisStore` of `stores/redis-store.ts`, on a server whose keys expire, beside a memory store
that is given the same calls.
-/

namespace Fluo.CacheManager.Redis
open Fluo.Lib
open Fluo.CacheManager.Memory (Time MemoryStore MemoryCacheEntry Outcome Seconds)

/-! ## The runtime -/

/-- A member of an object that was parsed: a number, which may be too large for one, or something else. -/
inductive Member
  | number (value : Time)
  | other

/-- An object that was parsed, with the members that `parseEntry` reads. -/
structure Decoded (V : Type) where
  value : Option V
  expiresAt : Option Member

structure RedisCacheEntry (V : Type) where
  value : V
  expiresAt : Option Time := none

/-- What `JSON.stringify` makes of `expiresAt`: an infinite number becomes `null`. -/
def memberOf : Time → Member
  | ⊤ => .other
  | (time : ℚ) => .number time

/-- The numbers and `JSON` of the language, and the patterns of `SCAN`. -/
structure Runtime (V : Type) where
  /-- The double of a number, `Infinity` where that is too large. -/
  round : ℚ → Time
  round_of_le (n : ℕ) : n ≤ 2 ^ 53 → round n = (n : ℚ)
  round_pow (k : ℕ) : k ≤ 64 → round (2 ^ k) = (2 ^ k : ℚ)
  round_mono : Monotone round
  stringify : RedisCacheEntry V → Text
  /-- None for a text that throws, and for what is no object. -/
  parse : Text → Option (Decoded V)
  parse_stringify (entry : RedisCacheEntry V) : parse (stringify entry) = some ⟨some entry.value, entry.expiresAt.map memberOf⟩
  glob : Text → Text → Bool

variable {V : Type} (runtime : Runtime V) (keyPrefix : Text)

/-! ## The server -/

/-- The keys of a server, with their texts and the milliseconds they expire at. -/
abbrev Server := Text → Option (Text × Option ℕ)

namespace Server

/-- `GET` -/
def get (server : Server) (now : ℕ) (key : Text) : Option Text :=
  (server key).bind fun stored => if isLive now stored.2 then some stored.1 else none

/-- `SET`, with `EX` if there are seconds. It fails where the time does not fit 64 bits. -/
def set (server : Server) (now : ℕ) (key raw : Text) : Option ℕ → Option Server
  | none => some (Function.update server key (some (raw, none)))
  | some seconds =>
    if now + seconds * 1000 < 2 ^ 63 then some (Function.update server key (some (raw, some (now + seconds * 1000)))) else none

/-- `DEL` -/
def del (server : Server) (keys : List Text) : Server := fun key => if key ∈ keys then none else server key

end Server

/-! ## The store -/

def parseEntry (raw : Text) : Option (RedisCacheEntry V) := do
  let decoded ← runtime.parse raw
  let value ← decoded.value
  match decoded.expiresAt with
  | none => some { value }
  | some (.number (time : ℚ)) => some { value, expiresAt := some time }
  | some _ => none

def normalizePositiveTtlMilliseconds (ttlSeconds : ℕ) : Time := max 1 ((runtime.round (ttlSeconds * 1000)).map fun q => (⌈q⌉ : ℚ))

def normalizeRedisExpirySeconds (ttlSeconds : ℕ) : ℕ := max 1 ttlSeconds

structure RedisStore where
  server : Server
  ownedKeys : List Text := []

def toRedisKey (key : Text) : Text := keyPrefix ++ key

namespace RedisStore

def get (store : RedisStore) (now : ℕ) (key : Text) : Outcome V :=
  match store.server.get now (toRedisKey keyPrefix key) with
  | none => .undefined
  | some raw =>
    match parseEntry runtime raw with
    | none => .undefined
    | some decoded => if decoded.expiresAt.any (· ≤ ((now : ℚ) : Time)) then .undefined else .value decoded.value

def trackOwnedKey (store : RedisStore) (redisKey : Text) : RedisStore :=
  if keyPrefix.length = 0 then { store with ownedKeys := if redisKey ∈ store.ownedKeys then store.ownedKeys else store.ownedKeys ++ [redisKey] } else store

/-- `now + ttlMilliseconds` -/
def expiresAt (now ttlSeconds : ℕ) : Time :=
  match normalizePositiveTtlMilliseconds runtime ttlSeconds with
  | ⊤ => ⊤
  | (q : ℚ) => runtime.round (now + q)

/-- None if the server fails. -/
def set (store : RedisStore) (now : ℕ) (key : Text) (value : V) (ttlSeconds : ℕ) : Option RedisStore :=
  let redisKey := toRedisKey keyPrefix key
  if 0 < ttlSeconds then do
    let raw := runtime.stringify { value, expiresAt := some (expiresAt runtime now ttlSeconds) }
    let server ← store.server.set now redisKey raw (some (normalizeRedisExpirySeconds ttlSeconds))
    return trackOwnedKey keyPrefix { store with server } redisKey
  else do
    let server ← store.server.set now redisKey (runtime.stringify { value }) none
    return trackOwnedKey keyPrefix { store with server } redisKey

def del (store : RedisStore) (key : Text) : RedisStore where
  server := store.server.del [toRedisKey keyPrefix key]
  ownedKeys := store.ownedKeys.filter (· ≠ toRedisKey keyPrefix key)

/-- The keys of one `SCAN`: they are deleted unless the first of them is empty. -/
def deleteScanned (server : Server) : List Text → Server
  | [] => server
  | firstKey :: restKeys => if firstKey = [] then server else server.del (firstKey :: restKeys)

/-- `batches` are what the scans return. -/
def reset (store : RedisStore) (batches : List (List Text)) : RedisStore :=
  if keyPrefix.length = 0 then ⟨store.server.del store.ownedKeys, []⟩ else ⟨batches.foldl deleteScanned store.server, []⟩

end RedisStore

/-! ## The memory store -/

/-- The values are cloned as they are. -/
def memoryHost : Memory.Host V := ⟨runtime.round, some⟩

/-- `MemoryStore.set` without `enforceEntryLimit`, of a value that is cloned as it is. -/
def setKeepingAll (store : MemoryStore Text V) (now : ℚ) (key : Text) (value : V) (ttlSeconds : Seconds) : MemoryStore Text V :=
  let store := store.sweep now
  let expiresAt := MemoryStore.expiry (memoryHost runtime) now ttlSeconds
  let entries := (store.entries.filter fun entry => entry.1 ≠ key) ++ [(key, { value := value, expiresAt })]
  let nextSweepAt := match expiresAt with
    | none => store.nextSweepAt
    | some expiresAt => if store.nextSweepAt = 0 then expiresAt else min store.nextSweepAt expiresAt
  { entries, nextSweepAt }

/-! ## Runs -/

inductive Operation (V : Type)
  | get (key : Text)
  | set (key : Text) (value : V) (ttlSeconds : ℕ)
  | del (key : Text)
  /-- With what the scans return. -/
  | reset (batches : List (List Text))

/-- A call, and what `Date.now()` and the clock of the server are at it. -/
structure Call (V : Type) where
  now : ℕ
  operation : Operation V

structure State (V : Type) where
  clock : ℕ := 0
  store : RedisStore
  memory : MemoryStore Text V := {}
  /-- What the server held before the first call, and the keys that the store has written since. -/
  initial : Server := store.server
  written : List Text := []
  /-- What the two stores have answered. The Redis store has none where it failed. -/
  answers : List (Option (Outcome V) × Outcome V) := []

def State.answer (s : State V) (answer : Option (Outcome V) × Outcome V) : State V := { s with answers := s.answers ++ [answer] }

def perform (s : State V) (now : ℕ) : Operation V → State V
  | .get key =>
    let performed := s.memory.get (memoryHost runtime) (now : ℚ) key
    { s with memory := performed.2 }.answer (some (s.store.get runtime keyPrefix now key), performed.1)
  | .set key value ttlSeconds =>
    let memory := setKeepingAll runtime s.memory now key value (.finite ttlSeconds)
    match s.store.set runtime keyPrefix now key value ttlSeconds with
    | none => { s with memory }.answer (none, .undefined)
    | some store => { s with store, memory, written := toRedisKey keyPrefix key :: s.written }.answer (some .undefined, .undefined)
  | .del key => { s with store := s.store.del keyPrefix key, memory := (s.memory.del key).2 }.answer (some .undefined, .undefined)
  | .reset batches => { s with store := s.store.reset keyPrefix batches, memory := {} }.answer (some .undefined, .undefined)

def step (s : State V) (call : Call V) : Option (State V) := some { perform runtime keyPrefix s call.now call.operation with clock := call.now }

def Operation.names : Operation V → List Text
  | .get key | .set key _ _ | .del key => [key]
  | .reset _ => []

/-- The largest time of the language. -/
def maxTime : ℕ := 8640000000000000

/-- The scans return every key that matches, and nothing else. -/
def Scanned (server : Server) (now : ℕ) (batches : List (List Text)) : Prop :=
  ∀ key, key ∈ batches.flatten ↔ (server.get now key).isSome ∧ runtime.glob (keyPrefix ++ ['*']) key = true

/-- The clock does not go back, no key is named that the server held for another, and scans keep their promise. -/
def Legal (s : State V) (call : Call V) : Prop :=
  s.clock ≤ call.now ∧ call.now ≤ maxTime ∧ (∀ key ∈ call.operation.names, s.initial (toRedisKey keyPrefix key) = none) ∧
    match call.operation with
    | .reset batches => Scanned runtime keyPrefix s.store.server call.now batches
    | _ => True

/-- The time of a key fits 64 bits, and the pattern of the scans matches the keys that begin with the prefix. -/
def Meets (s : State V) (call : Call V) : Prop :=
  match call.operation with
  | .set _ _ ttlSeconds => call.now + ttlSeconds * 1000 < 2 ^ 63
  | .reset _ => keyPrefix ≠ [] → ∀ key, (s.store.server.get call.now key).isSome → (runtime.glob (keyPrefix ++ ['*']) key = true ↔ keyPrefix <+: key)
  | _ => True

/-! ## What the calls do -/

/-- The keys that are the store's own: those under its prefix, or those that it has written. -/
def Own (s : State V) (redisKey : Text) : Prop := if keyPrefix = [] then redisKey ∈ s.written else keyPrefix <+: redisKey

/-- The keys that a call may change. -/
def Touches (s : State V) (call : Call V) (redisKey : Text) : Prop :=
  match call.operation with
  | .get _ => False
  | .set key _ _ | .del key => redisKey = toRedisKey keyPrefix key
  | .reset _ => Own keyPrefix s redisKey

/-- The stores have answered the same, a reset has left none of the store's own keys on the server, and no call has
touched another one. -/
structure Agrees (s s' : State V) (call : Call V) : Prop where
  answers : ∀ answer ∈ s'.answers, answer.1 = some answer.2
  reset : ∀ batches, call.operation = .reset batches → ∀ key, Own keyPrefix s key → s'.store.server.get call.now key = none
  others : ∀ key, ¬Touches keyPrefix s call key → s'.store.server key = s.store.server key

/-! ## Times -/

section Times
variable {runtime} {now ttlSeconds time : ℕ} {q : ℚ}

/-- Milliseconds that stand for the seconds: they are exact, or both are beyond all times. -/
def Stands (milliseconds : ℚ) (ttlSeconds : ℕ) : Prop :=
  milliseconds = (ttlSeconds * 1000 : ℕ) ∨ 2 ^ 53 ≤ milliseconds ∧ 2 ^ 53 ≤ ttlSeconds * 1000

variable (runtime ttlSeconds) in
theorem round_seconds (hfits : ttlSeconds * 1000 < 2 ^ 63) : ∃ q : ℚ, runtime.round (ttlSeconds * 1000) = q ∧ q ≤ 2 ^ 63 ∧ Stands q ttlSeconds := by
  have hcast : (ttlSeconds * 1000 : ℚ) = (ttlSeconds * 1000 : ℕ) := by push_cast; rfl
  rw [hcast]
  have hle : ((ttlSeconds * 1000 : ℕ) : ℚ) ≤ 2 ^ 63 := by exact_mod_cast hfits.le
  by_cases hexact : ttlSeconds * 1000 ≤ 2 ^ 53
  · exact ⟨_, runtime.round_of_le _ hexact, hle, .inl rfl⟩
  · have hlarge : (2 ^ 53 : ℚ) ≤ (ttlSeconds * 1000 : ℕ) := by exact_mod_cast (not_le.1 hexact).le
    have hlow := runtime.round_mono hlarge
    have hhigh := runtime.round_mono hle
    rw [runtime.round_pow 53 (by decide)] at hlow
    rw [runtime.round_pow 63 (by decide)] at hhigh
    obtain ⟨q, hq⟩ := WithTop.ne_top_iff_exists.1 (ne_top_of_le_ne_top WithTop.coe_ne_top hhigh)
    rw [← hq] at hlow hhigh ⊢
    exact ⟨q, rfl, WithTop.coe_le_coe.1 hhigh, .inr ⟨WithTop.coe_le_coe.1 hlow, (not_le.1 hexact).le⟩⟩

theorem Stands.floor (h : Stands q ttlSeconds) : Stands ⌊q⌋ ttlSeconds := by
  rcases h with rfl | ⟨hq, hlarge⟩
  · exact .inl (by rw [Int.floor_natCast]; rfl)
  · refine .inr ⟨?_, hlarge⟩
    have hfloor : (2 ^ 53 : ℤ) ≤ ⌊q⌋ := Int.le_floor.2 (by exact_mod_cast hq)
    exact_mod_cast hfloor

theorem Stands.ceil (h : Stands q ttlSeconds) : Stands ⌈q⌉ ttlSeconds := by
  rcases h with rfl | ⟨hq, hlarge⟩
  · exact .inl (by rw [Int.ceil_natCast]; rfl)
  · exact .inr ⟨hq.trans (Int.le_ceil q), hlarge⟩

theorem Stands.max (h : Stands q ttlSeconds) (hpos : 0 < ttlSeconds) : max 1 q = q := by
  apply max_eq_right
  rcases h with rfl | ⟨hq, -⟩
  · have hone : 1 ≤ ttlSeconds * 1000 := by omega
    exact_mod_cast hone
  · exact le_trans (by norm_num) hq

theorem Stands.lt_round_iff (h : Stands q ttlSeconds) (htime : time ≤ maxTime) :
    ((time : ℚ) : Time) < runtime.round (now + q) ↔ time < now + ttlSeconds * 1000 := by
  have hbeyond (hlarge : (2 ^ 53 : ℚ) ≤ now + q) : ((time : ℚ) : Time) < runtime.round (now + q) := by
    have hround := runtime.round_mono hlarge
    rw [runtime.round_pow 53 (by decide)] at hround
    refine lt_of_lt_of_le (WithTop.coe_lt_coe.2 ?_) hround
    have hmax : time < 2 ^ 53 := lt_of_le_of_lt htime (by decide)
    exact_mod_cast hmax
  have hmax : maxTime < 2 ^ 53 := by decide
  rcases h with rfl | ⟨hq, hlarge⟩
  · have hsum : ((now : ℚ) + (ttlSeconds * 1000 : ℕ)) = (now + ttlSeconds * 1000 : ℕ) := by push_cast; rfl
    by_cases hexact : now + ttlSeconds * 1000 ≤ 2 ^ 53
    · rw [hsum, runtime.round_of_le _ hexact, WithTop.coe_lt_coe, Nat.cast_lt]
    · refine iff_of_true (hbeyond ?_) (by omega)
      rw [hsum]
      exact_mod_cast (not_le.1 hexact).le
  · refine iff_of_true (hbeyond ?_) (by omega)
    have hnonneg : (0 : ℚ) ≤ now := Nat.cast_nonneg now
    linarith

theorem memory_expiry (hpos : 0 < ttlSeconds) (hround : runtime.round (ttlSeconds * 1000) = q) :
    MemoryStore.expiry (memoryHost runtime) now (.finite ttlSeconds) = some (runtime.round (now + max 1 (⌊q⌋ : ℚ))) := by
  have hpositive : Seconds.isPositive (.finite ttlSeconds) = true := decide_eq_true (Nat.cast_pos.2 hpos)
  unfold MemoryStore.expiry
  rw [if_pos hpositive]
  simp only [memoryHost, hround, WithTop.map_coe]
  rfl

theorem expiresAt_eq (hround : runtime.round (ttlSeconds * 1000) = q) :
    RedisStore.expiresAt runtime now ttlSeconds = runtime.round (now + max 1 (⌈q⌉ : ℚ)) := by
  unfold RedisStore.expiresAt normalizePositiveTtlMilliseconds
  rw [hround]
  rfl

variable (runtime) in
theorem expiry_agrees (hpos : 0 < ttlSeconds) (hfits : now + ttlSeconds * 1000 < 2 ^ 63) (hnow : now ≤ maxTime) :
    ∃ deadline deadline' : Time, MemoryStore.expiry (memoryHost runtime) now (.finite ttlSeconds) = some deadline ∧
      RedisStore.expiresAt runtime now ttlSeconds = deadline' ∧ deadline' ≠ ⊤ ∧
      ∀ time ≤ maxTime, (((time : ℚ) : Time) < deadline ↔ time < now + ttlSeconds * 1000) ∧
        (((time : ℚ) : Time) < deadline' ↔ time < now + ttlSeconds * 1000) := by
  obtain ⟨q, hround, hq, hstands⟩ := round_seconds runtime ttlSeconds (by omega)
  refine ⟨_, _, memory_expiry hpos hround, expiresAt_eq hround, ?_, fun time htime => ?_⟩
  · have hceil : (⌈q⌉ : ℚ) ≤ 2 ^ 63 := by exact_mod_cast Int.ceil_le.2 (show q ≤ ((2 ^ 63 : ℤ) : ℚ) by exact_mod_cast hq)
    have hsum : (now : ℚ) + max 1 (⌈q⌉ : ℚ) ≤ 2 ^ 64 := by
      rw [hstands.ceil.max hpos]
      have hbound : (now : ℚ) ≤ 2 ^ 53 := by exact_mod_cast hnow.trans (by decide)
      linarith
    have htop := runtime.round_mono hsum
    rw [runtime.round_pow 64 le_rfl] at htop
    exact ne_top_of_le_ne_top WithTop.coe_ne_top htop
  · rw [hstands.ceil.max hpos, hstands.floor.max hpos]
    exact ⟨hstands.floor.lt_round_iff htime, hstands.ceil.lt_round_iff htime⟩

end Times

/-! ## The entries of the memory store -/

section Entries
variable {memory : MemoryStore Text V} {now time : ℕ} {key key' : Text}

def MemoryCacheEntry.answer (time : ℕ) (entry : Memory.MemoryCacheEntry V) : Outcome V :=
  if isLive ((time : ℚ) : Time) entry.expiresAt then .value entry.value else .undefined

def answer (entries : OrderedMap Text (Memory.MemoryCacheEntry V)) (time : ℕ) (key : Text) : Outcome V :=
  (entries.get key).elim .undefined (MemoryCacheEntry.answer time)

variable {entry : Memory.MemoryCacheEntry V}

theorem answer_of_live (h : isLive ((time : ℚ) : Time) entry.expiresAt = true) :
    MemoryCacheEntry.answer time entry = .value entry.value := if_pos h

theorem answer_of_expired (h : ¬isLive ((now : ℚ) : Time) entry.expiresAt = true) (hle : now ≤ time) :
    MemoryCacheEntry.answer time entry = .undefined := by
  apply if_neg
  intro hlater
  exact h (Expiring.isLive_mono (WithTop.coe_le_coe.2 (Nat.cast_le.2 hle)) hlater)

theorem answer_filter_live {entries : OrderedMap Text (Memory.MemoryCacheEntry V)} (h : entries.Keyed) (hle : now ≤ time) (key : Text) :
    answer (entries.filter fun entry => isLive ((now : ℚ) : Time) entry.2.expiresAt) time key = answer entries time key := by
  rw [answer, answer, OrderedMap.get_filter h]
  cases hget : entries.get key with
  | none => rfl
  | some entry =>
    rw [Option.filter_some]
    by_cases hlive : isLive ((now : ℚ) : Time) entry.expiresAt = true
    · rw [if_pos hlive]
    · rw [if_neg hlive]
      exact (answer_of_expired hlive hle).symm

theorem answer_filter_of_ne (entries : OrderedMap Text (Memory.MemoryCacheEntry V)) (hne : key' ≠ key) :
    answer (entries.filter fun entry => entry.1 ≠ key) time key' = answer entries time key' := by
  rw [answer, answer, OrderedMap.get_filter_of_ne entries hne]

theorem get_filter_self (entries : OrderedMap Text (Memory.MemoryCacheEntry V)) (key : Text) :
    OrderedMap.get (entries.filter fun entry => entry.1 ≠ key) key = none := by
  rw [OrderedMap.get_eq_none, List.mem_map]
  rintro ⟨entry, hmem, hkey⟩
  simpa [hkey] using (List.mem_filter.1 hmem).2

theorem answer_filter_self (entries : OrderedMap Text (Memory.MemoryCacheEntry V)) (key : Text) :
    answer (entries.filter fun entry => entry.1 ≠ key) time key = .undefined := by
  rw [answer, get_filter_self]
  rfl

theorem sweep_keeps (h : memory.entries.Keyed) (hle : now ≤ time) :
    (memory.sweep ((now : ℚ) : Time)).entries.Keyed ∧
      ∀ key, answer (memory.sweep ((now : ℚ) : Time)).entries time key = answer memory.entries time key := by
  unfold MemoryStore.sweep
  split
  · simp only [Memory.sweepExpiredEntries, Memory.sweepLoop_fst]
    exact ⟨h.filter _, answer_filter_live h hle⟩
  · exact ⟨h, fun _ => rfl⟩

theorem any_le_iff {expiresAt : Option Time} : (expiresAt.any (· ≤ ((now : ℚ) : Time)) = true) = ¬isLive ((now : ℚ) : Time) expiresAt = true := by
  cases expiresAt with
  | none => simp [isLive]
  | some expiresAt =>
    apply propext
    rw [isLive, Option.any_some, Option.all_some, decide_eq_true_iff, decide_eq_true_iff, not_lt]

variable (now) in
theorem get_answer (h : memory.entries.Keyed) (key : Text) :
    (memory.get (memoryHost runtime) ((now : ℚ) : Time) key).1 = answer memory.entries now key ∧
      (memory.get (memoryHost runtime) ((now : ℚ) : Time) key).2.entries.Keyed ∧
      ∀ time, now ≤ time → ∀ key', answer (memory.get (memoryHost runtime) ((now : ℚ) : Time) key).2.entries time key' = answer memory.entries time key' := by
  obtain ⟨hkeyed, hnow⟩ := sweep_keeps h (le_refl now)
  have hswept time (hle : now ≤ time) := (sweep_keeps h hle).2
  rw [← hnow key]
  unfold MemoryStore.get
  generalize memory.sweep ((now : ℚ) : Time) = swept at hkeyed hswept ⊢
  dsimp only
  cases hget : swept.entries.get key with
  | none => exact ⟨by rw [answer, hget]; rfl, hkeyed, hswept⟩
  | some entry =>
    have hanswer : answer swept.entries now key = MemoryCacheEntry.answer now entry := by rw [answer, hget, Option.elim_some]
    simp only [any_le_iff]
    by_cases hlive : isLive ((now : ℚ) : Time) entry.expiresAt = true
    · rw [if_neg (not_not.2 hlive), hanswer, answer_of_live hlive]
      exact ⟨rfl, hkeyed, hswept⟩
    · simp only [if_pos hlive, Memory.sweepExpiredEntries, Memory.sweepLoop_fst]
      refine ⟨?_, (hkeyed.filter _).filter _, fun time hle key' => ?_⟩
      · rw [hanswer, answer_of_expired hlive le_rfl]
      · rw [answer_filter_live (hkeyed.filter _) hle, ← hswept time hle key']
        by_cases hkey : key' = key
        · subst hkey
          rw [answer_filter_self, answer, hget, Option.elim_some, answer_of_expired hlive hle]
        · exact answer_filter_of_ne _ hkey

variable (now) in
theorem set_answer (h : memory.entries.Keyed) (key : Text) (value : V) (ttlSeconds : Seconds) :
    (setKeepingAll runtime memory now key value ttlSeconds).entries.Keyed ∧
      ∀ time, now ≤ time → ∀ key', answer (setKeepingAll runtime memory now key value ttlSeconds).entries time key' =
        if key' = key then MemoryCacheEntry.answer time ⟨value, MemoryStore.expiry (memoryHost runtime) now ttlSeconds⟩
        else answer memory.entries time key' := by
  obtain ⟨hkeyed, -⟩ := sweep_keeps h (le_refl now)
  have hswept time (hle : now ≤ time) := (sweep_keeps h hle).2
  simp only [setKeepingAll]
  generalize memory.sweep ((now : ℚ) : Time) = swept at hkeyed hswept ⊢
  have hnew : key ∉ (swept.entries.filter fun entry => entry.1 ≠ key).map Prod.fst := OrderedMap.get_eq_none.1 (get_filter_self _ key)
  rw [← OrderedMap.set_of_notMem hnew]
  refine ⟨(hkeyed.filter _).set _ _, fun time hle key' => ?_⟩
  rw [← hswept time hle key']
  by_cases hkey : key' = key
  · subst hkey
    rw [if_pos rfl, answer, OrderedMap.get_set_self]
    rfl
  · rw [if_neg hkey, answer, OrderedMap.get_set_of_ne _ hkey]
    exact answer_filter_of_ne _ hkey

end Entries

/-! ## The keys of the server -/

section Keys
variable {runtime keyPrefix} {store store' : RedisStore} {now ttlSeconds time : ℕ} {key key' : Text}

theorem parseEntry_stringify {entry : RedisCacheEntry V} (h : entry.expiresAt ≠ some ⊤) :
    parseEntry runtime (runtime.stringify entry) = some entry := by
  obtain ⟨value, expiresAt⟩ := entry
  rw [parseEntry, runtime.parse_stringify]
  match expiresAt with
  | none => rfl
  | some ⊤ => exact absurd rfl h
  | some (time : ℚ) => rfl

theorem get_congr (h : store.server (toRedisKey keyPrefix key) = store'.server (toRedisKey keyPrefix key)) (time : ℕ) :
    store.get runtime keyPrefix time key = store'.get runtime keyPrefix time key := by
  rw [RedisStore.get, RedisStore.get, Server.get, Server.get, h]

theorem server_get_of_none {server : Server} {redisKey : Text} (h : server redisKey = none) (time : ℕ) : server.get time redisKey = none := by
  rw [Server.get, h]
  rfl

theorem get_of_none (h : store.server.get time (toRedisKey keyPrefix key) = none) : store.get runtime keyPrefix time key = .undefined := by
  rw [RedisStore.get, h]

theorem get_of_server (entry : RedisCacheEntry V) (deadline : Option ℕ)
    (h : store.server (toRedisKey keyPrefix key) = some (runtime.stringify entry, deadline)) (hfinite : entry.expiresAt ≠ some ⊤)
    (hlive : isLive time deadline = isLive ((time : ℚ) : Time) entry.expiresAt) :
    store.get runtime keyPrefix time key = if isLive time deadline then .value entry.value else .undefined := by
  rw [RedisStore.get, Server.get, h, Option.bind_some]
  dsimp only
  by_cases hthere : isLive time deadline = true
  · have hread : entry.expiresAt.any (· ≤ ((time : ℚ) : Time)) ≠ true := by
      rw [ne_eq, any_le_iff, ← hlive, not_not]
      exact hthere
    rw [if_pos hthere, if_pos hthere]
    dsimp only
    rw [parseEntry_stringify hfinite]
    exact if_neg hread
  · rw [if_neg hthere, if_neg hthere]

theorem toRedisKey_injective : Function.Injective (toRedisKey keyPrefix) := fun _ _ => List.append_cancel_left

theorem mem_trackOwnedKey {redisKey redisKey' : Text} :
    redisKey' ∈ (RedisStore.trackOwnedKey keyPrefix store redisKey).ownedKeys ↔ redisKey' ∈ store.ownedKeys ∨ keyPrefix = [] ∧ redisKey' = redisKey := by
  unfold RedisStore.trackOwnedKey
  by_cases hempty : keyPrefix = []
  · rw [if_pos (List.length_eq_zero_iff.2 hempty)]
    by_cases hmem : redisKey ∈ store.ownedKeys
    · simp only [if_pos hmem]
      refine ⟨.inl, fun h => h.elim id ?_⟩
      rintro ⟨-, rfl⟩
      exact hmem
    · simp only [if_neg hmem, List.mem_append, List.mem_singleton, hempty, true_and]
  · rw [if_neg (mt List.length_eq_zero_iff.1 hempty)]
    simp [hempty]

theorem trackOwnedKey_server (redisKey : Text) : (RedisStore.trackOwnedKey keyPrefix store redisKey).server = store.server := by
  unfold RedisStore.trackOwnedKey
  split <;> rfl

def wrote (runtime : Runtime V) (keyPrefix : Text) (store : RedisStore) (key : Text) (entry : RedisCacheEntry V) (deadline : Option ℕ) : RedisStore :=
  RedisStore.trackOwnedKey keyPrefix
    { store with server := Function.update store.server (toRedisKey keyPrefix key) (some (runtime.stringify entry, deadline)) } (toRedisKey keyPrefix key)

theorem wrote_server (key : Text) (entry : RedisCacheEntry V) (deadline : Option ℕ) :
    (wrote runtime keyPrefix store key entry deadline).server =
      Function.update store.server (toRedisKey keyPrefix key) (some (runtime.stringify entry, deadline)) := trackOwnedKey_server _

theorem set_eq_wrote (value : V) (hfits : now + ttlSeconds * 1000 < 2 ^ 63) (hpos : 0 < ttlSeconds) :
    store.set runtime keyPrefix now key value ttlSeconds =
      some (wrote runtime keyPrefix store key ⟨value, some (RedisStore.expiresAt runtime now ttlSeconds)⟩ (some (now + ttlSeconds * 1000))) := by
  have hseconds : normalizeRedisExpirySeconds ttlSeconds = ttlSeconds := max_eq_right hpos
  unfold RedisStore.set
  simp only [if_pos hpos, Server.set, hseconds, if_pos hfits]
  rfl

variable (runtime keyPrefix store key) in
theorem set_spec (value : V) (hfits : now + ttlSeconds * 1000 < 2 ^ 63) (hnow : now ≤ maxTime) :
    ∃ entry deadline, store.set runtime keyPrefix now key value ttlSeconds = some (wrote runtime keyPrefix store key entry deadline) ∧
      ∀ time ≤ maxTime, (wrote runtime keyPrefix store key entry deadline).get runtime keyPrefix time key =
        MemoryCacheEntry.answer time ⟨value, MemoryStore.expiry (memoryHost runtime) now (.finite ttlSeconds)⟩ := by
  by_cases hpos : 0 < ttlSeconds
  · obtain ⟨deadline, deadline', hmemory, hexpires, hfinite, htimes⟩ := expiry_agrees runtime hpos hfits hnow
    refine ⟨_, _, set_eq_wrote value hfits hpos, fun time htime => ?_⟩
    obtain ⟨hbefore, hbefore'⟩ := htimes time htime
    have hserver : isLive time (some (now + ttlSeconds * 1000)) = isLive ((time : ℚ) : Time) (some deadline') := by
      simp only [isLive, Option.all_some, hbefore']
    have hentry : isLive ((time : ℚ) : Time) (some deadline) = isLive time (some (now + ttlSeconds * 1000)) := by
      simp only [isLive, Option.all_some, hbefore]
    rw [hexpires, hmemory, MemoryCacheEntry.answer, hentry]
    refine get_of_server ⟨value, some deadline'⟩ _ ?_ (fun htop => hfinite (Option.some.inj htop)) hserver
    rw [wrote_server, Function.update_self]
  · have hnever : MemoryStore.expiry (memoryHost runtime) now (.finite ttlSeconds) = none := by
      apply if_neg
      simp [Seconds.isPositive, Nat.eq_zero_of_not_pos hpos]
    refine ⟨⟨value, none⟩, none, if_neg hpos, fun time _ => ?_⟩
    rw [hnever]
    refine get_of_server ⟨value, none⟩ none ?_ (by simp) rfl
    rw [wrote_server, Function.update_self]

theorem foldl_deleteScanned {batches : List (List Text)} (h : [] ∉ batches.flatten) (server : Server) :
    batches.foldl RedisStore.deleteScanned server = server.del batches.flatten := by
  induction batches generalizing server with
  | nil =>
    funext key
    simp [Server.del]
  | cons keys batches ih =>
    rw [List.flatten_cons, List.mem_append, not_or] at h
    rw [List.foldl_cons, ih h.2, List.flatten_cons]
    cases keys with
    | nil => rfl
    | cons firstKey restKeys =>
      have hfirst : firstKey ≠ [] := by
        rintro rfl
        exact h.1 List.mem_cons_self
      funext key
      simp only [RedisStore.deleteScanned, if_neg hfirst, Server.del, List.mem_append]
      split_ifs <;> grind

end Keys

/-! ## What a run keeps -/

section Invariant
variable {runtime keyPrefix} {s : State V} {now : ℕ} {key : Text}

/-- Both stores show the same under each key that was free, and the store knows all that it wrote. -/
structure Inv (runtime : Runtime V) (keyPrefix : Text) (s : State V) : Prop where
  keyed : s.memory.entries.Keyed
  shows : ∀ key, s.initial (toRedisKey keyPrefix key) = none → ∀ time, s.clock ≤ time → time ≤ maxTime →
    s.store.get runtime keyPrefix time key = answer s.memory.entries time key
  owned : keyPrefix = [] → ∀ redisKey ∈ s.store.ownedKeys, redisKey ∈ s.written
  known : keyPrefix = [] → ∀ redisKey, s.store.server redisKey ≠ none → redisKey ∈ s.written → redisKey ∈ s.store.ownedKeys
  rest : ∀ redisKey, s.initial redisKey = none → s.store.server redisKey ≠ none → redisKey ∈ s.written
  answers : ∀ answer ∈ s.answers, answer.1 = some answer.2

theorem inv_start (server : Server) : Inv runtime keyPrefix { store := { server } } where
  keyed := List.nodup_nil
  shows key h time _ _ := by
    exact get_of_none (server_get_of_none h time)
  owned _ _ hmem := absurd hmem List.not_mem_nil
  known _ _ hthere hmem := absurd hmem List.not_mem_nil
  rest _ hfree hthere := absurd hfree hthere
  answers _ hmem := absurd hmem List.not_mem_nil

theorem forall_answers_concat {answers : List (Option (Outcome V) × Outcome V)} (h : ∀ answer ∈ answers, answer.1 = some answer.2) (outcome : Outcome V) :
    ∀ answer ∈ answers ++ [(some outcome, outcome)], answer.1 = some answer.2 := by
  intro answer hmem
  rcases List.mem_append.1 hmem with hold | hnew
  · exact h answer hold
  · rw [List.mem_singleton.1 hnew]

def Keeps (runtime : Runtime V) (keyPrefix : Text) (s : State V) (call : Call V) : Prop :=
  ∀ s', step runtime keyPrefix s call = some s' → Inv runtime keyPrefix s' ∧ Agrees keyPrefix s s' call

theorem keeps_get (h : Inv runtime keyPrefix s) (hle : s.clock ≤ now) (hnow : now ≤ maxTime) (hfree : s.initial (toRedisKey keyPrefix key) = none) :
    Keeps runtime keyPrefix s ⟨now, .get key⟩ := by
  rintro _ ⟨⟩
  obtain ⟨hanswer, hkeyed, hshows⟩ := get_answer runtime now h.keyed key
  have hread : s.store.get runtime keyPrefix now key = (s.memory.get (memoryHost runtime) ((now : ℚ) : Time) key).1 :=
    (h.shows key hfree now hle hnow).trans hanswer.symm
  have hanswers := forall_answers_concat h.answers (s.memory.get (memoryHost runtime) ((now : ℚ) : Time) key).1
  rw [← congrArg some hread] at hanswers
  refine ⟨⟨hkeyed, fun key' hfree' time hclock htime => ?_, h.owned, h.known, h.rest, hanswers⟩, hanswers, nofun, fun _ _ => rfl⟩
  exact (h.shows key' hfree' time (hle.trans hclock) htime).trans (hshows time hclock key').symm

theorem keeps_set (h : Inv runtime keyPrefix s) (hle : s.clock ≤ now) (hnow : now ≤ maxTime) (value : V) {ttlSeconds : ℕ}
    (hfits : now + ttlSeconds * 1000 < 2 ^ 63) : Keeps runtime keyPrefix s ⟨now, .set key value ttlSeconds⟩ := by
  intro s' hstep
  obtain ⟨entry, deadline, hset, hwrote⟩ := set_spec runtime keyPrefix s.store key value hfits hnow
  obtain ⟨hkeyed, hshows⟩ := set_answer runtime now h.keyed key value (.finite ttlSeconds)
  simp only [step, perform, hset] at hstep
  cases hstep
  have hanswers := forall_answers_concat h.answers .undefined
  have hother redisKey (hne : redisKey ≠ toRedisKey keyPrefix key) :
      (wrote runtime keyPrefix s.store key entry deadline).server redisKey = s.store.server redisKey := by
    rw [wrote_server, Function.update_of_ne hne]
  refine ⟨⟨hkeyed, ?_, ?_, ?_, ?_, hanswers⟩, hanswers, nofun, hother⟩
  · intro key' hfree' time hclock htime
    dsimp only [State.answer]
    rw [hshows time hclock key']
    by_cases hkey : key' = key
    · rw [if_pos hkey, hkey]
      exact hwrote time htime
    · rw [if_neg hkey, get_congr (hother _ (mt (toRedisKey_injective ·) hkey))]
      exact h.shows key' hfree' time (hle.trans hclock) htime
  · intro hempty redisKey hmem
    rcases mem_trackOwnedKey.1 hmem with hold | ⟨-, rfl⟩
    · exact List.mem_cons_of_mem _ (h.owned hempty redisKey hold)
    · exact List.mem_cons_self
  · intro hempty redisKey hthere hwritten
    by_cases hkey : redisKey = toRedisKey keyPrefix key
    · exact mem_trackOwnedKey.2 (.inr ⟨hempty, hkey⟩)
    · have hthere : s.store.server redisKey ≠ none := hother redisKey hkey ▸ hthere
      exact mem_trackOwnedKey.2 (.inl (h.known hempty redisKey hthere (List.mem_of_ne_of_mem hkey hwritten)))
  · intro redisKey hfree' hthere
    by_cases hkey : redisKey = toRedisKey keyPrefix key
    · exact hkey ▸ List.mem_cons_self
    · have hthere : s.store.server redisKey ≠ none := hother redisKey hkey ▸ hthere
      exact List.mem_cons_of_mem _ (h.rest redisKey hfree' hthere)

variable {keys : List Text} {redisKey : Text} {server : Server}

theorem del_ne_none (h : server.del keys redisKey ≠ none) :
    redisKey ∉ keys ∧ server redisKey ≠ none := by
  unfold Server.del at h
  split_ifs at h with hmem
  · exact absurd rfl h
  · exact ⟨hmem, h⟩

theorem del_of_notMem (server : Server) (h : redisKey ∉ keys) : server.del keys redisKey = server redisKey :=
  if_neg h

theorem keeps_del (h : Inv runtime keyPrefix s) (hle : s.clock ≤ now) : Keeps runtime keyPrefix s ⟨now, .del key⟩ := by
  rintro _ ⟨⟩
  have hanswers := forall_answers_concat h.answers .undefined
  have hother redisKey (hne : redisKey ≠ toRedisKey keyPrefix key) :
      (s.store.del keyPrefix key).server redisKey = s.store.server redisKey := by
    apply del_of_notMem
    rwa [List.mem_singleton]
  refine ⟨⟨h.keyed.filter _, ?_, ?_, ?_, ?_, hanswers⟩, hanswers, nofun, hother⟩
  · intro key' hfree' time hclock htime
    by_cases hkey : key' = key
    · subst hkey
      refine Eq.trans (get_of_none (server_get_of_none ?_ time)) (answer_filter_self s.memory.entries key').symm
      exact if_pos List.mem_cons_self
    · refine Eq.trans ?_ (answer_filter_of_ne s.memory.entries hkey).symm
      rw [← h.shows key' hfree' time (hle.trans hclock) htime]
      exact get_congr (hother _ (mt (toRedisKey_injective ·) hkey)) time
  · intro hempty redisKey hmem
    exact h.owned hempty redisKey (List.mem_filter.1 hmem).1
  · intro hempty redisKey hthere hwritten
    obtain ⟨hne, hthere⟩ := del_ne_none hthere
    rw [List.mem_singleton] at hne
    exact List.mem_filter.2 ⟨h.known hempty redisKey hthere hwritten, decide_eq_true hne⟩
  · intro redisKey hfree' hthere
    exact h.rest redisKey hfree' (del_ne_none hthere).2

theorem get_none_later {time : ℕ} (h : server.get now key = none) (hle : now ≤ time) : server.get time key = none := by
  unfold Server.get at h ⊢
  cases hkey : server key with
  | none => rfl
  | some stored =>
    rw [hkey, Option.bind_some] at h
    rw [Option.bind_some]
    split_ifs at h with hlive
    exact if_neg fun hlater => hlive (Expiring.isLive_mono hle hlater)

theorem del_get_of_mem (h : redisKey ∈ keys) (time : ℕ) :
    (server.del keys).get time redisKey = none := server_get_of_none (if_pos h) time

theorem keeps_reset_owned (h : Inv runtime [] s) (batches : List (List Text)) : Keeps runtime [] s ⟨now, .reset batches⟩ := by
  rintro _ ⟨⟩
  have hanswers := forall_answers_concat h.answers .undefined
  have hgone redisKey (hwritten : redisKey ∈ s.written) : s.store.server.del s.store.ownedKeys redisKey = none := by
    by_contra hthere
    obtain ⟨hnotMem, hserver⟩ := del_ne_none hthere
    exact hnotMem (h.known rfl redisKey hserver hwritten)
  have hfree redisKey (hfree : s.initial redisKey = none) : s.store.server.del s.store.ownedKeys redisKey = none := by
    by_contra hthere
    exact hthere (hgone redisKey (h.rest redisKey hfree (del_ne_none hthere).2))
  refine ⟨⟨List.nodup_nil, ?_, nofun, ?_, ?_, hanswers⟩, hanswers, ?_, ?_⟩
  · intro key hkey time _ _
    exact get_of_none (server_get_of_none (hfree _ hkey) time)
  · intro _ redisKey hthere hwritten
    exact absurd (hgone redisKey hwritten) hthere
  · intro redisKey hkey hthere
    exact absurd (hfree redisKey hkey) hthere
  · intro _ _ redisKey hown
    exact server_get_of_none (hgone redisKey hown) now
  · intro redisKey hother
    apply del_of_notMem
    intro hmem
    exact hother (h.owned rfl redisKey hmem)

theorem keeps_reset_scanned (h : Inv runtime keyPrefix s) (hnonempty : keyPrefix ≠ []) {batches : List (List Text)}
    (hscanned : Scanned runtime keyPrefix s.store.server now batches)
    (hpattern : ∀ key, (s.store.server.get now key).isSome → (runtime.glob (keyPrefix ++ ['*']) key = true ↔ keyPrefix <+: key)) :
    Keeps runtime keyPrefix s ⟨now, .reset batches⟩ := by
  have hmem key : key ∈ batches.flatten ↔ (s.store.server.get now key).isSome ∧ keyPrefix <+: key := by
    rw [hscanned key]
    exact and_congr_right (hpattern key)
  have hempty : [] ∉ batches.flatten := by
    intro hnil
    exact hnonempty (List.prefix_nil.1 ((hmem []).1 hnil).2)
  have hreset : s.store.reset keyPrefix batches = ⟨s.store.server.del batches.flatten, []⟩ := by
    rw [RedisStore.reset, if_neg (mt List.length_eq_zero_iff.1 hnonempty), foldl_deleteScanned hempty]
  have hgone redisKey (hunder : keyPrefix <+: redisKey) time (hle : now ≤ time) : (s.store.server.del batches.flatten).get time redisKey = none := by
    by_cases hin : redisKey ∈ batches.flatten
    · exact del_get_of_mem hin time
    · -- it had expired when it was looked for
      have hnone : s.store.server.get now redisKey = none := by
        rw [hmem, not_and'] at hin
        exact Option.not_isSome_iff_eq_none.1 (hin hunder)
      rw [Server.get, del_of_notMem _ hin]
      exact get_none_later hnone hle
  intro s' hstep
  simp only [step, perform, hreset] at hstep
  cases hstep
  have hanswers := forall_answers_concat h.answers .undefined
  refine ⟨⟨List.nodup_nil, ?_, nofun, fun hnil => absurd hnil hnonempty, ?_, hanswers⟩, hanswers, ?_, ?_⟩
  · intro key _ time hclock _
    exact get_of_none (hgone _ (List.prefix_append _ _) time hclock)
  · intro redisKey hfree hthere
    exact h.rest redisKey hfree (del_ne_none hthere).2
  · intro _ _ redisKey hown
    rw [Own, if_neg hnonempty] at hown
    exact hgone redisKey hown now le_rfl
  · intro redisKey hother
    apply del_of_notMem
    intro hin
    apply hother
    show Own keyPrefix s redisKey
    rw [Own, if_neg hnonempty]
    exact ((hmem redisKey).1 hin).2

theorem keeps_call (h : Inv runtime keyPrefix s) {call : Call V} (hlegal : Legal runtime keyPrefix s call) (hmeets : Meets runtime keyPrefix s call) :
    Keeps runtime keyPrefix s call := by
  obtain ⟨now, operation⟩ := call
  obtain ⟨hle, hnow, hfree, hscanned⟩ := hlegal
  cases operation with
  | get key => exact keeps_get h hle hnow (hfree key List.mem_cons_self)
  | set key value ttlSeconds => exact keeps_set h hle hnow value hmeets
  | del key => exact keeps_del h hle
  | reset batches =>
    by_cases hnonempty : keyPrefix = []
    · subst hnonempty
      exact keeps_reset_owned h batches
    · exact keeps_reset_scanned h hnonempty hscanned (hmeets hnonempty)

end Invariant

/-! ## A runtime that runs -/

namespace Json

/-- A natural number has its digits; any other one never gets to the store. -/
def ofNumber (q : ℚ) : Text :=
  if q = (q.num.toNat : ℚ) then Nat.toDigits 10 q.num.toNat else '#' :: Nat.toDigits 10 (Encodable.encode q)

def toNumber : Text → Option ℚ
  | '#' :: digits => Encodable.decode (Nat.ofDigitChars 10 digits 0)
  | digits => some (Nat.ofDigitChars 10 digits 0 : ℕ)

def ofMember : Option Time → Text
  | none => []
  | some ⊤ => ",\"expiresAt\":null".toList
  | some (q : ℚ) => ",\"expiresAt\":".toList ++ ofNumber q

def toMember (text : Text) : Option (Option Member) :=
  if text = [] then some none
  else (List.isPrefixOf? ",\"expiresAt\":".toList text).map fun number =>
    some (if number = "null".toList then .other else (toNumber number).elim .other fun q => .number q)

def opening (value : Bool) : Text := "\x7b\"value\":".toList ++ if value then "true".toList else "false".toList

def stringify (entry : RedisCacheEntry Bool) : Text := opening entry.value ++ (ofMember entry.expiresAt ++ ['\x7d'])

def parseAs (value : Bool) (text : Text) : Option (Decoded Bool) := do
  let rest ← List.isPrefixOf? (opening value) text
  let expiresAt ← toMember rest.dropLast
  return { value := some value, expiresAt }

def parse (text : Text) : Option (Decoded Bool) := parseAs true text <|> parseAs false text

theorem toNumber_ofNumber (q : ℚ) : toNumber (ofNumber q) = some q := by
  unfold ofNumber
  split_ifs with hnat
  · have hdigits : toNumber (Nat.toDigits 10 q.num.toNat) = some ((Nat.ofDigitChars 10 (Nat.toDigits 10 q.num.toNat) 0 : ℕ) : ℚ) := by
      cases hcases : Nat.toDigits 10 q.num.toNat with
      | nil => rfl
      | cons c digits =>
        have hdigit : c.isDigit = true := Nat.isDigit_of_mem_toDigits (by decide) (by decide) (hcases ▸ List.mem_cons_self)
        have hne : c ≠ '#' := by
          rintro rfl
          exact absurd hdigit (by decide)
        unfold toNumber
        split
        · rename_i heq
          exact absurd (List.cons.inj heq).1 hne
        · rfl
    rw [hdigits, Nat.ofDigitChars_toDigits (by decide) (by decide), ← hnat]
  · show Encodable.decode _ = some q
    rw [Nat.ofDigitChars_toDigits (by decide) (by decide), Encodable.encodek]

theorem isPrefixOf?_append (text rest : Text) : List.isPrefixOf? text (text ++ rest) = some rest := by
  induction text with
  | nil => cases rest <;> rfl
  | cons c text ih => simp [List.isPrefixOf?, ih]

theorem ofNumber_ne_null (q : ℚ) : ofNumber q ≠ "null".toList := by
  unfold ofNumber
  split_ifs with hnat
  · intro heq
    have hmem : 'n' ∈ Nat.toDigits 10 q.num.toNat := heq ▸ by decide
    exact absurd (Nat.isDigit_of_mem_toDigits (by decide) (by decide) hmem) (by decide)
  · intro heq
    exact absurd (List.cons.inj heq).1 (by decide)

theorem toMember_ofMember (expiresAt : Option Time) : toMember (ofMember expiresAt) = some (expiresAt.map memberOf) := by
  match expiresAt with
  | none => rfl
  | some ⊤ => rfl
  | some (q : ℚ) =>
    unfold toMember ofMember
    rw [if_neg (by simp), isPrefixOf?_append, Option.map_some, if_neg (ofNumber_ne_null q), toNumber_ofNumber]
    rfl

theorem parseAs_stringify (value : Bool) (expiresAt : Option Time) :
    parseAs value (stringify ⟨value, expiresAt⟩) = some ⟨some value, expiresAt.map memberOf⟩ := by
  unfold parseAs stringify
  rw [isPrefixOf?_append, Option.bind_eq_bind, Option.bind_some, List.dropLast_concat, toMember_ofMember]
  rfl

theorem isPrefixOf?_of_ne {c d : Char} (h : c ≠ d) (text rest rest' : Text) : List.isPrefixOf? (text ++ c :: rest) (text ++ d :: rest') = none := by
  induction text with
  | nil => simp [List.isPrefixOf?, h]
  | cons c text ih => simp [List.isPrefixOf?, ih]

theorem parse_stringify (entry : RedisCacheEntry Bool) : parse (stringify entry) = some ⟨some entry.value, entry.expiresAt.map memberOf⟩ := by
  obtain ⟨value, expiresAt⟩ := entry
  cases value with
  | true =>
    exact congrArg (· <|> _) (parseAs_stringify true expiresAt)
  | false =>
    have hother : parseAs true (stringify ⟨false, expiresAt⟩) = none := by
      have hopening : List.isPrefixOf? (opening true) (opening false ++ (ofMember expiresAt ++ ['\x7d'])) = none := by
        have htrue : opening true = "\x7b\"value\":".toList ++ 't' :: "rue".toList := by decide +kernel
        have hfalse : opening false = "\x7b\"value\":".toList ++ 'f' :: "alse".toList := by decide +kernel
        rw [htrue, hfalse, List.append_assoc]
        exact isPrefixOf?_of_ne (by decide) _ _ _
      unfold parseAs stringify
      rw [hopening]
      rfl
    rw [parse, hother]
    exact parseAs_stringify false expiresAt

end Json

/-- Numbers that are all doubles. -/
def jsonRuntime : Runtime Bool where
  round q := q
  round_of_le _ _ := rfl
  round_pow _ _ := rfl
  round_mono _ _ hle := WithTop.coe_le_coe.2 hle
  stringify := Json.stringify
  parse := Json.parse
  parse_stringify := Json.parse_stringify
  glob := Glob.globMatches

/-! ## The store beside the memory store -/

/-- Whatever the prefix and the calls are, as long as the times of the keys fit the server and the patterns of the resets match
what begins with the prefix: the store answers as the memory store does, a reset removes the store's own keys, and no other
key is touched. -/
theorem redisStore_agrees {server : Server} {calls : List (Call V)} {s s' : State V} {call : Call V}
    (run : Run (step runtime keyPrefix) (fun s call => Legal runtime keyPrefix s call ∧ Meets runtime keyPrefix s call) { store := { server } } calls s)
    (legal : Legal runtime keyPrefix s call) (meets : Meets runtime keyPrefix s call) (h : step runtime keyPrefix s call = some s') :
    Agrees keyPrefix s s' call := by
  have hinv : Inv runtime keyPrefix s :=
    run.keeps (Inv runtime keyPrefix) (fun _ _ _ hok hinv hstep => (keeps_call hinv hok.1 hok.2 _ hstep).1) (inv_start server)
  exact (keeps_call hinv legal meets s' h).2

/-- What a server without keys holds after one set for five seconds. -/
def exampleState : State Bool :=
  after (step jsonRuntime "app:".toList) { store := { server := fun _ => none } } [⟨1000, .set ['k'] true 5⟩]

theorem redisStore_agrees_example :
    exampleState.store.server.get 2000 "app:k".toList ≠ none ∧
      ∃ s', step jsonRuntime "app:".toList exampleState ⟨2000, .reset [["app:k".toList]]⟩ = some s' ∧
        Agrees "app:".toList exampleState s' ⟨2000, .reset [["app:k".toList]]⟩ := by
  have hserver key (hne : key ≠ "app:k".toList) : exampleState.store.server key = none := by
    exact Function.update_of_ne hne _ _
  have hthere : (exampleState.store.server.get 2000 "app:k".toList).isSome = true := by decide +kernel
  have hscanned : Scanned jsonRuntime "app:".toList exampleState.store.server 2000 [["app:k".toList]] := by
    intro key
    by_cases hkey : key = "app:k".toList
    · subst hkey
      exact iff_of_true List.mem_cons_self ⟨hthere, by decide +kernel⟩
    · refine iff_of_false (by simpa using hkey) ?_
      rw [server_get_of_none (hserver key hkey)]
      simp
  have hpattern key : Glob.globMatches ("app:".toList ++ ['*']) key = true ↔ "app:".toList <+: key :=
    Glob.globMatches_literal (by simp [Glob.specials]) key
  have hrun : Run (step jsonRuntime "app:".toList) (fun s call => Legal jsonRuntime "app:".toList s call ∧ Meets jsonRuntime "app:".toList s call)
      { store := { server := fun _ => none } } [⟨1000, .set ['k'] true 5⟩] exampleState :=
    .cons ⟨⟨Nat.zero_le _, by decide, fun _ _ => rfl, trivial⟩, show 1000 + 5 * 1000 < 2 ^ 63 by decide⟩ rfl .nil
  have hlegal : Legal jsonRuntime "app:".toList exampleState ⟨2000, .reset [["app:k".toList]]⟩ :=
    ⟨show 1000 ≤ 2000 by decide, by decide, fun _ hmem => absurd hmem List.not_mem_nil, hscanned⟩
  exact ⟨Option.isSome_iff_ne_none.1 hthere, _, rfl,
    redisStore_agrees jsonRuntime "app:".toList hrun hlegal (fun _ key _ => hpattern key) rfl⟩

/-- A server with a key of somebody else. -/
def bracketServer : Server := fun key => if key = "x:j".toList then some ([], none) else none

def bracketState : State Bool := after (step jsonRuntime "[x]:".toList) { store := { server := bracketServer } } [⟨0, .set ['k'] true 0⟩]

/-- With brackets in the prefix, the pattern of a reset matches that key, and none of the store's own. -/
theorem not_redisStore_agrees :
    ∃ s', Run (step jsonRuntime "[x]:".toList) (Legal jsonRuntime "[x]:".toList)
        { store := { server := bracketServer } } [⟨0, .set ['k'] true 0⟩] bracketState ∧
      Legal jsonRuntime "[x]:".toList bracketState ⟨0, .reset [["x:j".toList]]⟩ ∧
      step jsonRuntime "[x]:".toList bracketState ⟨0, .reset [["x:j".toList]]⟩ = some s' ∧
      ¬Agrees "[x]:".toList bracketState s' ⟨0, .reset [["x:j".toList]]⟩ := by
  have hserver key (hne : key ≠ "[x]:k".toList) (hne' : key ≠ "x:j".toList) : bracketState.store.server key = none :=
    (Function.update_of_ne hne _ _).trans (if_neg hne')
  have hscanned : Scanned jsonRuntime "[x]:".toList bracketState.store.server 0 [["x:j".toList]] := by
    intro key
    by_cases hkey : key = "x:j".toList
    · subst hkey
      exact iff_of_true List.mem_cons_self (by decide +kernel)
    · refine iff_of_false (by simpa using hkey) ?_
      by_cases hown : key = "[x]:k".toList
      · subst hown
        intro hmatch
        exact absurd hmatch.2 (by decide +kernel)
      · rw [server_get_of_none (hserver key hown hkey)]
        simp
  refine ⟨_, .cons ⟨le_rfl, Nat.zero_le _, ?_, trivial⟩ rfl .nil, ⟨le_rfl, Nat.zero_le _, fun _ hmem => absurd hmem List.not_mem_nil, hscanned⟩,
    rfl, fun hagrees => ?_⟩
  · intro key hmem
    rw [List.mem_singleton.1 hmem]
    have hfree : bracketServer (toRedisKey "[x]:".toList ['k']) = none := by decide +kernel
    exact hfree
  · have hown : Own "[x]:".toList bracketState "[x]:k".toList := by
      rw [Own, if_neg (by decide +kernel)]
      exact ⟨['k'], by decide +kernel⟩
    exact absurd (hagrees.reset _ rfl _ hown) (by decide +kernel)

end Fluo.CacheManager.Redis
