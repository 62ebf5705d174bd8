import Mathlib.Data.Rat.Floor
import Fluo.Lib.Expiring
/-!
# The memory store

`MemoryStore` of `stores/memory-store.ts`: its entries in the order they were set in, which are swept when the first
of them may have expired, against a bounded map in which an entry is gone the moment it expires.
-/

namespace Fluo.CacheManager.Memory
open Fluo.Lib

/-- A time in milliseconds, or `Infinity`. -/
abbrev Time := WithTop ℚ

/-- A time to live, any number. -/
inductive Seconds
  | nan
  | negInfinity
  | finite (q : ℚ)
  | infinity

/-- `ttlSeconds > 0` -/
def Seconds.isPositive : Seconds → Bool
  | .nan | .negInfinity => false
  | .finite q => 0 < q
  | .infinity => true

/-- What the store uses of the runtime. -/
structure Host (V : Type) where
  /-- The double of a number, `Infinity` where that is too large. -/
  round : ℚ → Time
  /-- `none` where it throws a `DataCloneError`. -/
  structuredClone : V → Option V

structure MemoryCacheEntry (V : Type) where
  value : V
  expiresAt : Option Time := none

def defaultMaxMemoryCacheEntries : Nat := 1000

variable {κ V : Type}

/-- The loop of `sweepExpiredEntries`: the entries it leaves, and `nextSweepAt`. -/
def sweepLoop (now nextSweepAt : Time) : OrderedMap κ (MemoryCacheEntry V) → OrderedMap κ (MemoryCacheEntry V) × Time
  | [] => ([], nextSweepAt)
  | (key, entry) :: rest =>
    match entry.expiresAt with
    | none =>
      let swept := sweepLoop now nextSweepAt rest
      ((key, entry) :: swept.1, swept.2)
    | some expiresAt =>
      if expiresAt ≤ now then sweepLoop now nextSweepAt rest
      else
        let swept := sweepLoop now (min nextSweepAt expiresAt) rest
        ((key, entry) :: swept.1, swept.2)

def sweepExpiredEntries (entries : OrderedMap κ (MemoryCacheEntry V)) (now : Time) : OrderedMap κ (MemoryCacheEntry V) × Time :=
  let swept := sweepLoop now ⊤ entries
  (swept.1, if swept.2 = ⊤ then 0 else swept.2)

/-- `while (entries.size > DEFAULT_MAX_MEMORY_CACHE_ENTRIES)`, the oldest key first. -/
def enforceEntryLimit : OrderedMap κ (MemoryCacheEntry V) → OrderedMap κ (MemoryCacheEntry V)
  | [] => []
  | entry :: rest => if rest.length + 1 > defaultMaxMemoryCacheEntries then enforceEntryLimit rest else entry :: rest

/-- What a promise of the store settles with. -/
inductive Outcome (V : Type)
  | undefined
  | value (value : V)
  | dataCloneError
deriving DecidableEq

structure MemoryStore (κ V : Type) where
  entries : OrderedMap κ (MemoryCacheEntry V) := []
  nextSweepAt : Time := 0

namespace MemoryStore
variable (host : Host V)

/-- What `get` and `set` start with. -/
def sweep (store : MemoryStore κ V) (now : Time) : MemoryStore κ V :=
  if store.nextSweepAt ≤ now then
    let (entries, nextSweepAt) := sweepExpiredEntries store.entries now
    { entries, nextSweepAt }
  else store

/-- `expiresAt` of an entry set with this time to live. -/
def expiry (now : ℚ) (ttlSeconds : Seconds) : Option Time :=
  if ttlSeconds.isPositive then
    let product : Time := match ttlSeconds with
      | .finite q => host.round (q * 1000)
      | _ => ⊤
    let ttlMilliseconds : Time := max 1 (product.map fun q => (⌊q⌋ : ℚ))
    some (match ttlMilliseconds with
      | ⊤ => ⊤
      | (q : ℚ) => host.round (now + q))
  else none

variable [DecidableEq κ]

/-- `cloneCacheValue(value)` -/
def cloned (value : V) : Outcome V :=
  match host.structuredClone value with
  | some copy => .value copy
  | none => .dataCloneError

def get (store : MemoryStore κ V) (now : Time) (key : κ) : Outcome V × MemoryStore κ V :=
  let store := store.sweep now
  match store.entries.get key with
  | none => (.undefined, store)
  | some entry =>
    if entry.expiresAt.any (· ≤ now) then
      let (entries, nextSweepAt) := sweepExpiredEntries (store.entries.filter fun entry => entry.1 ≠ key) now
      (.undefined, { entries, nextSweepAt })
    else (cloned host entry.value, store)

def set (store : MemoryStore κ V) (now : ℚ) (key : κ) (value : V) (ttlSeconds : Option Seconds) : Outcome V × MemoryStore κ V :=
  let store := store.sweep now
  match host.structuredClone value with
  | none => (.dataCloneError, store)
  | some copy =>
    let expiresAt := expiry host now (ttlSeconds.getD (.finite 0))
    let entries := enforceEntryLimit ((store.entries.filter fun entry => entry.1 ≠ key) ++ [(key, { value := copy, expiresAt })])
    let nextSweepAt := match expiresAt with
      | none => store.nextSweepAt
      | some expiresAt => if store.nextSweepAt = 0 then expiresAt else min store.nextSweepAt expiresAt
    (.undefined, { entries, nextSweepAt })

def del (store : MemoryStore κ V) (key : κ) : Outcome V × MemoryStore κ V :=
  (.undefined, { store with entries := store.entries.filter fun entry => entry.1 ≠ key })

omit [DecidableEq κ] in
def reset (_ : MemoryStore κ V) : Outcome V × MemoryStore κ V := (.undefined, {})

end MemoryStore

inductive Operation (κ V : Type)
  | get (key : κ)
  | set (key : κ) (value : V) (ttlSeconds : Option Seconds)
  | del (key : κ)
  | reset

/-- An operation, and what `Date.now()` is at it. -/
structure Call (κ V : Type) where
  now : Nat
  operation : Operation κ V

variable [DecidableEq κ] (host : Host V)

def MemoryStore.perform (store : MemoryStore κ V) (call : Call κ V) : Outcome V × MemoryStore κ V :=
  let now : ℚ := call.now
  match call.operation with
  | .get key => store.get host now key
  | .set key value ttlSeconds => store.set host now key value ttlSeconds
  | .del key => store.del key
  | .reset => store.reset

/-- What the store is for: a bounded map whose entries expire. -/
abbrev Reference (κ V : Type) := Expiring κ V Time

def Reference.perform (map : Reference κ V) (call : Call κ V) : Outcome V × Reference κ V :=
  let now : ℚ := call.now
  match call.operation with
  | .get key =>
    match Expiring.get map now key with
    | none => (.undefined, map)
    | some value => (MemoryStore.cloned host value, map)
  | .set key value ttlSeconds =>
    match host.structuredClone value with
    | none => (.dataCloneError, map)
    | some copy =>
      (.undefined, Expiring.put defaultMaxMemoryCacheEntries map now key copy (MemoryStore.expiry host now (ttlSeconds.getD (.finite 0))))
  | .del key => (.undefined, Expiring.erase map key)
  | .reset => (.undefined, [])

/-- What the calls settle with, one after the other, and the state they leave. -/
def performAll {σ : Type} (perform : σ → Call κ V → Outcome V × σ) (s : σ) : List (Call κ V) → List (Outcome V) × σ
  | [] => ([], s)
  | call :: rest =>
    let performed := perform s call
    let following := performAll perform performed.2 rest
    (performed.1 :: following.1, following.2)

/-! ## Sweeping -/

section Sweeping
variable {now nextSweepAt : Time} {entries : OrderedMap κ (MemoryCacheEntry V)}

attribute [local simp] sweepLoop in
omit [DecidableEq κ] in
theorem sweepLoop_fst : (sweepLoop now nextSweepAt entries).1 = entries.filter fun entry => isLive now entry.2.expiresAt := by
  induction entries generalizing nextSweepAt with
  | nil => rfl
  | cons head rest ih =>
    obtain ⟨key, entry⟩ := head
    cases he : entry.expiresAt with
    | none => simp [sweepLoop, isLive, he, ih]
    | some expiresAt =>
      by_cases hle : expiresAt ≤ now
      · simp [sweepLoop, isLive, he, ih, hle, not_lt.2 hle]
      · simp [sweepLoop, isLive, he, ih, hle, not_le.1 hle]

omit [DecidableEq κ] in
theorem sweepLoop_snd_le : (sweepLoop now nextSweepAt entries).2 ≤ nextSweepAt := by
  induction entries generalizing nextSweepAt with
  | nil => exact le_rfl
  | cons head rest ih =>
    obtain ⟨key, entry⟩ := head
    cases he : entry.expiresAt with
    | none => simpa [sweepLoop, he] using ih
    | some expiresAt =>
      by_cases hle : expiresAt ≤ now
      · simpa [sweepLoop, he, hle] using ih
      · simpa [sweepLoop, he, hle] using ih.trans (min_le_left nextSweepAt expiresAt)

omit [DecidableEq κ] in
theorem sweepLoop_snd_le_of_mem {entry : κ × MemoryCacheEntry V} {expiresAt : Time} (he : entry.2.expiresAt = some expiresAt)
    (h : entry ∈ (sweepLoop now nextSweepAt entries).1) : (sweepLoop now nextSweepAt entries).2 ≤ expiresAt := by
  induction entries generalizing nextSweepAt with
  | nil => cases h
  | cons head rest ih =>
    obtain ⟨key, first⟩ := head
    cases hf : first.expiresAt with
    | none =>
      simp only [sweepLoop, hf, List.mem_cons] at h ⊢
      rcases h with rfl | h
      · rw [hf] at he
        cases he
      · exact ih h
    | some firstExpiresAt =>
      by_cases hle : firstExpiresAt ≤ now
      · simp only [sweepLoop, hf, if_pos hle] at h ⊢
        exact ih h
      · simp only [sweepLoop, hf, if_neg hle, List.mem_cons] at h ⊢
        rcases h with rfl | h
        · cases hf.symm.trans he
          exact sweepLoop_snd_le.trans (min_le_right _ _)
        · exact ih h

omit [DecidableEq κ] in
theorem lt_sweepLoop_snd (h : now < nextSweepAt) : now < (sweepLoop now nextSweepAt entries).2 := by
  induction entries generalizing nextSweepAt with
  | nil => exact h
  | cons head rest ih =>
    obtain ⟨key, entry⟩ := head
    cases he : entry.expiresAt with
    | none => simpa [sweepLoop, he] using ih h
    | some expiresAt =>
      by_cases hle : expiresAt ≤ now
      · simpa [sweepLoop, he, hle] using ih h
      · simpa [sweepLoop, he, hle] using ih (lt_min h (not_le.1 hle))

end Sweeping

omit [DecidableEq κ] in
theorem enforceEntryLimit_eq (entries : OrderedMap κ (MemoryCacheEntry V)) :
    enforceEntryLimit entries = entries.drop (entries.length - defaultMaxMemoryCacheEntries) := by
  generalize hlimit : defaultMaxMemoryCacheEntries = limit
  induction entries with
  | nil => simp [enforceEntryLimit]
  | cons entry rest ih =>
    rw [enforceEntryLimit, List.length_cons, hlimit]
    by_cases hgt : rest.length + 1 > limit
    · have hlength : rest.length + 1 - limit = (rest.length - limit) + 1 := by omega
      rw [if_pos hgt, hlength, List.drop_succ_cons, ih]
    · have hzero : rest.length + 1 - limit = 0 := by omega
      rw [if_neg hgt, hzero, List.drop_zero]

/-! ## The entries as the reference has them -/

def abstraction (entries : OrderedMap κ (MemoryCacheEntry V)) : Reference κ V :=
  entries.map fun entry => (entry.1, entry.2.value, entry.2.expiresAt)

omit [DecidableEq κ] in
theorem live_abstraction (entries : OrderedMap κ (MemoryCacheEntry V)) (now : Time) :
    Expiring.live (abstraction entries) now = abstraction (entries.filter fun entry => isLive now entry.2.expiresAt) := by
  rw [Expiring.live, abstraction, List.filter_map]
  rfl

theorem erase_abstraction (entries : OrderedMap κ (MemoryCacheEntry V)) (key : κ) :
    Expiring.erase (abstraction entries) key = abstraction (entries.filter fun entry => entry.1 ≠ key) := by
  rw [Expiring.erase, abstraction, List.filter_map]
  rfl

theorem get_abstraction (entries : OrderedMap κ (MemoryCacheEntry V)) (key : κ) :
    OrderedMap.get (abstraction entries) key = (entries.get key).map fun entry => (entry.value, entry.expiresAt) := by
  rw [OrderedMap.get, OrderedMap.get, abstraction, List.find?_map, Option.map_map, Option.map_map]
  rfl

omit [DecidableEq κ] in
theorem enforceEntryLimit_abstraction (entries : OrderedMap κ (MemoryCacheEntry V)) :
    abstraction (enforceEntryLimit entries) = Expiring.newest defaultMaxMemoryCacheEntries (abstraction entries) := by
  rw [enforceEntryLimit_eq, Expiring.newest, abstraction, abstraction, List.map_drop, List.length_map]

/-! ## Runs -/

namespace MemoryStore
variable {clock : Time} {store : MemoryStore κ V} {map : Reference κ V} {host : Host V}

def Bounded (store : MemoryStore κ V) : Prop :=
  ∀ entry ∈ store.entries, ∀ expiresAt, entry.2.expiresAt = some expiresAt → store.nextSweepAt ≤ expiresAt

/-- The store and the reference have the same entries, but for those that have expired at the clock. -/
structure Refines (clock : Time) (store : MemoryStore κ V) (map : Reference κ V) : Prop where
  bounded : store.Bounded
  size : store.entries.length ≤ defaultMaxMemoryCacheEntries
  view : Expiring.live (abstraction store.entries) clock = Expiring.live map clock

/-- What the store is after a sweep: none of its entries has expired, and `0` stands for a store in which none ever does. -/
structure Swept (now : Time) (store : MemoryStore κ V) (map : Reference κ V) : Prop where
  bounded : store.Bounded
  size : store.entries.length ≤ defaultMaxMemoryCacheEntries
  view : abstraction store.entries = Expiring.live map now
  live : ∀ entry ∈ store.entries, isLive now entry.2.expiresAt = true
  never : store.nextSweepAt = 0 → ∀ entry ∈ store.entries, ∀ expiresAt, entry.2.expiresAt = some expiresAt → expiresAt = ⊤

omit [DecidableEq κ] in
theorem refines_empty : Refines (κ := κ) (V := V) 0 {} [] := ⟨fun _ h => absurd h List.not_mem_nil, Nat.zero_le _, rfl⟩

omit [DecidableEq κ] in
theorem Refines.mono {now : Time} (h : Refines clock store map) (hle : clock ≤ now) : Refines now store map := by
  refine ⟨h.bounded, h.size, ?_⟩
  rw [← Expiring.live_live _ hle, h.view, Expiring.live_live _ hle]

omit [DecidableEq κ] in
theorem Swept.refines {now : Time} (h : Swept now store map) : Refines now store map :=
  ⟨h.bounded, h.size, by rw [h.view, Expiring.live_live _ le_rfl]⟩

variable {now : ℚ}

omit [DecidableEq κ] in
/-- A sweep at a time that is not before the clock takes the entries that have expired; where the time is before
`nextSweepAt`, there is none. -/
theorem Refines.sweep (h : Refines clock store map) (hle : clock ≤ now) (hnow : 0 ≤ now) :
    Swept now (store.sweep now) map := by
  have hview := (h.mono hle).view
  rw [live_abstraction] at hview
  have hzero : (0 : Time) ≤ now := WithTop.coe_le_coe.2 hnow
  unfold MemoryStore.sweep
  by_cases hdue : store.nextSweepAt ≤ now
  · rw [if_pos hdue]
    simp only [sweepExpiredEntries]
    have hlt : (now : Time) < (sweepLoop (now : Time) ⊤ store.entries).2 := lt_sweepLoop_snd (WithTop.coe_lt_top now)
    have hbound entry (hmem : entry ∈ (sweepLoop (now : Time) ⊤ store.entries).1) expiresAt
        (he : entry.2.expiresAt = some expiresAt) : (sweepLoop (now : Time) ⊤ store.entries).2 ≤ expiresAt :=
      sweepLoop_snd_le_of_mem he hmem
    refine ⟨?_, ?_, ?_, ?_, ?_⟩
    · intro entry hmem expiresAt he
      have hle := hbound entry hmem expiresAt he
      show (if _ then _ else _) ≤ _
      split
      · exact hzero.trans (hlt.le.trans hle)
      · exact hle
    · dsimp only
      rw [sweepLoop_fst]
      exact (List.length_filter_le _ _).trans h.size
    · rw [sweepLoop_fst, hview]
    · intro entry hmem
      rw [sweepLoop_fst] at hmem
      exact (List.mem_filter.1 hmem).2
    · intro hnever entry hmem expiresAt he
      have hle := hbound entry hmem expiresAt he
      simp only [ite_eq_left_iff] at hnever
      by_cases htop : (sweepLoop (now : Time) ⊤ store.entries).2 = ⊤
      · rw [htop] at hle
        exact top_le_iff.1 hle
      · rw [hnever htop] at hlt
        exact absurd hlt (not_lt.2 hzero)
  · rw [if_neg hdue]
    have hlive entry (hmem : entry ∈ store.entries) : isLive (now : Time) entry.2.expiresAt = true := by
      cases he : entry.2.expiresAt with
      | none => rfl
      | some expiresAt => exact decide_eq_true ((not_le.1 hdue).trans_le (h.bounded entry hmem expiresAt he))
    refine ⟨h.bounded, h.size, ?_, hlive, fun hnever => ?_⟩
    · rw [List.filter_eq_self.2 hlive] at hview
      exact hview
    · rw [hnever] at hdue
      exact absurd hzero hdue

def Simulates (now : Time) (performed : Outcome V × MemoryStore κ V) (performed' : Outcome V × Reference κ V) : Prop :=
  performed.1 = performed'.1 ∧ Refines now performed.2 performed'.2

theorem simulates_get (hs : Swept now (store.sweep now) map) (key : κ) :
    Simulates now (store.get host now key)
      (match Expiring.get map (now : Time) key with
        | none => (.undefined, map)
        | some value => (cloned host value, map)) := by
  have hget : Expiring.get map (now : Time) key = ((store.sweep now).entries.get key).map MemoryCacheEntry.value := by
    rw [Expiring.get, ← hs.view, get_abstraction, Option.map_map]
    rfl
  rw [hget, MemoryStore.get]
  cases hentry : (store.sweep now).entries.get key with
  | none => exact ⟨rfl, hs.refines⟩
  | some entry =>
    -- what is left after the sweep has not expired
    have hlive : isLive (now : Time) entry.expiresAt = true := hs.live _ (OrderedMap.mem_of_get hentry)
    have hany : entry.expiresAt.any (· ≤ (now : Time)) = false := by
      cases he : entry.expiresAt with
      | none => rfl
      | some expiresAt => simpa [isLive, he] using hlive
    simp only [hany, Bool.false_eq_true, if_false, Option.map_some]
    exact ⟨rfl, hs.refines⟩

theorem simulates_set (hs : Swept now (store.sweep now) map) (key : κ) (value : V) (ttlSeconds : Option Seconds) :
    Simulates now (store.set host now key value ttlSeconds)
      (match host.structuredClone value with
        | none => (.dataCloneError, map)
        | some copy =>
          (.undefined, Expiring.put defaultMaxMemoryCacheEntries map (now : Time) key copy (expiry host now (ttlSeconds.getD (.finite 0))))) := by
  rw [MemoryStore.set]
  cases host.structuredClone value with
  | none => exact ⟨rfl, hs.refines⟩
  | some copy =>
    generalize expiry host now (ttlSeconds.getD (.finite 0)) = expiresAt
    generalize hs' : store.sweep now = swept at hs
    have hview : abstraction (enforceEntryLimit ((swept.entries.filter fun entry => entry.1 ≠ key) ++ [(key, { value := copy, expiresAt })])) =
        Expiring.put defaultMaxMemoryCacheEntries map now key copy expiresAt := by
      rw [enforceEntryLimit_abstraction, Expiring.put, ← hs.view, erase_abstraction]
      simp [abstraction]
    refine ⟨rfl, ?_, ?_, by rw [hview]⟩
    · intro entry hmem expiresAt' he
      simp only [enforceEntryLimit_eq] at hmem
      rcases List.mem_append.1 (List.mem_of_mem_drop hmem) with hold | hnew
      · have hold := (List.mem_filter.1 hold).1
        cases expiresAt with
        | none => exact hs.bounded entry hold expiresAt' he
        | some expiresAt =>
          by_cases hzero : swept.nextSweepAt = 0
          · rw [hs.never hzero entry hold expiresAt' he]
            exact le_top
          · simp only [if_neg hzero]
            exact (min_le_left _ _).trans (hs.bounded entry hold expiresAt' he)
      · rw [List.mem_singleton] at hnew
        subst hnew
        cases he
        by_cases hzero : swept.nextSweepAt = 0
        · simp only [if_pos hzero, le_refl]
        · simp only [if_neg hzero]
          exact min_le_right _ _
    · show (enforceEntryLimit _).length ≤ _
      rw [enforceEntryLimit_eq, List.length_drop]
      omega

theorem simulates_del (h : Refines now store map) (key : κ) :
    Simulates now (store.del key) (.undefined, Expiring.erase map key) := by
  refine ⟨rfl, fun entry hmem => h.bounded entry (List.mem_filter.1 hmem).1, (List.length_filter_le _ _).trans h.size, ?_⟩
  show Expiring.live (abstraction (store.entries.filter fun entry => entry.1 ≠ key)) now = _
  rw [← erase_abstraction, Expiring.live_erase, h.view, Expiring.live_erase]

variable (host) in
theorem simulates_perform {call : Call κ V} (h : Refines clock store map) (hle : clock ≤ ((call.now : ℚ) : Time)) :
    Simulates ((call.now : ℚ) : Time) (store.perform host call) (Reference.perform host map call) := by
  obtain ⟨now, operation⟩ := call
  have hs : Swept ((now : ℚ) : Time) (store.sweep ((now : ℚ) : Time)) map := h.sweep hle (Nat.cast_nonneg now)
  cases operation with
  | get key => exact simulates_get hs key
  | set key value ttlSeconds => exact simulates_set hs key value ttlSeconds
  | del key => exact simulates_del (h.mono hle) key
  | reset => exact ⟨rfl, fun _ hmem => absurd hmem List.not_mem_nil, Nat.zero_le _, rfl⟩

theorem simulates_performAll {calls : List (Call κ V)} (h : Refines clock store map) (hclock : calls.Pairwise fun call later => call.now ≤ later.now)
    (hle : ∀ call ∈ calls, clock ≤ ((call.now : ℚ) : Time)) :
    (performAll (perform host) store calls).1 = (performAll (Reference.perform host) map calls).1 ∧
      (performAll (perform host) store calls).2.entries.length ≤ defaultMaxMemoryCacheEntries := by
  induction calls generalizing clock store map with
  | nil => exact ⟨rfl, h.size⟩
  | cons call rest ih =>
    obtain ⟨hanswer, hnext⟩ := simulates_perform host h (hle call List.mem_cons_self)
    rw [List.pairwise_cons] at hclock
    obtain ⟨hrest, hsize⟩ := ih hnext hclock.2 fun later hlater => WithTop.coe_le_coe.2 (Nat.cast_le.2 (hclock.1 later hlater))
    exact ⟨by rw [performAll, performAll, hanswer, hrest], hsize⟩

end MemoryStore

/-- Whatever the operations are, as long as the clock does not go back: each answers what it does on the bounded map whose
entries are gone once they have expired, and the store has at most as many entries as it may. -/
theorem memoryStore_refines (host : Host V) (calls : List (Call κ V)) (clock : calls.Pairwise fun call later => call.now ≤ later.now) :
    (performAll (MemoryStore.perform host) {} calls).1 = (performAll (Reference.perform host) [] calls).1 ∧
    (performAll (MemoryStore.perform host) {} calls).2.entries.length ≤ defaultMaxMemoryCacheEntries :=
  MemoryStore.simulates_performAll MemoryStore.refines_empty clock fun call _ => WithTop.coe_le_coe.2 (Nat.cast_nonneg call.now)

/-- Numbers that are all doubles, and values that are all cloned. -/
def exactHost : Host Nat := { round := fun q => q, structuredClone := some }

/-- A time to live of half a millisecond, which counts as one, and one that is over by the time of the last call. -/
theorem memoryStore_refines_example :
    (performAll (MemoryStore.perform exactHost) {} ([⟨5, .set 1 10 (some (.finite (1 / 2000)))⟩, ⟨5, .get 1⟩, ⟨6, .get 1⟩] : List (Call Nat Nat))).1 =
      [.undefined, .value 10, .undefined] :=
  (memoryStore_refines exactHost ([⟨5, .set 1 10 (some (.finite (1 / 2000)))⟩, ⟨5, .get 1⟩, ⟨6, .get 1⟩] : List (Call Nat Nat))
    (by decide)).1.trans (by decide +kernel)

end Fluo.CacheManager.Memory
