import Fluo.Lib.Fallible
import Fluo.Lib.Uri
import Fluo.Throttler.Store
/-!
# The throttler guard

`ThrottlerGuard.canActivate`. A check reads the clock and asks the store in one go;
what it does after that depends on the store's answer alone, so a run of checks that
overlap is told by the order in which they ask the store. How the client of a
request is told is the key generator's, and is given.
-/

namespace Fluo.Throttler
open Fluo.Lib

structure ThrottlerHandlerOptions where
  ttl : Int
  limit : Int

/-- What the decorators recorded of a class or a method. -/
structure ThrottleMetadata where
  skip : Bool := false
  throttle : Option ThrottlerHandlerOptions := none

structure HandlerDescriptor where
  method : Utf16
  path : Utf16
  version : Option Utf16 := none
  effectiveVersion : Option Utf16 := none
  methodName : Utf16
  classMetadata : ThrottleMetadata := {}
  methodMetadata : ThrottleMetadata := {}

inductive ThrottlerError
  | invalid (message : String)
  | malformedUri
  | tooManyRequests (retryAfter : Int)
  /-- The key generator found no client. -/
  | unknownClient

structure Check where
  handler : HandlerDescriptor
  clientKey : Except ThrottlerError Utf16
  seconds : Nat
  micros : Nat

/-- The result of a check, with what the store answered. -/
structure Verdict where
  result : Except ThrottlerError Bool
  entry : Option ThrottlerStoreEntry := none

def assertPositiveFiniteInteger (value : Int) (field : String) : Except ThrottlerError Unit :=
  if 0 < value then .ok () else .error (.invalid s!"Invalid throttler {field}: expected a positive finite integer.")

def validateThrottleOptions (options : ThrottlerHandlerOptions) : Except ThrottlerError ThrottlerHandlerOptions := do
  assertPositiveFiniteInteger options.limit "limit"
  assertPositiveFiniteInteger options.ttl "ttl"
  return options

def validateThrottlerStoreEntry (entry : ThrottlerStoreEntry) : Except ThrottlerError ThrottlerStoreEntry := do
  assertPositiveFiniteInteger entry.count "store count"
  return entry

def encode (s : Utf16) : Except ThrottlerError Utf16 :=
  match encodeURIComponent s with
  | none => .error .malformedUri
  | some encoded => .ok encoded

def buildStoreKey (handlerKey clientKey : Utf16) : Except ThrottlerError Utf16 := do
  let encodedHandlerKey ← encode handlerKey
  let encodedClientKey ← encode clientKey
  return units "throttler:" ++ encodedHandlerKey ++ units ":" ++ encodedClientKey

def buildHandlerKey (handler : HandlerDescriptor) : Except ThrottlerError Utf16 := do
  let version := (handler.version <|> handler.effectiveVersion).getD (units "unversioned")
  let path ← encode handler.path
  let encodedVersion ← encode version
  let methodName ← encode handler.methodName
  return units "method:" ++ handler.method ++ units "|path:" ++ path ++ units "|version:" ++ encodedVersion ++
    units "|handler:" ++ methodName

/-- `Math.ceil(ms / 1000)` -/
def ceilSeconds (ms : Int) : Int := -(-ms / 1000)

def resolveRetryAfterSeconds (entry : ThrottlerStoreEntry) (now : Int) : Int :=
  match entry.retryAfterMs with
  | some retryAfterMs => max 1 (ceilSeconds retryAfterMs)
  | none => max 1 (ceilSeconds (entry.resetAt - now))

def HandlerDescriptor.isSkipped (handler : HandlerDescriptor) : Bool := handler.classMetadata.skip || handler.methodMetadata.skip

/-- The method's policy before the class's before the module's. -/
def resolvedThrottle (options : ThrottlerHandlerOptions) (handler : HandlerDescriptor) : ThrottlerHandlerOptions where
  limit := ((handler.methodMetadata.throttle <|> handler.classMetadata.throttle).map (·.limit)).getD options.limit
  ttl := ((handler.methodMetadata.throttle <|> handler.classMetadata.throttle).map (·.ttl)).getD options.ttl

/-- What a check asks the store. -/
def request (options : ThrottlerHandlerOptions) (check : Check) : Except ThrottlerError (ConsumeCall Utf16) := do
  let throttle ← validateThrottleOptions (resolvedThrottle options check.handler)
  let clientKey ← check.clientKey
  let handlerKey ← buildHandlerKey check.handler
  let key ← buildStoreKey handlerKey clientKey
  return { key, seconds := check.seconds, micros := check.micros, ttlSeconds := throttle.ttl }

/-- What a check makes of the store's answer. -/
def judge (limit now : Int) (rawEntry : ThrottlerStoreEntry) : Except ThrottlerError Bool := do
  let entry ← validateThrottlerStoreEntry rawEntry
  if limit < entry.count then throw (.tooManyRequests (resolveRetryAfterSeconds rawEntry now)) else return true

def canActivate {σ : Type} (options : ThrottlerHandlerOptions) (consume : σ → ConsumeCall Utf16 → ThrottlerStoreEntry × σ) (store : σ)
    (check : Check) : Verdict × σ :=
  if check.handler.isSkipped then ({ result := .ok true }, store)
  else match request options check with
    | .error e => ({ result := .error e }, store)
    | .ok call =>
      let (rawEntry, store) := consume store call
      ({ result := judge (resolvedThrottle options check.handler).limit call.now rawEntry, entry := some rawEntry }, store)

def Check.now (check : Check) : Int := (check.seconds * 1000 + check.micros / 1000 : Nat)

/-! ## Checks and their calls -/

theorem assertPositiveFiniteInteger_ok {value : Int} {field : String} (h : assertPositiveFiniteInteger value field = .ok ()) : 0 < value := by
  unfold assertPositiveFiniteInteger at h
  split at h
  · assumption
  · cases h

theorem request_ok {options : ThrottlerHandlerOptions} {check : Check} {call : ConsumeCall Utf16} (h : request options check = .ok call) :
    call.now = check.now ∧ 0 < call.ttlSeconds := by
  obtain ⟨throttle, hthrottle, h⟩ := bind_eq_ok.1 h
  obtain ⟨clientKey, -, h⟩ := bind_eq_ok.1 h
  obtain ⟨handlerKey, -, h⟩ := bind_eq_ok.1 h
  obtain ⟨key, -, h⟩ := bind_eq_ok.1 h
  cases h
  obtain ⟨-, hthrottle⟩ := seq_eq_ok.1 hthrottle
  obtain ⟨httl, hthrottle⟩ := seq_eq_ok.1 hthrottle
  cases hthrottle
  exact ⟨rfl, assertPositiveFiniteInteger_ok httl⟩

theorem judge_ok {limit now : Int} {rawEntry : ThrottlerStoreEntry} (h : judge limit now rawEntry = .ok true) : rawEntry.count ≤ limit := by
  obtain ⟨entry, hentry, h⟩ := bind_eq_ok.1 h
  obtain ⟨-, hentry⟩ := seq_eq_ok.1 hentry
  cases hentry
  split at h
  · cases h
  · omega

theorem retryAfter_eq {entry entry' : ThrottlerStoreEntry} {now : Int} (hwindow : entry.window = entry'.window) (hnone : entry.retryAfterMs = none)
    (hsome : entry'.retryAfterMs = some (max (entry'.resetAt - now) 1)) :
    resolveRetryAfterSeconds entry now = resolveRetryAfterSeconds entry' now := by
  have hreset : entry.resetAt = entry'.resetAt := congrArg Window.resetAt hwindow
  simp only [resolveRetryAfterSeconds, hnone, hsome, ceilSeconds, hreset]
  omega

theorem judge_eq {limit now : Int} {entry entry' : ThrottlerStoreEntry} (hwindow : entry.window = entry'.window)
    (hnone : entry.retryAfterMs = none) (hsome : entry'.retryAfterMs = some (max (entry'.resetAt - now) 1)) :
    judge limit now entry = judge limit now entry' := by
  have hcount : entry.count = entry'.count := congrArg Window.count hwindow
  unfold judge validateThrottlerStoreEntry
  rw [hcount, retryAfter_eq hwindow hnone hsome]
  cases assertPositiveFiniteInteger (entry'.count : Int) "store count" with
  | error e => rfl
  | ok u =>
    simp only [ok_bind, pure, Except.pure, hcount]

section Run
variable {options : ThrottlerHandlerOptions} {redis : Redis}

def Alike (now : Int) (memory : MemoryStore Utf16) (store : RedisStore Utf16) : Prop :=
  ∃ counter, memory.Counts now counter ∧ store.Counts counter

theorem canActivate_alike {c : Int} {memory : MemoryStore Utf16} {store : RedisStore Utf16} {check : Check} (h : Alike c memory store)
    (hle : c ≤ check.now) :
    (canActivate options MemoryStore.consume memory check).1.result = (canActivate options (RedisStore.consume redis) store check).1.result ∧
      Alike check.now (canActivate options MemoryStore.consume memory check).2 (canActivate options (RedisStore.consume redis) store check).2 := by
  obtain ⟨counter, hmemory, hstore⟩ := h
  have hlater : Alike check.now memory store := ⟨counter, hmemory.mono hle, hstore⟩
  unfold canActivate
  split
  · exact ⟨rfl, hlater⟩
  · split
    · exact ⟨rfl, hlater⟩
    · next call hcall =>
      obtain ⟨hnow, -⟩ := request_ok hcall
      obtain ⟨hwindow, hnext⟩ := hmemory.consume (hnow ▸ hle)
      obtain ⟨hwindow', hretry, hnext'⟩ : (store.consume redis call).1.window = (counter.hit call.plain).1 ∧ _ ∧ _ := hstore.consume call
      have hentries : (memory.consume call).1.window = (store.consume redis call).1.window := hwindow.trans hwindow'.symm
      refine ⟨judge_eq hentries (consumeWindow_retryAfterMs _ _ _) ?_, _, hnow ▸ hnext, hnext'⟩
      rw [hretry, ← hwindow']
      rfl

/-- The calls of the store that checks make. -/
def asks (options : ThrottlerHandlerOptions) (check : Check) : Option (ConsumeCall Utf16) :=
  if check.handler.isSkipped then none else (request options check).toOption

theorem asks_ok {check : Check} {call : ConsumeCall Utf16} (h : asks options check = some call) :
    check.handler.isSkipped = false ∧ request options check = .ok call := by
  unfold asks at h
  split at h
  · cases h
  · next hskip =>
    cases hrequest : request options check with
    | error e =>
      rw [hrequest] at h
      cases h
    | ok call' =>
      rw [hrequest] at h
      cases h
      exact ⟨by simpa using hskip, rfl⟩

theorem canActivate_asks {σ : Type} {consume : σ → ConsumeCall Utf16 → ThrottlerStoreEntry × σ} {store : σ} {check : Check}
    {call : ConsumeCall Utf16} (h : asks options check = some call) :
    canActivate options consume store check =
      ({ result := judge (resolvedThrottle options check.handler).limit call.now (consume store call).1, entry := some (consume store call).1 },
        (consume store call).2) := by
  obtain ⟨hskip, hrequest⟩ := asks_ok h
  simp only [canActivate, hskip, hrequest]
  rfl

theorem canActivate_of_asks_none {σ : Type} {consume : σ → ConsumeCall Utf16 → ThrottlerStoreEntry × σ} {store : σ} {check : Check}
    (h : asks options check = none) : (canActivate options consume store check).1.entry = none ∧ (canActivate options consume store check).2 = store := by
  unfold asks at h
  unfold canActivate
  split
  · exact ⟨rfl, rfl⟩
  · next hskip =>
    rw [if_neg hskip] at h
    split
    · exact ⟨rfl, rfl⟩
    · next call hcall =>
      rw [hcall] at h
      cases h

def asked (options : ThrottlerHandlerOptions) (e : Check × Verdict) : Option (WindowCall Utf16 × Window) :=
  (asks options e.1).bind fun call => e.2.entry.map fun entry => (call.plain, entry.window)

theorem asked_eq {checks : List Check} (hclock : Clocked Check.now checks) {c : Int} {memory : MemoryStore Utf16} {counter : Counter Utf16}
    (h : memory.Counts c counter) (hc : ∀ check ∈ checks, c ≤ check.now) :
    (checks.zip (replies (canActivate options MemoryStore.consume) memory checks)).filterMap (asked options) =
      ((checks.filterMap (asks options)).map ConsumeCall.plain).zip
        (replies Counter.hit counter ((checks.filterMap (asks options)).map ConsumeCall.plain)) := by
  induction checks generalizing c memory counter with
  | nil => rfl
  | cons check rest ih =>
    obtain ⟨hhead, htail⟩ := List.pairwise_cons.1 hclock
    have hrest : ∀ later ∈ rest, check.now ≤ later.now := fun later hl => hhead _ (List.mem_map_of_mem hl)
    have hle := hc check List.mem_cons_self
    rw [replies, List.zip_cons_cons]
    cases hasks : asks options check with
    | none =>
      have hstore : (canActivate options MemoryStore.consume memory check).2 = memory := (canActivate_of_asks_none hasks).2
      have hnone : asked options (check, (canActivate options MemoryStore.consume memory check).1) = none := by rw [asked, hasks]; rfl
      rw [List.filterMap_cons_none hnone, List.filterMap_cons_none hasks, hstore]
      exact ih htail (h.mono hle) hrest
    | some call =>
      obtain ⟨hnow, -⟩ := request_ok (asks_ok hasks).2
      obtain ⟨hwindow, hnext⟩ := h.consume (hnow ▸ hle)
      have hsome : asked options (check, (canActivate options MemoryStore.consume memory check).1) =
          some (call.plain, (counter.hit call.plain).1) := by
        rw [asked, hasks, canActivate_asks hasks, ← hwindow]
        rfl
      rw [List.filterMap_cons_some hsome, List.filterMap_cons_some hasks, List.map_cons, replies, List.zip_cons_cons, canActivate_asks hasks]
      rw [ih htail (hnow ▸ hnext) hrest]

/-- An admitted check of a key, in the window that ends at a time, under a limit. -/
def isAdmittedIn (options : ThrottlerHandlerOptions) (key : Utf16) (resetAt : Int) (limit : Nat) (e : Check × Verdict) : Bool :=
  match asks options e.1, e.2.entry, e.2.result with
  | some call, some entry, .ok true => call.key = key ∧ entry.resetAt = resetAt ∧ (resolvedThrottle options e.1.handler).limit ≤ limit
  | _, _, _ => false

theorem asked_of_isAdmittedIn {key : Utf16} {resetAt : Int} {limit : Nat} {check : Check} {verdict : Verdict}
    (h : isAdmittedIn options key resetAt limit (check, verdict) = true) :
    ∃ call entry, asks options check = some call ∧ verdict.entry = some entry ∧ verdict.result = .ok true ∧ call.key = key ∧
      entry.resetAt = resetAt ∧ (resolvedThrottle options check.handler).limit ≤ limit := by
  unfold isAdmittedIn at h
  split at h
  · next call entry hasks hentry hresult =>
    obtain ⟨hkey, hreset, hlimit⟩ := of_decide_eq_true h
    exact ⟨call, entry, hasks, hentry, hresult, hkey, hreset, hlimit⟩
  · cases h

theorem admitted_in_window {checks : List Check} (hclock : Clocked Check.now checks) {c : Int} {memory : MemoryStore Utf16} {counter : Counter Utf16}
    (h : memory.Counts c counter) (hc : ∀ check ∈ checks, c ≤ check.now) (key : Utf16) (resetAt : Int) (limit : Nat) :
    ((checks.zip (replies (canActivate options MemoryStore.consume) memory checks)).filter
      (isAdmittedIn options key resetAt limit)).length ≤ limit := by
  have hjudged : ∀ e ∈ (checks.zip (replies (canActivate options MemoryStore.consume) memory checks)).filter (isAdmittedIn options key resetAt limit),
      ∃ a, asked options e = some a ∧ a.1.key = key ∧ a.2.resetAt = resetAt ∧ a.2.count ≤ limit := by
    rintro ⟨check, verdict⟩ he
    obtain ⟨hmem, hadmitted⟩ := List.mem_filter.1 he
    obtain ⟨call, entry, hasks, hentry, hresult, hkey, hreset, hlimit⟩ := asked_of_isAdmittedIn hadmitted
    obtain ⟨memory', rfl⟩ := mem_zip_replies hmem
    refine ⟨(call.plain, entry.window), by rw [asked, hasks, hentry]; rfl, hkey, hreset, ?_⟩
    rw [canActivate_asks hasks] at hentry hresult
    cases hentry
    have hcount := judge_ok hresult
    have hle : ((memory'.consume call).1.count : Int) ≤ limit := Int.le_trans hcount hlimit
    exact Int.ofNat_le.1 hle
  generalize hall : checks.zip (replies (canActivate options MemoryStore.consume) memory checks) = all at hjudged ⊢
  have hsub : ((all.filter (isAdmittedIn options key resetAt limit)).filterMap (asked options)).Sublist (all.filterMap (asked options)) :=
    List.filter_sublist.filterMap _
  rw [← hall, asked_eq hclock h hc, hall] at hsub
  have hpositive : ∀ call ∈ (checks.filterMap (asks options)).map ConsumeCall.plain, 0 < call.length := by
    intro plain hplain
    obtain ⟨call, hcall, rfl⟩ := List.mem_map.1 hplain
    obtain ⟨check, -, hasks⟩ := List.mem_filterMap.1 hcall
    have := (request_ok (asks_ok hasks).2).2
    show 0 < call.ttlSeconds * 1000
    omega
  have hlength := admitted_le hpositive counter limit hsub fun a ha => by
    obtain ⟨e, he, hasked⟩ := List.mem_filterMap.1 ha
    obtain ⟨a', hasked', hwindow⟩ := hjudged e he
    rw [hasked] at hasked'
    cases hasked'
    exact hwindow
  have hasked : ∀ e ∈ all.filter (isAdmittedIn options key resetAt limit), (asked options e).isSome := by
    intro e he
    obtain ⟨a, ha, -⟩ := hjudged e he
    rw [ha]
    rfl
  rwa [List.filterMap_length_eq_length.2 hasked] at hlength

end Run

/-- A server that drops a key when its time to live has passed. -/
private def promptRedis : Redis where
  hasExpired expiresAt now := expiresAt ≤ now
  live _ _ h := decide_eq_false (Int.not_le.2 h)

private def login : Check where
  handler := { method := units "POST", path := units "/login", methodName := units "login" }
  clientKey := .ok (units "a")
  seconds := 1
  micros := 0

/-- Two checks in a window, and one at the instant at which it ends. -/
private def logins : List Check := [login, { login with micros := 999 }, { login with seconds := 2 }]

end Fluo.Throttler
