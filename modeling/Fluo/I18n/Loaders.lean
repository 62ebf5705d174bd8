import Mathlib.Data.List.Infix
import Fluo.Http.RoutePath
import Fluo.Lib.OrderedMap
import Fluo.Lib.Runs
/-!
# Catalog loaders

The names a loader accepts, and `CachedRemoteI18nLoader`: a call of `load` runs without a
break up to the wrapped loader, whose result it stores when it goes on. A time is any `T`,
a catalog any `C`.
-/

namespace Fluo.I18n
open Fluo.Lib
open Fluo.Http.Mapping (slash trim)

inductive I18nErrorCode
  | invalidCatalog
  | invalidLoaderOptions
  | invalidLocaleConfig
  | invalidOptions
  | missingMessage

structure I18nError where
  message : Utf16
  code : I18nErrorCode

/-! ## Names -/

def isAlphanumeric (u : UInt16) : Bool := u ∈ units "ABCDEFGHIJKLMNOPQRSTUVWXYZabcdefghijklmnopqrstuvwxyz0123456789"

/-- `SAFE_NAMESPACE_SEGMENT_PATTERN`. `SAFE_LOCALE_PATTERN` matches the same: a `-` is inside the class, so its second group adds nothing. -/
def isSafeSegment (segment : Utf16) : Bool :=
  segment.head?.any isAlphanumeric && segment.getLast?.any isAlphanumeric && segment.all fun u => isAlphanumeric u || u ∈ units "_-"

def validateLoaderLocale (locale label : Utf16) : Except I18nError Unit :=
  if trim locale = [] ∨ isSafeSegment locale = false then
    .error ⟨label ++ units " locale must be a safe non-empty locale segment.", .invalidLoaderOptions⟩
  else .ok ()

/-- `replaceAll('\\', '/')` -/
def normalizeSeparators (ns : Utf16) : Utf16 := ns.map fun u => if u = '\\'.toNat.toUInt16 then slash else u

def validateLoaderNamespace (ns label : Utf16) : Except I18nError Unit :=
  if trim ns = [] then .error ⟨label ++ units " namespace must be a safe non-empty namespace path.", .invalidLoaderOptions⟩
  else
    let normalized := normalizeSeparators ns
    if normalized.head? = some slash ∨ normalized.getLast? = some slash ∨ [slash, slash] <:+: normalized then
      .error ⟨label ++ units " namespace must be a relative namespace path.", .invalidLoaderOptions⟩
    else if (normalized.splitOn slash).any fun segment => segment = units "." || segment = units ".." || !isSafeSegment segment then
      .error ⟨label ++ units " namespace contains an unsafe path segment.", .invalidLoaderOptions⟩
    else .ok ()

/-! ## The cached loader -/

structure CachedI18nLoaderKeyInput where
  locale : Utf16
  ns : Utf16
  version : Option Utf16

def createDefaultCacheKey (input : CachedI18nLoaderKeyInput) : Utf16 :=
  input.locale ++ [0] ++ input.ns ++ [0] ++ input.version.getD []

/-- The options of a cached loader. The time and what the wrapped loader returns come with the calls. -/
structure CachedRemoteI18nLoader (T : Type) where
  getCacheKey : CachedI18nLoaderKeyInput → Utf16 := createDefaultCacheKey
  ttlMs : T
  version : Option Utf16 := none

/-- What is kept under a key. `fetchedBy` is the wrapped load it came from. -/
structure CacheEntry (C T : Type) where
  catalog : C
  expiresAt : T
  fetchedBy : Nat

/-- A wrapped load, and the `load` that awaits it: whether it has returned a catalog, once it has settled. -/
structure Fetch (T : Type) where
  key : Utf16
  currentTime : T
  settled : Option Bool := none

/-- The cache, the wrapped loads in the order they were started in, and how many of them there were when a key was last invalidated. -/
structure CacheState (C T : Type) where
  cache : OrderedMap Utf16 (CacheEntry C T) := []
  fetches : List (Fetch T) := []
  invalidated : Utf16 → Nat := fun _ => 0

inductive CacheLabel (C T : Type)
  | load (locale ns : Utf16) (currentTime : T)
  /-- A `load` goes on with the catalog of its wrapped load, or with its failure. -/
  | settle (fetch : Nat) (catalog : Option C)
  | invalidate (locale ns : Utf16)
  | clear

namespace CachedRemoteI18nLoader

variable {C T : Type} [Add T] [LT T] [DecidableLT T] (loader : CachedRemoteI18nLoader T)

def keyOf (locale ns : Utf16) : Utf16 := loader.getCacheKey ⟨locale, ns, loader.version⟩

def validate (locale ns : Utf16) : Except I18nError Unit := do
  validateLoaderLocale locale (units "Cached remote i18n")
  validateLoaderNamespace ns (units "Cached remote i18n")

/-- The entry of a key, unless it has expired. -/
def lookup (s : CacheState C T) (key : Utf16) (currentTime : T) : Option (CacheEntry C T) :=
  (s.cache.get key).filter fun cached => currentTime < cached.expiresAt

/-- `load` up to its `await`: the catalog of the cache, or none yet and one more wrapped load. -/
def load (s : CacheState C T) (locale ns : Utf16) (currentTime : T) : Except I18nError (Option C × CacheState C T) := do
  validate locale ns
  let cacheKey := loader.keyOf locale ns
  match lookup s cacheKey currentTime with
  | some cached => return (some cached.catalog, s)
  | none => return (none, { s with fetches := s.fetches ++ [{ key := cacheKey, currentTime }] })

/-- `load` after its `await`. -/
def settle (s : CacheState C T) (i : Nat) (fetch : Fetch T) (catalog : Option C) : CacheState C T :=
  let fetches := s.fetches.set i { fetch with settled := some catalog.isSome }
  match catalog with
  | some catalog => { s with fetches, cache := s.cache.set fetch.key ⟨catalog, fetch.currentTime + loader.ttlMs, i⟩ }
  | none => { s with fetches }

def invalidate (s : CacheState C T) (locale ns : Utf16) : Except I18nError (CacheState C T) := do
  validate locale ns
  let key := loader.keyOf locale ns
  return { s with cache := s.cache.filter fun entry => entry.1 ≠ key, invalidated := Function.update s.invalidated key s.fetches.length }

def clear (s : CacheState C T) : CacheState C T := { s with cache := [], invalidated := fun _ => s.fetches.length }

def step (s : CacheState C T) : CacheLabel C T → Option (CacheState C T)
  | .load locale ns currentTime => some (match loader.load s locale ns currentTime with
    | .ok (_, s) => s
    | .error _ => s)
  | .settle i catalog => match s.fetches[i]? with
    | some fetch => if fetch.settled = none then some (loader.settle s i fetch catalog) else none
    | none => none
  | .invalidate locale ns => some ((loader.invalidate s locale ns).toOption.getD s)
  | .clear => some (clear s)

/-! ## What may go stale -/

/-- What a call of `load` takes from the cache was fetched since its key was last invalidated, and what goes into the cache
does not take the place of something fetched later. -/
def Fresh (s : CacheState C T) : CacheLabel C T → Prop
  | .load locale ns currentTime => ∀ cached, lookup s (loader.keyOf locale ns) currentTime = some cached →
      s.invalidated (loader.keyOf locale ns) ≤ cached.fetchedBy
  | .settle i (some _) => ∀ fetch cached, s.fetches[i]? = some fetch → s.cache.get fetch.key = some cached → cached.fetchedBy ≤ i
  | _ => True

/-- A catalog comes back while its key has not been invalidated since it was asked for, and before any that was asked for
later under the same key. -/
def Timely (s : CacheState C T) : CacheLabel C T → Prop
  | .settle i (some _) => ∀ fetch, s.fetches[i]? = some fetch → s.invalidated fetch.key ≤ i ∧
      ∀ (j : Nat) (later : Fetch T), s.fetches[j]? = some later → later.key = fetch.key → later.settled = some true → j ≤ i
  | _ => True

/-- The cache holds, under each key, what a wrapped load of that key has returned, started since the key was last invalidated. -/
structure Current (s : CacheState C T) : Prop where
  keyed : s.cache.Keyed
  since : ∀ key cached, s.cache.get key = some cached → s.invalidated key ≤ cached.fetchedBy
  fetched : ∀ key cached, s.cache.get key = some cached →
    ∃ fetch, s.fetches[cached.fetchedBy]? = some fetch ∧ fetch.key = key ∧ fetch.settled = some true

omit [Add T] [LT T] [DecidableLT T] in
theorem current_empty : Current ({} : CacheState C T) where
  keyed := List.nodup_nil
  since := by simp [OrderedMap.get]
  fetched := by simp [OrderedMap.get]

variable {loader} {s s' : CacheState C T}

omit [Add T] in
theorem Current.load (h : Current s) {locale ns : Utf16} {currentTime : T} {catalog : Option C}
    (hload : loader.load s locale ns currentTime = .ok (catalog, s')) : Current s' := by
  simp only [CachedRemoteI18nLoader.load, bind, Except.bind, pure, Except.pure] at hload
  split at hload
  · cases hload
  · split at hload
    · cases hload
      exact h
    · cases hload
      refine ⟨h.keyed, h.since, fun key cached hget => ?_⟩
      obtain ⟨fetch, hfetch, hkey, hsettled⟩ := h.fetched key cached hget
      have hlt := (List.getElem?_eq_some_iff.1 hfetch).1
      exact ⟨fetch, by rw [List.getElem?_append_left hlt, hfetch], hkey, hsettled⟩

omit [Add T] [LT T] [DecidableLT T] in
theorem settled_set {fetches : List (Fetch T)} {i j : Nat} {fetch other : Fetch T} (hi : fetches[i]? = some fetch)
    (hopen : fetch.settled = none) (hj : fetches[j]? = some other) (hsettled : other.settled = some true) (fetch' : Fetch T) :
    (fetches.set i fetch')[j]? = some other := by
  have hne : i ≠ j := by
    rintro rfl
    rw [hi, Option.some.injEq] at hj
    rw [← hj, hopen] at hsettled
    cases hsettled
  rw [List.getElem?_set_ne hne, hj]

omit [LT T] [DecidableLT T] in
theorem Current.settle (h : Current s) {i : Nat} {fetch : Fetch T} (hfetch : s.fetches[i]? = some fetch) (hopen : fetch.settled = none)
    {catalog : Option C} (htimely : Timely s (.settle i catalog)) : Current (loader.settle s i fetch catalog) := by
  have hkept (key cached) (hget : s.cache.get key = some cached) (fetch' : Fetch T) :
      ∃ fetch, (s.fetches.set i fetch')[cached.fetchedBy]? = some fetch ∧ fetch.key = key ∧ fetch.settled = some true := by
    obtain ⟨other, hother, hkey, hsettled⟩ := h.fetched key cached hget
    exact ⟨other, settled_set hfetch hopen hother hsettled fetch', hkey, hsettled⟩
  cases catalog with
  | none => exact ⟨h.keyed, h.since, fun key cached hget => hkept key cached hget _⟩
  | some catalog =>
    -- under the key of the fetch stands what it has returned, under the others what was there
    have hcases (key cached) (hget : (s.cache.set fetch.key ⟨catalog, fetch.currentTime + loader.ttlMs, i⟩).get key = some cached) :
        (key = fetch.key ∧ cached.fetchedBy = i) ∨ s.cache.get key = some cached := by
      by_cases hkey : key = fetch.key
      · subst hkey
        rw [OrderedMap.get_set_self, Option.some.injEq] at hget
        exact .inl ⟨rfl, hget ▸ rfl⟩
      · rw [OrderedMap.get_set_of_ne _ hkey] at hget
        exact .inr hget
    refine ⟨h.keyed.set _ _, fun key cached hget => ?_, fun key cached hget => ?_⟩
    · rcases hcases key cached hget with ⟨rfl, hi⟩ | hget
      · exact hi ▸ (htimely fetch hfetch).1
      · exact h.since key cached hget
    · rcases hcases key cached hget with ⟨rfl, hi⟩ | hget
      · have hlt := (List.getElem?_eq_some_iff.1 hfetch).1
        exact ⟨{ fetch with settled := some true }, by simp [CachedRemoteI18nLoader.settle, hi, hlt], rfl, rfl⟩
      · exact hkept key cached hget _

omit [Add T] [LT T] [DecidableLT T] in
theorem Current.invalidate (h : Current s) {locale ns : Utf16} (hinvalidate : loader.invalidate s locale ns = .ok s') : Current s' := by
  simp only [CachedRemoteI18nLoader.invalidate, bind, Except.bind, pure, Except.pure] at hinvalidate
  split at hinvalidate
  · cases hinvalidate
  · cases hinvalidate
    have hget (key cached) (hget : OrderedMap.get (s.cache.filter fun entry => entry.1 ≠ loader.keyOf locale ns) key = some cached) :
        key ≠ loader.keyOf locale ns ∧ s.cache.get key = some cached := by
      rw [OrderedMap.get_filter h.keyed, Option.filter_eq_some_iff] at hget
      exact ⟨by simpa using hget.2, hget.1⟩
    refine ⟨h.keyed.filter _, fun key cached hcached => ?_, fun key cached hcached => h.fetched key cached (hget key cached hcached).2⟩
    obtain ⟨hne, hcached⟩ := hget key cached hcached
    simp only [Function.update_of_ne hne]
    exact h.since key cached hcached

theorem Current.step (h : Current s) {l : CacheLabel C T} (htimely : Timely s l) (hstep : loader.step s l = some s') : Current s' := by
  cases l with
  | load locale ns currentTime =>
    simp only [CachedRemoteI18nLoader.step, Option.some.injEq] at hstep
    split at hstep
    · exact hstep ▸ h.load ‹_›
    · exact hstep ▸ h
  | settle i catalog =>
    simp only [CachedRemoteI18nLoader.step] at hstep
    split at hstep
    · split at hstep
      · exact Option.some.inj hstep ▸ h.settle ‹_› ‹_› htimely
      · cases hstep
    · cases hstep
  | invalidate locale ns =>
    simp only [CachedRemoteI18nLoader.step, Option.some.injEq] at hstep
    cases hinvalidate : loader.invalidate s locale ns with
    | error e =>
      rw [hinvalidate] at hstep
      exact hstep ▸ h
    | ok next =>
      rw [hinvalidate] at hstep
      exact hstep ▸ h.invalidate hinvalidate
  | clear =>
    cases hstep
    exact ⟨List.nodup_nil, by simp [CachedRemoteI18nLoader.clear, OrderedMap.get], by simp [CachedRemoteI18nLoader.clear, OrderedMap.get]⟩

omit [Add T] in
theorem Current.fresh (h : Current s) {l : CacheLabel C T} (htimely : Timely s l) : loader.Fresh s l := by
  cases l with
  | load locale ns currentTime =>
    intro cached hlookup
    exact h.since _ _ (Option.filter_eq_some_iff.1 hlookup).1
  | settle i catalog =>
    cases catalog with
    | none => trivial
    | some catalog =>
      intro fetch cached hfetch hget
      obtain ⟨other, hother, hkey, hsettled⟩ := h.fetched _ _ hget
      exact (htimely fetch hfetch).2 _ other hother hkey hsettled
  | invalidate locale ns => trivial
  | clear => trivial

/-- While every catalog comes back in time, no `load` gets one that was fetched before its key was last invalidated, and none
takes the place of a later one. -/
theorem loads_fresh (loader : CachedRemoteI18nLoader T) {ls : List (CacheLabel C T)} {s : CacheState C T}
    (h : Run loader.step Timely {} ls s) : Run loader.step loader.Fresh {} ls s :=
  h.mono_of_inv Current (fun _ _ _ htimely hcurrent hstep => hcurrent.step htimely hstep)
    (fun _ _ _ htimely hcurrent _ => hcurrent.fresh htimely) current_empty

private def tenMs : CachedRemoteI18nLoader Nat := { ttlMs := 10 }

private def loadCommon (currentTime : Nat) : CacheLabel Nat Nat := .load (units "en") (units "common") currentTime

/-- The catalog of the last wrapped load, of a key that has not been invalidated since. -/
private def isLast (s : CacheState Nat Nat) : CacheLabel Nat Nat → Bool
  | .settle i (some _) => s.fetches[i]?.all fun fetch => s.invalidated fetch.key ≤ i && i + 1 = s.fetches.length
  | _ => true

private theorem timely_of_isLast (s : CacheState Nat Nat) (l : CacheLabel Nat Nat) (h : isLast s l = true) : Timely s l := by
  cases l with
  | settle i catalog =>
    cases catalog with
    | none => trivial
    | some catalog =>
      intro fetch hfetch
      simp only [isLast, hfetch, Option.all_some, Bool.and_eq_true, decide_eq_true_eq] at h
      refine ⟨h.1, fun j later hj _ _ => ?_⟩
      have hlt := (List.getElem?_eq_some_iff.1 hj).1
      omega
  | load locale ns currentTime => trivial
  | invalidate locale ns => trivial
  | clear => trivial

private def reloads : List (CacheLabel Nat Nat) :=
  [loadCommon 0, .settle 0 (some 1), loadCommon 5, .invalidate (units "en") (units "common"), loadCommon 6, .settle 1 (some 2), loadCommon 7]

theorem loads_fresh_reloads : Run tenMs.step tenMs.Fresh {} reloads (after tenMs.step {} reloads) :=
  loads_fresh tenMs (Run.of_passes timely_of_isLast (by decide))

private def isFresh (s : CacheState Nat Nat) : CacheLabel Nat Nat → Bool
  | .load locale ns currentTime => (lookup s (tenMs.keyOf locale ns) currentTime).all fun cached =>
      s.invalidated (tenMs.keyOf locale ns) ≤ cached.fetchedBy
  | _ => true

private theorem isFresh_of_fresh (s : CacheState Nat Nat) (l : CacheLabel Nat Nat) (h : tenMs.Fresh s l) : isFresh s l = true := by
  cases l with
  | load locale ns currentTime =>
    simp only [isFresh, Option.all_eq_true_iff_get, decide_eq_true_eq]
    exact fun hsome => h _ (Option.some_get hsome).symm
  | settle i catalog => rfl
  | invalidate locale ns => rfl
  | clear => rfl

/-- The catalog is invalidated while it is fetched: it is stored nevertheless, and the next `load` gets it. -/
theorem loads_stale : ¬ ∀ (loader : CachedRemoteI18nLoader Nat) (ls : List (CacheLabel Nat Nat)) (s : CacheState Nat Nat),
    Run loader.step (fun _ _ => True) {} ls s → Run loader.step loader.Fresh {} ls s := by
  intro h
  have hrun : Run tenMs.step (fun _ _ => True) {} [loadCommon 0, .invalidate (units "en") (units "common"), .settle 0 (some 1), loadCommon 5] _ :=
    Run.of_passes (p := fun _ _ => true) (fun _ _ _ => trivial) (by decide)
  have hpasses := (h tenMs _ _ hrun).passes isFresh_of_fresh
  revert hpasses
  decide

end CachedRemoteI18nLoader

end Fluo.I18n
