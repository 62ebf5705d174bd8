import Fluo.Http.RoutePath
import Fluo.Lib.JsNumber
import Fluo.Lib.Numbered
import Fluo.Lib.OrderedMap
/-!
# Health checks

`runHealthCheck` runs the indicators, makes entries of what comes of each, and puts the entries of
all of them together. The first entry of a key stays; for the others of an indicator there is one
failure that names their keys.
-/

namespace Fluo.Terminus

open Lib
open Fluo.Http.Mapping (trim)

inductive HealthIndicatorStatus
  | up
  | down
  deriving DecidableEq

inductive CheckError
  | error (message : Utf16)
  | other

/-- The failures that the check itself reports. -/
inductive HealthFailure
  | nonObject
  | noEntries
  | blankKey
  | unsupported (entryKey : Utf16)
  | duplicateKeys (keys : List Utf16)
  | thrown (error : CheckError)

def createUnsupportedEntryMessage (entryKey : Utf16) : Utf16 :=
  if 0 < (trim entryKey).length then units "Indicator returned an unsupported status value for result key \"" ++ entryKey ++ units "\"."
  else units "Indicator returned an unsupported status value for an empty result key."

def HealthFailure.message : HealthFailure → Utf16
  | .nonObject => units "Indicator returned a non-object health result."
  | .noEntries => units "Indicator returned no health result entries."
  | .blankKey => units "Indicator returned a blank result key."
  | .unsupported entryKey => createUnsupportedEntryMessage entryKey
  | .duplicateKeys keys => units "Indicator produced duplicate result key(s): " ++ (units ", ").intercalate keys ++ units "."
  | .thrown (.error message) => message
  | .thrown .other => units "Unknown health indicator error."

variable {D : Type}

/-- What an indicator gave, with its other properties, or a failure with its message. -/
inductive HealthIndicatorState (D : Type)
  | given (status : HealthIndicatorStatus) (properties : D)
  | failure (failure : HealthFailure)

def HealthIndicatorState.status : HealthIndicatorState D → HealthIndicatorStatus
  | .given status _ => status
  | .failure _ => .down

abbrev HealthCheckEntry (D : Type) := Utf16 × HealthIndicatorState D

/-- The value of a property: an object whose `status` is `'up'` or `'down'`, or something else. -/
inductive EntryValue (D : Type)
  | state (status : HealthIndicatorStatus) (properties : D)
  | unsupported

/-- An object with its own enumerable properties. -/
structure ResultObject (D : Type) where
  entries : List (Utf16 × EntryValue D)
  keyed : (entries.map Prod.fst).Nodup

/-- Anything an indicator may return, or throw as the causes of a `HealthCheckError`. -/
inductive IndicatorResult (D : Type)
  | nonObject
  | object (own : ResultObject D)

def createBlankKeyFailureKey (indicatorKey : Utf16) (seenKeys : List Utf16) : Utf16 :=
  unusedBy (units "-") seenKeys (indicatorKey ++ units "-blank-key-error")

def createDuplicateKeyFailureKey (indicatorKey : Utf16) (seenKeys : List Utf16) : Utf16 :=
  unusedBy (units "-") seenKeys (indicatorKey ++ units "-duplicate-key-error")

def createDuplicateKeyFailure (indicatorKey : Utf16) (duplicateKeys seenKeys : List Utf16) : HealthCheckEntry D :=
  (createDuplicateKeyFailureKey indicatorKey seenKeys, .failure (.duplicateKeys duplicateKeys))

/-- What the loops over entries keep. -/
structure Merge (D : Type) where
  entries : List (HealthCheckEntry D)
  seenKeys : List Utf16
  duplicateKeys : List Utf16

/-- The first entry of a key stays. -/
def Merge.add (merge : Merge D) (entry : HealthCheckEntry D) : Merge D :=
  if entry.1 ∈ merge.seenKeys then { merge with duplicateKeys := merge.duplicateKeys ++ [entry.1] }
  else { merge with entries := merge.entries ++ [entry], seenKeys := merge.seenKeys ++ [entry.1] }

def stateOf (entryKey : Utf16) : EntryValue D → HealthIndicatorState D
  | .state status properties => .given status properties
  | .unsupported => .failure (.unsupported entryKey)

/-- One turn of the loop of `normalizeIndicatorResult`. -/
def normalizeEntry (key : Utf16) (merge : Merge D) (entry : Utf16 × EntryValue D) : Merge D :=
  if (trim entry.1).length = 0 then
    let blankKey := createBlankKeyFailureKey key merge.seenKeys
    { merge with entries := merge.entries ++ [(blankKey, .failure .blankKey)], seenKeys := merge.seenKeys ++ [blankKey] }
  else merge.add (entry.1, stateOf entry.1 entry.2)

/-- The entries, with the failure that names the keys of those left out. -/
def Merge.finish (merge : Merge D) (key : Utf16) : List (HealthCheckEntry D) :=
  if 0 < merge.duplicateKeys.length then merge.entries ++ [createDuplicateKeyFailure key merge.duplicateKeys merge.seenKeys]
  else merge.entries

def normalizeIndicatorResult (key : Utf16) : IndicatorResult D → List (HealthCheckEntry D)
  | .nonObject => [(key, .failure .nonObject)]
  | .object object =>
    if object.entries.length = 0 then [(key, .failure .noEntries)]
    else (object.entries.foldl (normalizeEntry key) ⟨[], [], []⟩).finish key

/-! ## Running an indicator -/

def isLowerOrDigit (u : UInt16) : Bool := (0x61 ≤ u && u ≤ 0x7A) || (0x30 ≤ u && u ≤ 0x39)

def isUpper (u : UInt16) : Bool := 0x41 ≤ u && u ≤ 0x5A

/-- `replace(/HealthIndicator$/, '')` -/
def dropHealthIndicator (name : Utf16) : Utf16 :=
  if units "HealthIndicator" <:+ name then name.take (name.length - (units "HealthIndicator").length) else name

/-- `replace(/([a-z0-9])([A-Z])/g, '$1-$2')` -/
def hyphenate : Utf16 → Utf16
  | a :: b :: rest => if isLowerOrDigit a && isUpper b then a :: (units "-" ++ hyphenate (b :: rest)) else a :: hyphenate (b :: rest)
  | name => name

/-- What becomes of a call of `check`. Only a configured timeout runs out. -/
inductive CheckOutcome (D : Type) (timeoutMs : Option ℕ)
  | fulfilled (result : IndicatorResult D)
  | healthCheckError (causes : IndicatorResult D)
  | rejected (error : CheckError)
  | timedOut (elapsed : ℕ) (h : timeoutMs = some elapsed)

/-- An indicator, with its `key` and the name of its class where these are strings. -/
structure HealthIndicator (D : Type) (timeoutMs : Option ℕ) where
  key : Option Utf16
  constructorName : Option Utf16
  outcome : CheckOutcome D timeoutMs

section Run

variable (toLowerCase : Utf16 → Utf16) {timeoutMs : Option ℕ}

def inferIndicatorKey (indicator : HealthIndicator D timeoutMs) (index : ℕ) : Utf16 :=
  match indicator.key.filter fun key => 0 < (trim key).length with
  | some key => key
  | none => match indicator.constructorName.filter fun name => 0 < (trim name).length with
    | some name => toLowerCase (hyphenate (dropHealthIndicator name))
    | none => units "indicator-" ++ units (toString (index + 1))

def createTimeoutMessage (timeoutMs : ℕ) : Utf16 :=
  units "Health indicator timed out after " ++ units (toString timeoutMs) ++ units "ms."

def toFailureResult (key : Utf16) (error : CheckError) : List (HealthCheckEntry D) := [(key, .failure (.thrown error))]

structure ExecutedIndicatorResult (D : Type) where
  entries : List (HealthCheckEntry D)
  indicatorKey : Utf16

def runIndicator (indicator : HealthIndicator D timeoutMs) (index : ℕ) : ExecutedIndicatorResult D :=
  let key := inferIndicatorKey toLowerCase indicator index
  match indicator.outcome with
  | .fulfilled result => ⟨normalizeIndicatorResult key result, key⟩
  | .healthCheckError causes => ⟨normalizeIndicatorResult key causes, key⟩
  | .rejected error => ⟨toFailureResult key error, key⟩
  | .timedOut elapsed _ => ⟨toFailureResult key (.error (createTimeoutMessage elapsed)), key⟩

/-- One turn of the loop of `aggregateIndicatorEntries`. -/
def aggregateCheck (merge : Merge D) (check : ExecutedIndicatorResult D) : Merge D :=
  let merge := check.entries.foldl Merge.add { merge with duplicateKeys := [] }
  if 0 < merge.duplicateKeys.length then
    let failure := createDuplicateKeyFailure check.indicatorKey merge.duplicateKeys merge.seenKeys
    { merge with entries := merge.entries ++ [failure], seenKeys := merge.seenKeys ++ [failure.1] }
  else merge

def aggregateIndicatorEntries (checks : List (ExecutedIndicatorResult D)) : List (HealthCheckEntry D) :=
  (checks.foldl aggregateCheck ⟨[], [], []⟩).entries

inductive ReportStatus
  | ok
  | error
  deriving DecidableEq

structure HealthCheckReport (D : Type) where
  down : List Utf16
  up : List Utf16
  details : OrderedMap Utf16 (HealthIndicatorState D)
  error : OrderedMap Utf16 (HealthIndicatorState D)
  info : OrderedMap Utf16 (HealthIndicatorState D)
  status : ReportStatus

def fromEntries (entries : List (HealthCheckEntry D)) : OrderedMap Utf16 (HealthIndicatorState D) :=
  entries.foldl (fun object entry => object.set entry.1 entry.2) []

def reportOf (checks : List (HealthCheckEntry D)) : HealthCheckReport D :=
  let infoEntries := checks.filter fun entry => entry.2.status = .up
  let errorEntries := checks.filter fun entry => entry.2.status = .down
  { down := errorEntries.map Prod.fst
    up := infoEntries.map Prod.fst
    details := fromEntries checks
    error := fromEntries errorEntries
    info := fromEntries infoEntries
    status := if errorEntries.length = 0 then .ok else .error }

def normalizeIndicatorTimeoutMs : Option JsNumber → Option ℕ
  | some (.finite value) => if value ≤ 0 then none else some ⌊value⌋.toNat
  | _ => none

def runIndicators (indicators : List (HealthIndicator D timeoutMs)) : List (ExecutedIndicatorResult D) :=
  indicators.mapIdx fun index indicator => runIndicator toLowerCase indicator index

/-- The report, without the time it is made at. -/
def runHealthCheck (indicatorTimeoutMs : Option JsNumber) (indicators : List (HealthIndicator D (normalizeIndicatorTimeoutMs indicatorTimeoutMs))) :
    HealthCheckReport D :=
  reportOf (aggregateIndicatorEntries (runIndicators toLowerCase indicators))

end Run

/-! ## Merging -/

def Accounts (entries : List (HealthCheckEntry D)) (entry : HealthCheckEntry D) : Prop :=
  entry ∈ entries ∨ ∃ key keys, (key, .failure (.duplicateKeys keys)) ∈ entries ∧ entry.1 ∈ keys

structure Merge.Extends (merge merge' : Merge D) : Prop where
  entries : merge.entries ⊆ merge'.entries
  seenKeys : merge.seenKeys ⊆ merge'.seenKeys
  duplicateKeys : merge.duplicateKeys ⊆ merge'.duplicateKeys

theorem Merge.Extends.refl (merge : Merge D) : merge.Extends merge := ⟨fun _ h => h, fun _ h => h, fun _ h => h⟩

theorem Merge.Extends.trans (merge merge' merge'' : Merge D) (h : merge.Extends merge') (h' : merge'.Extends merge'') : merge.Extends merge'' :=
  ⟨fun _ hmem => h'.entries (h.entries hmem), fun _ hmem => h'.seenKeys (h.seenKeys hmem), fun _ hmem => h'.duplicateKeys (h.duplicateKeys hmem)⟩

section Fold

variable {α β : Type} {R : α → α → Prop} (hrefl : ∀ a, R a a) (htrans : ∀ a b c, R a b → R b c → R a c)
  {f : α → β → α} (hf : ∀ a b, R a (f a b))
include hrefl htrans hf

theorem foldl_related (l : List β) (a : α) : R a (l.foldl f a) := by
  induction l generalizing a with
  | nil => exact hrefl a
  | cons b l ih => exact htrans _ _ _ (hf a b) (ih (f a b))

theorem foldl_reaches {P : α → β → Prop} (hstep : ∀ a b, P (f a b) b) (hmono : ∀ a a' b, R a a' → P a b → P a' b)
    {l : List β} {b : β} (hb : b ∈ l) (a : α) : P (l.foldl f a) b := by
  induction l generalizing a with
  | nil => cases hb
  | cons first l ih =>
    rw [List.foldl_cons]
    rcases List.mem_cons.1 hb with rfl | hb
    · exact hmono _ _ _ (foldl_related hrefl htrans hf l _) (hstep a b)
    · exact ih hb _

end Fold

def Merge.Has (merge : Merge D) (entry : HealthCheckEntry D) : Prop := entry ∈ merge.entries ∨ entry.1 ∈ merge.duplicateKeys

variable {entry : HealthCheckEntry D} {merge : Merge D} {l : List (HealthCheckEntry D)} {key : Utf16} {result : IndicatorResult D}
    {check : ExecutedIndicatorResult D} {checks : List (ExecutedIndicatorResult D)}

theorem Merge.Has.mono {merge' : Merge D} (hle : merge.Extends merge') (h : merge.Has entry) : merge'.Has entry :=
  h.imp (fun hmem => hle.entries hmem) (fun hmem => hle.duplicateKeys hmem)

theorem extends_add (merge : Merge D) (entry : HealthCheckEntry D) : merge.Extends (merge.add entry) := by
  unfold Merge.add
  split
  · exact ⟨fun _ h => h, fun _ h => h, List.subset_append_left _ _⟩
  · exact ⟨List.subset_append_left _ _, List.subset_append_left _ _, fun _ h => h⟩

theorem extends_foldl_add (l : List (HealthCheckEntry D)) (merge : Merge D) : merge.Extends (l.foldl Merge.add merge) :=
  foldl_related .refl .trans extends_add l merge

theorem has_add (merge : Merge D) (entry : HealthCheckEntry D) : (merge.add entry).Has entry := by
  unfold Merge.add Merge.Has
  split
  · exact .inr (by simp)
  · exact .inl (by simp)

theorem seen_add (merge : Merge D) (entry : HealthCheckEntry D) : entry.1 ∈ (merge.add entry).seenKeys := by
  unfold Merge.add
  split
  · assumption
  · simp

theorem foldl_add_of_nodup (merge : Merge D) (h : (merge.seenKeys ++ l.map Prod.fst).Nodup) :
    l.foldl Merge.add merge = ⟨merge.entries ++ l, merge.seenKeys ++ l.map Prod.fst, merge.duplicateKeys⟩ := by
  induction l generalizing merge with
  | nil => simp
  | cons entry l ih =>
    have hnew : entry.1 ∉ merge.seenKeys := fun hmem => List.disjoint_of_nodup_append h hmem List.mem_cons_self
    rw [List.map_cons, List.append_cons] at h
    rw [List.foldl_cons, Merge.add, if_neg hnew, ih _ h]
    simp

theorem nodup_of_foldl_add (merge : Merge D) (hseen : merge.seenKeys.Nodup)
    (h : (l.foldl Merge.add merge).duplicateKeys = []) : (merge.seenKeys ++ l.map Prod.fst).Nodup := by
  induction l generalizing merge with
  | nil => simpa using hseen
  | cons entry l ih =>
    by_cases hmem : entry.1 ∈ merge.seenKeys
    · have hdup : entry.1 ∈ ((entry :: l).foldl Merge.add merge).duplicateKeys := by
        refine (extends_foldl_add l _).duplicateKeys ?_
        rw [Merge.add, if_pos hmem]
        simp
      rw [h] at hdup
      cases hdup
    · rw [List.foldl_cons, Merge.add, if_neg hmem] at h
      have hseen' : (merge.seenKeys ++ [entry.1]).Nodup := by
        simpa [List.nodup_append] using ⟨hseen, fun a ha he => hmem (he ▸ ha)⟩
      have := ih _ hseen' h
      rwa [List.map_cons, List.append_cons]

/-! ## The entries of one indicator -/

theorem extends_normalizeEntry (key : Utf16) (merge : Merge D) (entry : Utf16 × EntryValue D) : merge.Extends (normalizeEntry key merge entry) := by
  unfold normalizeEntry
  split
  · exact ⟨List.subset_append_left _ _, List.subset_append_left _ _, fun _ h => h⟩
  · exact extends_add _ _

/-- What an entry of a result stands for: a failure of a blank key, or the entry with its state. -/
def Stands (P : HealthCheckEntry D → Prop) (entry : Utf16 × EntryValue D) : Prop :=
  if (trim entry.1).length = 0 then ∃ key, P (key, .failure .blankKey) else P (entry.1, stateOf entry.1 entry.2)

theorem Stands.imp {P Q : HealthCheckEntry D → Prop} (himp : ∀ entry, P entry → Q entry) {entry : Utf16 × EntryValue D} (h : Stands P entry) :
    Stands Q entry := by
  unfold Stands at *
  split at h
  · next hblank =>
    obtain ⟨key, hkey⟩ := h
    rw [if_pos hblank]
    exact ⟨key, himp _ hkey⟩
  · next hblank =>
    rw [if_neg hblank]
    exact himp _ h

theorem stands_normalizeEntry (key : Utf16) (merge : Merge D) (entry : Utf16 × EntryValue D) :
    Stands (normalizeEntry key merge entry).Has entry := by
  unfold normalizeEntry Stands
  split
  · exact ⟨_, .inl (List.mem_append_right _ (List.mem_singleton.2 rfl))⟩
  · exact has_add _ _

theorem accounts_finish (h : merge.Has entry) : Accounts (merge.finish key) entry := by
  unfold Merge.finish
  split
  · rcases h with h | h
    · exact .inl (List.mem_append_left _ h)
    · exact .inr ⟨_, _, List.mem_append_right _ (List.mem_singleton.2 rfl), h⟩
  · next hnone =>
    rcases h with h | h
    · exact .inl h
    · rw [List.length_pos_iff, ne_eq, not_not] at hnone
      rw [hnone] at h
      cases h

theorem accounts_normalizeIndicatorResult (key : Utf16) {object : ResultObject D} {entry : Utf16 × EntryValue D} (h : entry ∈ object.entries) :
    Stands (Accounts (normalizeIndicatorResult key (.object object))) entry := by
  have hne : object.entries.length ≠ 0 := fun hlen => by
    rw [List.eq_nil_of_length_eq_zero hlen] at h
    cases h
  rw [normalizeIndicatorResult, if_neg hne]
  have hstands := foldl_reaches .refl .trans (extends_normalizeEntry key) (P := fun merge entry => Stands merge.Has entry) (stands_normalizeEntry key)
    (fun _ _ _ hle => Stands.imp fun _ => Merge.Has.mono hle) h ⟨[], [], []⟩
  exact hstands.imp fun _ => accounts_finish

/-- An object with entries, all of them up and with keys that are not blank. -/
def IndicatorResult.AllUp : IndicatorResult D → Prop
  | .nonObject => False
  | .object own => own.entries ≠ [] ∧ ∀ entry ∈ own.entries, (trim entry.1).length ≠ 0 ∧ ∃ properties, entry.2 = .state .up properties

def IndicatorResult.entries : IndicatorResult D → List (Utf16 × EntryValue D)
  | .nonObject => []
  | .object own => own.entries

def standsFor (entry : Utf16 × EntryValue D) : HealthCheckEntry D := (entry.1, stateOf entry.1 entry.2)

theorem normalizeIndicatorResult_of_allUp (h : result.AllUp) (key : Utf16) :
    normalizeIndicatorResult key result = result.entries.map standsFor := by
  cases result with
  | nonObject => exact h.elim
  | object object =>
    obtain ⟨hne, hall⟩ := h
    have hlen : object.entries.length ≠ 0 := fun hlen => hne (List.eq_nil_of_length_eq_zero hlen)
    have hfold : ∀ (l : List (Utf16 × EntryValue D)) (merge : Merge D), (∀ entry ∈ l, (trim entry.1).length ≠ 0) →
        l.foldl (normalizeEntry key) merge = (l.map standsFor).foldl Merge.add merge := by
      intro l
      induction l with
      | nil => exact fun _ _ => rfl
      | cons entry l ih =>
        intro merge hblank
        rw [List.foldl_cons, List.map_cons, List.foldl_cons, normalizeEntry, if_neg (hblank entry List.mem_cons_self)]
        exact ih _ fun e he => hblank e (List.mem_cons_of_mem _ he)
    have hkeys : (object.entries.map standsFor).map Prod.fst = object.entries.map Prod.fst := by
      rw [List.map_map]
      rfl
    rw [normalizeIndicatorResult, if_neg hlen, hfold _ _ fun entry he => (hall entry he).1,
      foldl_add_of_nodup _ (by simpa [hkeys] using object.keyed)]
    simp [Merge.finish, IndicatorResult.entries]

theorem allUp_of_normalizeIndicatorResult
    (h : ∀ entry ∈ normalizeIndicatorResult key result, entry.2.status = .up) : result.AllUp := by
  have hfailure : ∀ k f, (k, .failure f) ∉ normalizeIndicatorResult key result := fun k f hmem => absurd (h _ hmem) (by simp [HealthIndicatorState.status])
  cases result with
  | nonObject => exact absurd (List.mem_singleton.2 rfl) (hfailure key .nonObject)
  | object object =>
    refine ⟨fun hnil => ?_, fun entry hentry => ?_⟩
    · refine hfailure key .noEntries ?_
      rw [normalizeIndicatorResult, hnil]
      exact List.mem_singleton.2 rfl
    · have hstands := accounts_normalizeIndicatorResult key hentry
      unfold Stands at hstands
      split at hstands
      · obtain ⟨k, hk | ⟨_, keys, hk, -⟩⟩ := hstands
        · exact absurd hk (hfailure _ _)
        · exact absurd hk (hfailure _ _)
      · next hblank =>
        rcases hstands with hmem | ⟨_, keys, hk, -⟩
        · refine ⟨hblank, ?_⟩
          have hup := h _ hmem
          cases hvalue : entry.2 with
          | unsupported => rw [hvalue] at hmem; exact absurd hmem (hfailure _ _)
          | state status properties =>
            rw [hvalue] at hup
            exact ⟨properties, congrArg (EntryValue.state · properties) hup⟩
        · exact absurd hk (hfailure _ _)

/-! ## The entries of all indicators -/

def Merge.Keyed (merge : Merge D) : Prop := merge.seenKeys = merge.entries.map Prod.fst ∧ merge.seenKeys.Nodup

theorem Merge.Keyed.snoc (h : merge.Keyed) (hnew : entry.1 ∉ merge.seenKeys) (duplicateKeys : List Utf16) :
    Merge.Keyed ⟨merge.entries ++ [entry], merge.seenKeys ++ [entry.1], duplicateKeys⟩ := by
  refine ⟨?_, ?_⟩
  · dsimp only
    rw [h.1, List.map_append, List.map_cons, List.map_nil]
  · simpa [List.nodup_append] using ⟨h.2, fun a ha he => hnew (he ▸ ha)⟩

theorem Merge.Keyed.add (h : merge.Keyed) (entry : HealthCheckEntry D) : (merge.add entry).Keyed := by
  unfold Merge.add
  split
  · exact h
  · exact h.snoc ‹_› _

theorem Merge.Keyed.aggregateCheck (h : merge.Keyed) (check : ExecutedIndicatorResult D) : (aggregateCheck merge check).Keyed := by
  have hfold : (check.entries.foldl Merge.add { merge with duplicateKeys := [] }).Keyed := by
    refine List.foldlRecOn (motive := Merge.Keyed) check.entries Merge.add h fun merge hmerge entry _ => hmerge.add entry
  unfold Terminus.aggregateCheck
  dsimp only
  split
  · exact hfold.snoc (unusedBy_notMem _ _ _) _
  · exact hfold

theorem keyed_aggregate (checks : List (ExecutedIndicatorResult D)) : (checks.foldl aggregateCheck ⟨[], [], []⟩).Keyed :=
  List.foldlRecOn (motive := Merge.Keyed) checks aggregateCheck ⟨rfl, .nil⟩ fun _ hmerge check _ => hmerge.aggregateCheck check

theorem aggregate_nodup (checks : List (ExecutedIndicatorResult D)) : ((aggregateIndicatorEntries checks).map Prod.fst).Nodup :=
  (keyed_aggregate checks).1 ▸ (keyed_aggregate checks).2

def Merge.Grows (merge merge' : Merge D) : Prop := merge.entries ⊆ merge'.entries ∧ merge.seenKeys ⊆ merge'.seenKeys

theorem Merge.Grows.refl (merge : Merge D) : merge.Grows merge := ⟨fun _ h => h, fun _ h => h⟩

theorem Merge.Grows.trans (merge merge' merge'' : Merge D) (h : merge.Grows merge') (h' : merge'.Grows merge'') : merge.Grows merge'' :=
  ⟨fun _ hmem => h'.1 (h.1 hmem), fun _ hmem => h'.2 (h.2 hmem)⟩

def addAll (merge : Merge D) (check : ExecutedIndicatorResult D) : Merge D := check.entries.foldl Merge.add { merge with duplicateKeys := [] }

theorem grows_addAll (merge : Merge D) (check : ExecutedIndicatorResult D) : (addAll merge check).Grows (aggregateCheck merge check) := by
  unfold aggregateCheck
  dsimp only
  split
  · exact ⟨List.subset_append_left _ _, List.subset_append_left _ _⟩
  · exact .refl _

theorem grows_aggregateCheck (merge : Merge D) (check : ExecutedIndicatorResult D) : merge.Grows (aggregateCheck merge check) := by
  have hadd := extends_foldl_add check.entries { merge with duplicateKeys := [] }
  exact .trans _ (addAll merge check) _ ⟨hadd.entries, hadd.seenKeys⟩ (grows_addAll merge check)

theorem grows_aggregate (checks : List (ExecutedIndicatorResult D)) (merge : Merge D) : merge.Grows (checks.foldl aggregateCheck merge) :=
  foldl_related .refl .trans grows_aggregateCheck checks merge

theorem named_aggregateCheck (h : key ∈ (addAll merge check).duplicateKeys) :
    ∃ failureKey keys, (failureKey, .failure (.duplicateKeys keys)) ∈ (aggregateCheck merge check).entries ∧ key ∈ keys := by
  have hpos : 0 < (addAll merge check).duplicateKeys.length := List.length_pos_of_mem h
  have hmem : createDuplicateKeyFailure check.indicatorKey (addAll merge check).duplicateKeys (addAll merge check).seenKeys ∈
      (aggregateCheck merge check).entries := by
    unfold addAll aggregateCheck at *
    dsimp only
    rw [if_pos hpos]
    exact List.mem_append_right _ (List.mem_singleton.2 rfl)
  exact ⟨_, _, hmem, h⟩

theorem accounts_aggregateCheck (merge : Merge D) (check : ExecutedIndicatorResult D) :
    ∀ entry ∈ check.entries, Accounts (aggregateCheck merge check).entries entry := by
  intro entry hentry
  have hhas : (addAll merge check).Has entry :=
    foldl_reaches .refl .trans extends_add (P := Merge.Has) has_add (fun _ _ _ hle => Merge.Has.mono hle) hentry _
  exact hhas.imp (fun hmem => (grows_addAll merge check).1 hmem) named_aggregateCheck

theorem Accounts.mono {entries entries' : List (HealthCheckEntry D)} (hsub : entries ⊆ entries')
    (h : Accounts entries entry) : Accounts entries' entry := by
  rcases h with h | ⟨key, keys, hmem, hkey⟩
  · exact .inl (hsub h)
  · exact .inr ⟨key, keys, hsub hmem, hkey⟩

theorem accounts_aggregate (h : check ∈ checks) :
    ∀ entry ∈ check.entries, Accounts (aggregateIndicatorEntries checks) entry :=
  foldl_reaches .refl .trans grows_aggregateCheck (P := fun merge check => ∀ entry ∈ check.entries, Accounts merge.entries entry)
    accounts_aggregateCheck (fun _ _ _ hle hall entry hentry => (hall entry hentry).mono hle.1) h _

theorem mem_duplicateKeys_foldl_add (merge : Merge D) (h : entry ∈ l)
    (hseen : entry.1 ∈ merge.seenKeys) : entry.1 ∈ (l.foldl Merge.add merge).duplicateKeys := by
  induction l generalizing merge with
  | nil => cases h
  | cons first l ih =>
    rw [List.foldl_cons]
    rcases List.mem_cons.1 h with rfl | h
    · refine (extends_foldl_add l _).duplicateKeys ?_
      rw [Merge.add, if_pos hseen]
      exact List.mem_append_right _ (List.mem_singleton.2 rfl)
    · exact ih _ h ((extends_add merge first).seenKeys hseen)

theorem named_aggregate {before : List (ExecutedIndicatorResult D)} (after : List (ExecutedIndicatorResult D)) {earlier : ExecutedIndicatorResult D} (hearlier : earlier ∈ before)
    {first : HealthCheckEntry D} (hentry : entry ∈ check.entries) (hfirst : first ∈ earlier.entries) (hkey : first.1 = entry.1) :
    ∃ failureKey keys, (failureKey, .failure (.duplicateKeys keys)) ∈ aggregateIndicatorEntries (before ++ check :: after) ∧ entry.1 ∈ keys := by
  have hseen : first.1 ∈ (before.foldl aggregateCheck ⟨[], [], []⟩).seenKeys := by
    refine foldl_reaches .refl .trans grows_aggregateCheck (P := fun merge check => ∀ entry ∈ check.entries, entry.1 ∈ merge.seenKeys)
      (fun merge check entry hmem => ?_) (fun _ _ _ hle hall entry hmem => hle.2 (hall entry hmem)) hearlier _ first hfirst
    refine (grows_addAll merge check).2 ?_
    exact foldl_reaches .refl .trans extends_add (P := fun merge entry => entry.1 ∈ merge.seenKeys) seen_add (fun _ _ _ hle h => hle.seenKeys h) hmem _
  rw [hkey] at hseen
  obtain ⟨failureKey, keys, hmem, hnamed⟩ := named_aggregateCheck
    (mem_duplicateKeys_foldl_add { before.foldl aggregateCheck ⟨[], [], []⟩ with duplicateKeys := [] } hentry hseen)
  refine ⟨failureKey, keys, ?_, hnamed⟩
  rw [aggregateIndicatorEntries, List.foldl_append, List.foldl_cons]
  exact (grows_aggregate after _).1 hmem

def checkKeys (check : ExecutedIndicatorResult D) : List Utf16 := check.entries.map Prod.fst

theorem aggregateCheck_of_nodup (h : (merge.seenKeys ++ checkKeys check).Nodup) :
    aggregateCheck merge check = ⟨merge.entries ++ check.entries, merge.seenKeys ++ checkKeys check, []⟩ := by
  unfold aggregateCheck
  rw [foldl_add_of_nodup { merge with duplicateKeys := [] } h]
  rfl

theorem aggregate_of_nodup (h : (merge.seenKeys ++ checks.flatMap checkKeys).Nodup) :
    (checks.foldl aggregateCheck merge).entries = merge.entries ++ checks.flatMap ExecutedIndicatorResult.entries := by
  induction checks generalizing merge with
  | nil => simp
  | cons check checks ih =>
    rw [List.flatMap_cons, ← List.append_assoc] at h
    rw [List.foldl_cons, aggregateCheck_of_nodup (List.nodup_append.1 h).1, ih h, List.flatMap_cons, List.append_assoc]

theorem nodup_of_aggregate (checks : List (ExecutedIndicatorResult D)) (hkeyed : merge.Keyed)
    (h : ∀ key keys, (key, .failure (.duplicateKeys keys)) ∉ (checks.foldl aggregateCheck merge).entries) :
    (merge.seenKeys ++ checks.flatMap checkKeys).Nodup := by
  induction checks generalizing merge with
  | nil => simpa using hkeyed.2
  | cons check checks ih =>
    cases hdup : (addAll merge check).duplicateKeys with
    | nil =>
      have hnodup : (merge.seenKeys ++ checkKeys check).Nodup := nodup_of_foldl_add { merge with duplicateKeys := [] } hkeyed.2 hdup
      have := ih (hkeyed.aggregateCheck check) h
      rw [aggregateCheck_of_nodup hnodup] at this
      rwa [List.flatMap_cons, ← List.append_assoc]
    | cons key rest =>
      obtain ⟨failureKey, keys, hmem, -⟩ := named_aggregateCheck (hdup ▸ List.mem_cons_self : key ∈ (addAll merge check).duplicateKeys)
      exact absurd ((grows_aggregate checks _).1 hmem) (h failureKey keys)

/-! ## The report -/

variable {timeoutMs : Option ℕ}

/-- The own properties of what the indicator returned or threw as causes. -/
def HealthIndicator.entries (indicator : HealthIndicator D timeoutMs) : List (Utf16 × EntryValue D) :=
  match indicator.outcome with
  | .fulfilled result => result.entries
  | .healthCheckError causes => causes.entries
  | _ => []

def HealthIndicator.keys (indicator : HealthIndicator D timeoutMs) : List Utf16 := indicator.entries.map Prod.fst

/-- Fulfilled with at least one entry, all of them up and none with a blank key. -/
def HealthIndicator.Healthy (indicator : HealthIndicator D timeoutMs) : Prop := ∃ result, indicator.outcome = .fulfilled result ∧ result.AllUp

def HealthIndicator.Rejected (indicator : HealthIndicator D timeoutMs) : Prop := ∀ result, indicator.outcome ≠ .fulfilled result

/-- Rejected with causes that have an entry, all of them up and none with a blank key. -/
def HealthIndicator.RejectedUp (indicator : HealthIndicator D timeoutMs) : Prop := ∃ causes, indicator.outcome = .healthCheckError causes ∧ causes.AllUp

/-- An entry appears under `error`, itself or as a key that a failure there names. -/
inductive HealthCheckReport.Shows (report : HealthCheckReport D) : HealthCheckEntry D → Prop
  | entry {key : Utf16} {state : HealthIndicatorState D} : report.error.get key = some state → report.Shows (key, state)
  | named {key failureKey : Utf16} {state : HealthIndicatorState D} {keys : List Utf16} :
      report.Shows (failureKey, .failure (.duplicateKeys keys)) → key ∈ keys → report.Shows (key, state)

/-- What a report has to say of the indicators. -/
structure HealthCheckReport.Correct (toLowerCase : Utf16 → Utf16) (indicators : List (HealthIndicator D timeoutMs)) (report : HealthCheckReport D) : Prop where
  status : report.status = .ok ↔
    (∀ indicator ∈ indicators, indicator.Healthy) ∧ indicators.Pairwise fun a b => ∀ key ∈ a.keys, key ∉ b.keys
  rejected : ∀ (index : ℕ) indicator, indicators[index]? = some indicator → indicator.Rejected →
    ∃ entry ∈ (runIndicator toLowerCase indicator index).entries, entry.2.status = .down ∧ report.Shows entry
  down : ∀ indicator ∈ indicators, ∀ entry ∈ indicator.entries, (trim entry.1).length = 0 ∨ (stateOf entry.1 entry.2).status = .down →
    Stands report.Shows entry
  duplicated : ∀ before indicator after, indicators = before ++ indicator :: after → ∀ earlier ∈ before, ∀ key ∈ earlier.keys,
    key ∈ indicator.keys → (trim key).length ≠ 0 → ∃ failureKey keys, report.Shows (failureKey, .failure (.duplicateKeys keys)) ∧ key ∈ keys
  details : ∀ key, report.details.get key = (report.info.get key).or (report.error.get key)
  disjoint : ∀ key, report.info.get key = none ∨ report.error.get key = none

theorem fromEntries_eq {entries : List (HealthCheckEntry D)} (h : (entries.map Prod.fst).Nodup) : fromEntries entries = entries := by
  induction entries using List.reverseRecOn with
  | nil => rfl
  | append_singleton entries entry ih =>
    rw [List.map_append, List.nodup_append] at h
    rw [fromEntries, List.foldl_append]
    change (fromEntries entries).set entry.1 entry.2 = _
    rw [ih h.1, OrderedMap.set_of_notMem]
    intro hmem
    exact h.2.2 _ hmem _ (List.mem_singleton.2 rfl) rfl

section Report

variable {entries : List (HealthCheckEntry D)} (h : (entries.map Prod.fst).Nodup)
include h

theorem error_eq : (reportOf entries).error = entries.filter fun entry => entry.2.status = .down :=
  fromEntries_eq (h.sublist (List.filter_sublist.map _))

theorem info_eq : (reportOf entries).info = entries.filter fun entry => entry.2.status = .up :=
  fromEntries_eq (h.sublist (List.filter_sublist.map _))

theorem details_eq : (reportOf entries).details = entries := fromEntries_eq h

theorem get_error {key : Utf16} {state : HealthIndicatorState D} :
    (reportOf entries).error.get key = some state ↔ (key, state) ∈ entries ∧ state.status = .down := by
  rw [error_eq h, OrderedMap.get_eq_some (OrderedMap.Keyed.filter h _), List.mem_filter, decide_eq_true_eq]

theorem shows_of_accounts {entry : HealthCheckEntry D} (haccounts : Accounts entries entry) (hdown : entry.2.status = .down) :
    (reportOf entries).Shows entry := by
  rcases haccounts with hmem | ⟨failureKey, keys, hmem, hkey⟩
  · exact .entry ((get_error h).2 ⟨hmem, hdown⟩)
  · exact .named (.entry ((get_error h).2 ⟨hmem, rfl⟩)) hkey

omit h in
theorem status_eq_ok : (reportOf entries).status = .ok ↔ ∀ entry ∈ entries, entry.2.status = .up := by
  have hstatus : ∀ status : HealthIndicatorStatus, status ≠ .down ↔ status = .up := by rintro (_ | _) <;> decide
  simp only [reportOf, List.length_eq_zero_iff, List.filter_eq_nil_iff, decide_eq_true_eq]
  split
  · next hup => exact ⟨fun _ entry hmem => (hstatus _).1 (hup entry hmem), fun _ => rfl⟩
  · next hup => exact ⟨nofun, fun hall => absurd (fun entry hmem => (hstatus _).2 (hall entry hmem)) hup⟩

theorem details_get (key : Utf16) : (reportOf entries).details.get key = ((reportOf entries).info.get key).or ((reportOf entries).error.get key) := by
  rw [details_eq h, info_eq h, error_eq h, OrderedMap.get_filter h, OrderedMap.get_filter h]
  cases OrderedMap.get entries key with
  | none => rfl
  | some state => cases hstatus : state.status <;> simp [Option.filter_some, hstatus]

theorem disjoint_get (key : Utf16) : (reportOf entries).info.get key = none ∨ (reportOf entries).error.get key = none := by
  rw [info_eq h, error_eq h, OrderedMap.get_filter h, OrderedMap.get_filter h]
  cases OrderedMap.get entries key with
  | none => exact .inl rfl
  | some state => cases hstatus : state.status <;> simp [Option.filter_some, hstatus]

end Report

/-! ## The indicators -/

section Indicators

variable (toLowerCase : Utf16 → Utf16) {indicators : List (HealthIndicator D timeoutMs)}

variable {indicator : HealthIndicator D timeoutMs}

theorem runIndicator_mem {index : ℕ} (h : indicators[index]? = some indicator) :
    runIndicator toLowerCase indicator index ∈ runIndicators toLowerCase indicators := by
  refine List.mem_of_getElem? (i := index) ?_
  rw [runIndicators, List.getElem?_mapIdx, h]
  rfl

theorem accounts_runIndicator {entry : Utf16 × EntryValue D} (h : entry ∈ indicator.entries) (index : ℕ) :
    Stands (Accounts (runIndicator toLowerCase indicator index).entries) entry := by
  have hresult : ∀ (key : Utf16) (result : IndicatorResult D), entry ∈ result.entries → Stands (Accounts (normalizeIndicatorResult key result)) entry := by
    intro key result hmem
    cases result with
    | nonObject => cases hmem
    | object own => exact accounts_normalizeIndicatorResult key hmem
  unfold HealthIndicator.entries at h
  unfold runIndicator
  cases houtcome : indicator.outcome with
  | fulfilled result => rw [houtcome] at h; exact hresult _ _ h
  | healthCheckError causes => rw [houtcome] at h; exact hresult _ _ h
  | rejected error => rw [houtcome] at h; cases h
  | timedOut elapsed htimeout => rw [houtcome] at h; cases h

theorem allUp_of_runIndicator (index : ℕ)
    (h : ∀ entry ∈ (runIndicator toLowerCase indicator index).entries, entry.2.status = .up) : indicator.Healthy ∨ indicator.RejectedUp := by
  unfold runIndicator at h
  cases houtcome : indicator.outcome with
  | fulfilled result => rw [houtcome] at h; exact .inl ⟨result, houtcome, allUp_of_normalizeIndicatorResult h⟩
  | healthCheckError causes => rw [houtcome] at h; exact .inr ⟨causes, houtcome, allUp_of_normalizeIndicatorResult h⟩
  | rejected error =>
    rw [houtcome] at h
    exact absurd (h _ (List.mem_singleton.2 rfl)) nofun
  | timedOut elapsed htimeout =>
    rw [houtcome] at h
    exact absurd (h _ (List.mem_singleton.2 rfl)) nofun

theorem runIndicator_entries (h : indicator.Healthy ∨ indicator.RejectedUp) (index : ℕ) :
    (runIndicator toLowerCase indicator index).entries = indicator.entries.map standsFor := by
  unfold runIndicator HealthIndicator.entries
  rcases h with ⟨result, houtcome, hup⟩ | ⟨causes, houtcome, hup⟩
  · rw [houtcome]
    exact normalizeIndicatorResult_of_allUp hup _
  · rw [houtcome]
    exact normalizeIndicatorResult_of_allUp hup _

theorem status_up (h : indicator.Healthy ∨ indicator.RejectedUp) :
    ∀ entry ∈ indicator.entries.map standsFor, entry.2.status = .up := by
  have hresult : ∀ result : IndicatorResult D, result.AllUp → ∀ entry ∈ result.entries.map standsFor, entry.2.status = .up := by
    intro result hup entry hmem
    obtain ⟨own, hown, rfl⟩ := List.mem_map.1 hmem
    cases result with
    | nonObject => cases hown
    | object object =>
      obtain ⟨properties, hvalue⟩ := (hup.2 own hown).2
      rw [standsFor, hvalue]
      rfl
  unfold HealthIndicator.entries
  rcases h with ⟨result, houtcome, hup⟩ | ⟨causes, houtcome, hup⟩
  · rw [houtcome]
    exact hresult result hup
  · rw [houtcome]
    exact hresult causes hup

theorem keys_nodup (indicator : HealthIndicator D timeoutMs) : indicator.keys.Nodup := by
  have hresult : ∀ result : IndicatorResult D, (result.entries.map Prod.fst).Nodup := by
    intro result
    cases result with
    | nonObject => exact .nil
    | object own => exact own.keyed
  unfold HealthIndicator.keys HealthIndicator.entries
  split
  · exact hresult _
  · exact hresult _
  · exact .nil

theorem flatMap_mapIdx {α β γ : Type} {l : List α} {f : ℕ → α → β} {p : β → List γ} {g : α → List γ}
    (h : ∀ i, ∀ a ∈ l, p (f i a) = g a) : (l.mapIdx f).flatMap p = l.flatMap g := by
  induction l generalizing f with
  | nil => rfl
  | cons a l ih =>
    rw [List.mapIdx_cons, List.flatMap_cons, List.flatMap_cons, h 0 a List.mem_cons_self,
      ih fun i a ha => h (i + 1) a (List.mem_cons_of_mem _ ha)]

theorem flatMap_checkKeys (h : ∀ indicator ∈ indicators, indicator.Healthy ∨ indicator.RejectedUp) :
    (runIndicators toLowerCase indicators).flatMap checkKeys = indicators.flatMap HealthIndicator.keys := by
  refine flatMap_mapIdx fun index indicator hmem => ?_
  rw [checkKeys, runIndicator_entries toLowerCase (h indicator hmem), List.map_map]
  rfl

theorem nodup_keys_iff : (indicators.flatMap HealthIndicator.keys).Nodup ↔ indicators.Pairwise fun a b => ∀ key ∈ a.keys, key ∉ b.keys := by
  rw [List.nodup_flatMap]
  refine ⟨fun h => h.2.imp fun hdisjoint key ha hb => hdisjoint ha hb, fun h => ⟨fun indicator _ => keys_nodup indicator, h.imp ?_⟩⟩
  exact fun hnot key ha hb => hnot key ha hb

theorem status_aggregate : (reportOf (aggregateIndicatorEntries (runIndicators toLowerCase indicators))).status = .ok ↔
    (∀ indicator ∈ indicators, indicator.Healthy ∨ indicator.RejectedUp) ∧ indicators.Pairwise fun a b => ∀ key ∈ a.keys, key ∉ b.keys := by
  rw [status_eq_ok]
  constructor
  · intro hup
    have hnone : ∀ key keys, (key, .failure (.duplicateKeys keys)) ∉ aggregateIndicatorEntries (runIndicators toLowerCase indicators) :=
      fun key keys hmem => absurd (hup _ hmem) nofun
    have hstart : Merge.Keyed (⟨[], [], []⟩ : Merge D) := ⟨rfl, .nil⟩
    have hnodup := nodup_of_aggregate (runIndicators toLowerCase indicators) hstart hnone
    have hall : ∀ indicator ∈ indicators, indicator.Healthy ∨ indicator.RejectedUp := by
      intro indicator hmem
      obtain ⟨index, hindex⟩ := List.getElem?_of_mem hmem
      refine allUp_of_runIndicator toLowerCase index fun entry hentry => hup entry ?_
      rw [aggregateIndicatorEntries, aggregate_of_nodup hnodup]
      exact List.mem_flatMap.2 ⟨_, runIndicator_mem toLowerCase hindex, hentry⟩
    refine ⟨hall, nodup_keys_iff.1 ?_⟩
    rw [← flatMap_checkKeys toLowerCase hall]
    exact hnodup
  · rintro ⟨hall, hpairwise⟩ entry hentry
    have hnodup : ([] ++ (runIndicators toLowerCase indicators).flatMap checkKeys).Nodup := by
      rw [List.nil_append, flatMap_checkKeys toLowerCase hall]
      exact nodup_keys_iff.2 hpairwise
    rw [aggregateIndicatorEntries, aggregate_of_nodup hnodup, List.nil_append, runIndicators,
      flatMap_mapIdx fun index indicator hmem => runIndicator_entries toLowerCase (hall indicator hmem) index] at hentry
    obtain ⟨indicator, hmem, hentry⟩ := List.mem_flatMap.1 hentry
    exact status_up (hall indicator hmem) entry hentry

theorem shows_of_runIndicator {index : ℕ} (hindex : indicators[index]? = some indicator)
    {entry : HealthCheckEntry D} (h : Accounts (runIndicator toLowerCase indicator index).entries entry) (hdown : entry.2.status = .down) :
    (reportOf (aggregateIndicatorEntries (runIndicators toLowerCase indicators))).Shows entry := by
  have hnodup := aggregate_nodup (runIndicators toLowerCase indicators)
  have hall := accounts_aggregate (runIndicator_mem toLowerCase hindex)
  rcases h with hmem | ⟨failureKey, keys, hmem, hkey⟩
  · exact shows_of_accounts hnodup (hall entry hmem) hdown
  · exact .named (shows_of_accounts hnodup (hall _ hmem) rfl) hkey

theorem runIndicators_split (before after : List (HealthIndicator D timeoutMs)) (indicator : HealthIndicator D timeoutMs) :
    ∃ rest, runIndicators toLowerCase (before ++ indicator :: after) =
      runIndicators toLowerCase before ++ runIndicator toLowerCase indicator before.length :: rest := by
  refine ⟨after.mapIdx fun index other => runIndicator toLowerCase other (index + 1 + before.length), ?_⟩
  rw [runIndicators, List.mapIdx_append, List.mapIdx_cons, Nat.zero_add]
  rfl

theorem shows_duplicate {before after : List (HealthIndicator D timeoutMs)} {earlier : HealthIndicator D timeoutMs}
    (hsplit : indicators = before ++ indicator :: after) (hearlier : earlier ∈ before) {key : Utf16} (hfirst : key ∈ earlier.keys)
    (hkey : key ∈ indicator.keys) (hblank : (trim key).length ≠ 0) :
    ∃ failureKey keys, (reportOf (aggregateIndicatorEntries (runIndicators toLowerCase indicators))).Shows
      (failureKey, .failure (.duplicateKeys keys)) ∧ key ∈ keys := by
  have haccounts : ∀ {i : ℕ} {owner : HealthIndicator D timeoutMs}, key ∈ owner.keys →
      ∃ state, Accounts (runIndicator toLowerCase owner i).entries (key, state) := by
    intro i owner hmem
    obtain ⟨own, hown, rfl⟩ := List.mem_map.1 hmem
    have hstands := accounts_runIndicator toLowerCase hown i
    rw [Stands, if_neg hblank] at hstands
    exact ⟨_, hstands⟩
  obtain ⟨i, hi⟩ := List.getElem?_of_mem hearlier
  have hearlierAt : indicators[i]? = some earlier := by
    rw [hsplit, List.getElem?_append_left (List.getElem?_eq_some_iff.1 hi).1, hi]
  have hat : indicators[before.length]? = some indicator := by
    rw [hsplit, List.getElem?_append_right (Nat.le_refl _), Nat.sub_self]
    rfl
  obtain ⟨first, hthere | ⟨failureKey, keys, hmem, hnamed⟩⟩ := haccounts (i := i) hfirst
  · obtain ⟨later, hagain | ⟨failureKey, keys, hmem, hnamed⟩⟩ := haccounts (i := before.length) hkey
    · obtain ⟨rest, hrun⟩ := runIndicators_split toLowerCase before after indicator
      obtain ⟨failureKey, keys, hmem, hnamed⟩ := named_aggregate rest (runIndicator_mem toLowerCase hi) hagain hthere rfl
      rw [← hrun, ← hsplit] at hmem
      exact ⟨failureKey, keys, .entry ((get_error (aggregate_nodup _)).2 ⟨hmem, rfl⟩), hnamed⟩
    · exact ⟨failureKey, keys, shows_of_runIndicator toLowerCase hat (.inl hmem) rfl, hnamed⟩
  · exact ⟨failureKey, keys, shows_of_runIndicator toLowerCase hearlierAt (.inl hmem) rfl, hnamed⟩

end Indicators

/-- A report is correct exactly when no indicator is rejected with causes that are all up. -/
theorem runHealthCheck_correct_iff (toLowerCase : Utf16 → Utf16) (indicatorTimeoutMs : Option JsNumber)
    (indicators : List (HealthIndicator D (normalizeIndicatorTimeoutMs indicatorTimeoutMs))) :
    (runHealthCheck toLowerCase indicatorTimeoutMs indicators).Correct toLowerCase indicators ↔
      ∀ indicator ∈ indicators, ¬ indicator.RejectedUp := by
  constructor
  · rintro hcorrect indicator hmem ⟨causes, houtcome, hup⟩
    obtain ⟨index, hindex⟩ := List.getElem?_of_mem hmem
    obtain ⟨entry, hentry, hdown, -⟩ := hcorrect.rejected index indicator hindex fun result he => by rw [houtcome] at he; cases he
    rw [runIndicator_entries toLowerCase (.inr ⟨causes, houtcome, hup⟩)] at hentry
    rw [status_up (.inr ⟨causes, houtcome, hup⟩) entry hentry] at hdown
    cases hdown
  · intro hnone
    have hnodup := aggregate_nodup (runIndicators toLowerCase indicators)
    refine ⟨?_, ?_, ?_, ?_, details_get hnodup, disjoint_get hnodup⟩
    · rw [runHealthCheck, status_aggregate]
      refine and_congr_left fun _ => forall₂_congr fun indicator hmem => ?_
      exact or_iff_left (hnone indicator hmem)
    · intro index indicator hindex hrejected
      by_contra hshown
      have hup : ∀ entry ∈ (runIndicator toLowerCase indicator index).entries, entry.2.status = .up := by
        intro entry hentry
        cases hstatus : entry.2.status with
        | up => rfl
        | down => exact absurd ⟨entry, hentry, hstatus, shows_of_runIndicator toLowerCase hindex (.inl hentry) hstatus⟩ hshown
      rcases allUp_of_runIndicator toLowerCase index hup with ⟨result, houtcome, -⟩ | hrejectedUp
      · exact hrejected result houtcome
      · exact hnone indicator (List.mem_of_getElem? hindex) hrejectedUp
    · intro indicator hmem entry hentry hdown
      obtain ⟨index, hindex⟩ := List.getElem?_of_mem hmem
      have hstands := accounts_runIndicator toLowerCase hentry index
      unfold Stands at hstands ⊢
      split
      · next hblank =>
        rw [if_pos hblank] at hstands
        obtain ⟨key, hkey⟩ := hstands
        exact ⟨key, shows_of_runIndicator toLowerCase hindex hkey rfl⟩
      · next hblank =>
        rw [if_neg hblank] at hstands
        exact shows_of_runIndicator toLowerCase hindex hstands (hdown.resolve_left hblank)
    · intro before indicator after hsplit earlier hearlier key hfirst hkey hblank
      exact shows_duplicate toLowerCase hsplit hearlier hfirst hkey hblank

/-- An indicator that is rejected, with causes that are up. -/
private def rejectedUp : HealthIndicator Unit none :=
  ⟨none, none, .healthCheckError (.object ⟨[(units "db", .state .up ())], by decide⟩)⟩

theorem runHealthCheck_rejectedUp : (runHealthCheck id none [rejectedUp]).status = .ok ∧ (runHealthCheck id none [rejectedUp]).error = [] ∧
    ¬ (runHealthCheck id none [rejectedUp]).Correct id [rejectedUp] := by
  refine ⟨by decide, by decide, fun hcorrect => ?_⟩
  obtain ⟨result, houtcome, -⟩ := (hcorrect.status.1 (by decide)).1 rejectedUp (List.mem_singleton.2 rfl)
  cases houtcome

end Fluo.Terminus
