import Fluo.Lib.Runs
/-!
# The cache service

`CacheService` over a store whose operations are atomic: each takes effect at
one moment between its call and the continuation of its caller. A step is the
synchronous part of a call, the effect of a store operation, or one
continuation. A loader is called inside a continuation of `remember`, and may
itself call the service before it returns its promise.
-/

namespace Fluo.CacheManager.Service
open Fluo.Lib

/-- Who produced a value: the loader of a `remember` call, or the caller of `set`. -/
inductive Producer
  | loader (call : Nat)
  | caller (call : Nat)

/-- A value by its producer. `defined` is `false` for `undefined`. -/
structure Value where
  producer : Producer
  defined : Bool

/-- A resolved time to live. -/
inductive Ttl
  | seconds (n : Int)
  | notFinite
deriving DecidableEq

def Ttl.isStorable : Ttl → Bool
  | .seconds n => 0 ≤ n
  | .notFinite => false

inductive Outcome
  | value (value : Value)
  | failed

/-- Where a `remember` call stands. The phases from `writing` on follow the
loader's result, and `settling` waits for the `finally` callback. -/
inductive Phase
  | reading
  | read (cached : Option Value)
  | calling
  | loading
  | writing (value : Value)
  | wrote (value : Value)
  | cleaning (value : Value)
  | cleaned (value : Value)
  | settling (outcome : Outcome)
  | joined (load : Nat)
  | settled (outcome : Outcome)

/-- Where a call with one store operation stands. -/
inductive Progress
  | pending
  | landed (found : Option Value)
  | settled (found : Option Value)

inductive Operation (κ : Type)
  | get (key : κ)
  | set (key : κ) (value : Value)
  | del (key : κ)
  | reset

/-- A call of the service. `remember` keeps the reset version it began under. -/
inductive Call (κ : Type)
  | remember (key : κ) (resetVersion : Nat) (ttl : Ttl) (phase : Phase)
  | simple (operation : Operation κ) (progress : Progress)

inductive Event (κ : Type)
  | remember (call : Nat) (key : κ) (ttl : Ttl)
  | get (call : Nat) (key : κ)
  | set (call : Nat) (key : κ) (ttl : Ttl) (defined : Bool)
  | del (call : Nat) (key : κ)
  | reset (call : Nat)
  | read (call : Nat)
  | write (call : Nat)
  | erase (call : Nat)
  | wipe (call : Nat)
  | settle (call : Nat)
  | hit (call : Nat)
  | join (call : Nat)
  | load (call : Nat)
  | returned (call : Nat)
  | threw (call : Nat)
  | resolved (call : Nat) (defined : Bool)
  | rejected (call : Nat)
  | checked (call : Nat)
  | cleaned (call : Nat)
  | finalize (call : Nat)
  | adopt (call : Nat)
  | evict (key : κ)
deriving DecidableEq

variable {κ : Type} [DecidableEq κ]

/-- The service, its store and its calls. `inflight` names an entry by its
call, `invalidated` is the flag of the entry, `pendingLoads` lists the
generation of each pending load, and `calling` is the call whose loader has
not returned its promise. `log` is what has happened, which no code reads. -/
structure State (κ : Type) where
  store : κ → Option Value
  inflight : κ → Option Nat
  invalidated : Nat → Bool
  pendingLoads : κ → List Nat
  pendingInvalidations : κ → Option Nat
  resetVersion : Nat
  calling : Option Nat
  calls : Nat → Option (Call κ)
  log : List (Event κ)

def State.init : State κ where
  store := fun _ => none
  inflight := fun _ => none
  invalidated := fun _ => false
  pendingLoads := fun _ => []
  pendingInvalidations := fun _ => none
  resetVersion := 0
  calling := none
  calls := fun _ => none
  log := []

def set {α β : Type} [DecidableEq α] (f : α → β) (a : α) (b : β) : α → β := fun x => if x = a then b else f x

@[simp] theorem set_self {α β : Type} [DecidableEq α] (f : α → β) (a : α) (b : β) : set f a b a = b := if_pos rfl

theorem set_ne {α β : Type} [DecidableEq α] (f : α → β) {a x : α} (b : β) (h : x ≠ a) : set f a b x = f x := if_neg h

/-! ## The code -/

namespace State

def put (s : State κ) (c : Nat) (call : Call κ) : State κ := { s with calls := set s.calls c (some call) }

def beginPendingLoad (s : State κ) (key : κ) (generation : Nat) : State κ :=
  { s with pendingLoads := set s.pendingLoads key (generation :: s.pendingLoads key) }

def endPendingLoad (s : State κ) (key : κ) (generation : Nat) : State κ :=
  { s with pendingLoads := set s.pendingLoads key ((s.pendingLoads key).erase generation) }

/-- The synchronous part of `del`. -/
def invalidate (s : State κ) (key : κ) : State κ :=
  match s.inflight key with
  | some entry => { s with invalidated := set s.invalidated entry true }
  | none =>
    if s.pendingLoads key ≠ [] then
      { s with pendingInvalidations := set s.pendingInvalidations key (some s.resetVersion) }
    else s

/-- The synchronous part of `reset`. -/
def clear (s : State κ) : State κ :=
  { s with
    resetVersion := s.resetVersion + 1
    inflight := fun _ => none
    pendingLoads := fun _ => []
    pendingInvalidations := fun _ => none }

/-- The `finally` callback of an entry. -/
def forget (s : State κ) (entry : Nat) (key : κ) (generation : Nat) : State κ :=
  { s with
    inflight := if s.inflight key = some entry then set s.inflight key none else s.inflight
    pendingInvalidations :=
      if s.pendingInvalidations key = some generation then set s.pendingInvalidations key none else s.pendingInvalidations }

/-- `entry.invalidated || this.resetVersion !== resetVersion` -/
def isStale (s : State κ) (entry : Nat) (resetVersion : Nat) : Bool := s.invalidated entry || s.resetVersion ≠ resetVersion

/-- `cached !== undefined` -/
def isHit (cached : Option Value) : Bool := cached.any (·.defined)

/-- What happens in a state, where it can. -/
def next (s : State κ) : Event κ → Option (State κ)
  | .remember c key ttl =>
    if (s.calls c).isNone then
      some ((s.beginPendingLoad key s.resetVersion).put c (.remember key s.resetVersion ttl .reading))
    else none
  | .get c key => if (s.calls c).isNone then some (s.put c (.simple (.get key) .pending)) else none
  | .set c key ttl defined =>
    if (s.calls c).isNone then
      some (s.put c (.simple (.set key ⟨.caller c, defined⟩) (if ttl.isStorable then .pending else .settled none)))
    else none
  | .del c key => if (s.calls c).isNone then some ((s.invalidate key).put c (.simple (.del key) .pending)) else none
  | .reset c => if (s.calls c).isNone then some (s.clear.put c (.simple .reset .pending)) else none
  | .read c =>
    match s.calls c with
    | some (.remember key version ttl .reading) => some (s.put c (.remember key version ttl (.read (s.store key))))
    | some (.simple (.get key) .pending) => some (s.put c (.simple (.get key) (.landed (s.store key))))
    | _ => none
  | .write c =>
    match s.calls c with
    | some (.remember key version ttl (.writing value)) =>
      some ({ s with store := set s.store key (some value) }.put c (.remember key version ttl (.wrote value)))
    | some (.simple (.set key value) .pending) =>
      some ({ s with store := set s.store key (some value) }.put c (.simple (.set key value) (.landed none)))
    | _ => none
  | .erase c =>
    match s.calls c with
    | some (.remember key version ttl (.cleaning value)) =>
      some ({ s with store := set s.store key none }.put c (.remember key version ttl (.cleaned value)))
    | some (.simple (.del key) .pending) =>
      some ({ s with store := set s.store key none }.put c (.simple (.del key) (.landed none)))
    | _ => none
  | .wipe c =>
    match s.calls c with
    | some (.simple .reset .pending) => some ({ s with store := fun _ => none }.put c (.simple .reset (.landed none)))
    | _ => none
  | .settle c =>
    match s.calls c with
    | some (.simple operation (.landed found)) =>
      if s.calling = none then some (s.put c (.simple operation (.settled found))) else none
    | _ => none
  | .hit c =>
    match s.calls c with
    | some (.remember key version ttl (.read (some value))) =>
      if s.calling = none ∧ value.defined then
        some ((s.endPendingLoad key version).put c (.remember key version ttl (.settled (.value value))))
      else none
    | _ => none
  | .join c =>
    match s.calls c with
    | some (.remember key version ttl (.read cached)) =>
      match s.inflight key with
      | some entry =>
        if s.calling = none ∧ ¬isHit cached then
          some ((s.endPendingLoad key version).put c (.remember key version ttl (.joined entry)))
        else none
      | none => none
    | _ => none
  | .load c =>
    match s.calls c with
    | some (.remember key version ttl (.read cached)) =>
      if s.calling = none ∧ ¬isHit cached ∧ s.inflight key = none then
        some ({ s with
          invalidated := set s.invalidated c (s.pendingInvalidations key = some version)
          calling := some c }.put c (.remember key version ttl .calling))
      else none
    | _ => none
  | .returned c =>
    match s.calls c with
    | some (.remember key version ttl .calling) =>
      some (({ s with inflight := set s.inflight key (some c), calling := none }.endPendingLoad key version).put c
        (.remember key version ttl .loading))
    | _ => none
  | .threw c =>
    match s.calls c with
    | some (.remember key version ttl .calling) =>
      some (({ s with calling := none }.endPendingLoad key version).put c (.remember key version ttl (.settled .failed)))
    | _ => none
  | .resolved c defined =>
    match s.calls c with
    | some (.remember key version ttl .loading) =>
      if s.calling = none then
        some (s.put c (.remember key version ttl
          (if s.isStale c version then .settling (.value ⟨.loader c, defined⟩)
          else if ttl.isStorable then .writing ⟨.loader c, defined⟩
          else .wrote ⟨.loader c, defined⟩)))
      else none
    | _ => none
  | .rejected c =>
    match s.calls c with
    | some (.remember key version ttl .loading) =>
      if s.calling = none then some (s.put c (.remember key version ttl (.settling .failed))) else none
    | _ => none
  | .checked c =>
    match s.calls c with
    | some (.remember key version ttl (.wrote value)) =>
      if s.calling = none then
        some (s.put c (.remember key version ttl (if s.isStale c version then .cleaning value else .settling (.value value))))
      else none
    | _ => none
  | .cleaned c =>
    match s.calls c with
    | some (.remember key version ttl (.cleaned value)) =>
      if s.calling = none then some (s.put c (.remember key version ttl (.settling (.value value)))) else none
    | _ => none
  | .finalize c =>
    match s.calls c with
    | some (.remember key version ttl (.settling outcome)) =>
      if s.calling = none then some ((s.forget c key version).put c (.remember key version ttl (.settled outcome))) else none
    | _ => none
  | .adopt c =>
    match s.calls c with
    | some (.remember key version ttl (.joined entry)) =>
      match s.calls entry with
      | some (.remember _ _ _ (.settled outcome)) =>
        if s.calling = none then some (s.put c (.remember key version ttl (.settled outcome))) else none
      | _ => none
    | _ => none
  | .evict key => some { s with store := set s.store key none }

end State

def step (s : State κ) (e : Event κ) : Option (State κ) := (s.next e).map fun t => { t with log := s.log ++ [e] }

/-! ## What a step can do -/

inductive Moves (s : State κ) : Event κ → State κ → Prop
  | remember {c : Nat} {key : κ} {ttl : Ttl} (h : s.calls c = none) :
    Moves s (.remember c key ttl) ((s.beginPendingLoad key s.resetVersion).put c (.remember key s.resetVersion ttl .reading))
  | get {c : Nat} {key : κ} (h : s.calls c = none) : Moves s (.get c key) (s.put c (.simple (.get key) .pending))
  | set {c : Nat} {key : κ} {ttl : Ttl} {defined : Bool} (h : s.calls c = none) :
    Moves s (.set c key ttl defined)
      (s.put c (.simple (.set key ⟨.caller c, defined⟩) (if ttl.isStorable then .pending else .settled none)))
  | del {c : Nat} {key : κ} (h : s.calls c = none) :
    Moves s (.del c key) ((s.invalidate key).put c (.simple (.del key) .pending))
  | reset {c : Nat} (h : s.calls c = none) : Moves s (.reset c) (s.clear.put c (.simple .reset .pending))
  | read {c : Nat} {key : κ} {version : Nat} {ttl : Ttl} (h : s.calls c = some (.remember key version ttl .reading)) :
    Moves s (.read c) (s.put c (.remember key version ttl (.read (s.store key))))
  | readGet {c : Nat} {key : κ} (h : s.calls c = some (.simple (.get key) .pending)) :
    Moves s (.read c) (s.put c (.simple (.get key) (.landed (s.store key))))
  | write {c : Nat} {key : κ} {version : Nat} {ttl : Ttl} {value : Value}
    (h : s.calls c = some (.remember key version ttl (.writing value))) :
    Moves s (.write c)
      ({ s with store := Service.set s.store key (some value) }.put c (.remember key version ttl (.wrote value)))
  | writeSet {c : Nat} {key : κ} {value : Value} (h : s.calls c = some (.simple (.set key value) .pending)) :
    Moves s (.write c)
      ({ s with store := Service.set s.store key (some value) }.put c (.simple (.set key value) (.landed none)))
  | erase {c : Nat} {key : κ} {version : Nat} {ttl : Ttl} {value : Value}
    (h : s.calls c = some (.remember key version ttl (.cleaning value))) :
    Moves s (.erase c) ({ s with store := Service.set s.store key none }.put c (.remember key version ttl (.cleaned value)))
  | eraseDel {c : Nat} {key : κ} (h : s.calls c = some (.simple (.del key) .pending)) :
    Moves s (.erase c) ({ s with store := Service.set s.store key none }.put c (.simple (.del key) (.landed none)))
  | wipe {c : Nat} (h : s.calls c = some (.simple .reset .pending)) :
    Moves s (.wipe c) ({ s with store := fun _ => none }.put c (.simple .reset (.landed none)))
  | settle {c : Nat} {operation : Operation κ} {found : Option Value} (h : s.calls c = some (.simple operation (.landed found)))
    (hidle : s.calling = none) : Moves s (.settle c) (s.put c (.simple operation (.settled found)))
  | hit {c : Nat} {key : κ} {version : Nat} {ttl : Ttl} {value : Value}
    (h : s.calls c = some (.remember key version ttl (.read (some value)))) (hidle : s.calling = none) :
    Moves s (.hit c) ((s.endPendingLoad key version).put c (.remember key version ttl (.settled (.value value))))
  | join {c : Nat} {key : κ} {version : Nat} {ttl : Ttl} {cached : Option Value} {entry : Nat}
    (h : s.calls c = some (.remember key version ttl (.read cached))) (hentry : s.inflight key = some entry)
    (hidle : s.calling = none) :
    Moves s (.join c) ((s.endPendingLoad key version).put c (.remember key version ttl (.joined entry)))
  | load {c : Nat} {key : κ} {version : Nat} {ttl : Ttl} {cached : Option Value}
    (h : s.calls c = some (.remember key version ttl (.read cached))) (hentry : s.inflight key = none)
    (hidle : s.calling = none) :
    Moves s (.load c) ({ s with
      invalidated := Service.set s.invalidated c (s.pendingInvalidations key = some version)
      calling := some c }.put c (.remember key version ttl .calling))
  | returned {c : Nat} {key : κ} {version : Nat} {ttl : Ttl} (h : s.calls c = some (.remember key version ttl .calling)) :
    Moves s (.returned c)
      (({ s with inflight := Service.set s.inflight key (some c), calling := none }.endPendingLoad key version).put c
        (.remember key version ttl .loading))
  | threw {c : Nat} {key : κ} {version : Nat} {ttl : Ttl} (h : s.calls c = some (.remember key version ttl .calling)) :
    Moves s (.threw c)
      (({ s with calling := none }.endPendingLoad key version).put c (.remember key version ttl (.settled .failed)))
  | dropped {c : Nat} {key : κ} {version : Nat} {ttl : Ttl} {defined : Bool}
    (h : s.calls c = some (.remember key version ttl .loading)) (hidle : s.calling = none) (hstale : s.isStale c version = true) :
    Moves s (.resolved c defined) (s.put c (.remember key version ttl (.settling (.value ⟨.loader c, defined⟩))))
  | resolved {c : Nat} {key : κ} {version : Nat} {ttl : Ttl} {defined : Bool}
    (h : s.calls c = some (.remember key version ttl .loading)) (hidle : s.calling = none)
    (hstale : s.isStale c version = false) (hstorable : ttl.isStorable = true) :
    Moves s (.resolved c defined) (s.put c (.remember key version ttl (.writing ⟨.loader c, defined⟩)))
  | unstorable {c : Nat} {key : κ} {version : Nat} {ttl : Ttl} {defined : Bool}
    (h : s.calls c = some (.remember key version ttl .loading)) (hidle : s.calling = none)
    (hstale : s.isStale c version = false) (hstorable : ttl.isStorable = false) :
    Moves s (.resolved c defined) (s.put c (.remember key version ttl (.wrote ⟨.loader c, defined⟩)))
  | rejected {c : Nat} {key : κ} {version : Nat} {ttl : Ttl} (h : s.calls c = some (.remember key version ttl .loading))
    (hidle : s.calling = none) : Moves s (.rejected c) (s.put c (.remember key version ttl (.settling .failed)))
  | outdated {c : Nat} {key : κ} {version : Nat} {ttl : Ttl} {value : Value}
    (h : s.calls c = some (.remember key version ttl (.wrote value))) (hidle : s.calling = none)
    (hstale : s.isStale c version = true) : Moves s (.checked c) (s.put c (.remember key version ttl (.cleaning value)))
  | checked {c : Nat} {key : κ} {version : Nat} {ttl : Ttl} {value : Value}
    (h : s.calls c = some (.remember key version ttl (.wrote value))) (hidle : s.calling = none)
    (hstale : s.isStale c version = false) :
    Moves s (.checked c) (s.put c (.remember key version ttl (.settling (.value value))))
  | cleaned {c : Nat} {key : κ} {version : Nat} {ttl : Ttl} {value : Value}
    (h : s.calls c = some (.remember key version ttl (.cleaned value))) (hidle : s.calling = none) :
    Moves s (.cleaned c) (s.put c (.remember key version ttl (.settling (.value value))))
  | finalize {c : Nat} {key : κ} {version : Nat} {ttl : Ttl} {outcome : Outcome}
    (h : s.calls c = some (.remember key version ttl (.settling outcome))) (hidle : s.calling = none) :
    Moves s (.finalize c) ((s.forget c key version).put c (.remember key version ttl (.settled outcome)))
  | adopt {c entry : Nat} {key key' : κ} {version version' : Nat} {ttl ttl' : Ttl} {outcome : Outcome}
    (h : s.calls c = some (.remember key version ttl (.joined entry)))
    (hentry : s.calls entry = some (.remember key' version' ttl' (.settled outcome))) (hidle : s.calling = none) :
    Moves s (.adopt c) (s.put c (.remember key version ttl (.settled outcome)))
  | evict {key : κ} : Moves s (.evict key) { s with store := Service.set s.store key none }

theorem of_guard {α : Type} {p : Prop} [Decidable p] {x y : α} (h : (if p then some x else none) = some y) : p ∧ x = y := by
  split at h
  case isTrue hp => exact ⟨hp, Option.some.inj h⟩
  case isFalse => cases h

theorem next_moves {s t : State κ} {e : Event κ} (h : s.next e = some t) : Moves s e t := by
  cases e with
  | remember | get | set | del | reset =>
    obtain ⟨hfree, rfl⟩ := of_guard h
    constructor
    exact Option.isNone_iff_eq_none.1 hfree
  | read | write | erase | wipe =>
    dsimp only [State.next] at h
    split at h <;> first
      | cases h; constructor; assumption
      | cases h
  | settle | cleaned | finalize | rejected =>
    dsimp only [State.next] at h
    split at h
    case h_1 hc =>
      obtain ⟨hidle, rfl⟩ := of_guard h
      constructor <;> assumption
    case h_2 => cases h
  | hit =>
    dsimp only [State.next] at h
    split at h
    case h_1 hc =>
      obtain ⟨⟨hidle, _⟩, rfl⟩ := of_guard h
      exact .hit hc hidle
    case h_2 => cases h
  | join =>
    dsimp only [State.next] at h
    split at h
    case h_2 => cases h
    case h_1 hc =>
      split at h
      case h_2 => cases h
      case h_1 hentry =>
        obtain ⟨⟨hidle, _⟩, rfl⟩ := of_guard h
        exact .join hc hentry hidle
  | load =>
    dsimp only [State.next] at h
    split at h
    case h_2 => cases h
    case h_1 hc =>
      obtain ⟨⟨hidle, _, hentry⟩, rfl⟩ := of_guard h
      exact .load hc hentry hidle
  | returned | threw =>
    dsimp only [State.next] at h
    split at h
    case h_2 => cases h
    case h_1 hc =>
      cases h
      constructor
      exact hc
  | resolved =>
    dsimp only [State.next] at h
    split at h
    case h_2 => cases h
    case h_1 hc =>
      obtain ⟨hidle, rfl⟩ := of_guard h
      split_ifs with hstale hstorable
      · exact .dropped hc hidle hstale
      · exact .resolved hc hidle (Bool.eq_false_iff.2 hstale) hstorable
      · exact .unstorable hc hidle (Bool.eq_false_iff.2 hstale) (Bool.eq_false_iff.2 hstorable)
  | checked =>
    dsimp only [State.next] at h
    split at h
    case h_2 => cases h
    case h_1 hc =>
      obtain ⟨hidle, rfl⟩ := of_guard h
      split_ifs with hstale
      · exact .outdated hc hidle hstale
      · exact .checked hc hidle (Bool.eq_false_iff.2 hstale)
  | adopt =>
    dsimp only [State.next] at h
    split at h
    case h_2 => cases h
    case h_1 hc =>
      split at h
      case h_2 => cases h
      case h_1 hentry =>
        obtain ⟨hidle, rfl⟩ := of_guard h
        exact .adopt hc hentry hidle
  | evict =>
    cases h
    exact .evict

theorem step_moves {s s' : State κ} {e : Event κ} (h : step s e = some s') :
    ∃ t, Moves s e t ∧ s' = { t with log := s.log ++ [e] } := by
  obtain ⟨t, ht, rfl⟩ := Option.map_eq_some_iff.1 h
  exact ⟨t, next_moves ht, rfl⟩

end Fluo.CacheManager.Service
