import Mathlib.Data.List.Nodup
import Fluo.Lib.Assign
/-!
# Jobs and events rebuilt from their payload

`rehydrateJobPayload` of the queue service and `createIsolatedEvent` of the event bus: the clone of a payload is assigned
to an object that is created from the prototype of the registered class.
-/

namespace Fluo.Queue.Rehydration
open Fluo.Lib Fluo.Lib.Assign

/-- What `JSON.parse` returns. -/
inductive Json
  | null
  | bool (b : Bool)
  | number (n : Int)
  | string (s : String)
  | array (items : List Json)
  | object (fields : List (Text × Json))

/-- The enumerable properties of an object of JSON data. -/
structure Payload where
  fields : OrderedMap Text Json
  keyed : fields.Keyed

/-- The prototypes that every program has, by what they have under a key, and the setters of the classes. -/
structure Realm where
  objectPrototype : Text → Option Slot
  arrayPrototype : Text → Option Slot
  call : Nat → Target Json → Json → Option (Target Json)

section
private theorem lawfulBEq_key : LawfulBEq Text := inferInstance
attribute [local instance] lawfulBEq_key

/-- JSON data as a prototype. -/
def Json.prototypes (realm : Realm) : Json → Option (List Prototype)
  | .null => some []
  | .bool _ | .number _ | .string _ => none
  | .array items =>
    let keys : List Text := "length".toList :: (List.range items.length).map fun i => (toString i).toList
    some [{ slot := fun key => if key ∈ keys then some (.data true) else none }, { slot := realm.arrayPrototype }, { slot := realm.objectPrototype }]
  | .object fields =>
    some [{ slot := fun key => if key ∈ fields.map Prod.fst then some (.data true) else none }, { slot := realm.objectPrototype }]

end

def Realm.runtime (realm : Realm) : Runtime Json := { call := realm.call, prototypes := Json.prototypes realm }

/-- A job or event class: its `prototype`, and those above that one. -/
structure QueueJobType where
  id : Nat
  slot : Text → Option Slot
  above : List Prototype

def QueueJobType.prototypes (jobType : QueueJobType) : List Prototype := { ofClass := some jobType.id, slot := jobType.slot } :: jobType.above

/-- A job with its own enumerable properties. -/
structure Job (V : Type) where
  own : OrderedMap Text V
  keyed : own.Keyed
  /-- What its `toJSON` makes of it, if it has one, which may be no object. -/
  toJSON : Option (Option Payload) := none

inductive Failure
  | error (message : String)
  /-- A property cannot be assigned, or a setter throws. -/
  | typeError

variable {V : Type}

omit V in
theorem keyed_filterMap {V W : Type} {map : OrderedMap Text V} (h : map.Keyed) (f : V → Option W) :
    OrderedMap.Keyed (map.filterMap fun entry => (f entry.2).map fun w => (entry.1, w)) := by
  refine h.sublist ?_
  induction map with
  | nil => exact .slnil
  | cons entry map ih =>
    rw [OrderedMap.Keyed, List.map_cons, List.nodup_cons] at h
    rw [List.filterMap_cons]
    cases f entry.2 with
    | none => exact (ih h.2).cons _
    | some w => exact (ih h.2).cons_cons _

/-- `JSON.parse(JSON.stringify(job))`, if that is an object; `stringify` is what a property is written as, and none where it
is left out. -/
def jsonImage (stringify : V → Option Json) (job : Job V) : Option Payload :=
  job.toJSON.getD (some ⟨_, keyed_filterMap job.keyed stringify⟩)

def serializeJobPayload (stringify : V → Option Json) (job : Job V) : Except Failure Payload :=
  match jsonImage stringify job with
  | some serialized => .ok serialized
  | none => .error (.error "Queue payload must be a plain object after JSON serialization.")

variable (realm : Realm)

/-- JSON data is as its clone. -/
def rehydrateJobPayload (jobType : QueueJobType) (payload : Payload) : Except Failure (Target Json) :=
  match assign realm.runtime { prototypes := jobType.prototypes } payload.fields with
  | some job => .ok job
  | none => .error .typeError

/-- `data` is none where it is no plain object. -/
def rehydrateWorkerPayload (workerName : String) (jobType : QueueJobType) (data : Option Payload) : Except Failure (Target Json) :=
  match data with
  | none => .error (.error ("Queue worker " ++ workerName ++ " received a non-object payload."))
  | some payload => rehydrateJobPayload realm jobType payload

/-- Of the event bus. A source that is no object is handed on. -/
def createIsolatedEvent (eventType : QueueJobType) (source : Option Payload) : Except Failure (Option (Target Json)) :=
  match source with
  | none => .ok none
  | some payload =>
    match assign realm.runtime { prototypes := eventType.prototypes } payload.fields with
    | some event => .ok (some event)
    | none => .error .typeError

/-- An instance of the class with exactly the properties of the payload. -/
def IsImage (jobType : QueueJobType) (payload : Payload) (rebuilt : Target Json) : Prop :=
  rebuilt.IsInstance jobType.id ∧ ∀ key, rebuilt.own.get key = payload.fields.get key

/-- A job goes through the queue. -/
def JobRoundTrips (stringify : V → Option Json) (workerName : String) (jobType : QueueJobType) (job : Job V) : Prop :=
  ∀ payload, serializeJobPayload stringify job = .ok payload →
    ∃ rebuilt, rehydrateWorkerPayload realm workerName jobType (some payload) = .ok rebuilt ∧ IsImage jobType payload rebuilt

/-- The data of an event reaches a handler. -/
def EventRoundTrips (eventType : QueueJobType) (payload : Payload) : Prop :=
  ∃ rebuilt, createIsolatedEvent realm eventType (some payload) = .ok (some rebuilt) ∧ IsImage eventType payload rebuilt

variable {realm} {jobType : QueueJobType} {payload : Payload}

theorem prototypes_ofClass {value : Json} {above : List Prototype} (h : value.prototypes realm = some above) :
    some jobType.id ∉ above.map (·.ofClass) := by
  cases value <;> simp only [Json.prototypes, Option.some.injEq, reduceCtorEq] at h
  all_goals
    subst h
    simp

variable (realm) in
theorem exists_image_of_plain (h : Plain jobType.prototypes payload.fields) :
    ∃ rebuilt, assign realm.runtime { prototypes := jobType.prototypes } payload.fields = some rebuilt ∧ IsImage jobType payload rebuilt := by
  have hassign := assign_of_plain realm.runtime { prototypes := jobType.prototypes } payload.keyed h
  exact ⟨_, hassign, by simp [Target.IsInstance, QueueJobType.prototypes], fun key => rfl⟩

theorem plain_of_image (hsetters : Ordinary realm.runtime jobType.prototypes) {rebuilt : Target Json}
    (h : assign realm.runtime { prototypes := jobType.prototypes } payload.fields = some rebuilt) (himage : IsImage jobType payload rebuilt) :
    Plain jobType.prototypes payload.fields := by
  refine plain_of_assign hsetters (fun _ _ hvalue => prototypes_ofClass hvalue) h himage.1 fun key hkey => ?_
  rw [himage.2 key]
  exact fun hnone => OrderedMap.get_eq_none.1 hnone hkey

theorem rehydrateJobPayload_eq_ok {rebuilt : Target Json} : rehydrateJobPayload realm jobType payload = .ok rebuilt ↔
    assign realm.runtime { prototypes := jobType.prototypes } payload.fields = some rebuilt := by
  rw [rehydrateJobPayload]
  cases assign realm.runtime { prototypes := jobType.prototypes } payload.fields <;> simp

theorem createIsolatedEvent_eq_ok {rebuilt : Target Json} : createIsolatedEvent realm jobType (some payload) = .ok (some rebuilt) ↔
    assign realm.runtime { prototypes := jobType.prototypes } payload.fields = some rebuilt := by
  rw [createIsolatedEvent]
  cases assign realm.runtime { prototypes := jobType.prototypes } payload.fields <;> simp

/-- `Object.prototype`, with what matters here. -/
def plainRealm : Realm where
  objectPrototype key := if key = "__proto__".toList then some .underscoreProto else if key = "toString".toList then some (.data true) else none
  arrayPrototype _ := none
  call _ _ _ := none

/-- A class with a getter `label`, and with nothing else but its constructor. -/
def labelled : QueueJobType where
  id := 1
  slot key := if key = "label".toList then some (.accessor none) else if key = "constructor".toList then some (.data true) else none
  above := [{ slot := plainRealm.objectPrototype }]

def singleton (key : Text) (value : Json) : Payload := ⟨[(key, value)], by simp [OrderedMap.Keyed]⟩

/-- A job with one property, which is JSON data. -/
def jobOf (key : Text) (value : Json) : Job Json := ⟨[(key, value)], by simp [OrderedMap.Keyed], none⟩

end Fluo.Queue.Rehydration
