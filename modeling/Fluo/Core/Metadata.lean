import Fluo.Http.Mapping
import Fluo.Lib.OrderedMap
import Fluo.Lib.Prototypes
/-!
# Decorator metadata

The records that the validation, binding and routing decorators keep in the
metadata bags of classes, and what is read of them for a class. The bag of a class
is created from that of the class it extends. What the explicit `define` functions
and the older decorators store is kept apart, by class, and no decorator here writes
to it.
-/

namespace Fluo.Core
open Fluo.Lib
open Fluo.Http.Mapping (HttpMethod)

/-- A class, by the classes it extends. -/
abbrev Class := Proto

/-- A guard, an interceptor, a converter, a class or a validator, by identity. -/
abbrev Ref := Nat

inductive MetadataPropertyKey
  | text (name : Utf16)
  | symbol (id : Nat)
deriving DecidableEq

inductive MetadataSource
  | path | query | header | cookie | body
deriving DecidableEq

/-! ## Records -/

/-- A validation rule of a field: its kind with its arguments, and its options. -/
structure DtoFieldValidationRule where
  rule : Ref
  code : Option Utf16 := none
  each : Option Bool := none
  message : Option Utf16 := none
deriving DecidableEq

structure ClassValidationRule where
  validate : Ref
  code : Option Utf16 := none
  message : Option Utf16 := none

/-- A partial binding: what a binding decorator has set so far. -/
structure StandardDtoBindingRecord where
  source : Option MetadataSource := none
  key : Option Utf16 := none
  optional : Option Bool := none
  converter : Option Ref := none

structure DtoFieldBindingMetadata where
  source : MetadataSource
  key : Option Utf16
  optional : Option Bool
  converter : Option Ref

structure StandardControllerRecord where
  basePath : Option Utf16 := none
  guards : Option (List Ref) := none
  interceptors : Option (List Ref) := none
  version : Option Utf16 := none

structure ControllerMetadata where
  basePath : Utf16
  guards : Option (List Ref)
  interceptors : Option (List Ref)
  version : Option Utf16

structure RouteHeader where
  name : Utf16
  value : Utf16

structure RouteRedirect where
  url : Utf16
  statusCode : Option Nat

structure StandardRouteMetadataRecord where
  guards : Option (List Ref) := none
  headers : Option (List RouteHeader) := none
  interceptors : Option (List Ref) := none
  method : Option HttpMethod := none
  path : Option Utf16 := none
  produces : Option (List Utf16) := none
  redirect : Option RouteRedirect := none
  request : Option Ref := none
  successStatus : Option Nat := none
  version : Option Utf16 := none

structure RouteMetadata where
  method : HttpMethod
  path : Utf16
  request : Option Ref
  guards : Option (List Ref)
  headers : Option (List RouteHeader)
  interceptors : Option (List Ref)
  redirect : Option RouteRedirect
  successStatus : Option Nat
  version : Option Utf16

/-! ## The bags -/

/-- What each bag itself holds, under each of the keys. -/
structure Bags where
  dtoFieldValidation : Slot (OrderedMap MetadataPropertyKey (List DtoFieldValidationRule))
  classValidation : Slot (List ClassValidationRule)
  dtoFieldBinding : Slot (OrderedMap MetadataPropertyKey StandardDtoBindingRecord)
  controller : Slot StandardControllerRecord
  route : Slot (OrderedMap MetadataPropertyKey StandardRouteMetadataRecord)

def Bags.empty : Bags where
  dtoFieldValidation := fun _ => none
  classValidation := fun _ => none
  dtoFieldBinding := fun _ => none
  controller := fun _ => none
  route := fun _ => none

/-- The explicit stores, by the class or the prototype they are written for. -/
structure Stores where
  dtoFieldBinding : Class → OrderedMap MetadataPropertyKey DtoFieldBindingMetadata
  dtoFieldValidation : Class → OrderedMap MetadataPropertyKey (List DtoFieldValidationRule)
  classValidation : Class → List ClassValidationRule
  controller : Class → Option ControllerMetadata
  route : Class → OrderedMap MetadataPropertyKey RouteMetadata
  /-- The older decorators' records of a prototype. -/
  legacyRoute : Class → OrderedMap MetadataPropertyKey StandardRouteMetadataRecord

/-! ## Reading -/

section Reading
variable (stores : Stores) (bags : Bags) (target : Class)

def getInheritedStoredDtoBindingMap : OrderedMap MetadataPropertyKey DtoFieldBindingMetadata :=
  target.chain.reverse.foldl (fun merged current =>
    (stores.dtoFieldBinding current).foldl (fun merged entry => merged.set entry.1 entry.2) merged) []

def getInheritedStoredDtoValidationMap : OrderedMap MetadataPropertyKey (List DtoFieldValidationRule) :=
  target.chain.reverse.foldl (fun merged current =>
    (stores.dtoFieldValidation current).foldl (fun merged entry => merged.set entry.1 ((merged.get entry.1).getD [] ++ entry.2)) merged) []

def getInheritedStoredClassValidationRules : List ClassValidationRule := target.chain.reverse.flatMap stores.classValidation

/-- Property keys of two maps, each as it is first seen. -/
def mergeMetadataPropertyKeys {ν ν' : Type} (stored : OrderedMap MetadataPropertyKey ν) (standard : OrderedMap MetadataPropertyKey ν') :
    List MetadataPropertyKey :=
  (stored.map Prod.fst ++ standard.map Prod.fst).foldl (fun keys key => if key ∈ keys then keys else keys ++ [key]) []

/-- A stored binding over a standard one: none without a source. -/
def mergeDtoFieldBinding (stored : Option DtoFieldBindingMetadata) (standard : Option StandardDtoBindingRecord) :
    Option DtoFieldBindingMetadata :=
  (stored.map (·.source) <|> standard.bind (·.source)).map fun source =>
    { source
      key := stored.bind (·.key) <|> standard.bind (·.key)
      optional := stored.bind (·.optional) <|> standard.bind (·.optional)
      converter := stored.bind (·.converter) <|> standard.bind (·.converter) }

def getDtoFieldBindingMetadata (propertyKey : MetadataPropertyKey) : Option DtoFieldBindingMetadata :=
  mergeDtoFieldBinding ((getInheritedStoredDtoBindingMap stores target).get propertyKey)
    ((bags.dtoFieldBinding.find target).bind (·.get propertyKey))

def getDtoBindingSchema : List (MetadataPropertyKey × DtoFieldBindingMetadata) :=
  let stored := getInheritedStoredDtoBindingMap stores target
  let standard := (bags.dtoFieldBinding.find target).getD []
  (mergeMetadataPropertyKeys stored standard).filterMap fun propertyKey =>
    (mergeDtoFieldBinding (stored.get propertyKey) (standard.get propertyKey)).map (propertyKey, ·)

def getDtoFieldValidationRules (propertyKey : MetadataPropertyKey) : List DtoFieldValidationRule :=
  ((bags.dtoFieldValidation.find target).bind (·.get propertyKey)).getD [] ++
    ((getInheritedStoredDtoValidationMap stores target).get propertyKey).getD []

def getDtoValidationSchema : List (MetadataPropertyKey × List DtoFieldValidationRule) :=
  let stored := getInheritedStoredDtoValidationMap stores target
  let standard := (bags.dtoFieldValidation.find target).getD []
  (mergeMetadataPropertyKeys stored standard).filterMap fun propertyKey =>
    let rules := (standard.get propertyKey).getD [] ++ (stored.get propertyKey).getD []
    if rules = [] then none else some (propertyKey, rules)

def getClassValidationRules : List ClassValidationRule :=
  (bags.classValidation.find target).getD [] ++ getInheritedStoredClassValidationRules stores target

/-- `mergeUnique` of two stores. -/
def mergeUniqueCollections (existing values : Option (List Ref)) : Option (List Ref) :=
  if (existing.getD []).isEmpty && (values.getD []).isEmpty then none
  else some ((values.getD []).foldl (fun merged value => if value ∈ merged then merged else merged ++ [value]) (existing.getD []))

def getControllerMetadata : Option ControllerMetadata :=
  let stored := stores.controller target
  let standard := bags.controller.find target
  if stored.isNone && standard.isNone then none
  else some {
    basePath := (stored.map (·.basePath) <|> standard.bind (·.basePath)).getD []
    guards := mergeUniqueCollections (stored.bind (·.guards)) (standard.bind (·.guards))
    interceptors := mergeUniqueCollections (stored.bind (·.interceptors)) (standard.bind (·.interceptors))
    version := stored.bind (·.version) <|> standard.bind (·.version) }

/-- A record is a route once its method and path are set, the path possibly empty. -/
def getStandardRouteMetadata (propertyKey : MetadataPropertyKey) : Option RouteMetadata := do
  let metadata ← (← bags.route.find target).get propertyKey
  let method ← metadata.method
  let path ← metadata.path
  return {
    method, path
    request := metadata.request
    guards := metadata.guards
    headers := metadata.headers
    interceptors := metadata.interceptors
    redirect := metadata.redirect
    successStatus := metadata.successStatus
    version := metadata.version }

def mergeRouteMetadata (stored standard : Option RouteMetadata) (method : HttpMethod) (path : Utf16) : RouteMetadata where
  method := method
  path := path
  request := stored.bind (·.request) <|> standard.bind (·.request)
  guards := mergeUniqueCollections (stored.bind (·.guards)) (standard.bind (·.guards))
  headers := stored.bind (·.headers) <|> standard.bind (·.headers)
  interceptors := mergeUniqueCollections (stored.bind (·.interceptors)) (standard.bind (·.interceptors))
  redirect := stored.bind (·.redirect) <|> standard.bind (·.redirect)
  successStatus := stored.bind (·.successStatus) <|> standard.bind (·.successStatus)
  version := stored.bind (·.version) <|> standard.bind (·.version)

/-- Either one has the required fields, so reading a route never throws. -/
def getRouteMetadata (propertyKey : MetadataPropertyKey) : Option RouteMetadata := do
  let stored := (stores.route target).get propertyKey
  let standard := getStandardRouteMetadata bags target propertyKey
  let required ← stored <|> standard
  return mergeRouteMetadata stored standard required.method required.path

def getRouteProducesMetadata (propertyKey : MetadataPropertyKey) : Option (List Utf16) :=
  (((bags.route.find target).bind (·.get propertyKey)).bind (·.produces)) <|>
    ((stores.legacyRoute target).get propertyKey).bind (·.produces)

end Reading

/-- Everything that is read for a class. -/
structure ClassReads where
  dtoFieldBinding : MetadataPropertyKey → Option DtoFieldBindingMetadata
  dtoBindingSchema : List (MetadataPropertyKey × DtoFieldBindingMetadata)
  dtoFieldValidationRules : MetadataPropertyKey → List DtoFieldValidationRule
  dtoValidationSchema : List (MetadataPropertyKey × List DtoFieldValidationRule)
  classValidationRules : List ClassValidationRule
  controller : Option ControllerMetadata
  route : MetadataPropertyKey → Option RouteMetadata
  routeProduces : MetadataPropertyKey → Option (List Utf16)

def reads (stores : Stores) (bags : Bags) (target : Class) : ClassReads where
  dtoFieldBinding := getDtoFieldBindingMetadata stores bags target
  dtoBindingSchema := getDtoBindingSchema stores bags target
  dtoFieldValidationRules := getDtoFieldValidationRules stores bags target
  dtoValidationSchema := getDtoValidationSchema stores bags target
  classValidationRules := getClassValidationRules stores bags target
  controller := getControllerMetadata stores bags target
  route := getRouteMetadata stores bags target
  routeProduces := getRouteProducesMetadata stores bags target

end Fluo.Core
