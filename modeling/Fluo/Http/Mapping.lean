import Fluo.Http.RoutePath
import Fluo.Lib.Precedence
/-!
# Handler mapping

`createHandlerMapping`: the descriptors of the registered controllers, the
index that splits them into literal paths and paths with parameters, and the
matching of a request through that index. A map of maps is read as one
function of both keys, with no descriptors where the key is absent. Case
conversion is the host's.
-/

namespace Fluo.Http.Mapping
open Fluo.Lib

inductive HttpMethod
  | get | post | put | patch | delete | options | head | all
deriving DecidableEq

def HttpMethod.name : HttpMethod → Utf16
  | .get => units "GET"
  | .post => units "POST"
  | .put => units "PUT"
  | .patch => units "PATCH"
  | .delete => units "DELETE"
  | .options => units "OPTIONS"
  | .head => units "HEAD"
  | .all => units "ALL"

structure RouteMetadata where
  method : HttpMethod
  path : Utf16
  version : Option Utf16

structure ControllerMetadata where
  basePath : Utf16
  version : Option Utf16

/-- A controller class with its metadata, and the own property names of its
prototype with the route metadata of those that have it. -/
structure Controller where
  id : Nat
  metadata : Option ControllerMetadata
  properties : List (Utf16 × Option RouteMetadata)

structure HandlerSource where
  controllerToken : Controller

structure HandlerMetadata where
  controllerPath : Utf16
  effectivePath : Utf16
  effectiveVersion : Option Utf16
  pathParams : List Utf16

structure HandlerDescriptor where
  controllerToken : Controller
  metadata : HandlerMetadata
  methodName : Utf16
  route : RouteMetadata

structure HandlerMatch where
  descriptor : HandlerDescriptor
  params : Params

inductive HeaderValue
  | undefined
  | one (value : Utf16)
  | many (values : List Utf16)

structure FrameworkRequest where
  method : Utf16
  path : Utf16
  headers : List (Utf16 × HeaderValue)

inductive VersioningExtractorResult
  | undefined
  | one (value : Utf16)
  | many (values : List Utf16)

abbrev VersioningExtractor := FrameworkRequest → VersioningExtractorResult

inductive VersioningType
  | uri | header | mediaType | custom
deriving DecidableEq

inductive VersioningOptions
  | uri
  | header (header : Utf16)
  | mediaType (key : Option Utf16)
  | custom (extractor : VersioningExtractor)

structure ResolvedVersioning where
  extractor : VersioningExtractor
  type : VersioningType

/-- The case conversions of the host. -/
structure Casing where
  toUpperCase : Utf16 → Utf16
  toLowerCase : Utf16 → Utf16
  /-- Whether the flag `i` makes two units match. -/
  sameIgnoringCase : UInt16 → UInt16 → Bool

/-! ## Versions -/

/-- `replace(/^v/i, '')` -/
def stripLeadingV (version : Utf16) : Utf16 :=
  match version with
  | [] => []
  | u :: rest => if u ∈ units "vV" then rest else u :: rest

def normalizeVersionSegment (version : Utf16) : Utf16 := units "v" ++ stripLeadingV (trim version)

def normalizeVersionValue (version : Utf16) : Utf16 := stripLeadingV (trim version)

def joinPaths (basePath routePath : Utf16) : Utf16 := normalizeRoutePath (basePath ++ units "/" ++ routePath)

def applyVersionPrefix (path : Utf16) (version : Option Utf16) : Utf16 :=
  match version with
  | none | some [] => path
  | some (u :: rest) => joinPaths (units "/" ++ normalizeVersionSegment (u :: rest)) path

section
variable (casing : Casing)

def HeaderValue.values : HeaderValue → List Utf16
  | .undefined => []
  | .one value => [value]
  | .many values => values

def readHeaderValue (request : FrameworkRequest) (headerName : Utf16) : Option Utf16 :=
  let normalizedHeaderName := casing.toLowerCase (trim headerName)
  if normalizedHeaderName = [] then none
  else
    let entries := request.headers.filter fun entry => casing.toLowerCase entry.1 = normalizedHeaderName
    (entries.flatMap fun entry => entry.2.values.map trim).find? (· ≠ [])

/-- What is left of a text after a key at its front, in any case. -/
def stripKey : Utf16 → Utf16 → Option Utf16
  | [], text => some text
  | _ :: _, [] => none
  | k :: key, u :: text => if casing.sameIgnoringCase k u then stripKey key text else none

/-- `[^;,+\s]` -/
def isVersionUnit (u : UInt16) : Bool := u ∉ units ";,+" && !isWhiteSpace u

/-- The group of the first match of a key followed by `([^;,+\s]+)`. -/
def captureAfterKey (key : Utf16) : Utf16 → Option Utf16
  | [] => none
  | u :: text =>
    match (stripKey casing key (u :: text)).map (List.takeWhile isVersionUnit) with
    | some (v :: version) => some (v :: version)
    | _ => captureAfterKey key text

def extractVersionFromMediaType (request : FrameworkRequest) (key : Utf16) : Option Utf16 :=
  match readHeaderValue casing request (units "accept") with
  | none => none
  | some accept =>
    let mediaTypes := ((accept.splitOn ','.toNat.toUInt16).map trim).filter (· ≠ [])
    mediaTypes.findSome? fun mediaType => ((captureAfterKey casing key mediaType).map trim).filter (· ≠ [])

/-- `string | undefined` as the result of an extractor. -/
def VersioningExtractorResult.ofOption : Option Utf16 → VersioningExtractorResult
  | none => .undefined
  | some value => .one value

def resolveVersioning (versioning : Option VersioningOptions) : ResolvedVersioning :=
  match versioning with
  | none | some .uri => { extractor := fun _ => .undefined, type := .uri }
  | some (.header header) =>
    { extractor := fun request => .ofOption (readHeaderValue casing request header), type := .header }
  | some (.mediaType key) =>
    { extractor := fun request => .ofOption (extractVersionFromMediaType casing request (key.getD (units "v="))), type := .mediaType }
  | some (.custom extractor) => { extractor := extractor, type := .custom }

end

def VersioningExtractorResult.values : VersioningExtractorResult → List Utf16
  | .undefined => []
  | .one value => [value]
  | .many values => values

def resolveRequestVersion (request : FrameworkRequest) (versioning : ResolvedVersioning) : Option Utf16 :=
  ((versioning.extractor request).values.map normalizeVersionValue).find? (· ≠ [])

def matchesRouteVersion (descriptor : HandlerDescriptor) (requestVersion : Option Utf16) : Bool :=
  match descriptor.route.version, requestVersion with
  | none, requestVersion | some [], requestVersion => requestVersion = none
  | some (_ :: _), none | some (_ :: _), some [] => false
  | some (u :: routeVersion), some (v :: requestVersion) => normalizeVersionValue (u :: routeVersion) = v :: requestVersion

/-! ## Descriptors -/

def getControllerMethodNames (controllerToken : Controller) : List (Utf16 × Option RouteMetadata) :=
  controllerToken.properties.filter fun property => property.1 ≠ units "constructor"

/-- The round of the loop of `createHandlerDescriptors` for a property with route metadata. -/
def createHandlerDescriptor (source : HandlerSource) (controllerMetadata : ControllerMetadata) (versioning : ResolvedVersioning)
    (propertyKey : Utf16) (routeMetadata : RouteMetadata) : Except MappingError HandlerDescriptor := do
  let effectiveVersion := routeMetadata.version.or controllerMetadata.version
  let routePath := joinPaths controllerMetadata.basePath routeMetadata.path
  let effectivePath := if versioning.type = .uri then applyVersionPrefix routePath effectiveVersion else routePath
  let pathParams ← extractRoutePathParams effectivePath
  return {
    controllerToken := source.controllerToken
    metadata := {
      controllerPath := controllerMetadata.basePath
      effectivePath := effectivePath
      effectiveVersion := effectiveVersion
      pathParams := pathParams }
    methodName := propertyKey
    route := { routeMetadata with path := effectivePath, version := effectiveVersion } }

def createHandlerDescriptors (versioning : ResolvedVersioning) (source : HandlerSource) : Except MappingError (List HandlerDescriptor) :=
  let controllerMetadata := source.controllerToken.metadata.getD { basePath := [], version := none }
  let routes := (getControllerMethodNames source.controllerToken).filterMap fun property => property.2.map (property.1, ·)
  routes.mapM fun route => createHandlerDescriptor source controllerMetadata versioning route.1 route.2

def routeKey (descriptor : HandlerDescriptor) : Utf16 :=
  let routeVersion := (descriptor.route.version.map normalizeVersionValue).getD (units "<none>")
  descriptor.route.method.name ++ units ":" ++ descriptor.route.path ++ units ":" ++ routeVersion

/-- The loop of `buildDescriptorList` over the keys seen so far. -/
def checkDuplicates : List Utf16 → List HandlerDescriptor → Except MappingError Unit
  | _, [] => .ok ()
  | seen, descriptor :: rest =>
    if routeKey descriptor ∈ seen then
      .error (.routeConflict (units "Duplicate route registration detected for " ++ routeKey descriptor ++ units "."))
    else checkDuplicates (routeKey descriptor :: seen) rest

def buildDescriptorList (sources : List HandlerSource) (versioning : ResolvedVersioning) : Except MappingError (List HandlerDescriptor) := do
  let descriptors ← sources.mapM (createHandlerDescriptors versioning)
  checkDuplicates [] descriptors.flatten
  return descriptors.flatten

/-! ## The index -/

structure IndexedDescriptor where
  descriptor : HandlerDescriptor
  segments : List RoutePathSegment

structure CompiledDescriptorIndex where
  param : Utf16 × Nat → List IndexedDescriptor
  static : Utf16 × Utf16 → List HandlerDescriptor

/-- Pushes onto the bucket of a key. -/
def push {κ β : Type} [DecidableEq κ] (index : κ → List β) (key : κ) (x : β) : κ → List β :=
  fun k => if key = k then index k ++ [x] else index k

def indexDescriptor (index : CompiledDescriptorIndex) (descriptor : HandlerDescriptor) : Except MappingError CompiledDescriptorIndex := do
  let method := descriptor.route.method.name
  let segments ← parseRoutePath descriptor.route.path (some (units "Registered " ++ method ++ units " route path"))
  if segments.all RoutePathSegment.isLiteral then
    return { index with static := push index.static (method, descriptor.route.path) descriptor }
  else
    return { index with param := push index.param (method, segments.length) { descriptor := descriptor, segments := segments } }

def buildDescriptorIndex (descriptors : List HandlerDescriptor) : Except MappingError CompiledDescriptorIndex :=
  descriptors.foldlM indexDescriptor { param := fun _ => [], static := fun _ => [] }

/-! ## Matching -/

/-- The loop of `findStaticMatch` over the descriptors of its buckets. -/
def scanStatic (requestVersion : Option Utf16) (versioning : ResolvedVersioning) :
    List HandlerDescriptor → Option HandlerMatch → Option HandlerMatch
  | [], firstUnversionedMatch => firstUnversionedMatch
  | descriptor :: rest, firstUnversionedMatch =>
    if versioning.type = .uri then some { descriptor := descriptor, params := [] }
    else if matchesRouteVersion descriptor requestVersion then some { descriptor := descriptor, params := [] }
    else if descriptor.route.version = none ∧ firstUnversionedMatch = none then
      scanStatic requestVersion versioning rest (some { descriptor := descriptor, params := [] })
    else scanStatic requestVersion versioning rest firstUnversionedMatch

def findStaticMatch (descriptorBuckets : List (List HandlerDescriptor)) (requestVersion : Option Utf16)
    (versioning : ResolvedVersioning) : Option HandlerMatch :=
  scanStatic requestVersion versioning descriptorBuckets.flatten none

/-- Assigns the parameters of a candidate whose literals have been checked. -/
def bindParams (params : Params) (pair : RoutePathSegment × Utf16) : Params :=
  match pair.1 with
  | .param name => assign params name pair.2
  | .literal _ => params

/-- Whether a literal segment differs from the incoming one. -/
def differs (pair : RoutePathSegment × Utf16) : Bool :=
  match pair.1 with
  | .literal value => value ≠ pair.2
  | .param _ => false

def matchParameterizedRoute (candidate : IndexedDescriptor) (incomingSegments : List Utf16) : Option Params :=
  if candidate.segments.length ≠ incomingSegments.length then none
  else if (candidate.segments.zip incomingSegments).any differs then none
  else some ((candidate.segments.zip incomingSegments).foldl bindParams [])

/-- The loop of `match` over its candidates. -/
def scanParameterized (incomingSegments : List Utf16) (requestVersion : Option Utf16) (versioning : ResolvedVersioning) :
    List IndexedDescriptor → Option HandlerMatch → Option HandlerMatch
  | [], firstUnversionedMatch => if versioning.type ≠ .uri then firstUnversionedMatch else none
  | candidate :: rest, firstUnversionedMatch =>
    match matchParameterizedRoute candidate incomingSegments with
    | none => scanParameterized incomingSegments requestVersion versioning rest firstUnversionedMatch
    | some params =>
      if versioning.type = .uri then some { descriptor := candidate.descriptor, params := params }
      else if matchesRouteVersion candidate.descriptor requestVersion then
        some { descriptor := candidate.descriptor, params := params }
      else if candidate.descriptor.route.version = none ∧ firstUnversionedMatch = none then
        scanParameterized incomingSegments requestVersion versioning rest (some { descriptor := candidate.descriptor, params := params })
      else scanParameterized incomingSegments requestVersion versioning rest firstUnversionedMatch

structure HandlerMapping where
  descriptors : List HandlerDescriptor
  descriptorIndex : CompiledDescriptorIndex
  versioning : ResolvedVersioning

def createHandlerMapping (casing : Casing) (sources : List HandlerSource) (options : Option VersioningOptions) :
    Except MappingError HandlerMapping := do
  let versioning := resolveVersioning casing options
  let descriptors ← buildDescriptorList sources versioning
  let descriptorIndex ← buildDescriptorIndex descriptors
  return { descriptors := descriptors, descriptorIndex := descriptorIndex, versioning := versioning }

/-- The version a request asks for, none under URI versioning. -/
def HandlerMapping.requestVersion (mapping : HandlerMapping) (request : FrameworkRequest) : Option Utf16 :=
  if mapping.versioning.type = .uri then none else resolveRequestVersion request mapping.versioning

/-- `match` -/
def HandlerMapping.matchRequest (casing : Casing) (mapping : HandlerMapping) (request : FrameworkRequest) : Option HandlerMatch :=
  let method := casing.toUpperCase request.method
  let requestVersion := mapping.requestVersion request
  let normalizedPath := normalizeRoutePath request.path
  let methodStaticDescriptors := mapping.descriptorIndex.static (method, normalizedPath)
  let allStaticDescriptors := mapping.descriptorIndex.static (HttpMethod.all.name, normalizedPath)
  let directStaticMatch := findStaticMatch [methodStaticDescriptors, allStaticDescriptors] requestVersion mapping.versioning
  match directStaticMatch with
  | some directStaticMatch => some directStaticMatch
  | none =>
    let incomingSegments := fields slash normalizedPath
    let candidates := mapping.descriptorIndex.param (method, incomingSegments.length) ++
      mapping.descriptorIndex.param (HttpMethod.all.name, incomingSegments.length)
    scanParameterized incomingSegments requestVersion mapping.versioning candidates none

end Fluo.Http.Mapping
