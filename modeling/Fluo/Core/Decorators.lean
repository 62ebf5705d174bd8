import Fluo.Core.Metadata
/-!
# Decorators and isolation

What the decorators of validation, binding and routing write, each through the bag
of its class, and which classes see it.
-/

namespace Fluo.Core
open Fluo.Lib
open Fluo.Http.Mapping (HttpMethod trim)

/-! ## The decorators -/

/-- `mergeUnique` of a record with what a decorator adds. -/
def mergeUnique (existing : Option (List Ref)) (values : List Ref) : List Ref :=
  values.foldl (fun merged value => if value ∈ merged then merged else merged ++ [value]) (existing.getD [])

def normalizeProducesMediaTypes (mediaTypes : List Utf16) : List Utf16 :=
  mediaTypes.foldl (fun normalized mediaType =>
    let value := trim mediaType
    if value = [] ∨ value ∈ normalized then normalized else normalized ++ [value]) []

/-- A decorator of a method, by what it sets in the record of its route. `route`
is the one of a method, with the media types of `Sse`. -/
inductive RouteDecorator
  | route (method : HttpMethod) (path : Utf16) (produces : Option (List Utf16))
  | requestDto (dto : Ref)
  | produces (mediaTypes : List Utf16)
  | httpCode (status : Nat)
  | version (version : Utf16)
  | header (name value : Utf16)
  | redirect (url : Utf16) (statusCode : Option Nat)
  | useGuards (guards : List Ref)
  | useInterceptors (interceptors : List Ref)

def RouteDecorator.apply (route : StandardRouteMetadataRecord) : RouteDecorator → StandardRouteMetadataRecord
  | .route method path mediaTypes =>
    { route with method := some method, path := some path, produces := (mediaTypes.map normalizeProducesMediaTypes) <|> route.produces }
  | .requestDto dto => { route with request := some dto }
  | .produces mediaTypes => { route with produces := some (normalizeProducesMediaTypes mediaTypes) }
  | .httpCode status => { route with successStatus := some status }
  | .version label => { route with version := some label }
  | .header name value => { route with headers := some (route.headers.getD [] ++ [⟨name, value⟩]) }
  | .redirect url statusCode => { route with redirect := some ⟨url, statusCode⟩ }
  | .useGuards guards => { route with guards := some (mergeUnique route.guards guards) }
  | .useInterceptors interceptors => { route with interceptors := some (mergeUnique route.interceptors interceptors) }

/-- A decorator of a controller class. -/
inductive ControllerDecorator
  | controller (basePath : Utf16)
  | version (version : Utf16)
  | useGuards (guards : List Ref)
  | useInterceptors (interceptors : List Ref)

def ControllerDecorator.apply (controller : StandardControllerRecord) : ControllerDecorator → StandardControllerRecord
  | .controller basePath => { controller with basePath := some basePath }
  | .version label => { controller with version := some label }
  | .useGuards guards => { controller with guards := some (mergeUnique controller.guards guards) }
  | .useInterceptors interceptors => { controller with interceptors := some (mergeUnique controller.interceptors interceptors) }

/-- A decorator of a field that binds it: `FromPath` and its like, `Optional`, `Convert`. -/
inductive BindingDecorator
  | source (source : MetadataSource) (key : Option Utf16)
  | optional
  | convert (converter : Ref)

def BindingDecorator.apply (binding : StandardDtoBindingRecord) : BindingDecorator → StandardDtoBindingRecord
  | .source origin key => { binding with source := some origin, key := key }
  | .optional => { binding with optional := some true }
  | .convert converter => { binding with converter := some converter }

inductive Decorator
  | validation (propertyKey : MetadataPropertyKey) (rule : DtoFieldValidationRule)
  | validateClass (rule : ClassValidationRule)
  | binding (propertyKey : MetadataPropertyKey) (decorator : BindingDecorator)
  | controller (decorator : ControllerDecorator)
  | route (propertyKey : MetadataPropertyKey) (decorator : RouteDecorator)

def appendRule (propertyKey : MetadataPropertyKey) (rule : DtoFieldValidationRule)
    (map : OrderedMap MetadataPropertyKey (List DtoFieldValidationRule)) : OrderedMap MetadataPropertyKey (List DtoFieldValidationRule) :=
  map.set propertyKey ((map.get propertyKey).getD [] ++ [rule])

def mergeBinding (propertyKey : MetadataPropertyKey) (decorator : BindingDecorator)
    (map : OrderedMap MetadataPropertyKey StandardDtoBindingRecord) : OrderedMap MetadataPropertyKey StandardDtoBindingRecord :=
  map.set propertyKey (decorator.apply ((map.get propertyKey).getD {}))

def updateRoute (propertyKey : MetadataPropertyKey) (decorator : RouteDecorator)
    (map : OrderedMap MetadataPropertyKey StandardRouteMetadataRecord) : OrderedMap MetadataPropertyKey StandardRouteMetadataRecord :=
  map.set propertyKey (decorator.apply ((map.get propertyKey).getD {}))

/-- Each writer takes the map, the list or the record it finds through the bag,
or puts a new one into the bag, and changes that. -/
def Decorator.apply (bags : Bags) (cls : Class) : Decorator → Bags
  | .validation propertyKey rule =>
    { bags with dtoFieldValidation := bags.dtoFieldValidation.write cls [] (appendRule propertyKey rule) }
  | .validateClass rule => { bags with classValidation := bags.classValidation.write cls [] fun rules => rules ++ [rule] }
  | .binding propertyKey decorator =>
    { bags with dtoFieldBinding := bags.dtoFieldBinding.write cls [] (mergeBinding propertyKey decorator) }
  | .controller decorator => { bags with controller := bags.controller.write cls {} decorator.apply }
  | .route propertyKey decorator => { bags with route := bags.route.write cls [] (updateRoute propertyKey decorator) }

def decorate (bags : Bags) (step : Class × Decorator) : Bags := step.2.apply bags step.1

def decorateAll (bags : Bags) (steps : List (Class × Decorator)) : Bags := steps.foldl decorate bags

/-! ## Isolation -/

/-- The record a decorator changes is the class's own. -/
def Decorator.Own (bags : Bags) (cls : Class) : Decorator → Prop
  | .validation _ _ => bags.dtoFieldValidation.Own cls
  | .validateClass _ => bags.classValidation.Own cls
  | .binding _ _ => bags.dtoFieldBinding.Own cls
  | .controller _ => bags.controller.Own cls
  | .route _ _ => bags.route.Own cls

instance (bags : Bags) (cls : Class) (decorator : Decorator) : Decidable (decorator.Own bags cls) := by
  cases decorator <;> exact inferInstanceAs (Decidable (Slot.Own _ cls))

/-- Every decorator changes a record of the class it is applied to. -/
def Careful : Bags → List (Class × Decorator) → Prop
  | _, [] => True
  | bags, step :: rest => step.2.Own bags step.1 ∧ Careful (decorate bags step) rest

structure SameRecords (bags bags' : Bags) (d : Class) : Prop where
  dtoFieldValidation : bags'.dtoFieldValidation.find d = bags.dtoFieldValidation.find d
  classValidation : bags'.classValidation.find d = bags.classValidation.find d
  dtoFieldBinding : bags'.dtoFieldBinding.find d = bags.dtoFieldBinding.find d
  controller : bags'.controller.find d = bags.controller.find d
  route : bags'.route.find d = bags.route.find d

variable {bags : Bags}

theorem SameRecords.reads {bags' : Bags} {d : Class} (h : SameRecords bags bags' d) (stores : Stores) :
    reads stores bags' d = reads stores bags d := by
  have hbinding : getDtoFieldBindingMetadata stores bags' d = getDtoFieldBindingMetadata stores bags d := by
    funext propertyKey
    rw [getDtoFieldBindingMetadata, getDtoFieldBindingMetadata, h.dtoFieldBinding]
  have hbindings : getDtoBindingSchema stores bags' d = getDtoBindingSchema stores bags d := by
    rw [getDtoBindingSchema, getDtoBindingSchema, h.dtoFieldBinding]
  have hrules : getDtoFieldValidationRules stores bags' d = getDtoFieldValidationRules stores bags d := by
    funext propertyKey
    rw [getDtoFieldValidationRules, getDtoFieldValidationRules, h.dtoFieldValidation]
  have hvalidation : getDtoValidationSchema stores bags' d = getDtoValidationSchema stores bags d := by
    rw [getDtoValidationSchema, getDtoValidationSchema, h.dtoFieldValidation]
  have hclass : getClassValidationRules stores bags' d = getClassValidationRules stores bags d := by
    rw [getClassValidationRules, getClassValidationRules, h.classValidation]
  have hcontroller : getControllerMetadata stores bags' d = getControllerMetadata stores bags d := by
    rw [getControllerMetadata, getControllerMetadata, h.controller]
  have hroute : getRouteMetadata stores bags' d = getRouteMetadata stores bags d := by
    funext propertyKey
    rw [getRouteMetadata, getRouteMetadata, getStandardRouteMetadata, getStandardRouteMetadata, h.route]
  have hproduces : getRouteProducesMetadata stores bags' d = getRouteProducesMetadata stores bags d := by
    funext propertyKey
    rw [getRouteProducesMetadata, getRouteProducesMetadata, h.route]
  rw [Core.reads, Core.reads, hbinding, hbindings, hrules, hvalidation, hclass, hcontroller, hroute, hproduces]

theorem sameRecords_decorate {cls d : Class} {decorator : Decorator} (h : decorator.Own bags cls) (hd : cls ∉ d.chain) :
    SameRecords bags (decorate bags (cls, decorator)) d := by
  cases decorator with
  | validation propertyKey rule => exact ⟨Slot.find_write h hd, rfl, rfl, rfl, rfl⟩
  | validateClass rule => exact ⟨rfl, Slot.find_write h hd, rfl, rfl, rfl⟩
  | binding propertyKey decorator => exact ⟨rfl, rfl, Slot.find_write h hd, rfl, rfl⟩
  | controller decorator => exact ⟨rfl, rfl, rfl, @Slot.find_write _ bags.controller cls {} decorator.apply h d hd, rfl⟩
  | route propertyKey decorator => exact ⟨rfl, rfl, rfl, rfl, Slot.find_write h hd⟩

theorem reads_foldl {stores : Stores} {d : Class} {steps : List (Class × Decorator)} (h : Careful bags steps)
    (hd : ∀ step ∈ steps, step.1 ∉ d.chain) : reads stores (decorateAll bags steps) d = reads stores bags d := by
  induction steps generalizing bags with
  | nil => rfl
  | cons step rest ih =>
    obtain ⟨hown, hrest⟩ := h
    have hstep := (sameRecords_decorate hown (hd step List.mem_cons_self)).reads stores
    exact (ih hrest fun step hs => hd step (List.mem_cons_of_mem _ hs)).trans hstep

/-- Decorators that each change a record of the class they are applied to leave
what is read for every class that is not at or below one of those as it was. -/
theorem reads_decorateAll (stores : Stores) {before after : List (Class × Decorator)} (hcareful : Careful (decorateAll .empty before) after)
    {d : Class} (hd : ∀ step ∈ after, step.1 ∉ d.chain) :
    reads stores (decorateAll .empty (before ++ after)) d = reads stores (decorateAll .empty before) d := by
  rw [decorateAll, List.foldl_append]
  exact reads_foldl hcareful hd

/-- A request, and two that extend it. -/
private def request : Class := .base 0
private def createRequest : Class := .extend 1 request
private def searchRequest : Class := .extend 2 request

private def noStores : Stores where
  dtoFieldBinding := fun _ => []
  dtoFieldValidation := fun _ => []
  classValidation := fun _ => []
  controller := fun _ => none
  route := fun _ => []
  legacyRoute := fun _ => []

private def tenant : MetadataPropertyKey := .text (units "tenant")
private def title : MetadataPropertyKey := .text (units "title")

/-- A class that had rules before its base has a map of its own. -/
theorem reads_decorateAll_request :
    reads noStores (decorateAll .empty ([(createRequest, .validation title ⟨0, none, none, none⟩),
        (request, .validation tenant ⟨1, none, none, none⟩)] ++ [(createRequest, .validation title ⟨2, none, none, none⟩)])) searchRequest =
      reads noStores (decorateAll .empty [(createRequest, .validation title ⟨0, none, none, none⟩),
        (request, .validation tenant ⟨1, none, none, none⟩)]) searchRequest := by
  have hcareful : Careful (decorateAll .empty [(createRequest, .validation title ⟨0, none, none, none⟩),
      (request, .validation tenant ⟨1, none, none, none⟩)]) [(createRequest, .validation title ⟨2, none, none, none⟩)] :=
    ⟨by decide, trivial⟩
  refine reads_decorateAll noStores hcareful fun step hstep => ?_
  rw [List.mem_singleton.1 hstep]
  decide

/-- The rule of a class below becomes one of its base, and of the other class below that. -/
theorem rule_reaches_base_and_sibling :
    (createRequest ∉ request.chain ∧ createRequest ∉ searchRequest.chain) ∧ ∀ d ∈ [request, searchRequest],
      (reads noStores (decorateAll .empty [(request, .validation tenant ⟨1, none, none, none⟩)]) d).dtoValidationSchema =
        [(tenant, [⟨1, none, none, none⟩])] ∧
      (reads noStores (decorateAll .empty ([(request, .validation tenant ⟨1, none, none, none⟩)] ++
          [(createRequest, .validation title ⟨0, none, none, none⟩)])) d).dtoValidationSchema =
        [(tenant, [⟨1, none, none, none⟩]), (title, [⟨0, none, none, none⟩])] := by
  decide

end Fluo.Core
