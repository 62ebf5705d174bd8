import Fluo.Validation.Rules
/-!
# OpenAPI documents

The parts of an OpenAPI document that the schema builder reads or writes. A
reference that the builder makes is kept apart from one that a decorator's schema
brings, so that a schema can be asked which components it mentions.
-/

namespace Fluo.OpenApi
open Fluo.Lib
open Fluo.Validation (Literal)
open Fluo.Http.Mapping (HttpMethod)

inductive OpenApiSchemaPrimitiveType
  | array | boolean | integer | null | number | object | string
deriving DecidableEq

inductive SchemaType
  | one (type : OpenApiSchemaPrimitiveType)
  | many (types : List OpenApiSchemaPrimitiveType)
deriving DecidableEq

/-- The target of a `$ref`: a component, by the builder, or what a decorator gives. -/
inductive SchemaRef
  | component (name : Utf16)
  | given (uri : Utf16)
deriving DecidableEq

def SchemaRef.text : SchemaRef → Utf16
  | .component name => units "#/components/schemas/" ++ name
  | .given uri => uri

structure OpenApiSchemaObject (N : Type) where
  ref : Option SchemaRef := none
  type : Option SchemaType := none
  format : Option Utf16 := none
  properties : List (Utf16 × OpenApiSchemaObject N) := []
  items : Option (OpenApiSchemaObject N) := none
  required : List Utf16 := []
  enum : Option (List (Literal N)) := none
  additionalProperties : Option Bool := none
  minimum : Option N := none
  maximum : Option N := none
  minLength : Option N := none
  maxLength : Option N := none

variable {N : Type}

/-- The schema has a reference to the component, at some depth. -/
inductive OpenApiSchemaObject.Mentions (name : Utf16) : OpenApiSchemaObject N → Prop
  | ref {schema} : schema.ref = some (.component name) → Mentions name schema
  | property {schema key sub} : (key, sub) ∈ schema.properties → Mentions name sub → Mentions name schema
  | items {schema sub} : schema.items = some sub → Mentions name sub → Mentions name schema

/-- A schema that comes with a decorator: no reference in it is the builder's. -/
abbrev ExplicitSchema (N : Type) := { schema : OpenApiSchemaObject N // ∀ name, ¬ schema.Mentions name }

inductive ParameterSource
  | cookie | header | path | query
deriving DecidableEq

def ParameterSource.text : ParameterSource → Utf16
  | .cookie => units "cookie"
  | .header => units "header"
  | .path => units "path"
  | .query => units "query"

structure OpenApiParameterObject (N : Type) where
  name : Utf16
  source : ParameterSource
  required : Option Bool
  schema : OpenApiSchemaObject N
  description : Option Utf16 := none

/-- The schemas by media type. -/
abbrev Content (N : Type) := OrderedMap Utf16 (OpenApiSchemaObject N)

structure OpenApiRequestBodyObject (N : Type) where
  description : Option Utf16 := none
  content : Content N
  required : Option Bool := none

structure OpenApiResponseObject (N : Type) where
  description : Utf16
  content : Option (Content N) := none

abbrev OpenApiSecurityRequirementObject := OrderedMap Utf16 (List Utf16)

structure OpenApiSecuritySchemeObject where
  type : Utf16
  scheme : Option Utf16 := none
  bearerFormat : Option Utf16 := none

structure OpenApiOperationObject (N : Type) where
  operationId : Utf16
  tags : List Utf16
  summary : Option Utf16
  description : Option Utf16
  deprecated : Option Bool
  parameters : List (OpenApiParameterObject N)
  responses : OrderedMap Utf16 (OpenApiResponseObject N)
  requestBody : Option (OpenApiRequestBodyObject N)
  security : Option (List OpenApiSecurityRequirementObject)

structure OpenApiComponentsObject (N : Type) where
  schemas : OrderedMap Utf16 (OpenApiSchemaObject N)
  securitySchemes : OrderedMap Utf16 OpenApiSecuritySchemeObject

abbrev OpenApiPathItemObject (N : Type) := OrderedMap HttpMethod (OpenApiOperationObject N)

structure OpenApiInfoObject where
  title : Utf16
  version : Utf16

structure OpenApiDocument (N : Type) where
  openapi : Utf16
  info : OpenApiInfoObject
  paths : OrderedMap Utf16 (OpenApiPathItemObject N)
  components : OpenApiComponentsObject N

/-! ## Mentions of components -/

def Content.Mentions (name : Utf16) (content : Content N) : Prop := ∃ mediaType schema, (mediaType, schema) ∈ content ∧ schema.Mentions name

inductive OpenApiOperationObject.Mentions (name : Utf16) (operation : OpenApiOperationObject N) : Prop
  | parameter {parameter} : parameter ∈ operation.parameters → parameter.schema.Mentions name → Mentions name operation
  | response {status response content} :
      (status, response) ∈ operation.responses → response.content = some content → Content.Mentions name content → Mentions name operation
  | requestBody {requestBody} :
      operation.requestBody = some requestBody → Content.Mentions name requestBody.content → Mentions name operation

/-- The operation stands under the path and the method. -/
def HasOperation (paths : OrderedMap Utf16 (OpenApiPathItemObject N)) (path : Utf16) (method : HttpMethod)
    (operation : OpenApiOperationObject N) : Prop :=
  ∃ pathItem, (path, pathItem) ∈ paths ∧ (method, operation) ∈ pathItem

inductive OpenApiDocument.Mentions (name : Utf16) (document : OpenApiDocument N) : Prop
  | component {key schema} : (key, schema) ∈ document.components.schemas → schema.Mentions name → Mentions name document
  | operation {path method operation} :
      HasOperation document.paths path method operation → operation.Mentions name → Mentions name document

end Fluo.OpenApi
