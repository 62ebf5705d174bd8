import Fluo.Core.Metadata
/-!
# DTO metadata

What the validation and binding decorators record of a DTO class, as
`getDtoBindingSchema` and `getDtoValidationSchema` return it. A class is a `δ` and
a number an `N`; a function of the application is known by its identity.
-/

namespace Fluo.Validation
open Fluo.Lib
open Fluo.Core (MetadataSource DtoFieldBindingMetadata)

/-- A primitive value, or an object by identity. -/
inductive Literal (N : Type)
  | undefined
  | null
  | boolean (value : Bool)
  | number (value : N)
  | string (value : Utf16)
  | object (id : Nat)
deriving DecidableEq

inductive ValidatorJs
  | alpha | alphanumeric | ascii | base64 | booleanString | currency | dataURI | dateString | decimal | email | fqdn | hexColor
  | hexadecimal | ip | isbn | issn | json | jwt | locale | lowercase | magnetURI | matches | mimeType | mobilePhone | mongoId
  | numberString | port | postalCode | rgbColor | rfc3339 | semVer | uppercase | url | uuid | iso8601 | latitude | longitude | latLong

inductive RuleKind (δ N : Type)
  | validateIf (condition : Nat)
  | defined
  | optional
  | equals (value : Literal N)
  | notEquals (value : Literal N)
  | empty
  | notEmpty
  | isIn (values : List (Literal N))
  | isNotIn (values : List (Literal N))
  | string
  | number (allowNaN : Bool)
  | boolean
  | date
  | array
  | object
  | enum (values : List (Literal N))
  | int
  | divisibleBy (value : N)
  | positive
  | negative
  | min (value : N)
  | max (value : N)
  | minDate (time : N)
  | maxDate (time : N)
  | contains (value : Utf16)
  | notContains (value : Utf16)
  | length (min : N) (max : Option N)
  | minLength (value : N)
  | maxLength (value : N)
  /-- The class that the rule names itself or through a function. -/
  | nested (dto : δ)
  | validatorjs (validator : ValidatorJs) (args : List (Literal N))
  | arrayContains (values : List (Literal N))
  | arrayNotContains (values : List (Literal N))
  | arrayNotEmpty
  | arrayMinSize (value : N)
  | arrayMaxSize (value : N)
  | arrayUnique (selector : Option Nat)
  | custom (validate : Nat) (source : Option MetadataSource)

structure DtoFieldValidationRule (δ N : Type) where
  kind : RuleKind δ N
  each : Bool := false
  code : Option Utf16 := none
  message : Option Utf16 := none

inductive MetadataPropertyKey
  | text (name : Utf16)
  | symbol (id : Nat) (description : Utf16)
deriving DecidableEq

structure DtoBindingEntry where
  propertyKey : MetadataPropertyKey
  metadata : DtoFieldBindingMetadata

structure DtoValidationEntry (δ N : Type) where
  propertyKey : MetadataPropertyKey
  rules : List (DtoFieldValidationRule δ N)

structure DtoClass (δ N : Type) where
  name : Utf16
  bindingSchema : List DtoBindingEntry := []
  validationSchema : List (DtoValidationEntry δ N) := []

end Fluo.Validation
