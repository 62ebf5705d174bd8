import Mathlib.Data.List.DropRight
import Fluo.Lib.Fallible
import Fluo.Lib.Uri
/-!
# Route paths

`route-path.ts`: how a registered path is normalised, parsed into literal and
parameter segments, and matched against the segments of a request path. Texts
are UTF-16.
-/

namespace Fluo.Http.Mapping
open Fluo.Lib

def slash : UInt16 := '/'.toNat.toUInt16

def colon : UInt16 := ':'.toNat.toUInt16

/-- `WhiteSpace` and `LineTerminator`, what `trim` removes and `\s` matches. -/
def isWhiteSpace (u : UInt16) : Bool :=
  u ∈ ([0x9, 0xA, 0xB, 0xC, 0xD, 0x20, 0xA0, 0x1680, 0x2028, 0x2029, 0x202F, 0x205F, 0x3000, 0xFEFF] : List UInt16) ||
    (0x2000 ≤ u && u ≤ 0x200A)

def trim (text : Utf16) : Utf16 := (text.dropWhile isWhiteSpace).rdropWhile isWhiteSpace

theorem trim_eq_nil {text : Utf16} : trim text = [] ↔ ∀ u ∈ text, isWhiteSpace u = true := by
  constructor
  · intro h u hu
    have hall : ∀ u ∈ text.dropWhile isWhiteSpace, isWhiteSpace u = true := List.rdropWhile_eq_nil_iff.1 h
    rw [← List.takeWhile_append_dropWhile (p := isWhiteSpace) (l := text)] at hu
    exact (List.mem_append.1 hu).elim List.mem_takeWhile_imp (hall u)
  · intro h
    rw [trim, List.dropWhile_eq_nil_iff.2 h]
    rfl

theorem trim_append_ne_nil {text : Utf16} (h : trim text ≠ []) (rest : Utf16) : trim (text ++ rest) ≠ [] := by
  rw [ne_eq, trim_eq_nil] at h ⊢
  exact fun hall => h fun u hu => hall u (List.mem_append_left _ hu)

theorem trim_trim (text : Utf16) : trim (trim text) = trim text := by
  have hstart : (trim text).dropWhile isWhiteSpace = trim text := by
    rw [List.dropWhile_eq_self_iff]
    intro hpos
    obtain ⟨rest, hrest⟩ : trim text <+: text.dropWhile isWhiteSpace := List.rdropWhile_prefix _ _
    have hkept : text.dropWhile isWhiteSpace ≠ [] := by
      intro hnil
      rw [hnil, List.append_eq_nil_iff] at hrest
      simp [hrest.1] at hpos
    have hhead := List.head_dropWhile_not isWhiteSpace hkept
    have hsame : (trim text)[0] = (text.dropWhile isWhiteSpace).head hkept := by
      simp only [← hrest, List.head_eq_getElem]
      exact (List.getElem_append_left hpos).symm
    rw [hsame, hhead]
    simp
  have hend : (trim text).rdropWhile isWhiteSpace = trim text := List.rdropWhile_idempotent _ _
  rw [trim, hstart, hend]

inductive RoutePathSegment
  | literal (value : Utf16)
  | param (name : Utf16)
deriving DecidableEq

def RoutePathSegment.isLiteral : RoutePathSegment → Bool
  | .literal _ => true
  | .param _ => false

inductive MappingError
  | invalidRoutePath (message : Utf16)
  | routeConflict (message : Utf16)

/-! ## The code -/

def isNameStart (u : UInt16) : Bool := u ∈ units "abcdefghijklmnopqrstuvwxyzABCDEFGHIJKLMNOPQRSTUVWXYZ_"

def isNamePart (u : UInt16) : Bool := isNameStart u || u ∈ units "0123456789"

/-- `routeParamNamePattern` -/
def isParamName : Utf16 → Bool
  | [] => false
  | u :: rest => isNameStart u && rest.all isNamePart

/-- `unsupportedLiteralTokenPattern` -/
def isUnsupportedToken (u : UInt16) : Bool := u ∈ units "*?+()[]\x7b\x7d\\"

def supportedRouteSyntaxDescription : Utf16 :=
  units "Only literal segments and full-segment \":param\" placeholders are supported."

def normalizeLabel (label : Option Utf16) : Utf16 :=
  match label.map trim with
  | some (u :: rest) => u :: rest
  | _ => units "Route path"

def describeSegment (segment : Utf16) : Utf16 := units "\"" ++ segment ++ units "\""

def throwInvalidRoutePath (label : Option Utf16) (path segment : Utf16) (reason : String) : Except MappingError RoutePathSegment :=
  .error (.invalidRoutePath (normalizeLabel label ++ units " \"" ++ path ++ units "\" is invalid at segment " ++
    describeSegment segment ++ units ": " ++ units reason ++ units ". " ++ supportedRouteSyntaxDescription))

def parseRoutePathSegment (path : Utf16) (label : Option Utf16) (segment : Utf16) : Except MappingError RoutePathSegment :=
  if segment.head? = some colon then
    if isParamName segment.tail then .ok (.param segment.tail)
    else throwInvalidRoutePath label path segment "Parameter names must match /[a-zA-Z_][a-zA-Z0-9_]*/"
  else if colon ∈ segment then
    throwInvalidRoutePath label path segment "Parameters must occupy the entire segment"
  else if segment.any isUnsupportedToken then
    throwInvalidRoutePath label path segment "Wildcards, regex-like tokens, and inline modifiers are not supported"
  else .ok (.literal segment)

def normalizeRoutePath (path : Utf16) : Utf16 := slash :: [slash].intercalate (fields slash path)

def parseRoutePath (path : Utf16) (label : Option Utf16) : Except MappingError (List RoutePathSegment) :=
  (fields slash (normalizeRoutePath path)).mapM (parseRoutePathSegment path label)

def extractRoutePathParams (path : Utf16) : Except MappingError (List Utf16) := do
  let segments ← parseRoutePath path none
  return segments.flatMap fun segment => match segment with
    | .param name => [name]
    | .literal _ => []

/-- The own properties of a plain object with text values, in the order they were created. -/
abbrev Params := List (Utf16 × Utf16)

/-- `params[name] = value`. Assigning a text to `__proto__` creates no property. -/
def assign (params : Params) (name value : Utf16) : Params :=
  if name = units "__proto__" then params
  else if name ∈ params.map Prod.fst then params.map fun entry => if entry.1 = name then (name, value) else entry
  else params ++ [(name, value)]

/-- One round of the loop of `matchRoutePath`. -/
def matchSegment (params : Params) (pair : RoutePathSegment × Utf16) : Option Params :=
  match pair.1 with
  | .param name => some (assign params name pair.2)
  | .literal value => if value ≠ pair.2 then none else some params

def matchRoutePath (registeredSegments : List RoutePathSegment) (incomingSegments : List Utf16) : Option Params :=
  if registeredSegments.length ≠ incomingSegments.length then none
  else (registeredSegments.zip incomingSegments).foldlM matchSegment []

/-! ## Fields -/

@[simp] theorem fields_normalizeRoutePath (path : Utf16) : fields slash (normalizeRoutePath path) = fields slash path := by
  have hcons : normalizeRoutePath path = [] ++ slash :: [slash].intercalate (fields slash path) := rfl
  rw [hcons, fields_append_cons, fields_nil, List.nil_append, fields_intercalate]
  have hself (text) (h : text ∈ fields slash path) : fields slash text = [text] :=
    fields_of_notMem (notMem_fields h).1 (notMem_fields h).2
  rw [List.flatMap_congr hself, List.flatMap_singleton']

theorem normalizeRoutePath_eq_iff {p q : Utf16} : normalizeRoutePath p = normalizeRoutePath q ↔ fields slash p = fields slash q := by
  refine ⟨fun h => ?_, fun h => by rw [normalizeRoutePath, h, normalizeRoutePath]⟩
  rw [← fields_normalizeRoutePath p, h, fields_normalizeRoutePath]

@[simp] theorem normalizeRoutePath_idem (path : Utf16) : normalizeRoutePath (normalizeRoutePath path) = normalizeRoutePath path :=
  normalizeRoutePath_eq_iff.2 (fields_normalizeRoutePath path)

/-! ## Segments -/

/-- A segment as its first unit decides it. -/
def readSegment (segment : Utf16) : RoutePathSegment :=
  if segment.head? = some colon then .param segment.tail else .literal segment

/-- The segments of a registered path, valid or not. -/
def segmentsOf (path : Utf16) : List RoutePathSegment := (fields slash path).map readSegment

theorem parseRoutePathSegment_eq_ok {path segment : Utf16} {label : Option Utf16} {s : RoutePathSegment}
    (h : parseRoutePathSegment path label segment = .ok s) : s = readSegment segment := by
  unfold parseRoutePathSegment throwInvalidRoutePath at h
  unfold readSegment
  split_ifs at h ⊢ <;> cases h <;> rfl

theorem parseRoutePath_eq_ok {path : Utf16} {label : Option Utf16} {segments : List RoutePathSegment}
    (h : parseRoutePath path label = .ok segments) : segments = segmentsOf path := by
  rw [parseRoutePath, fields_normalizeRoutePath] at h
  exact mapM_eq_ok_map (fun _ _ => parseRoutePathSegment_eq_ok) h

theorem readSegment_literal {segment value : Utf16} (h : readSegment segment = .literal value) : segment = value := by
  unfold readSegment at h
  split_ifs at h
  exact RoutePathSegment.literal.inj h

end Fluo.Http.Mapping
