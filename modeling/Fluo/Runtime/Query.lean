import Mathlib.Algebra.Order.BigOperators.Group.List
import Mathlib.Algebra.Order.Group.Nat
import Mathlib.Data.List.Infix
import Mathlib.Data.List.TakeWhile
import Fluo.Lib.Fallible
import Fluo.Lib.OrderedMap
import Fluo.Lib.Urlencoded
/-!
# Query strings and form fields

`parseQueryString` of the web factory, `parseQueryParamsFromSearch` of the Node one, and the
fields of `parseMultipart` and of the Fastify adapter. Each accumulates values in an object
literal, which inherits from `Object.prototype`.
-/

namespace Fluo.Runtime.Query
open Fluo.Lib

/-! ## Records -/

def underscoreProto : Text := "__proto__".toList

/-- The names of the members of `Object.prototype`. -/
def objectMembers : List Text :=
  ["constructor".toList, "__defineGetter__".toList, "__defineSetter__".toList, "hasOwnProperty".toList, "__lookupGetter__".toList,
    "__lookupSetter__".toList, "isPrototypeOf".toList, "propertyIsEnumerable".toList, "toString".toList, "valueOf".toList, underscoreProto,
    "toLocaleString".toList]

/-- The names of the members of `Array.prototype` that `Object.prototype` has none for. -/
def arrayMembers : List Text :=
  ["at".toList, "concat".toList, "copyWithin".toList, "fill".toList, "find".toList, "findIndex".toList, "findLast".toList,
    "findLastIndex".toList, "lastIndexOf".toList, "pop".toList, "push".toList, "reverse".toList, "shift".toList, "unshift".toList,
    "slice".toList, "sort".toList, "splice".toList, "includes".toList, "indexOf".toList, "join".toList, "keys".toList, "entries".toList,
    "values".toList, "forEach".toList, "filter".toList, "flat".toList, "flatMap".toList, "map".toList, "every".toList, "some".toList,
    "reduce".toList, "reduceRight".toList, "toReversed".toList, "toSorted".toList, "toSpliced".toList, "with".toList]

inductive Single
  | text (value : Text)
  /-- A member of a prototype, by its name. -/
  | member (name : Text)
  | objectPrototype
  | length (n : Nat)
deriving DecidableEq

inductive Value
  | single (value : Single)
  /-- An array; values are appended as texts. -/
  | many (first : Single) (rest : List Text)
deriving DecidableEq

/-- What began as an object literal. -/
structure Record where
  own : OrderedMap Text Value := []
  /-- The array that is its prototype, if that is not `Object.prototype`. -/
  proto : Option (Single × List Text) := none
deriving DecidableEq

namespace Record

/-- The element of an array by its index as a name. -/
def element (first : Single) (rest : List Text) (key : Text) : Option Single :=
  ((List.range (rest.length + 1)).find? fun i => (toString i).toList = key).bind fun i => (first :: rest.map .text)[i]?

section
private theorem lawfulBEq_key : LawfulBEq Text := inferInstance
attribute [local instance] lawfulBEq_key

/-- What a key that the record does not own reads. -/
def inherited (record : Record) (key : Text) : Option Value :=
  if key = underscoreProto then
    match record.proto with
    | none => some (.single .objectPrototype)
    | some (first, rest) => some (.many first rest)
  else if key ∈ objectMembers then some (.single (.member key))
  else
    match record.proto with
    | none => none
    | some (first, rest) =>
      if key ∈ arrayMembers then some (.single (.member key))
      else if key = "length".toList then some (.single (.length (rest.length + 1)))
      else (element first rest key).map .single

end

/-- `record[key]` -/
def get (record : Record) (key : Text) : Option Value := (record.own.get key).or (record.inherited key)

/-- `record[key] = value`: a text is no prototype. -/
def set (record : Record) (key : Text) (value : Value) : Record :=
  if key = underscoreProto then
    match value with
    | .single _ => record
    | .many first rest => { record with proto := some (first, rest) }
  else { record with own := record.own.set key value }

/-- `record[key].push(value)`, of an array: one that the record owns, or its prototype. -/
def push (record : Record) (key : Text) (first : Single) (rest : List Text) (value : Text) : Record :=
  record.set key (.many first (rest ++ [value]))

end Record

/-- Adds a value to those of a key. -/
def append (record : Record) (key value : Text) : Record :=
  match record.get key with
  | none => record.set key (.single (.text value))
  | some (.many first rest) => record.push key first rest value
  | some (.single current) => record.set key (.many current [value])

def accumulate (entries : List (Text × Text)) : Record := entries.foldl (fun record entry => append record entry.1 entry.2) {}

/-! ## Parsers -/

/-- The `search` of a URL whose query is given, if it has one. -/
def search : Option Text → Text
  | none => []
  | some query => '?' :: query

inductive Kind
  | key
  | value

def decodeQueryComponentLikeUrlSearchParams (value : Text) (kind : Kind) : Text :=
  match kind with
  | .key => ((Urlencoded.searchParams (value ++ ['='])).head?.map Prod.fst).getD []
  | .value => (((Urlencoded.searchParams ('x' :: '=' :: value)).find? fun entry => entry.1 = ['x']).map Prod.snd).getD []

def decodeQueryComponent (value : Text) (kind : Kind) : Text :=
  (decodeURIComponent (plusToSpace value)).getD (decodeQueryComponentLikeUrlSearchParams value kind)

/-- The entries of a search, as the loop of `parseQueryString` decodes them. -/
def queryEntries (search : Text) : List (Text × Text) :=
  (fields '&' (if search.head? = some '?' then search.tail else search)).map fun entry =>
    (decodeQueryComponent (Urlencoded.rawName entry) .key, decodeQueryComponent (Urlencoded.rawValue entry) .value)

/-- `parseQueryString`, of the web factory. -/
def parseQueryString (search : Text) : Record := if search.length ≤ 1 then {} else accumulate (queryEntries search)

def parseQueryParams (searchParams : List (Text × Text)) : Record := accumulate searchParams

/-- Of the Node factory. -/
def parseQueryParamsFromSearch (search : Text) : Record := parseQueryParams (Urlencoded.searchParams search)

structure UploadedFile where
  fieldname : Text
  originalname : Text
  mimetype : Text
  buffer : List UInt8
deriving DecidableEq

def UploadedFile.size (file : UploadedFile) : Nat := file.buffer.length

inductive FormDataEntry
  | text (name value : Text)
  | file (file : UploadedFile)

structure MultipartOptions where
  maxFileSize : Nat := 10 * 1024 * 1024
  maxFiles : Nat := 10
  maxTotalSize : Nat := 10 * 1024 * 1024

structure MultipartResult where
  fields : Record := {}
  files : List UploadedFile := []
  totalSize : Nat := 0

def appendMultipartField (fields : Record) (name value : Text) : Record := append fields name value

def bodyLimitError (maxTotalSize : Nat) : String := "Multipart body exceeds the maximum size of " ++ toString maxTotalSize ++ " bytes."

/-- One round of the loop of `parseMultipart`; a failure is a `PayloadTooLargeException` with its message. -/
def parseEntry (options : MultipartOptions) (result : MultipartResult) : FormDataEntry → Except String MultipartResult
  | .text name value =>
    let totalSize := result.totalSize + (Utf8.encode value).length
    if totalSize > options.maxTotalSize then .error (bodyLimitError options.maxTotalSize)
    else .ok { result with totalSize, fields := appendMultipartField result.fields name value }
  | .file file =>
    let totalSize := result.totalSize + file.size
    if totalSize > options.maxTotalSize then .error (bodyLimitError options.maxTotalSize)
    else if result.files.length ≥ options.maxFiles then .error ("Exceeded maximum file count of " ++ toString options.maxFiles ++ ".")
    else if file.size > options.maxFileSize then
      .error ("File \"" ++ String.ofList file.fieldname ++ "\" exceeds the maximum size of " ++ toString options.maxFileSize ++ " bytes.")
    else .ok { result with totalSize, files := result.files ++ [file] }

/-- `parseMultipart`, of the entries of the form data. -/
def parseMultipart (options : MultipartOptions) (entries : List FormDataEntry) : Except String MultipartResult :=
  entries.foldlM (parseEntry options) {}

/-- `setMultiValue`, of the Fastify adapter. -/
def setMultiValue (target : Record) (key value : Text) : Record := append target key value

/-- The fields that the Fastify adapter accumulates of the parts that are text. -/
def fastifyFields (parts : List (Text × Text)) : Record := parts.foldl (fun fields part => setMultiValue fields part.1 part.2) {}

/-! ## Exactness -/

def valuesOf (entries : List (Text × Text)) (key : Text) : List Text := (entries.filter fun entry => entry.1 = key).map Prod.snd

/-- A string for one value, an array for several. -/
def ofValues : List Text → Option Value
  | [] => none
  | [value] => some (.single (.text value))
  | value :: rest => some (.many (.text value) rest)

/-- The record has each key that occurs with its values in order, and no other. -/
def Exact (entries : List (Text × Text)) (record : Record) : Prop := ∀ key, record.own.get key = ofValues (valuesOf entries key)

/-- No key is the name of a member of `Object.prototype`. -/
def NoMember (entries : List (Text × Text)) : Prop := ∀ entry ∈ entries, entry.1 ∉ objectMembers

/-- The key of an entry begins with a question mark, and `decodeURIComponent` refuses it. -/
def Misread (entry : Text) : Prop :=
  (Urlencoded.rawName entry).head? = some '?' ∧ decodeURIComponent (plusToSpace (Urlencoded.rawName entry)) = none

def textEntries (entries : List FormDataEntry) : List (Text × Text) := entries.filterMap fun entry =>
  match entry with
  | .text name value => some (name, value)
  | .file _ => none

/-- Both parsers are exact for a query, and agree. -/
structure ExactQuery (query : Option Text) : Prop where
  node : Exact (Urlencoded.searchParams (search query)) (parseQueryParamsFromSearch (search query))
  web : Exact (Urlencoded.searchParams (search query)) (parseQueryString (search query))
  agree : parseQueryString (search query) = parseQueryParamsFromSearch (search query)

/-! ## Records that are accumulated -/

theorem valuesOf_concat (entries : List (Text × Text)) (key value key' : Text) :
    valuesOf (entries ++ [(key, value)]) key' = valuesOf entries key' ++ if key = key' then [value] else [] := by
  rw [valuesOf, List.filter_append, List.map_append, valuesOf]
  split
  · next h => simp [h]
  · next h => simp [h]

theorem ofValues_inj {vs ws : List Text} (h : ofValues vs = ofValues ws) : vs = ws := by
  match vs, ws with
  | [], [] => rfl
  | [], [_] => cases h
  | [], _ :: _ :: _ => cases h
  | [_], [] => cases h
  | [_], [_] =>
    cases h
    rfl
  | [_], _ :: _ :: _ => cases h
  | _ :: _ :: _, [] => cases h
  | _ :: _ :: _, [_] => cases h
  | _ :: _ :: _, _ :: _ :: _ =>
    cases h
    rfl

section Append
variable {record : Record} {key key' value : Text}

theorem set_own_self (hne : key ≠ underscoreProto) (v : Value) : (record.set key v).own.get key = some v := by
  have hset : record.set key v = { record with own := record.own.set key v } := if_neg hne
  rw [hset]
  exact OrderedMap.get_set_self _ _ _

theorem set_own_other (hne : key' ≠ key) (v : Value) : (record.set key v).own.get key' = record.own.get key' := by
  unfold Record.set
  split
  · split <;> rfl
  · exact OrderedMap.get_set_of_ne _ hne _

theorem append_own_other (hne : key' ≠ key) (value : Text) : (append record key value).own.get key' = record.own.get key' := by
  unfold append Record.push
  split
  · exact set_own_other hne _
  · exact set_own_other hne _
  · exact set_own_other hne _

theorem append_proto_other (hne : key ≠ underscoreProto) (value : Text) : (append record key value).proto = record.proto := by
  unfold append Record.push Record.set
  split
  · rw [if_neg hne]
  · rw [if_neg hne]
  · rw [if_neg hne]

theorem append_text (hkey : key ∉ objectMembers) (hproto : record.proto = none) {vs : List Text} (h : record.own.get key = ofValues vs) :
    (append record key value).own.get key = ofValues (vs ++ [value]) := by
  have hne : key ≠ underscoreProto := by
    rintro rfl
    exact hkey (by decide)
  have hinherited : record.inherited key = none := by rw [Record.inherited, if_neg hne, if_neg hkey, hproto]
  have hget : record.get key = ofValues vs := by rw [Record.get, hinherited, Option.or_none, h]
  unfold append
  rw [hget]
  match vs with
  | [] => exact set_own_self hne _
  | [first] => exact set_own_self hne _
  | first :: second :: rest => exact set_own_self hne _

/-- A member of `Object.prototype` takes the first place in what its name has. -/
def ofMember (key : Text) : List Text → Option Value
  | [] => none
  | value :: rest => some (.many (.member key) (value :: rest))

theorem append_member (hkey : key ∈ objectMembers) (hne : key ≠ underscoreProto) {vs : List Text} (h : record.own.get key = ofMember key vs) :
    (append record key value).own.get key = ofMember key (vs ++ [value]) := by
  have hinherited : record.inherited key = some (.single (.member key)) := by rw [Record.inherited, if_neg hne, if_pos hkey]
  match vs with
  | [] =>
    have hget : record.get key = some (.single (.member key)) := by
      rw [Record.get, h, hinherited]
      rfl
    unfold append
    rw [hget]
    exact set_own_self hne _
  | first :: rest =>
    have hget : record.get key = some (.many (.member key) (first :: rest)) := by
      rw [Record.get, h]
      rfl
    unfold append
    rw [hget]
    exact set_own_self hne _

theorem append_proto (h : record.own.get underscoreProto = none) (value : Text) :
    (append record underscoreProto value).proto ≠ none ∧ (append record underscoreProto value).own = record.own := by
  have hget : record.get underscoreProto = record.inherited underscoreProto := by rw [Record.get, h, Option.none_or]
  unfold append
  rw [hget, Record.inherited, if_pos rfl]
  cases record.proto with
  | none => exact ⟨Option.some_ne_none _, rfl⟩
  | some array => exact ⟨Option.some_ne_none _, rfl⟩

end Append

theorem accumulate_spec (entries : List (Text × Text)) :
    (accumulate entries).own.get underscoreProto = none ∧
    ((accumulate entries).proto = none ↔ valuesOf entries underscoreProto = []) ∧
    (∀ key ∈ objectMembers, key ≠ underscoreProto → (accumulate entries).own.get key = ofMember key (valuesOf entries key)) ∧
    (valuesOf entries underscoreProto = [] → ∀ key ∉ objectMembers, (accumulate entries).own.get key = ofValues (valuesOf entries key)) := by
  induction entries using List.reverseRecOn with
  | nil => exact ⟨rfl, ⟨fun _ => rfl, fun _ => rfl⟩, fun _ _ _ => rfl, fun _ _ _ => rfl⟩
  | append_singleton entries entry ih =>
    obtain ⟨key, value⟩ := entry
    obtain ⟨hown, hproto, hmembers, hothers⟩ := ih
    have hstep : accumulate (entries ++ [(key, value)]) = append (accumulate entries) key value := by
      rw [accumulate, List.foldl_append]
      rfl
    rw [hstep]
    by_cases hkey : key = underscoreProto
    · subst hkey
      obtain ⟨hne, heq⟩ := append_proto hown value
      rw [heq]
      refine ⟨hown, ?_, fun key hkey hkne => ?_, fun hnone => ?_⟩
      · rw [valuesOf_concat, if_pos rfl]
        exact ⟨fun h => absurd h hne, fun h => absurd h (List.append_ne_nil_of_right_ne_nil _ (List.cons_ne_nil _ _))⟩
      · rw [valuesOf_concat, if_neg (Ne.symm hkne), List.append_nil]
        exact hmembers key hkey hkne
      · rw [valuesOf_concat, if_pos rfl] at hnone
        exact absurd hnone (List.append_ne_nil_of_right_ne_nil _ (List.cons_ne_nil _ _))
    · have hsame : valuesOf (entries ++ [(key, value)]) underscoreProto = valuesOf entries underscoreProto := by
        rw [valuesOf_concat, if_neg hkey, List.append_nil]
      rw [hsame, append_proto_other hkey, append_own_other (Ne.symm hkey)]
      refine ⟨hown, hproto, fun key' hkey' hne => ?_, fun hnone key' hkey' => ?_⟩
      · rw [valuesOf_concat]
        split
        · next heq =>
          subst heq
          exact append_member hkey' hne (hmembers key hkey' hne)
        · next hother => rw [List.append_nil, append_own_other (Ne.symm hother), hmembers key' hkey' hne]
      · rw [valuesOf_concat]
        split
        · next heq =>
          subst heq
          exact append_text hkey' (hproto.2 hnone) (hothers hnone key hkey')
        · next hother => rw [List.append_nil, append_own_other (Ne.symm hother), hothers hnone key' hkey']

theorem valuesOf_eq_nil {entries : List (Text × Text)} {key : Text} : valuesOf entries key = [] ↔ ∀ entry ∈ entries, entry.1 ≠ key := by
  rw [valuesOf, List.map_eq_nil_iff, List.filter_eq_nil_iff]
  simp only [decide_eq_true_eq]

/-- A record whose prototype is as it was, and that holds texts only, is of entries that name no member. -/
structure Clean (record : Record) : Prop where
  proto : record.proto = none
  own : ∀ key first rest, record.own.get key = some (.many first rest) → ∃ value, first = .text value

theorem Exact.clean {entries : List (Text × Text)} {record : Record} (h : Exact entries record) (hproto : record.proto = none) : Clean record where
  proto := hproto
  own key first rest hget := by
    rw [h key] at hget
    generalize valuesOf entries key = values at hget
    match values with
    | [] => cases hget
    | [_] => cases hget
    | value :: _ :: _ =>
      cases hget
      exact ⟨value, rfl⟩

theorem noMember_of_clean {entries : List (Text × Text)} (h : Clean (accumulate entries)) : NoMember entries := by
  obtain ⟨-, hproto, hmembers, -⟩ := accumulate_spec entries
  intro entry hmem hkey
  by_cases hne : entry.1 = underscoreProto
  · exact valuesOf_eq_nil.1 (hproto.1 h.proto) entry hmem hne
  · have hget := hmembers entry.1 hkey hne
    match hvalues : valuesOf entries entry.1 with
    | [] => exact valuesOf_eq_nil.1 hvalues entry hmem rfl
    | value :: rest =>
      rw [hvalues] at hget
      obtain ⟨value, hvalue⟩ := h.own _ _ _ hget
      cases hvalue

theorem exact_of_noMember {entries : List (Text × Text)} (h : NoMember entries) : Exact entries (accumulate entries) := by
  obtain ⟨hown, -, hmembers, hothers⟩ := accumulate_spec entries
  have hnone {key : Text} (hkey : key ∈ objectMembers) : valuesOf entries key = [] :=
    valuesOf_eq_nil.2 fun entry hmem heq => h entry hmem (heq ▸ hkey)
  intro key
  by_cases hkey : key ∈ objectMembers
  · rw [hnone hkey]
    by_cases hne : key = underscoreProto
    · rw [hne, hown]
      rfl
    · rw [hmembers key hkey hne, hnone hkey]
      rfl
  · exact hothers (hnone (by decide)) key hkey

theorem exact_accumulate_iff {entries : List (Text × Text)} : Exact entries (accumulate entries) ↔ NoMember entries := by
  refine ⟨fun h => ?_, exact_of_noMember⟩
  obtain ⟨hown, hproto, -, -⟩ := accumulate_spec entries
  refine noMember_of_clean (h.clean (hproto.2 ?_))
  have hnone := h underscoreProto
  rw [hown] at hnone
  exact ofValues_inj hnone.symm

/-! ## Query strings -/

theorem notMem_rawName {entry : Text} : '=' ∉ Urlencoded.rawName entry := fun h => by
  simpa using List.mem_takeWhile_imp h

theorem rawName_append {name : Text} (h : '=' ∉ name) : Urlencoded.rawName (name ++ ['=']) = name := by
  have hall : ∀ c ∈ name, decide (c ≠ '=') = true := fun c hc => by simpa using ne_of_mem_of_not_mem hc h
  rw [Urlencoded.rawName, List.takeWhile_append_of_pos hall]
  simp

theorem fallback_key {name : Text} (hand : '&' ∉ name) (heq : '=' ∉ name) : decodeQueryComponentLikeUrlSearchParams name .key =
    Urlencoded.component (if name.head? = some '?' then name.tail else name) := by
  have hinit : (if (name ++ ['=']).head? = some '?' then (name ++ ['=']).tail else name ++ ['=']) =
      (if name.head? = some '?' then name.tail else name) ++ ['='] := by
    cases name with
    | nil => rfl
    | cons c name =>
      rw [List.cons_append, List.head?_cons, List.head?_cons, List.tail_cons, List.tail_cons]
      split <;> rfl
  have hsub : (if name.head? = some '?' then name.tail else name) ⊆ name := by
    split
    · exact List.tail_subset name
    · exact List.Subset.refl name
  have hparse : Urlencoded.parse ((if name.head? = some '?' then name.tail else name) ++ ['=']) = _ :=
    Urlencoded.parse_entry (by simpa using fun h => hand (hsub h)) (by simp)
  rw [decodeQueryComponentLikeUrlSearchParams, Urlencoded.searchParams, hinit, hparse, rawName_append fun h => heq (hsub h)]
  rfl

theorem fallback_value {value : Text} (hand : '&' ∉ value) : decodeQueryComponentLikeUrlSearchParams value .value =
    Urlencoded.component value := by
  have hparse : Urlencoded.parse ('x' :: '=' :: value) = _ := Urlencoded.parse_entry (by simpa using hand) (by simp)
  have hx : Urlencoded.component (Urlencoded.rawName ('x' :: '=' :: value)) = ['x'] := by
    have hname : Urlencoded.rawName ('x' :: '=' :: value) = ['x'] := by simp [Urlencoded.rawName]
    rw [hname]
    decide
  have hvalue : Urlencoded.rawValue ('x' :: '=' :: value) = value := by simp [Urlencoded.rawValue]
  have hsearch : Urlencoded.searchParams ('x' :: '=' :: value) = Urlencoded.parse ('x' :: '=' :: value) := rfl
  rw [decodeQueryComponentLikeUrlSearchParams, hsearch, hparse, hx, hvalue]
  simp

theorem decode_value {value : Text} (hand : '&' ∉ value) : decodeQueryComponent value .value = Urlencoded.component value := by
  unfold decodeQueryComponent
  cases hdecode : decodeURIComponent (plusToSpace value) with
  | none => exact fallback_value hand
  | some decoded => exact (Urlencoded.component_of_decodeURIComponent hdecode).symm

theorem decode_key {entry : Text} (hand : '&' ∉ entry) :
    Misread entry ∧ Urlencoded.component (Urlencoded.rawName entry) = '?' :: decodeQueryComponent (Urlencoded.rawName entry) .key ∨
    ¬ Misread entry ∧ decodeQueryComponent (Urlencoded.rawName entry) .key = Urlencoded.component (Urlencoded.rawName entry) := by
  have hname : '&' ∉ Urlencoded.rawName entry := fun h => hand (List.takeWhile_subset _ h)
  unfold Misread decodeQueryComponent
  cases hdecode : decodeURIComponent (plusToSpace (Urlencoded.rawName entry)) with
  | none =>
    rw [Option.getD_none, fallback_key hname notMem_rawName]
    split
    · next hhead =>
      refine .inl ⟨⟨hhead, rfl⟩, ?_⟩
      obtain ⟨rest, hrest⟩ := List.head?_eq_some_iff.1 hhead
      rw [hrest, List.tail_cons, Urlencoded.component_cons_question]
    · next hhead => exact .inr ⟨fun h => hhead h.1, rfl⟩
  | some decoded => exact .inr ⟨fun h => Option.some_ne_none _ h.2, (Urlencoded.component_of_decodeURIComponent hdecode).symm⟩

theorem searchParams_search (query : Option Text) : Urlencoded.searchParams (search query) = Urlencoded.parse (query.getD []) := by
  cases query <;> rfl

theorem parseQueryString_search (query : Option Text) : parseQueryString (search query) = accumulate (queryEntries (search query)) := by
  unfold parseQueryString
  split
  · next hlength =>
    match query with
    | none => rfl
    | some [] => rfl
    | some (_ :: _) => simp [search] at hlength
  · rfl

theorem queryEntries_search (query : Option Text) : queryEntries (search query) = (fields '&' (query.getD [])).map fun entry =>
    (decodeQueryComponent (Urlencoded.rawName entry) .key, Urlencoded.component (Urlencoded.rawValue entry)) := by
  have hentry : queryEntries (search query) = (fields '&' (query.getD [])).map fun entry =>
      (decodeQueryComponent (Urlencoded.rawName entry) .key, decodeQueryComponent (Urlencoded.rawValue entry) .value) := by
    cases query <;> rfl
  rw [hentry]
  refine List.map_congr_left fun entry hmem => ?_
  have hand : '&' ∉ Urlencoded.rawValue entry := fun h =>
    (notMem_fields hmem).1 (List.dropWhile_subset _ (List.drop_subset _ _ h))
  rw [decode_value hand]

theorem keys_perm {xs ys : List (Text × Text)} (h : ∀ key, valuesOf xs key = valuesOf ys key) :
    (xs.map Prod.fst).Perm (ys.map Prod.fst) := by
  have hcount (entries : List (Text × Text)) (key : Text) : (entries.map Prod.fst).count key = (valuesOf entries key).length := by
    rw [valuesOf, List.length_map, List.count, List.countP_map, List.countP_eq_length_filter]
    exact congrArg List.length (List.filter_congr fun entry _ => by simp [beq_eq_decide])
  rw [List.perm_iff_count]
  intro key
  rw [hcount, hcount, h]

theorem exactQuery_iff (query : Option Text) : ExactQuery query ↔
    NoMember (Urlencoded.searchParams (search query)) ∧ ∀ entry ∈ fields '&' (query.getD []), ¬ Misread entry := by
  have hnode : parseQueryParamsFromSearch (search query) = accumulate (Urlencoded.searchParams (search query)) := rfl
  have hparsed : Urlencoded.searchParams (search query) = (fields '&' (query.getD [])).map fun entry =>
      (Urlencoded.component (Urlencoded.rawName entry), Urlencoded.component (Urlencoded.rawValue entry)) := by
    rw [searchParams_search]
    rfl
  constructor
  · intro h
    have hmember : NoMember (Urlencoded.searchParams (search query)) := exact_accumulate_iff.1 h.node
    refine ⟨hmember, fun entry hentry hmisread => ?_⟩
    have hagree : accumulate (queryEntries (search query)) = accumulate (Urlencoded.searchParams (search query)) := by
      rw [← parseQueryString_search, h.agree, hnode]
    have hclean : Clean (accumulate (Urlencoded.searchParams (search query))) := by
      refine h.node.clean ((accumulate_spec _).2.1.2 (valuesOf_eq_nil.2 fun entry hmem heq => hmember entry hmem ?_))
      rw [heq]
      decide
    have hexact := exact_of_noMember (noMember_of_clean (hagree ▸ hclean))
    -- the keys are the same, as often, so that none is shorter than it should be
    have hperm := keys_perm fun key => ofValues_inj ((hexact key).symm.trans ((congrArg (·.own.get key) hagree).trans (h.node key)))
    have hsum := (hperm.map List.length).sum_eq
    rw [queryEntries_search, hparsed, List.map_map, List.map_map, List.map_map, List.map_map] at hsum
    refine absurd hsum (Nat.ne_of_lt (List.sum_lt_sum _ _ (fun entry hmem => ?_) ⟨entry, hentry, ?_⟩))
    · rcases decode_key (notMem_fields hmem).1 with ⟨-, hkey⟩ | ⟨-, hkey⟩
      · simp [hkey]
      · simp [hkey]
    · rcases decode_key (notMem_fields hentry).1 with ⟨-, hkey⟩ | ⟨hread, -⟩
      · simp [hkey]
      · exact absurd hmisread hread
  · rintro ⟨hmember, hread⟩
    have hentries : queryEntries (search query) = Urlencoded.searchParams (search query) := by
      rw [queryEntries_search, hparsed]
      refine List.map_congr_left fun entry hmem => ?_
      rcases decode_key (notMem_fields hmem).1 with ⟨hmisread, -⟩ | ⟨-, hkey⟩
      · exact absurd hmisread (hread entry hmem)
      · rw [hkey]
    have hweb : parseQueryString (search query) = accumulate (Urlencoded.searchParams (search query)) := by
      rw [parseQueryString_search, hentries]
    exact ⟨exact_of_noMember hmember, hweb ▸ exact_of_noMember hmember, hweb⟩

/-! ## Form fields -/

theorem parseEntry_fields {options : MultipartOptions} {result result' : MultipartResult} {entry : FormDataEntry}
    (h : parseEntry options result entry = .ok result') :
    result'.fields = (textEntries [entry]).foldl (fun record entry => append record entry.1 entry.2) result.fields := by
  cases entry with
  | text name value =>
    simp only [parseEntry] at h
    split at h
    · cases h
    · cases h
      rfl
  | file file =>
    simp only [parseEntry] at h
    split at h
    · cases h
    · split at h
      · cases h
      · split at h
        · cases h
        · cases h
          rfl

theorem parseMultipart_fields {options : MultipartOptions} {entries : List FormDataEntry} {result : MultipartResult}
    (h : parseMultipart options entries = .ok result) : result.fields = accumulate (textEntries entries) := by
  suffices ∀ start, entries.foldlM (parseEntry options) start = .ok result →
      result.fields = (textEntries entries).foldl (fun record entry => append record entry.1 entry.2) start.fields from this {} h
  clear h
  intro start h
  induction entries generalizing start with
  | nil =>
    cases h
    rfl
  | cons entry rest ih =>
    rw [List.foldlM_cons] at h
    obtain ⟨next, hnext, h⟩ := bind_eq_ok.1 h
    have hentries : textEntries (entry :: rest) = textEntries [entry] ++ textEntries rest := List.filterMap_append (l := [entry])
    rw [ih next h, hentries, List.foldl_append, parseEntry_fields hnext]

/-- What is parsed is exact, and the same for both factories, if and only if no key is the name of a member of `Object.prototype`, and no key
of a query that `decodeURIComponent` refuses begins with a question mark. -/
theorem exact_iff (query : Option Text) (options : MultipartOptions) (entries : List FormDataEntry) (parts : List (Text × Text)) :
    (ExactQuery query ↔ NoMember (Urlencoded.searchParams (search query)) ∧ ∀ entry ∈ fields '&' (query.getD []), ¬ Misread entry) ∧
    (∀ result, parseMultipart options entries = .ok result → (Exact (textEntries entries) result.fields ↔ NoMember (textEntries entries))) ∧
    (Exact parts (fastifyFields parts) ↔ NoMember parts) := by
  refine ⟨exactQuery_iff query, fun result hresult => ?_, exact_accumulate_iff⟩
  rw [parseMultipart_fields hresult]
  exact exact_accumulate_iff

/-- The record of `?__proto__=a` has no entry. -/
theorem not_exactQuery_proto : ¬ ∀ query, ExactQuery query := by
  intro h
  have hnone := (h (some "__proto__=a".toList)).node underscoreProto
  revert hnone
  decide

end Fluo.Runtime.Query
