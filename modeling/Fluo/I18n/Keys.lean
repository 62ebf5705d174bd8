import Fluo.I18n.Catalog
import Fluo.Lib.Joined
/-!
# Generated keys

A generated key is the path of a message, joined by dots. `translate` reads it as a name at
the top level, or takes it apart at its dots: it finds a message where one of the paths
with that dotted key can be read off it.
-/

namespace Fluo.I18n
open Fluo.Lib
open Fluo.Http.Mapping (slash trim trim_append_ne_nil)

/-! ## Paths -/

/-- The message at a path of names. -/
def MessageTree.at? (tree : MessageTree) : List Utf16 → Option Utf16
  | [] => tree.text
  | name :: rest => (tree.entries.get name).bind fun next => next.at? rest

def joinKey (path : List Utf16) : Utf16 := [dot].intercalate path

/-- What reading a catalog makes: every name is there once, and is not blank. -/
inductive MessageTree.Proper : MessageTree → Prop
  | message (text : Utf16) : Proper (.message text)
  | tree {proto : Option MessageTree} {entries : OrderedMap Utf16 MessageTree} : entries.Keyed →
      (∀ entry ∈ entries, trim entry.1 ≠ []) → (∀ entry ∈ entries, Proper entry.2) → Proper (.tree proto entries)

variable {before key name path : Utf16} {proto : Option MessageTree} {tree : MessageTree} {snapshot : Snapshot} {fields : List (Utf16 × Value)}
    {input : I18nCatalogTypegenInput} {normalized : NormalizedInput} {supportedLocales : Option (List Utf16)} {options : I18nModuleOptions}

theorem extend_of_ne_nil (h : before ≠ []) (key : Utf16) : extend before key = before ++ dot :: key := if_neg h

theorem collectEntries_eq (before : Utf16) (entries : List (Utf16 × MessageTree)) :
    collectEntries before entries = entries.map fun entry => (entry.1, collectLeafKeys (extend before entry.1) entry.2) := by
  induction entries with
  | nil => rfl
  | cons entry rest ih =>
    obtain ⟨key, value⟩ := entry
    rw [collectEntries, ih, List.map_cons]

theorem mem_collectLeafKeys_tree {entries : OrderedMap Utf16 MessageTree} :
    key ∈ collectLeafKeys before (.tree proto entries) ↔
      ∃ entry ∈ entries, key ∈ collectLeafKeys (extend before entry.1) entry.2 := by
  simp [collectLeafKeys, collectEntries_eq, List.mem_flatMap, List.mem_insertionSort]

theorem MessageTree.at?_cons {entries : OrderedMap Utf16 MessageTree} (hkeyed : entries.Keyed)
    {rest : List Utf16} {text : Utf16} :
    (MessageTree.tree proto entries).at? (name :: rest) = some text ↔ ∃ next, (name, next) ∈ entries ∧ next.at? rest = some text := by
  simp [MessageTree.at?, MessageTree.entries, Option.bind_eq_some_iff, OrderedMap.get_eq_some hkeyed]

theorem mem_collectLeafKeys (h : tree.Proper) :
    key ∈ collectLeafKeys before tree ↔ ∃ path text, tree.at? path = some text ∧ path.foldl extend before = key := by
  induction h generalizing before with
  | message text =>
    constructor
    · intro hkey
      exact ⟨[], text, rfl, (List.mem_singleton.1 hkey).symm⟩
    · rintro ⟨path, text', hat, rfl⟩
      cases path with
      | nil => exact List.mem_singleton_self _
      | cons name rest => cases hat
  | tree hkeyed _ _ ih =>
    rw [mem_collectLeafKeys_tree]
    constructor
    · rintro ⟨entry, hentry, hkey⟩
      obtain ⟨path, text, hat, rfl⟩ := (ih entry hentry).1 hkey
      exact ⟨entry.1 :: path, text, (MessageTree.at?_cons hkeyed).2 ⟨entry.2, hentry, hat⟩, rfl⟩
    · rintro ⟨path, text, hat, rfl⟩
      cases path with
      | nil => cases hat
      | cons name rest =>
        obtain ⟨next, hnext, hat⟩ := (MessageTree.at?_cons hkeyed).1 hat
        exact ⟨(name, next), hnext, (ih _ hnext).2 ⟨rest, text, hat, rfl⟩⟩

theorem foldl_extend (h : before ≠ []) (path : List Utf16) :
    path.foldl extend before = before ++ path.flatMap (dot :: ·) := by
  induction path generalizing before with
  | nil => simp
  | cons name rest ih =>
    rw [List.foldl_cons, extend_of_ne_nil h, ih (by simp)]
    simp

theorem foldl_extend_nil (h : name ≠ []) (rest : List Utf16) : (name :: rest).foldl extend [] = joinKey (name :: rest) := by
  have hfirst : extend [] name = name := if_pos rfl
  rw [List.foldl_cons, hfirst, foldl_extend h, joinKey, intercalate_cons_eq]

theorem ne_nil_of_trim (h : trim name ≠ []) : name ≠ [] := by
  rintro rfl
  exact h rfl

/-! ## Snapshots -/

abbrev Snapshot.Proper (snapshot : Snapshot) : Prop := (MessageTree.tree snapshot.1 snapshot.2).Proper

theorem assign_entries {snapshot' : Snapshot} {value : MessageTree} (h : assign snapshot key value = .ok snapshot') :
    snapshot'.2 = if key = protoName then snapshot.2 else snapshot.2.set key value := by
  unfold assign at h
  split
  · rw [if_pos ‹_›] at h
    cases value <;> cases h <;> rfl
  · rw [if_neg ‹_›, guard_eq_ok] at h
    cases h.2
    rfl

theorem proper_assign {snapshot' : Snapshot} {value : MessageTree} (h : assign snapshot key value = .ok snapshot')
    (hproper : snapshot.Proper) (hkey : trim key ≠ []) (hvalue : value.Proper) : snapshot'.Proper := by
  have hentries := assign_entries h
  cases hproper with
  | tree hkeyed hnames hall =>
    split at hentries
    · exact .tree (hentries ▸ hkeyed) (hentries ▸ hnames) (hentries ▸ hall)
    · have hcases (entry) (hentry : entry ∈ snapshot'.2) : entry = (key, value) ∨ entry ∈ snapshot.2 := by
        rw [hentries] at hentry
        exact (OrderedMap.eq_or_mem_of_mem_set hentry).imp (fun heq => Prod.ext heq.1 heq.2) id
      refine .tree (hentries ▸ hkeyed.set key value) (fun entry hentry => ?_) fun entry hentry => ?_
      · rcases hcases entry hentry with rfl | hentry
        · exact hkey
        · exact hnames entry hentry
      · rcases hcases entry hentry with rfl | hentry
        · exact hvalue
        · exact hall entry hentry

theorem snapshotEntries_cons {entry : Value} {rest : List (Utf16 × Value)} {done : Snapshot} :
    snapshotEntries path ((key, entry) :: rest) done = .ok snapshot ↔ trim key ≠ [] ∧
      ∃ value next, snapshotEntry (path ++ dot :: key) entry = .ok value ∧ assign done key value = .ok next ∧
        snapshotEntries path rest next = .ok snapshot := by
  rw [snapshotEntries]
  by_cases hkey : trim key = []
  · simp [hkey, bind, Except.bind, throw, throwThe, MonadExceptOf.throw]
  · rw [if_neg hkey]
    change (snapshotEntry _ _ >>= fun value => assign done key value >>= fun next => snapshotEntries path rest next) = .ok snapshot ↔ _
    simp only [bind_eq_ok, ne_eq, hkey, not_false_eq_true, true_and]
    constructor
    · rintro ⟨value, hvalue, next, hnext, hrest⟩
      exact ⟨value, next, hvalue, hnext, hrest⟩
    · rintro ⟨value, next, hvalue, hnext, hrest⟩
      exact ⟨value, hvalue, next, hnext, hrest⟩

mutual
theorem snapshotEntry_ok : ∀ {value : Value} {path : Utf16} {tree : MessageTree}, snapshotEntry path value = .ok tree →
    tree.Proper ∧ ∀ path', snapshotEntry path' value = .ok tree
  | .str text, _, _, h => by
    cases h
    exact ⟨.message text, fun _ => rfl⟩
  | .obj fields, _, _, h => by
    obtain ⟨snapshot, hsnapshot, h⟩ := bind_eq_ok.1 h
    cases h
    obtain ⟨hproper, hpath⟩ := snapshotEntries_ok hsnapshot (.tree List.nodup_nil (by simp) (by simp))
    refine ⟨hproper, fun path' => ?_⟩
    rw [snapshotEntry, hpath path']
    rfl
  | .other, _, _, h => by cases h
theorem snapshotEntries_ok : ∀ {fields : List (Utf16 × Value)} {path : Utf16} {done snapshot : Snapshot},
    snapshotEntries path fields done = .ok snapshot → done.Proper →
      snapshot.Proper ∧ ∀ path', snapshotEntries path' fields done = .ok snapshot
  | [], _, _, _, h, hdone => by
    cases h
    exact ⟨hdone, fun _ => rfl⟩
  | (key, entry) :: rest, _, _, _, h, hdone => by
    obtain ⟨hkey, value, next, hvalue, hnext, hrest⟩ := snapshotEntries_cons.1 h
    obtain ⟨hproper, hpath⟩ := snapshotEntry_ok hvalue
    obtain ⟨hproper', hpath'⟩ := snapshotEntries_ok hrest (proper_assign hnext hdone hkey hproper)
    exact ⟨hproper', fun path' => snapshotEntries_cons.2 ⟨hkey, value, next, hpath _, hnext, hpath' path'⟩⟩
end

theorem mem_snapshotEntries {done : Snapshot}
    (h : snapshotEntries path fields done = .ok snapshot) (hkeyed : OrderedMap.Keyed fields)
    (hnew : ∀ key ∈ fields.map Prod.fst, key ∉ done.2.map Prod.fst) :
    (name, tree) ∈ snapshot.2 ↔ (name ≠ protoName ∧ ∃ value, (name, value) ∈ fields ∧ snapshotEntry [] value = .ok tree) ∨ (name, tree) ∈ done.2 := by
  induction fields generalizing done with
  | nil =>
    cases h
    simp
  | cons field rest ih =>
    obtain ⟨key, entry⟩ := field
    obtain ⟨-, value, next, hvalue, hnext, hrest⟩ := snapshotEntries_cons.1 h
    have hpath := (snapshotEntry_ok hvalue).2 []
    rw [OrderedMap.Keyed, List.map_cons, List.nodup_cons] at hkeyed
    rw [List.map_cons, List.forall_mem_cons] at hnew
    have hentries := assign_entries hnext
    rw [OrderedMap.set_of_notMem hnew.1] at hentries
    have hnames : ∀ key' ∈ rest.map Prod.fst, key' ∉ next.2.map Prod.fst := by
      intro key' hkey'
      have hne : key' ≠ key := by
        rintro rfl
        exact hkeyed.1 hkey'
      rw [hentries]
      split
      · exact hnew.2 key' hkey'
      · simpa [hne] using hnew.2 key' hkey'
    rw [ih hrest hkeyed.2 hnames, hentries]
    by_cases hproto : key = protoName
    · rw [if_pos hproto]
      grind
    · rw [if_neg hproto]
      grind

/-! ## Registration -/

/-- What an input adds to the catalog of its locale: its messages under its namespace, or as they are. -/
def I18nCatalogTypegenInput.entries (input : I18nCatalogTypegenInput) : List (Utf16 × Value) :=
  match input.ns, input.messages with
  | some ns, messages => [(ns, messages)]
  | none, .obj fields => fields
  | none, _ => []

/-- The catalog of each locale is the object of what the inputs of this locale add to it. -/
structure Registers (catalogs : OrderedMap Utf16 Value) (inputs : List I18nCatalogTypegenInput) : Prop where
  keyed : catalogs.Keyed
  named : ∀ input ∈ inputs, OrderedMap.Keyed input.entries
  locales : ∀ locale, locale ∈ catalogs.map Prod.fst ↔ ∃ input ∈ inputs, input.locale = locale
  entries : ∀ locale value, (locale, value) ∈ catalogs → ∃ fields, value = .obj fields ∧ OrderedMap.Keyed fields ∧
    ∀ entry, entry ∈ fields ↔ ∃ input ∈ inputs, input.locale = locale ∧ entry ∈ input.entries

def Says (fields : List (Utf16 × Value)) (path : List Utf16) (text : Utf16) : Prop :=
  ∃ name rest value tree, path = name :: rest ∧ name ≠ protoName ∧ (name, value) ∈ fields ∧
    snapshotEntry [] value = .ok tree ∧ tree.at? rest = some text

theorem at?_snapshot
    (h : snapshotEntries before fields (none, []) = .ok snapshot) (hkeyed : OrderedMap.Keyed fields) {path : List Utf16} {text : Utf16} :
    (MessageTree.tree snapshot.1 snapshot.2).at? path = some text ↔ Says fields path text := by
  have hproper := (snapshotEntries_ok h (.tree List.nodup_nil (by simp) (by simp))).1
  have hmem (name : Utf16) (tree : MessageTree) : (name, tree) ∈ snapshot.2 ↔ _ := mem_snapshotEntries h hkeyed (by simp)
  cases hproper with
  | tree hsnapshot _ _ =>
    constructor
    · intro hat
      cases path with
      | nil => cases hat
      | cons name rest =>
        obtain ⟨tree, htree, hat⟩ := (MessageTree.at?_cons hsnapshot).1 hat
        rw [hmem] at htree
        obtain ⟨hname, value, hvalue, hok⟩ := htree.resolve_right (by simp)
        exact ⟨name, rest, value, tree, rfl, hname, hvalue, hok, hat⟩
    · rintro ⟨name, rest, value, tree, rfl, hname, hvalue, hok, hat⟩
      exact (MessageTree.at?_cons hsnapshot).2 ⟨tree, (hmem name tree).2 (.inl ⟨hname, value, hvalue, hok⟩), hat⟩

theorem snapshotMessageTree_ok {value : Value} (h : snapshotMessageTree path value = .ok tree) :
    ∃ fields snapshot, value = .obj fields ∧ snapshotEntries path fields (none, []) = .ok snapshot ∧ tree = .tree snapshot.1 snapshot.2 := by
  cases value with
  | str text => cases h
  | other => cases h
  | obj fields =>
    obtain ⟨snapshot, hsnapshot, h⟩ := bind_eq_ok.1 h
    cases h
    exact ⟨fields, snapshot, rfl, hsnapshot, rfl⟩

theorem unsafe_protoName : isSafeSegment protoName = false := by decide

theorem namespace_ok {ns label : Utf16} (h : validateLoaderNamespace ns label = .ok ()) : ns ≠ [] ∧ ns ≠ protoName := by
  rw [validateLoaderNamespace, guard_eq_ok] at h
  obtain ⟨hblank, h⟩ := h
  refine ⟨ne_nil_of_trim hblank, ?_⟩
  rintro rfl
  rw [guard_eq_ok, guard_eq_ok] at h
  have hsegments : (normalizeSeparators protoName).splitOn slash = [protoName] := by decide
  rw [hsegments] at h
  simp [unsafe_protoName] at h

theorem mapError_eq_ok {ε ε' α : Type} {x : Except ε α} {f : ε → ε'} {a : α} : x.mapError f = .ok a ↔ x = .ok a := by
  cases x <;> simp [Except.mapError]

theorem normalizeInput_ok (h : normalizeInput input = .ok normalized) :
    normalized.ns = input.ns ∧ (∀ ns, input.ns = some ns → ns ≠ [] ∧ ns ≠ protoName) ∧
      ∃ path, snapshotMessageTree path input.messages = .ok normalized.messages := by
  obtain ⟨-, h⟩ := seq_eq_ok.1 h
  cases hns : input.ns with
  | none =>
    rw [hns] at h
    obtain ⟨tree, htree, h⟩ := bind_eq_ok.1 h
    cases h
    exact ⟨rfl, by simp, _, htree⟩
  | some ns =>
    rw [hns] at h
    obtain ⟨hvalid, h⟩ := seq_eq_ok.1 h
    obtain ⟨tree, htree, h⟩ := bind_eq_ok.1 h
    cases h
    refine ⟨rfl, ?_, _, htree⟩
    rintro _ ⟨⟩
    exact namespace_ok (mapError_eq_ok.1 hvalid)

theorem joinKey_cons {next : Utf16} (rest : List Utf16) : joinKey (name :: next :: rest) = name ++ dot :: joinKey (next :: rest) := by
  simp [joinKey, intercalate_cons_eq]

theorem mem_keysOf (h : normalizeInput input = .ok normalized)
    (hkeyed : OrderedMap.Keyed input.entries) :
    key ∈ keysOf normalized ↔ ∃ path text, Says input.entries path text ∧ joinKey path = key := by
  obtain ⟨hns, hnames, before, htree⟩ := normalizeInput_ok h
  obtain ⟨fields, snapshot, hfields, hsnapshot, hmessages⟩ := snapshotMessageTree_ok htree
  obtain ⟨hproper, hpath⟩ := snapshotEntries_ok hsnapshot (.tree List.nodup_nil (by simp) (by simp))
  -- the leaf keys, in terms of the paths below the namespace
  have hleaf (key : Utf16) : key ∈ collectLeafKeys [] normalized.messages ↔
      ∃ name rest text, normalized.messages.at? (name :: rest) = some text ∧ joinKey (name :: rest) = key := by
    rw [hmessages, mem_collectLeafKeys hproper]
    cases hproper with
    | tree hentries hblank _ =>
      constructor
      · rintro ⟨path, text, hat, rfl⟩
        cases path with
        | nil => cases hat
        | cons name rest =>
          obtain ⟨next, hnext, -⟩ := (MessageTree.at?_cons hentries).1 hat
          exact ⟨name, rest, text, hat, (foldl_extend_nil (ne_nil_of_trim (hblank _ hnext)) rest).symm⟩
      · rintro ⟨name, rest, text, hat, rfl⟩
        obtain ⟨next, hnext, -⟩ := (MessageTree.at?_cons hentries).1 hat
        exact ⟨name :: rest, text, hat, foldl_extend_nil (ne_nil_of_trim (hblank _ hnext)) rest⟩
  unfold keysOf
  rw [hns]
  cases hinput : input.ns with
  | none =>
    have hentries : input.entries = fields := by rw [I18nCatalogTypegenInput.entries, hinput, hfields]
    rw [hentries] at hkeyed ⊢
    dsimp only
    rw [hleaf, hmessages]
    constructor
    · rintro ⟨name, rest, text, hat, hkey⟩
      exact ⟨name :: rest, text, (at?_snapshot hsnapshot hkeyed).1 hat, hkey⟩
    · rintro ⟨path, text, hsays, hkey⟩
      obtain ⟨name, rest, -, -, rfl, -⟩ := id hsays
      exact ⟨name, rest, text, (at?_snapshot hsnapshot hkeyed).2 hsays, hkey⟩
  | some ns =>
    obtain ⟨-, hproto⟩ := hnames ns hinput
    have hentries : input.entries = [(ns, input.messages)] := by rw [I18nCatalogTypegenInput.entries, hinput]
    have hmessage : snapshotEntry [] input.messages = .ok normalized.messages := by
      rw [hfields, snapshotEntry, hpath [], hmessages]
      rfl
    rw [hentries]
    dsimp only
    rw [List.mem_map]
    constructor
    · rintro ⟨leafKey, hkey, rfl⟩
      obtain ⟨name, rest, text, hat, rfl⟩ := (hleaf leafKey).1 hkey
      exact ⟨ns :: name :: rest, text, ⟨ns, _, _, _, rfl, hproto, List.mem_singleton_self _, hmessage, hat⟩, joinKey_cons rest⟩
    · rintro ⟨path, text, ⟨name, rest, value, tree, rfl, -, hvalue, hok, hat⟩, rfl⟩
      cases List.mem_singleton.1 hvalue
      rw [hmessage] at hok
      cases hok
      cases rest with
      | nil =>
        rw [hmessages] at hat
        cases hat
      | cons next rest => exact ⟨_, (hleaf _).2 ⟨next, rest, text, hat, rfl⟩, (joinKey_cons rest).symm⟩

/-! ## The service -/

theorem snapshotCatalog_ok {entry : Utf16 × Value} {registered : Utf16 × MessageTree}
    (h : snapshotCatalog supportedLocales entry = .ok registered) :
    registered.1 = entry.1 ∧ trim entry.1 ≠ [] ∧ supportedLocales.all (entry.1 ∈ ·) = true ∧
      ∃ path, snapshotMessageTree path entry.2 = .ok registered.2 := by
  obtain ⟨hlocale, h⟩ := seq_eq_ok.1 h
  obtain ⟨hsupported, h⟩ := seq_eq_ok.1 h
  obtain ⟨tree, htree, h⟩ := bind_eq_ok.1 h
  cases h
  rw [assertLocale, guard_eq_ok] at hlocale
  exact ⟨rfl, hlocale.1, check_eq_ok.1 hsupported, _, htree⟩

theorem create_ok {service : I18nService} (h : I18nService.create options = .ok service) :
    service.options = options ∧ (options.catalogs.getD []).mapM (snapshotCatalog options.supportedLocales) = .ok service.catalogs := by
  obtain ⟨-, h⟩ := seq_eq_ok.1 h
  obtain ⟨catalogs, hcatalogs, h⟩ := bind_eq_ok.1 h
  obtain ⟨-, h⟩ := seq_eq_ok.1 h
  cases h
  exact ⟨rfl, hcatalogs⟩

theorem keys_mapM {catalogs : OrderedMap Utf16 Value} {registered : OrderedMap Utf16 MessageTree}
    (h : catalogs.mapM (snapshotCatalog supportedLocales) = .ok registered) : registered.map Prod.fst = catalogs.map Prod.fst := by
  induction catalogs generalizing registered with
  | nil =>
    cases h
    rfl
  | cons entry rest ih =>
    rw [List.mapM_cons, bind_eq_ok] at h
    obtain ⟨first, hfirst, h⟩ := h
    obtain ⟨others, hothers, h⟩ := bind_eq_ok.1 h
    cases h
    rw [List.map_cons, List.map_cons, ih hothers, (snapshotCatalog_ok hfirst).1]

theorem pushUnique_cons (locale : Utf16) (locales : List Utf16) (more : List Utf16) :
    ∃ others, more.foldl pushUnique (locale :: locales) = locale :: others := by
  induction more generalizing locales with
  | nil => exact ⟨locales, rfl⟩
  | cons next more ih =>
    rw [List.foldl_cons, pushUnique]
    split
    · exact ih locales
    · exact ih (locales ++ [next])

/-- `translate` finds a message under some registered locale. -/
def Finds (service : I18nService) (key : Utf16) : Prop :=
  ∃ locale ∈ service.catalogs.map Prod.fst, ∃ found, service.translate key none locale = .ok found

/-- The keys are those that `translate` finds a message for. -/
def Agree (keys : List Utf16) (service : I18nService) : Prop := ∀ key, key ∈ keys ↔ Finds service key

theorem finds_iff {service : I18nService} (h : I18nService.create options = .ok service)
    (hkeyed : service.catalogs.Keyed) :
    Finds service key ↔ trim key ≠ [] ∧ ∃ entry ∈ service.catalogs, ∃ text, resolveCatalogMessage entry.2 key = some text := by
  obtain ⟨hoptions, hmapM⟩ := create_ok h
  constructor
  · rintro ⟨locale, -, found, htranslate⟩
    obtain ⟨resolvedKey, hresolved, htranslate⟩ := bind_eq_ok.1 htranslate
    rw [normalizeTranslationKey, guard_eq_ok] at hresolved
    obtain ⟨hkey, hresolved⟩ := hresolved
    cases hresolved
    obtain ⟨locales, -, htranslate⟩ := bind_eq_ok.1 htranslate
    refine ⟨hkey, ?_⟩
    split at htranslate
    next found' hfound =>
      obtain ⟨other, -, hother⟩ := List.exists_of_findSome?_eq_some hfound
      obtain ⟨text, htext, -⟩ := Option.map_eq_some_iff.1 hother
      obtain ⟨tree, htree, htext⟩ := Option.bind_eq_some_iff.1 htext
      exact ⟨_, OrderedMap.mem_of_get htree, text, htext⟩
    next => cases htranslate
  · rintro ⟨hkey, entry, hentry, text, htext⟩
    obtain ⟨locale, tree⟩ := entry
    obtain ⟨raw, -, hraw⟩ := mem_of_mapM_eq_ok hmapM hentry
    obtain ⟨hlocale, hblank, hsupported, -⟩ := snapshotCatalog_ok hraw
    cases hlocale
    refine ⟨raw.1, List.mem_map_of_mem hentry, (raw.1, text), ?_⟩
    obtain ⟨others, hothers⟩ := pushUnique_cons raw.1 [] (service.fallbackChain raw.1 ++ service.options.defaultLocale.toList)
    have hlocales : service.resolveLocales raw.1 = .ok (raw.1 :: others) := by
      rw [I18nService.resolveLocales, if_neg hblank, hoptions, if_pos hsupported, ← hoptions, hothers]
    have hresolved : normalizeTranslationKey key none = .ok key := if_neg hkey
    rw [I18nService.translate, hresolved, ok_bind, hlocales, ok_bind, List.findSome?_cons, (OrderedMap.get_eq_some hkeyed).2 hentry,
      Option.bind_some, htext]
    rfl

/-! ## Lookup -/

/-- The path can be read off its dotted key: no name has a dot in it, no name at the top level is the dotted key, and
every object on the way is plain. -/
structure Legible (tree : MessageTree) (path : List Utf16) : Prop where
  dotless : ∀ name ∈ path, dot ∉ name
  unshadowed : tree.entries.get (joinKey path) = none
  plain : (walk tree path).isSome = true

theorem at?_of_walk {current : MessageTree} {path : List Utf16} (h : walk tree path = some current) : tree.at? path = current.text := by
  induction path generalizing tree with
  | nil =>
    cases h
    rfl
  | cons name rest ih =>
    cases tree with
    | message text => cases h
    | tree proto entries =>
      cases proto with
      | some proto => cases h
      | none =>
        obtain ⟨next, hnext, hwalk⟩ := Option.bind_eq_some_iff.1 h
        rw [MessageTree.at?, MessageTree.entries, hnext, Option.bind_some, ih hwalk]

theorem resolveCatalogMessage_iff (htree : tree.text = none) :
    (∃ text, resolveCatalogMessage tree key = some text) ↔
      ∃ path text, tree.at? path = some text ∧ joinKey path = key ∧ (path.length = 1 ∨ Legible tree path) := by
  unfold resolveCatalogMessage
  constructor
  · rintro ⟨text, hresolve⟩
    split at hresolve
    next direct hget =>
      exact ⟨[key], text, by rw [MessageTree.at?, hget]; exact hresolve, List.intercalate_singleton, .inl rfl⟩
    next hget =>
      obtain ⟨current, hwalk, htext⟩ := Option.bind_eq_some_iff.1 hresolve
      have hjoin : joinKey (key.splitOn dot) = key := List.intercalate_splitOn dot
      refine ⟨key.splitOn dot, text, (at?_of_walk hwalk).trans htext, hjoin, .inr ⟨notMem_of_mem_splitOn dot key, ?_, ?_⟩⟩
      · rw [hjoin, hget]
      · rw [hwalk]
        rfl
  · rintro ⟨path, text, hat, rfl, hone | hlegible⟩
    · obtain ⟨name, rfl⟩ := List.length_eq_one_iff.1 hone
      obtain ⟨next, hnext, hat⟩ := Option.bind_eq_some_iff.1 hat
      rw [joinKey, List.intercalate_singleton, hnext]
      exact ⟨text, hat⟩
    · have hne : path ≠ [] := by
        rintro rfl
        exact absurd (htree.symm.trans hat) (by simp)
      rw [hlegible.unshadowed, joinKey, List.splitOn_intercalate dot hlegible.dotless hne]
      obtain ⟨current, hwalk⟩ := Option.isSome_iff_exists.1 hlegible.plain
      exact ⟨text, by rw [hwalk, Option.bind_some, ← at?_of_walk hwalk, hat]⟩

/-- Some message of the dotted key is at the top level of its catalog or legible. -/
def Readable (catalogs : OrderedMap Utf16 MessageTree) (key : Utf16) : Prop :=
  ∃ entry ∈ catalogs, ∃ path text, entry.2.at? path = some text ∧ joinKey path = key ∧ (path.length = 1 ∨ Legible entry.2 path)

/-- The dotted key of every message below the top level is that of one which is at the top level or legible. -/
def Spelled (catalogs : OrderedMap Utf16 MessageTree) : Prop :=
  ∀ entry ∈ catalogs, ∀ path text, entry.2.at? path = some text → 2 ≤ path.length → Readable catalogs (joinKey path)

section Service

variable {inputs : List I18nCatalogTypegenInput} {keys : List Utf16} {options : I18nModuleOptions} {service : I18nService}
  (hkeys : generateI18nCatalogTypes inputs = .ok keys) (hservice : I18nService.create options = .ok service)
  (hregisters : Registers (options.catalogs.getD []) inputs)
include hservice hregisters

theorem registered_keyed : service.catalogs.Keyed := by
  rw [OrderedMap.Keyed, keys_mapM (create_ok hservice).2]
  exact hregisters.keyed

theorem registered_at? {entry : Utf16 × MessageTree} (hentry : entry ∈ service.catalogs) :
    entry.2.text = none ∧ entry.2.Proper ∧ ∀ path text, entry.2.at? path = some text ↔
      ∃ input ∈ inputs, input.locale = entry.1 ∧ Says input.entries path text := by
  obtain ⟨raw, hraw, hok⟩ := mem_of_mapM_eq_ok (create_ok hservice).2 hentry
  obtain ⟨hlocale, -, -, path, htree⟩ := snapshotCatalog_ok hok
  obtain ⟨fields, hfields, hkeyed, hmem⟩ := hregisters.entries raw.1 raw.2 hraw
  obtain ⟨fields', snapshot, hfields', hsnapshot, hentry⟩ := snapshotMessageTree_ok htree
  cases hfields.symm.trans hfields'
  rw [hentry, hlocale]
  refine ⟨rfl, (snapshotEntries_ok hsnapshot (.tree List.nodup_nil (by simp) (by simp))).1, fun path text => ?_⟩
  rw [at?_snapshot hsnapshot hkeyed]
  constructor
  · rintro ⟨name, rest, value, tree, rfl, hname, hvalue, hok, hat⟩
    obtain ⟨input, hinput, hlocale, hvalue⟩ := (hmem _).1 hvalue
    exact ⟨input, hinput, hlocale, name, rest, value, tree, rfl, hname, hvalue, hok, hat⟩
  · rintro ⟨input, hinput, hlocale, name, rest, value, tree, rfl, hname, hvalue, hok, hat⟩
    exact ⟨name, rest, value, tree, rfl, hname, (hmem _).2 ⟨input, hinput, hlocale, hvalue⟩, hok, hat⟩

theorem finds_iff_readable {key : Utf16} : Finds service key ↔ trim key ≠ [] ∧ Readable service.catalogs key := by
  rw [finds_iff hservice (registered_keyed hservice hregisters)]
  constructor
  · rintro ⟨hkey, entry, hentry, hresolve⟩
    have htree := (registered_at? hservice hregisters hentry).1
    exact ⟨hkey, entry, hentry, (resolveCatalogMessage_iff htree).1 hresolve⟩
  · rintro ⟨hkey, entry, hentry, hread⟩
    have htree := (registered_at? hservice hregisters hentry).1
    exact ⟨hkey, entry, hentry, (resolveCatalogMessage_iff htree).2 hread⟩

include hkeys

theorem mem_keys {key : Utf16} : key ∈ keys ↔ ∃ entry ∈ service.catalogs, ∃ path text, entry.2.at? path = some text ∧ joinKey path = key := by
  obtain ⟨normalized, hnormalized, hkeys⟩ := bind_eq_ok.1 hkeys
  cases hkeys
  rw [List.mem_insertionSort, List.mem_eraseDups, List.mem_flatMap]
  constructor
  · rintro ⟨n, hn, hkey⟩
    obtain ⟨input, hinput, hok⟩ := mem_of_mapM_eq_ok hnormalized hn
    obtain ⟨path, text, hsays, rfl⟩ := (mem_keysOf hok (hregisters.named input hinput)).1 hkey
    obtain ⟨raw, hraw, hlocale⟩ := List.mem_map.1 ((hregisters.locales input.locale).2 ⟨input, hinput, rfl⟩)
    obtain ⟨entry, hentry, hcatalog⟩ := exists_of_mapM_eq_ok (create_ok hservice).2 hraw
    have hsame : input.locale = entry.1 := by rw [(snapshotCatalog_ok hcatalog).1, hlocale]
    exact ⟨entry, hentry, path, text, ((registered_at? hservice hregisters hentry).2.2 path text).2 ⟨input, hinput, hsame, hsays⟩, rfl⟩
  · rintro ⟨entry, hentry, path, text, hat, rfl⟩
    obtain ⟨input, hinput, -, hsays⟩ := ((registered_at? hservice hregisters hentry).2.2 path text).1 hat
    obtain ⟨n, hn, hok⟩ := exists_of_mapM_eq_ok hnormalized hinput
    exact ⟨n, hn, (mem_keysOf hok (hregisters.named input hinput)).2 ⟨path, text, hsays, rfl⟩⟩

end Service

private def en : Utf16 := units "en"

/-- A message at the top level, and a nested one in a namespace. -/
private def savedInputs : List I18nCatalogTypegenInput :=
  [{ locale := en, messages := .obj [(units "title", .str (units "Title"))] },
   { locale := en, ns := some (units "common"), messages := .obj [(units "save", .obj [(units "all", .str (units "Save"))])] }]

private def savedOptions : I18nModuleOptions where
  defaultLocale := some en
  catalogs := some [(en, .obj [(units "title", .str (units "Title")),
    (units "common", .obj [(units "save", .obj [(units "all", .str (units "Save"))])])])]

private def savedService : I18nService where
  options := savedOptions
  catalogs := [(en, .tree none [(units "title", .message (units "Title")),
    (units "common", .tree none [(units "save", .tree none [(units "all", .message (units "Save"))])])])]

private theorem registers_saved : Registers (savedOptions.catalogs.getD []) savedInputs where
  keyed := by simp [savedOptions, OrderedMap.Keyed]
  named := by
    simp only [savedInputs, List.forall_mem_cons]
    exact ⟨by simp [I18nCatalogTypegenInput.entries, OrderedMap.Keyed], by simp [I18nCatalogTypegenInput.entries, OrderedMap.Keyed], by simp⟩
  locales locale := by simp [savedOptions, savedInputs, eq_comm]
  entries locale value h := by
    cases List.mem_singleton.1 h
    have hkeyed : ([units "title", units "common"] : List Utf16).Nodup := by decide
    exact ⟨_, rfl, hkeyed, fun entry => by simp [savedInputs, I18nCatalogTypegenInput.entries]⟩

private def dottedMessages : Value := .obj [(units "a", .obj [(units "b.c", .str (units "Text"))])]

private def dottedService : I18nService where
  options := { defaultLocale := some en, catalogs := some [(en, dottedMessages)] }
  catalogs := [(en, .tree none [(units "a", .tree none [(units "b.c", .message (units "Text"))])])]

private theorem registers_dotted : Registers [(en, dottedMessages)] [{ locale := en, messages := dottedMessages }] where
  keyed := by simp [OrderedMap.Keyed]
  named := by simp [I18nCatalogTypegenInput.entries, dottedMessages, OrderedMap.Keyed]
  locales locale := by simp [eq_comm]
  entries locale value h := by
    cases List.mem_singleton.1 h
    exact ⟨_, rfl, by simp [OrderedMap.Keyed], fun entry => by simp [I18nCatalogTypegenInput.entries, dottedMessages]⟩

end Fluo.I18n
