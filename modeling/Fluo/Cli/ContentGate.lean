import Fluo.Lib.Utf8
/-!
# The content gate of the development runner

`createContentChangeGate`: what is at or below the paths of a batch is compared with what
was recorded for it. Paths are relative to the project.
-/

namespace Fluo.Cli
open Fluo.Lib

abbrev Path := List Text

mutual
/-- What `statSync` finds at a path. -/
inductive Entry (Content : Type)
  | file (content : Content)
  | directory (entries : Directory Content)
  | other
inductive Directory (Content : Type)
  | nil
  | cons (name : Text) (entry : Entry Content) (rest : Directory Content)
end

variable {Content Digest : Type}

def Directory.entry : Directory Content → Text → Option (Entry Content)
  | .nil, _ => none
  | .cons name entry rest, sought => if name = sought then some entry else rest.entry sought

namespace Entry

def stat : Entry Content → Path → Option (Entry Content)
  | entry, [] => some entry
  | .directory entries, name :: path => (entries.entry name).bind (·.stat path)
  | _, _ :: _ => none

/-- The content of the file at a path, if there is one. -/
def contentAt (disk : Entry Content) (path : Path) : Option Content :=
  match disk.stat path with
  | some (.file content) => some content
  | _ => none

theorem stat_append (entry : Entry Content) (p q : Path) : entry.stat (p ++ q) = (entry.stat p).bind (·.stat q) := by
  induction p generalizing entry with
  | nil => rfl
  | cons name p ih =>
    cases entry with
    | directory entries =>
      simp only [List.cons_append, stat]
      cases entries.entry name with
      | none => rfl
      | some entry => exact ih entry
    | file content => rfl
    | other => rfl

end Entry

/-! ## Ignored paths -/

def defaultIgnores : List Text :=
  [".cache".toList, ".fluo".toList, ".git".toList, ".turbo".toList, "coverage".toList, "dist".toList, "node_modules".toList, "*.swp".toList,
    "*.swo".toList, "*~".toList, ".#*".toList]

def matchesSegmentPattern (segment pattern : Text) : Bool :=
  if ['*', '.'].isPrefixOf pattern then (pattern.drop 1).isSuffixOf segment
  else if pattern.getLast? = some '*' then pattern.dropLast.isPrefixOf segment
  else segment = pattern

def shouldIgnorePath (ignorePatterns : List Text) (path : Path) : Bool :=
  path.head?.any ['.', '.'].isPrefixOf || path.any fun segment => ignorePatterns.any (matchesSegmentPattern segment)

theorem shouldIgnorePath_append {ignorePatterns : List Text} {p : Path} (q : Path) (h : shouldIgnorePath ignorePatterns (p ++ q) = false) :
    shouldIgnorePath ignorePatterns p = false := by
  cases p with
  | nil => rfl
  | cons name p =>
    simp only [shouldIgnorePath, List.cons_append, List.head?_cons, List.any_cons, List.any_append, Bool.or_eq_false_iff] at h ⊢
    exact ⟨h.1, h.2.1, h.2.2.1⟩

/-! ## The gate -/

mutual
/-- `collectContentPaths` of a path where there is an entry. -/
def collectEntry (ignorePatterns : List Text) (path : Path) : Entry Content → List Path
  | .file _ => if shouldIgnorePath ignorePatterns path then [] else [path]
  | .directory entries => if shouldIgnorePath ignorePatterns path then [] else collectEntries ignorePatterns path entries
  | .other => []
def collectEntries (ignorePatterns : List Text) (path : Path) : Directory Content → List Path
  | .nil => []
  | .cons name entry rest => collectEntry ignorePatterns (path ++ [name]) entry ++ collectEntries ignorePatterns path rest
end

/-- A path where there is nothing is collected itself. -/
def collectContentPaths (ignorePatterns : List Text) (disk : Entry Content) (path : Path) : List Path :=
  match disk.stat path with
  | some entry => collectEntry ignorePatterns path entry
  | none => if shouldIgnorePath ignorePatterns path then [] else [path]

def collectWatchedContentPaths (ignorePatterns : List Text) (disk : Entry Content) (paths : List Path) : List Path :=
  paths.flatMap (collectContentPaths ignorePatterns disk)

/-- `digest` is SHA-256. -/
def hashFileContent (digest : Content → Digest) (disk : Entry Content) (path : Path) : Option Digest := (disk.contentAt path).map digest

def commitBaseline (digest : Content → Digest) (ignorePatterns : List Text) (disk : Entry Content) (paths : List Path) (hashes : Path → Option Digest) :
    Path → Option Digest :=
  let collected := collectWatchedContentPaths ignorePatterns disk paths
  fun path => if path ∈ collected then hashFileContent digest disk path else hashes path

def hasMeaningfulChange [DecidableEq Digest] (digest : Content → Digest) (ignorePatterns : List Text) (disk : Entry Content) (hashes : Path → Option Digest)
    (paths : List Path) : Bool :=
  (collectWatchedContentPaths ignorePatterns disk paths).any fun path => hashes path ≠ hashFileContent digest disk path

variable {ignorePatterns : List Text} {disk : Entry Content}

theorem collectEntry_subset {path : Path} {name : Text} {entry : Entry Content} : ∀ {entries : Directory Content}, entries.entry name = some entry →
    collectEntry ignorePatterns (path ++ [name]) entry ⊆ collectEntries ignorePatterns path entries
  | .nil, h => by cases h
  | .cons first found rest, h => by
    simp only [Directory.entry] at h
    simp only [collectEntries]
    split at h
    · next heq =>
      subst heq
      cases h
      exact List.subset_append_left _ _
    · exact List.subset_append_of_subset_right _ (collectEntry_subset h)

theorem mem_collectEntry {entry : Entry Content} {path q : Path} {content : Content} (h : entry.stat q = some (.file content))
    (hkept : shouldIgnorePath ignorePatterns (path ++ q) = false) : path ++ q ∈ collectEntry ignorePatterns path entry := by
  induction q generalizing entry path with
  | nil =>
    cases h
    rw [List.append_nil] at hkept
    simp [collectEntry, hkept]
  | cons name q ih =>
    cases entry with
    | directory entries =>
      simp only [Entry.stat] at h
      obtain ⟨entry, hentry, h⟩ := Option.bind_eq_some_iff.1 h
      have hmem : path ++ [name] ++ q ∈ collectEntry ignorePatterns (path ++ [name]) entry := ih h (by simpa using hkept)
      simp only [collectEntry, shouldIgnorePath_append _ hkept]
      simpa using collectEntry_subset hentry hmem
    | file _ => cases h
    | other => cases h

theorem mem_collectContentPaths {p q : Path} (hbelow : p <+: q) (hkept : shouldIgnorePath ignorePatterns q = false)
    (h : (disk.contentAt q).isSome = true ∨ q = p ∧ disk.stat q = none) : q ∈ collectContentPaths ignorePatterns disk p := by
  obtain ⟨r, rfl⟩ := hbelow
  unfold collectContentPaths
  rcases h with h | ⟨heq, hnone⟩
  · obtain ⟨content, hcontent⟩ : ∃ content, disk.stat (p ++ r) = some (.file content) := by
      unfold Entry.contentAt at h
      split at h
      · next content hstat => exact ⟨content, hstat⟩
      · cases h
    rw [Entry.stat_append] at hcontent
    obtain ⟨entry, hentry, hfile⟩ := Option.bind_eq_some_iff.1 hcontent
    rw [hentry]
    exact mem_collectEntry hfile hkept
  · rw [heq] at hnone hkept ⊢
    simp [hnone, hkept]

theorem hasMeaningfulChange_of_mem [DecidableEq Digest] {digest : Content → Digest} {hashes : Path → Option Digest} {paths : List Path} {p q : Path}
    (hp : p ∈ paths) (hq : q ∈ collectContentPaths ignorePatterns disk p) (hne : hashes q ≠ hashFileContent digest disk q) :
    hasMeaningfulChange digest ignorePatterns disk hashes paths = true := by
  simp only [hasMeaningfulChange, collectWatchedContentPaths, List.any_eq_true, List.mem_flatMap]
  exact ⟨q, ⟨p, hp, hq⟩, by simpa using hne⟩

end Fluo.Cli
