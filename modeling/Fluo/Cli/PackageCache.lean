import Mathlib.Data.List.Induction
import Fluo.Cli.ContentGate
import Fluo.Lib.OrderedMap
import Fluo.Lib.Runs
/-!
# The cache of local packages

`package-spec-resolver.ts` with the local strategy: the tarballs of the last packing are
reused while a stamp of the repository stays the same. Edits of the repository, builds and
runs follow one another.
-/

namespace Fluo.Cli.PackageCache
open Fluo.Lib

/-- The sources of a package whose times `packageHasOutdatedBuildOutput` reads. -/
inductive Candidate
  | src
  | packageJson
  | tsconfig
  | tsconfigBuild
deriving DecidableEq

def sourceCandidates : List Candidate := [.src, .packageJson, .tsconfig, .tsconfigBuild]

def Candidate.name : Candidate → Text
  | .src => "src".toList
  | .packageJson => "package.json".toList
  | .tsconfig => "tsconfig.json".toList
  | .tsconfigBuild => "tsconfig.build.json".toList

/-- The candidate that a file of a package is, or is below. -/
def candidateOf : Path → Option Candidate
  | [] => none
  | [name] => [Candidate.packageJson, .tsconfig, .tsconfigBuild].find? fun c => c.name = name
  | name :: _ => if name = Candidate.src.name then some .src else none

/-- The files of a package that are not ignored. -/
abbrev Files (Content : Type) := Path → Option Content

/-- The files of every package. -/
abbrev Sources (Name Content : Type) := Name → Files Content

/-- What `dist` was built from, and its latest time. -/
structure Output (Content : Type) where
  builtFrom : Files Content
  modified : Nat

/-- The files that it was packed from, and those that the `dist` in it was built from. -/
structure Tarball (Content : Type) where
  files : Files Content
  builtFrom : Files Content

structure LocalPackageCacheStamp (Name Version Commit Status : Type) where
  cacheFormatVersion : Nat
  dirtyFingerprint : Status
  headCommit : Commit
  packageVersions : List (Name × Version)

/-- What the resolver asks of `git` and of a manifest. `status` is what `git status --porcelain` prints for the
packages; a file that is neither listed there nor below a directory that is listed is the one of the commit. -/
structure Host (Name Content Version Commit Status : Type) where
  treeOf : Commit → Sources Name Content
  status : Commit → Sources Name Content → Sources Name Content → List Name → Status
  listed : Status → Name → Path → Prop
  unlisted {commit index worktree names name path} :
    name ∈ names → ¬listed (status commit index worktree names) name path → worktree name path = treeOf commit name path
  readVersion : Files Content → Option Version

structure State (Name Content Version Commit Status : Type) where
  now : Nat := 0
  /-- None if the command fails. -/
  head : Option Commit
  index : Sources Name Content
  worktree : Sources Name Content
  /-- `latestModifiedTimeMs` of a candidate that exists. -/
  modified : Name → Candidate → Option Nat
  outputs : Name → Option (Output Content) := fun _ => none
  stamp : Option (LocalPackageCacheStamp Name Version Commit Status) := none
  tarballs : OrderedMap (Name × Version) (Tarball Content) := []
  /-- The files when the stamp was written, or left out, and whether a packing has failed since. -/
  stamped : Sources Name Content := fun _ _ => none
  failed : Bool := false
  /-- The tarballs that the runs returned, with the files of their packages then. -/
  returned : List (Tarball Content × Files Content) := []

inductive Build (Name : Type)
  | succeeds
  /-- `clean-dist.mjs` is what a package's build begins with. -/
  | fails (reached cleaned : List Name)

inductive Label (Name Content Commit : Type)
  | write (name : Name) (path : Path) (content : Content)
  | remove (name : Name) (path : Path)
  | removeSrc (name : Name)
  /-- Commits, stages, resets: what they write of the working tree is written on its own. -/
  | git (head : Option Commit) (index : Sources Name Content)
  | build (build : Build Name)
  /-- A run for the packages that it collects; the packing of the one after `packed` others fails. -/
  | run (packageNames : List Name) (build : Build Name) (packed : Nat)

section Code
variable {Name Content Version Commit Status : Type} [DecidableEq Name] [DecidableEq Version] [DecidableEq Commit] [DecidableEq Status]
  (host : Host Name Content Version Commit Status) (s : State Name Content Version Commit Status)

/-- A file that is written has the time of it, as the directory that a file is removed from. -/
def State.write (name : Name) (path : Path) (content : Content) : State Name Content Version Commit Status :=
  { s with
    now := s.now + 1
    worktree := Function.update s.worktree name (Function.update (s.worktree name) path (some content))
    modified := Function.update s.modified name fun c => if candidateOf path = some c then some (s.now + 1) else s.modified name c }

def State.remove (name : Name) (path : Path) : State Name Content Version Commit Status :=
  { s with
    now := s.now + 1
    worktree := Function.update s.worktree name (Function.update (s.worktree name) path none)
    modified := Function.update s.modified name fun c =>
      if candidateOf path = some c then if c = .src then some (s.now + 1) else none else s.modified name c }

def State.removeSrc (name : Name) : State Name Content Version Commit Status :=
  { s with
    now := s.now + 1
    worktree := Function.update s.worktree name fun path => if candidateOf path = some .src then none else s.worktree name path
    modified := Function.update s.modified name fun c => if c = .src then none else s.modified name c }

/-- `pnpm build` -/
def State.runWorkspaceBuild : Build Name → State Name Content Version Commit Status
  | .succeeds => { s with outputs := fun name => some ⟨s.worktree name, s.now⟩ }
  | .fails reached cleaned =>
    { s with
      outputs := fun name =>
        if name ∈ reached then some ⟨s.worktree name, s.now⟩ else if name ∈ cleaned then none else s.outputs name }

def collectLocalPackageVersions (packageNames : List Name) : Option (List (Name × Version)) :=
  packageNames.mapM fun name => (host.readVersion (s.worktree name)).map fun version => (name, version)

def computeLocalPackageCacheStamp (packageNames : List Name) (packageVersions : List (Name × Version)) :
    Option (LocalPackageCacheStamp Name Version Commit Status) :=
  s.head.map fun headCommit => ⟨2, host.status headCommit s.index s.worktree packageNames, headCommit, packageVersions⟩

def cacheStampMatches (expected : LocalPackageCacheStamp Name Version Commit Status) :
    Option (LocalPackageCacheStamp Name Version Commit Status) → Bool
  | none => false
  | some actual =>
    actual.cacheFormatVersion = 2 && actual.headCommit = expected.headCommit && actual.dirtyFingerprint = expected.dirtyFingerprint &&
      expected.packageVersions.all fun entry => OrderedMap.get actual.packageVersions entry.1 = some entry.2

/-- A tarball is named by its package and version. -/
def cacheContainsTarballs (packageVersions : List (Name × Version)) : Bool :=
  packageVersions.all fun entry => (s.tarballs.get entry).isSome

def canReuseCachedTarballs (packageNames : List Name) (packageVersions : List (Name × Version)) : Bool :=
  match computeLocalPackageCacheStamp host s packageNames packageVersions with
  | some expected => cacheStampMatches expected s.stamp && cacheContainsTarballs s packageVersions
  | none => false

def packageHasOutdatedBuildOutput (name : Name) : Bool :=
  match s.outputs name with
  | none => true
  | some output => output.modified < (sourceCandidates.filterMap (s.modified name)).foldl max 0

def shouldRunWorkspaceBuild (packageNames : List Name) : Bool := packageNames.any (packageHasOutdatedBuildOutput s)

/-- `dist` is copied with the other files. -/
def State.tarballOf (name : Name) : Tarball Content := ⟨s.worktree name, ((s.outputs name).map Output.builtFrom).getD fun _ => none⟩

/-- The tarballs in a directory that has been cleared. -/
def State.packLocalPackages (packageVersions : List (Name × Version)) : OrderedMap (Name × Version) (Tarball Content) :=
  packageVersions.foldl (fun tarballs entry => tarballs.set entry (s.tarballOf entry.1)) []

def createLocalTarballSpecs (packageVersions : List (Name × Version)) : List (Tarball Content × Files Content) :=
  packageVersions.filterMap fun entry => (s.tarballs.get entry).map fun tarball => (tarball, s.worktree entry.1)

/-- What is done when the tarballs are not reused, behind the build. -/
def State.repack (packageVersions : List (Name × Version)) (expected : Option (LocalPackageCacheStamp Name Version Commit Status)) (packed : Nat) :
    State Name Content Version Commit Status :=
  if packed < packageVersions.length then { s with tarballs := s.packLocalPackages (packageVersions.take packed), failed := true }
  else
    let filled := { s with tarballs := s.packLocalPackages packageVersions }
    { filled with
      stamp := expected
      stamped := s.worktree
      failed := false
      returned := s.returned ++ createLocalTarballSpecs filled packageVersions }

/-- A run that throws keeps what it has done so far. -/
def State.resolvePackageSpecs (packageNames : List Name) (build : Build Name) (packed : Nat) : State Name Content Version Commit Status :=
  match collectLocalPackageVersions host s packageNames with
  | none => s
  | some packageVersions =>
    if canReuseCachedTarballs host s packageNames packageVersions then
      { s with returned := s.returned ++ createLocalTarballSpecs s packageVersions }
    else
      let expected := computeLocalPackageCacheStamp host s packageNames packageVersions
      if shouldRunWorkspaceBuild s packageNames then
        match build with
        | .succeeds => (s.runWorkspaceBuild .succeeds).repack packageVersions expected packed
        | .fails reached cleaned => s.runWorkspaceBuild (.fails reached cleaned)
      else s.repack packageVersions expected packed

def step : Label Name Content Commit → Option (State Name Content Version Commit Status)
  | .write name path content => some (s.write name path content)
  | .remove name path => some (s.remove name path)
  | .removeSrc name => some (s.removeSrc name)
  | .git head index => some { s with head, index }
  | .build build => some (s.runWorkspaceBuild build)
  | .run packageNames build packed => some (s.resolvePackageSpecs host packageNames build packed)

end Code

variable {Name Content Version Commit Status : Type}

/-- A tarball has these files, and its `dist` was built from those of the candidates. -/
def Tarball.PackedFrom (tarball : Tarball Content) (files : Files Content) : Prop :=
  tarball.files = files ∧ ∀ path, (candidateOf path).isSome → tarball.builtFrom path = files path

/-- What was returned had been packed from the files of then. -/
def Sound (s : State Name Content Version Commit Status) : Prop := ∀ entry ∈ s.returned, entry.1.PackedFrom entry.2

/-- Nothing is packed or returned yet, and nothing built. -/
structure Initial (s : State Name Content Version Commit Status) : Prop where
  stamp : s.stamp = none
  tarballs : s.tarballs = []
  returned : s.returned = []
  outputs : ∀ name, s.outputs name = none
  absent : ∀ name c, s.modified name c = none → ∀ path, candidateOf path = some c → s.worktree name path = none

section Condition
variable [DecidableEq Name] [DecidableEq Version] [DecidableEq Commit] [DecidableEq Status]
  (host : Host Name Content Version Commit Status) (s : State Name Content Version Commit Status)

/-- No packing has failed since the stamp was written, and the files that are listed have not been edited again. -/
def Unedited (packageNames : List Name) : Prop :=
  s.failed = false ∧ ∀ stamp, s.stamp = some stamp → ∀ name ∈ packageNames, ∀ path,
    host.listed stamp.dirtyFingerprint name path → s.worktree name path = s.stamped name path

/-- No candidate is gone that the `dist` of a package was built with. -/
def Complete (packageNames : List Name) : Prop :=
  ∀ name ∈ packageNames, ∀ output, s.outputs name = some output → ∀ path c, candidateOf path = some c → s.modified name c = none →
    output.builtFrom path = none

/-- Where the stamp matches, no packing has failed and no listed file has been edited since it was written, and where
`dist` is not outdated, none of its candidates is gone. -/
def Meets : Label Name Content Commit → Prop
  | .run packageNames _ _ => ∀ packageVersions, collectLocalPackageVersions host s packageNames = some packageVersions →
      if canReuseCachedTarballs host s packageNames packageVersions then Unedited host s packageNames
      else shouldRunWorkspaceBuild s packageNames = false → Complete s packageNames
  | _ => True

end Condition

/-! ## What is kept -/

/-- The output was built from the candidate as it is, unless that is newer. -/
def Output.Current (output : Output Content) (modified : Option Nat) (c : Candidate) (files : Files Content) : Prop :=
  ∀ time, modified = some time → time ≤ output.modified → ∀ path, candidateOf path = some c → output.builtFrom path = files path

/-- What a package's output was built from is seen in the times of the candidates that exist. -/
structure Built (s : State Name Content Version Commit Status) : Prop where
  times : ∀ name output, s.outputs name = some output → output.modified ≤ s.now
  current : ∀ name output, s.outputs name = some output → ∀ c, output.Current (s.modified name c) c (s.worktree name)
  absent : ∀ name c, s.modified name c = none → ∀ path, candidateOf path = some c → s.worktree name path = none

/-- The stamp is of the files when it was written, from which the tarballs were packed. -/
structure Stamped (host : Host Name Content Version Commit Status) (s : State Name Content Version Commit Status) : Prop where
  stamp : ∀ stamp, s.stamp = some stamp →
    ∃ index, stamp.dirtyFingerprint = host.status stamp.headCommit index s.stamped (stamp.packageVersions.map Prod.fst)
  tarballs : s.failed = false → ∀ entry tarball, (entry, tarball) ∈ s.tarballs → tarball.PackedFrom (s.stamped entry.1)

section Builds
variable {s s' : State Name Content Version Commit Status}

theorem Built.edit (h : Built s) (hnow : s'.now = s.now + 1) (houtputs : s'.outputs = s.outputs)
    (hedit : ∀ name c, s'.modified name c = some s'.now ∨
      (s'.modified name c = none ∧ ∀ path, candidateOf path = some c → s'.worktree name path = none) ∨
      (s'.modified name c = s.modified name c ∧ ∀ path, candidateOf path = some c → s'.worktree name path = s.worktree name path)) : Built s' := by
  constructor
  · intro name output houtput
    rw [houtputs] at houtput
    have hle := h.times name output houtput
    omega
  · intro name output houtput c time htime hle path hpath
    rw [houtputs] at houtput
    rcases hedit name c with hsome | ⟨hnone, -⟩ | ⟨hsame, hfiles⟩
    · have hbefore := h.times name output houtput
      rw [hsome, Option.some_inj] at htime
      omega
    · rw [hnone] at htime
      cases htime
    · rw [hsame] at htime
      rw [hfiles path hpath]
      exact h.current name output houtput c time htime hle path hpath
  · intro name c hmodified path hpath
    rcases hedit name c with hsome | ⟨-, habsent⟩ | ⟨hsame, hfiles⟩
    · rw [hsome] at hmodified
      cases hmodified
    · exact habsent path hpath
    · rw [hsame] at hmodified
      rw [hfiles path hpath]
      exact h.absent name c hmodified path hpath

variable [DecidableEq Name]

theorem Built.write (h : Built s) (name : Name) (path : Path) (content : Content) : Built (s.write name path content) := by
  refine h.edit rfl rfl fun name' c => ?_
  by_cases hname : name' = name
  · subst hname
    by_cases hcandidate : candidateOf path = some c
    · exact .inl (by simp [State.write, hcandidate])
    · refine .inr (.inr ⟨by simp [State.write, hcandidate], fun path' hpath' => ?_⟩)
      have hne : path' ≠ path := by
        rintro rfl
        exact hcandidate hpath'
      simp [State.write, Function.update_of_ne hne]
  · exact .inr (.inr ⟨by simp [State.write, hname], fun path' _ => by simp [State.write, hname]⟩)

theorem eq_of_candidateOf {path : Path} {c : Candidate} (h : candidateOf path = some c) (hc : c ≠ .src) : path = [c.name] := by
  match path with
  | [] => cases h
  | [name] =>
    have hname := List.find?_some h
    rw [decide_eq_true_eq] at hname
    rw [hname]
  | name :: _ :: _ =>
    rw [candidateOf.eq_3 _ _ (by simp)] at h
    split_ifs at h
    exact absurd (Option.some.inj h).symm hc

theorem Built.remove (h : Built s) (name : Name) (path : Path) : Built (s.remove name path) := by
  refine h.edit rfl rfl fun name' c => ?_
  by_cases hname : name' = name
  · subst hname
    by_cases hcandidate : candidateOf path = some c
    · by_cases hsrc : c = .src
      · exact .inl (by simp [State.remove, hcandidate, hsrc])
      · refine .inr (.inl ⟨by simp [State.remove, hcandidate, hsrc], fun path' hpath' => ?_⟩)
        rw [eq_of_candidateOf hpath' hsrc, ← eq_of_candidateOf hcandidate hsrc]
        simp [State.remove]
    · refine .inr (.inr ⟨by simp [State.remove, hcandidate], fun path' hpath' => ?_⟩)
      have hne : path' ≠ path := by
        rintro rfl
        exact hcandidate hpath'
      simp [State.remove, Function.update_of_ne hne]
  · exact .inr (.inr ⟨by simp [State.remove, hname], fun path' _ => by simp [State.remove, hname]⟩)

theorem Built.removeSrc (h : Built s) (name : Name) : Built (s.removeSrc name) := by
  refine h.edit rfl rfl fun name' c => ?_
  by_cases hname : name' = name
  · subst hname
    by_cases hsrc : c = .src
    · subst hsrc
      exact .inr (.inl ⟨by simp [State.removeSrc], fun path' hpath' => by simp [State.removeSrc, hpath']⟩)
    · exact .inr (.inr ⟨by simp [State.removeSrc, hsrc], fun path' hpath' => by simp [State.removeSrc, hpath', hsrc]⟩)
  · exact .inr (.inr ⟨by simp [State.removeSrc, hname], fun path' _ => by simp [State.removeSrc, hname]⟩)

omit [DecidableEq Name] in
theorem Built.of_outputs (h : Built s) {outputs : Name → Option (Output Content)}
    (houtputs : ∀ name output, outputs name = some output → s.outputs name = some output ∨ output = ⟨s.worktree name, s.now⟩) : Built { s with outputs } := by
  refine ⟨fun name output houtput => ?_, fun name output houtput c => ?_, h.absent⟩
  · rcases houtputs name output houtput with hbefore | rfl
    · exact h.times name output hbefore
    · exact Nat.le_refl _
  · rcases houtputs name output houtput with hbefore | rfl
    · exact h.current name output hbefore c
    · exact fun _ _ _ _ _ => rfl

theorem Built.runWorkspaceBuild (h : Built s) (build : Build Name) : Built (s.runWorkspaceBuild build) := by
  cases build with
  | succeeds => exact h.of_outputs fun name output houtput => .inr (Option.some.inj houtput).symm
  | fails reached cleaned =>
    refine h.of_outputs fun name output houtput => ?_
    split_ifs at houtput
    · exact .inr (Option.some.inj houtput).symm
    · exact .inl houtput

theorem le_foldl_max {time start : Nat} {times : List Nat} (h : time ≤ start ∨ time ∈ times) : time ≤ times.foldl max start := by
  induction times generalizing start with
  | nil => exact h.resolve_right List.not_mem_nil
  | cons first times ih =>
    apply ih
    rcases h with h | h
    · exact .inl (Nat.le_trans h (Nat.le_max_left _ _))
    · rcases List.mem_cons.1 h with rfl | h
      · exact .inl (Nat.le_max_right _ _)
      · exact .inr h

omit [DecidableEq Name] in
theorem Built.packedFrom (h : Built s) {packageNames : List Name} (hfresh : shouldRunWorkspaceBuild s packageNames = false)
    (hcomplete : Complete s packageNames) {name : Name} (hname : name ∈ packageNames) : (s.tarballOf name).PackedFrom (s.worktree name) := by
  have hfresh : packageHasOutdatedBuildOutput s name = false := by simpa using List.any_eq_false.1 hfresh name hname
  unfold packageHasOutdatedBuildOutput at hfresh
  cases houtput : s.outputs name with
  | none =>
    rw [houtput] at hfresh
    cases hfresh
  | some output =>
    rw [houtput] at hfresh
    refine ⟨rfl, fun path hpath => ?_⟩
    obtain ⟨c, hc⟩ := Option.isSome_iff_exists.1 hpath
    have hbuilt : (s.tarballOf name).builtFrom = output.builtFrom := by simp [State.tarballOf, houtput]
    rw [hbuilt]
    cases hmodified : s.modified name c with
    | none => rw [hcomplete name hname output houtput path c hc hmodified, h.absent name c hmodified path hc]
    | some time =>
      refine h.current name output houtput c time hmodified ?_ path hc
      have htime : time ∈ sourceCandidates.filterMap (s.modified name) := List.mem_filterMap.2 ⟨c, by cases c <;> decide, hmodified⟩
      exact Nat.le_trans (le_foldl_max (.inr htime)) (Nat.not_lt.1 (of_decide_eq_false hfresh))

theorem packedFrom_succeeds (name : Name) : ((s.runWorkspaceBuild .succeeds).tarballOf name).PackedFrom (s.worktree name) := ⟨rfl, fun _ _ => rfl⟩

end Builds

section Runs
variable [DecidableEq Name] [DecidableEq Version] {host : Host Name Content Version Commit Status} {s : State Name Content Version Commit Status}

variable {packageVersions : List (Name × Version)} {packageNames : List Name} {s' : State Name Content Version Commit Status}

theorem mem_packLocalPackages {entry : Name × Version} {tarball : Tarball Content}
    (h : (entry, tarball) ∈ s.packLocalPackages packageVersions) : entry ∈ packageVersions ∧ tarball = s.tarballOf entry.1 := by
  induction packageVersions using List.reverseRecOn with
  | nil => cases h
  | append_singleton packageVersions last ih =>
    rw [State.packLocalPackages, List.foldl_concat] at h
    rcases OrderedMap.eq_or_mem_of_mem_set h with ⟨rfl, rfl⟩ | h
    · exact ⟨List.mem_append_right _ List.mem_cons_self, rfl⟩
    · exact (ih h).imp_left (List.mem_append_left _)

omit [DecidableEq Name] [DecidableEq Version] in
theorem collectLocalPackageVersions_eq_some
    (h : collectLocalPackageVersions host s packageNames = some packageVersions) : packageVersions.map Prod.fst = packageNames := by
  induction packageNames generalizing packageVersions with
  | nil =>
    cases h
    rfl
  | cons name packageNames ih =>
    unfold collectLocalPackageVersions at h
    rw [List.mapM_cons] at h
    obtain ⟨entry, hentry, h⟩ := Option.bind_eq_some_iff.1 h
    obtain ⟨rest, hrest, h⟩ := Option.bind_eq_some_iff.1 h
    obtain ⟨version, -, rfl⟩ := Option.map_eq_some_iff.1 hentry
    cases h
    rw [List.map_cons, ih hrest]

theorem mem_createLocalTarballSpecs {specs : Tarball Content × Files Content}
    (h : specs ∈ createLocalTarballSpecs s packageVersions) :
    ∃ entry ∈ packageVersions, (entry, specs.1) ∈ s.tarballs ∧ specs.2 = s.worktree entry.1 := by
  obtain ⟨entry, hentry, hspecs⟩ := List.mem_filterMap.1 h
  obtain ⟨tarball, htarball, rfl⟩ := Option.map_eq_some_iff.1 hspecs
  exact ⟨entry, hentry, OrderedMap.mem_of_get htarball, rfl⟩

theorem repack_keeps (hstamped : Stamped host s) (hsound : Sound s) (packed : Nat)
    (hversions : packageVersions.map Prod.fst = packageNames)
    (hpacked : ∀ name ∈ packageNames, (s.tarballOf name).PackedFrom (s.worktree name)) {expected : Option (LocalPackageCacheStamp Name Version Commit Status)}
    (hexpected : ∀ stamp, expected = some stamp → ∃ index, stamp.dirtyFingerprint = host.status stamp.headCommit index s.worktree packageNames ∧
      stamp.packageVersions = packageVersions) :
    Stamped host (s.repack packageVersions expected packed) ∧ Sound (s.repack packageVersions expected packed) := by
  have hfrom {entry tarball} (h : (entry, tarball) ∈ s.packLocalPackages packageVersions) : tarball.PackedFrom (s.worktree entry.1) := by
    obtain ⟨hentry, rfl⟩ := mem_packLocalPackages h
    exact hpacked entry.1 (hversions ▸ List.mem_map_of_mem hentry)
  unfold State.repack
  split_ifs with hfailed
  · exact ⟨⟨hstamped.stamp, nofun⟩, hsound⟩
  · refine ⟨⟨fun stamp hstamp => ?_, fun _ _ _ => hfrom⟩, fun specs hspecs => ?_⟩
    · obtain ⟨index, hfingerprint, hentries⟩ := hexpected stamp hstamp
      exact ⟨index, by rw [hfingerprint, hentries, hversions]⟩
    · rcases List.mem_append.1 hspecs with hspecs | hspecs
      · exact hsound specs hspecs
      · obtain ⟨entry, -, hmem, hfiles⟩ := mem_createLocalTarballSpecs hspecs
        rw [hfiles]
        exact hfrom hmem

omit [DecidableEq Name] [DecidableEq Version] in
theorem computeLocalPackageCacheStamp_eq_some
    {stamp : LocalPackageCacheStamp Name Version Commit Status} (h : computeLocalPackageCacheStamp host s packageNames packageVersions = some stamp) :
    s.head = some stamp.headCommit ∧ stamp.dirtyFingerprint = host.status stamp.headCommit s.index s.worktree packageNames ∧
      stamp.packageVersions = packageVersions := by
  obtain ⟨headCommit, hhead, rfl⟩ := Option.map_eq_some_iff.1 h
  exact ⟨hhead, rfl, rfl⟩

omit [DecidableEq Name] [DecidableEq Version] in
theorem Built.of_same (h : Built s) (hnow : s'.now = s.now) (houtputs : s'.outputs = s.outputs)
    (hworktree : s'.worktree = s.worktree) (hmodified : s'.modified = s.modified) : Built s' := by
  obtain ⟨htimes, hcurrent, habsent⟩ := h
  constructor
  · rwa [hnow, houtputs]
  · rwa [houtputs, hworktree, hmodified]
  · rwa [hworktree, hmodified]

theorem Built.repack (h : Built s) (packageVersions : List (Name × Version)) (expected : Option (LocalPackageCacheStamp Name Version Commit Status))
    (packed : Nat) : Built (s.repack packageVersions expected packed) := by
  unfold State.repack
  split_ifs
  · exact h.of_same rfl rfl rfl rfl
  · exact h.of_same rfl rfl rfl rfl

variable [DecidableEq Commit] [DecidableEq Status]

theorem worktree_eq_stamped (hstamped : Stamped host s)
    (hversions : packageVersions.map Prod.fst = packageNames) (hreuse : canReuseCachedTarballs host s packageNames packageVersions = true)
    (hunedited : Unedited host s packageNames) {name : Name} (hname : name ∈ packageNames) : s.worktree name = s.stamped name := by
  unfold canReuseCachedTarballs at hreuse
  split at hreuse
  case h_2 => cases hreuse
  case h_1 expected hexpected =>
    obtain ⟨hmatches, -⟩ := Bool.and_eq_true_iff.1 hreuse
    obtain ⟨-, hfingerprint, hentries⟩ := computeLocalPackageCacheStamp_eq_some hexpected
    unfold cacheStampMatches at hmatches
    split at hmatches
    case h_1 => cases hmatches
    case h_2 actual hactual =>
      simp only [Bool.and_eq_true, decide_eq_true_eq, List.all_eq_true] at hmatches
      obtain ⟨⟨⟨-, hcommit⟩, hsame⟩, hall⟩ := hmatches
      obtain ⟨index, hwritten⟩ := hstamped.stamp actual hactual
      funext path
      by_cases hlisted : host.listed actual.dirtyFingerprint name path
      · exact hunedited.2 actual hactual name hname path hlisted
      · -- The file is that of the commit, now and when the stamp was written.
        have hnow : s.worktree name path = host.treeOf expected.headCommit name path :=
          host.unlisted hname (by rwa [← hfingerprint, ← hsame])
        have hthen : s.stamped name path = host.treeOf actual.headCommit name path := by
          have hnames : name ∈ actual.packageVersions.map Prod.fst := by
            rw [← hversions] at hname
            obtain ⟨entry, hentry, rfl⟩ := List.mem_map.1 hname
            rw [← hentries] at hentry
            exact OrderedMap.isSome_get.1 (Option.isSome_iff_exists.2 ⟨_, hall entry hentry⟩)
          exact host.unlisted hnames (by rwa [← hwritten])
        rw [hnow, hthen, hcommit]

structure Kept (host : Host Name Content Version Commit Status) (s : State Name Content Version Commit Status) : Prop where
  built : Built s
  stamped : Stamped host s
  sound : Sound s

theorem Kept.run (h : Kept host s) (packageNames : List Name) (build : Build Name) (packed : Nat) (hmeets : Meets host s (.run packageNames build packed)) :
    Kept host (s.resolvePackageSpecs host packageNames build packed) := by
  unfold State.resolvePackageSpecs
  split
  case h_1 => exact h
  case h_2 packageVersions hcollect =>
    have hversions := collectLocalPackageVersions_eq_some hcollect
    have hexpected stamp (hstamp : computeLocalPackageCacheStamp host s packageNames packageVersions = some stamp) :
        ∃ index, stamp.dirtyFingerprint = host.status stamp.headCommit index s.worktree packageNames ∧ stamp.packageVersions = packageVersions :=
      ⟨s.index, (computeLocalPackageCacheStamp_eq_some hstamp).2⟩
    have hmeets := hmeets packageVersions hcollect
    split_ifs at hmeets ⊢ with hreuse houtdated
    · refine ⟨h.built.of_same rfl rfl rfl rfl, ⟨h.stamped.stamp, h.stamped.tarballs⟩, fun specs hspecs => ?_⟩
      rcases List.mem_append.1 hspecs with hspecs | hspecs
      · exact h.sound specs hspecs
      · obtain ⟨entry, hentry, hmem, hfiles⟩ := mem_createLocalTarballSpecs hspecs
        rw [hfiles, worktree_eq_stamped h.stamped hversions hreuse hmeets (hversions ▸ List.mem_map_of_mem hentry)]
        exact h.stamped.tarballs hmeets.1 entry specs.1 hmem
    · cases build with
      | succeeds =>
        have hbuilt : Stamped host (s.runWorkspaceBuild .succeeds) ∧ Sound (s.runWorkspaceBuild .succeeds) :=
          ⟨⟨h.stamped.stamp, h.stamped.tarballs⟩, h.sound⟩
        obtain ⟨hstamped, hsound⟩ := repack_keeps hbuilt.1 hbuilt.2 packed hversions (fun name _ => packedFrom_succeeds name) hexpected
        exact ⟨(h.built.runWorkspaceBuild .succeeds).repack _ _ _, hstamped, hsound⟩
      | fails reached cleaned =>
        exact ⟨h.built.runWorkspaceBuild _, ⟨h.stamped.stamp, h.stamped.tarballs⟩, h.sound⟩
    · have hfresh := Bool.eq_false_of_not_eq_true houtdated
      obtain ⟨hstamped, hsound⟩ := repack_keeps h.stamped h.sound packed hversions (fun name hname => h.built.packedFrom hfresh (hmeets hfresh) hname) hexpected
      exact ⟨h.built.repack _ _ _, hstamped, hsound⟩

theorem Kept.step {label : Label Name Content Commit} (h : Kept host s) (hmeets : Meets host s label)
    (hstep : step host s label = some s') : Kept host s' := by
  cases label with
  | write name path content =>
    cases hstep
    exact ⟨h.built.write name path content, ⟨h.stamped.stamp, h.stamped.tarballs⟩, h.sound⟩
  | remove name path =>
    cases hstep
    exact ⟨h.built.remove name path, ⟨h.stamped.stamp, h.stamped.tarballs⟩, h.sound⟩
  | removeSrc name =>
    cases hstep
    exact ⟨h.built.removeSrc name, ⟨h.stamped.stamp, h.stamped.tarballs⟩, h.sound⟩
  | git head index =>
    cases hstep
    exact ⟨h.built.of_same rfl rfl rfl rfl, ⟨h.stamped.stamp, h.stamped.tarballs⟩, h.sound⟩
  | build build =>
    cases hstep
    refine ⟨h.built.runWorkspaceBuild build, ?_, ?_⟩
    · cases build <;> exact ⟨h.stamped.stamp, h.stamped.tarballs⟩
    · cases build <;> exact h.sound
  | run packageNames build packed =>
    cases hstep
    exact h.run packageNames build packed hmeets

omit [DecidableEq Name] [DecidableEq Version] [DecidableEq Commit] [DecidableEq Status] in
theorem Initial.kept (h : Initial s) : Kept host s := by
  constructor
  · exact ⟨fun name output houtput => by simp [h.outputs] at houtput, fun name output houtput => by simp [h.outputs] at houtput, h.absent⟩
  · exact ⟨fun stamp hstamp => by simp [h.stamp] at hstamp, fun _ entry tarball hmem => by simp [h.tarballs] at hmem⟩
  · exact fun entry hentry => by simp [h.returned] at hentry

end Runs

/-- In every run whose steps meet the condition, every tarball that was returned had been packed from the files of
its package then. -/
theorem resolvePackageSpecs_sound {Name Content Version Commit Status : Type} [DecidableEq Name] [DecidableEq Version] [DecidableEq Commit]
    [DecidableEq Status] (host : Host Name Content Version Commit Status) (s s' : State Name Content Version Commit Status)
    (labels : List (Label Name Content Commit)) (hinitial : Initial s) (hrun : Run (step host) (Meets host) s labels s') : Sound s' :=
  (hrun.keeps (fun s => Kept host s) (fun _ _ _ hmeets hkept hstep => hkept.step hmeets hstep) hinitial.kept).sound

section Example

def indexFile : Path := ["src".toList, "index.ts".toList]

def packageFile : Path := ["package.json".toList]

/-- A package of two files, the second of which commits leave alone. -/
def treeOf (commit : Nat) : Sources Unit Nat := fun _ path => if path = indexFile then some commit else if path = packageFile then some 1 else none

/-- The files that differ, with what differs: the index from the commit, and the working tree from the index. -/
def status (commit : Nat) (index worktree : Sources Unit Nat) (packageNames : List Unit) : List (Unit × Path × Bool × Bool) :=
  packageNames.flatMap fun name => ([indexFile, packageFile].map fun path =>
    (name, path, index name path != treeOf commit name path, worktree name path != index name path)).filter fun entry => entry.2.2.1 || entry.2.2.2

/-- The files other than the two are taken to be listed. -/
def git : Host Unit Nat Nat Nat (List (Unit × Path × Bool × Bool)) where
  treeOf := treeOf
  status := status
  listed fingerprint name path := path ∉ [indexFile, packageFile] ∨ ∃ x y, (name, path, x, y) ∈ fingerprint
  unlisted := by
    intro commit index worktree names name path hname hlisted
    rw [not_or, not_not] at hlisted
    obtain ⟨hknown, hlisted⟩ := hlisted
    have hsame : ¬((index name path != treeOf commit name path) || (worktree name path != index name path)) = true := by
      intro hdiffers
      exact hlisted ⟨_, _, List.mem_flatMap.2 ⟨name, hname, List.mem_filter.2 ⟨List.mem_map.2 ⟨path, hknown, rfl⟩, hdiffers⟩⟩⟩
    simp only [Bool.or_eq_true, bne_iff_ne, not_or, not_not] at hsame
    exact hsame.2.trans hsame.1
  readVersion files := files packageFile

def checkout : State Unit Nat Nat Nat (List (Unit × Path × Bool × Bool)) where
  head := some 0
  index := treeOf 0
  worktree := treeOf 0
  modified _ c := if c = .src ∨ c = .packageJson then some 0 else none

theorem checkout_initial : Initial checkout := by
  refine ⟨rfl, rfl, rfl, fun _ => rfl, fun name c hmodified path hpath => ?_⟩
  have hc : c ≠ .src ∧ c ≠ .packageJson := by
    refine ⟨?_, ?_⟩ <;> rintro rfl <;> cases hmodified
  rw [eq_of_candidateOf hpath hc.1]
  cases c with
  | src => exact absurd rfl hc.1
  | packageJson => exact absurd rfl hc.2
  | tsconfig => cases name; decide
  | tsconfigBuild => cases name; decide

/-- The second run reuses the tarball of a file that is not committed and has not been edited again. -/
theorem resolvePackageSpecs_sound_uncommitted : ∃ s', s'.returned.length = 2 ∧
    Run (step git) (Meets git) checkout [.write () indexFile 2, .run [()] .succeeds 1, .run [()] .succeeds 1] s' ∧ Sound s' := by
  have hrun : Run (step git) (Meets git) checkout [.write () indexFile 2, .run [()] .succeeds 1, .run [()] .succeeds 1]
      (after (step git) checkout [.write () indexFile 2, .run [()] .succeeds 1, .run [()] .succeeds 1]) := by
    refine .cons trivial rfl (.cons (fun versions hversions => ?_) rfl (.cons (fun versions hversions => ?_) rfl .nil))
    · cases hversions
      rw [if_neg (by decide)]
      exact fun hfresh => absurd hfresh (by decide)
    · cases hversions
      rw [if_pos (by decide)]
      exact ⟨rfl, fun _ _ _ _ _ _ => rfl⟩
  exact ⟨_, by decide, hrun, resolvePackageSpecs_sound git checkout _ _ checkout_initial hrun⟩

/-- A file that is edited again is listed as before. -/
theorem resolvePackageSpecs_counterexample : ∃ s', Run (step git) (fun _ _ => True) checkout
    [.write () indexFile 2, .run [()] .succeeds 1, .write () indexFile 3, .run [()] .succeeds 1] s' ∧ ¬Sound s' := by
  refine ⟨_, Run.of_passes (p := fun _ _ => true) (fun _ _ _ => trivial) (by decide), fun hsound => ?_⟩
  have hstale : ((after (step git) checkout [.write () indexFile 2, .run [()] .succeeds 1, .write () indexFile 3, .run [()] .succeeds 1]).returned.any
      fun entry => entry.1.files indexFile != entry.2 indexFile) = true := by decide
  obtain ⟨entry, hentry, hdiffers⟩ := List.any_eq_true.1 hstale
  rw [bne_iff_ne] at hdiffers
  exact hdiffers (congrFun (hsound entry hentry).1 indexFile)

end Example

end Fluo.Cli.PackageCache
