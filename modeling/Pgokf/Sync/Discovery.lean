import Pgokf.Sync.Content

/-! # Where snapshots come from (`okf-sync/src/discover.rs`, `catalog/sync.rs`)

A directory is scanned, or a caller hands contents over. Both classify every path against an index
of packages, and the sync engine builds the index once more, from the manifests. -/

namespace Pgokf.Sync

open Lib

inductive SyncError where
  | metadata (path : Text)
  | read (path : Text)
  | walk
  | symlinkEscape (path : Text)
  | fileTooLarge (path : Text) (sizeBytes limitBytes : Nat)
  | tooManyFiles (count limit : Nat)
  | bundleTooLarge (totalBytes limitBytes : Nat)
  deriving DecidableEq

inductive LinkTarget where
  | inside
  | outside
  | missing
  | unreadable
  deriving DecidableEq

/- What the walk finds at a path. A file may fail to give its metadata or its contents. -/
inductive EntryKind where
  | file (size : Option Nat) (hash : Option Text)
  | symlink (target : LinkTarget)
  | other
  | broken
  deriving DecidableEq

structure WalkEntry where
  path : Text
  kind : EntryKind
  deriving DecidableEq

/- The patterns are compiled to predicates; without include patterns everything is included. -/
structure ScanConfig where
  includeAll : Bool
  includes : Text → Bool
  excludes : Text → Bool
  maxFiles : Option Nat
  maxFileBytes : Option Nat
  maxTotalBytes : Option Nat

def selectedByGlobs (config : ScanConfig) (path : Text) : Bool :=
  (config.includeAll || config.includes path) && !config.excludes path

def selectedManifests (config : ScanConfig) (walk : List WalkEntry) : List Text :=
  (walk.filter fun entry =>
    (match entry.kind with
      | .file _ _ => true
      | _ => false) && (manifestDirectory entry.path).isSome &&
        selectedByGlobs config entry.path).map (·.path)

def locatePackages (config : ScanConfig) (walk : List WalkEntry) : Except SyncError PackageIndex :=
  if walk.any fun entry => entry.kind = .broken then .error .walk
  else .ok (.fromPaths (selectedManifests config walk))

/-- `CandidateRules::classify`: a resource is selected through its manifest. -/
def classifyCandidate (config : ScanConfig) (packages : PackageIndex) (path : Text) : Option FileClass :=
  if config.excludes path then none
  else (packages.classify path).filter fun cls =>
    cls.isResource || config.includeAll || config.includes path

def checkCandidateSymlink (config : ScanConfig) (packages : PackageIndex) (path : Text)
    (target : LinkTarget) :
    Except SyncError Unit :=
  if (classifyCandidate config packages path).isNone then .ok ()
  else
    match target with
    | .inside | .missing => .ok ()
    | .outside => .error (.symlinkEscape path)
    | .unreadable => .error (.metadata path)

def u64Max : Nat := 18446744073709551615

structure Scan where
  files : List FileMetadata
  totalBytes : Nat

def withinLimit (limit : Option Nat) (n : Nat) (error : Nat → SyncError) : Except SyncError Unit :=
  match limit with
  | none => .ok ()
  | some limit => if limit < n then .error (error limit) else .ok ()

def readCandidateFile (config : ScanConfig) (scan : Scan) (path : Text) (cls : FileClass)
    (size : Option Nat) (hash : Option Text) : Except SyncError Scan := do
  withinLimit config.maxFiles (scan.files.length + 1) fun limit =>
    .tooManyFiles (scan.files.length + 1) limit
  let size ← orRefuse size (.metadata path)
  withinLimit config.maxFileBytes size fun limit => .fileTooLarge path size limit
  let hash ← orRefuse hash (.read path)
  let totalBytes := min (scan.totalBytes + size) u64Max
  withinLimit config.maxTotalBytes totalBytes fun limit => .bundleTooLarge totalBytes limit
  pure ⟨scan.files ++ [⟨path, hash, cls⟩], totalBytes⟩

def discoverEntry (config : ScanConfig) (packages : PackageIndex) (scan : Scan) (entry : WalkEntry) :
    Except SyncError Scan :=
  match entry.kind with
  | .broken => .error .walk
  | .other => .ok scan
  | .symlink target => (checkCandidateSymlink config packages entry.path target).map fun _ => scan
  | .file size hash =>
    match classifyCandidate config packages entry.path with
    | none => .ok scan
    | some cls => readCandidateFile config scan entry.path cls size hash

def discover (config : ScanConfig) (walk : List WalkEntry) : Except SyncError (List FileMetadata) := do
  let packages ← locatePackages config walk
  let scan ← walk.foldlM (discoverEntry config packages) ⟨[], 0⟩
  pure scan.files

/-! ### What a scan returns -/

def candidate (config : ScanConfig) (packages : PackageIndex) (entry : WalkEntry) :
    Option (Text × FileClass) :=
  match entry.kind with
  | .file _ _ => (classifyCandidate config packages entry.path).map fun cls => (entry.path, cls)
  | _ => none

section Scanned

variable {config : ScanConfig} {packages : PackageIndex} {walk : List WalkEntry} {entry : WalkEntry}
  {scan next : Scan} {path m d : Text} {cls : FileClass}

theorem readCandidateFile_ok {size : Option Nat} {hash : Option Text}
    (h : readCandidateFile config scan path cls size hash = .ok next) :
    ∃ digest, next.files = scan.files ++ [⟨path, digest, cls⟩] := by
  simp only [readCandidateFile, bind_eq_ok, orRefuse_eq_ok, pure_eq_ok] at h
  obtain ⟨-, -, size, -, -, -, digest, -, -, -, rfl⟩ := h
  exact ⟨digest, rfl⟩

theorem discoverEntry_ok (h : discoverEntry config packages scan entry = .ok next) :
    next.files.map (fun file => (file.path, file.cls)) =
      scan.files.map (fun file => (file.path, file.cls)) ++
        (candidate config packages entry).toList := by
  rw [discoverEntry] at h
  rw [candidate]
  split at h
  next => cases h
  next hkind =>
    obtain rfl := Except.ok.inj h
    simp [hkind]
  next target hkind =>
    cases hcheck : checkCandidateSymlink config packages entry.path target with
    | error e =>
      rw [hcheck] at h
      cases h
    | ok u =>
      rw [hcheck] at h
      obtain rfl := Except.ok.inj h
      simp [hkind]
  next size hash hkind =>
    split at h
    next hclass =>
      obtain rfl := Except.ok.inj h
      simp [hkind, hclass]
    next cls hclass =>
      obtain ⟨digest, hfiles⟩ := readCandidateFile_ok h
      simp [hkind, hclass, hfiles]

variable {files : List FileMetadata}

theorem discover_ok (h : discover config walk = .ok files) :
    locatePackages config walk = .ok (.fromPaths (selectedManifests config walk)) ∧
      files.map (fun file => (file.path, file.cls)) =
        walk.filterMap (candidate config (.fromPaths (selectedManifests config walk))) := by
  simp only [discover, bind_eq_ok, pure_eq_ok] at h
  obtain ⟨packages, hpackages, scan, hscan, rfl⟩ := h
  have hindex : packages = .fromPaths (selectedManifests config walk) := by
    rw [locatePackages] at hpackages
    split at hpackages
    next => cases hpackages
    next => exact (Except.ok.inj hpackages).symm
  subst hindex
  refine ⟨hpackages, ?_⟩
  refine foldlM_invariant (P := fun done scan => scan.files.map (fun file => (file.path, file.cls)) =
    done.filterMap (candidate config (.fromPaths (selectedManifests config walk)))) hscan rfl ?_
  intro done entry rest scan next _ hdone hstep
  rw [discoverEntry_ok hstep, hdone, List.filterMap_append]
  rfl

theorem mem_candidates : (path, cls) ∈ walk.filterMap (candidate config packages) ↔
    (∃ size hash, ⟨path, .file size hash⟩ ∈ walk) ∧
      classifyCandidate config packages path = some cls := by
  rw [List.mem_filterMap]
  constructor
  · rintro ⟨⟨walked, kind⟩, hmem, hcandidate⟩
    rw [candidate] at hcandidate
    split at hcandidate
    next size hash hkind =>
      obtain ⟨cls', hclass, hpair⟩ := Option.map_eq_some_iff.mp hcandidate
      obtain ⟨rfl, rfl⟩ := Prod.mk.inj hpair
      obtain rfl : kind = .file size hash := hkind
      exact ⟨⟨size, hash, hmem⟩, hclass⟩
    next => cases hcandidate
  · rintro ⟨⟨size, hash, hmem⟩, hclass⟩
    exact ⟨_, hmem, by simp [candidate, hclass]⟩

theorem mem_selectedManifests : m ∈ selectedManifests config walk ↔
    (∃ size hash, ⟨m, .file size hash⟩ ∈ walk) ∧ (manifestDirectory m).isSome ∧
      selectedByGlobs config m := by
  rw [selectedManifests, List.mem_map]
  constructor
  · rintro ⟨⟨walked, kind⟩, hmem, rfl⟩
    obtain ⟨hmem, htest⟩ := List.mem_filter.mp hmem
    rw [Bool.and_eq_true, Bool.and_eq_true] at htest
    obtain ⟨⟨hkind, hmanifest⟩, hselected⟩ := htest
    split at hkind
    next size hash hfile =>
      obtain rfl : kind = .file size hash := hfile
      exact ⟨⟨size, hash, hmem⟩, hmanifest, hselected⟩
    next => cases hkind
  · rintro ⟨⟨size, hash, hmem⟩, hmanifest, hselected⟩
    refine ⟨⟨m, .file size hash⟩, List.mem_filter.mpr ⟨hmem, ?_⟩, rfl⟩
    rw [Bool.and_eq_true, Bool.and_eq_true]
    exact ⟨⟨rfl, hmanifest⟩, hselected⟩

theorem classifyCandidate_eq_some : classifyCandidate config packages path = some cls ↔
    packages.classify path = some cls ∧ config.excludes path = false ∧
      (cls.isResource ∨ config.includeAll ∨ config.includes path) := by
  rw [classifyCandidate]
  split
  next hexcluded => simp [hexcluded]
  next hexcluded =>
    rw [Option.filter_eq_some_iff, Bool.or_eq_true, Bool.or_eq_true, or_assoc]
    simp [hexcluded]

/- A `SKILL.md` is content whatever the index: a manifest or somebody's resource. -/
theorem classify_of_manifest (index : PackageIndex) (hm : manifestDirectory m = some d) :
    ∃ cls, index.classify m = some cls ∧ (cls = .skillManifest ∨ cls.isResource) := by
  have hname : (splitParent '/' m).2 = skillManifest := by
    unfold manifestDirectory at hm
    dsimp only at hm
    split at hm
    next hname => exact hname
    next => cases hm
  have hplain : skillManifest ∉ reservedFileNames := by decide
  rw [PackageIndex.classify]
  split
  next cls hres =>
    obtain ⟨r, -, hcls⟩ := Option.bind_eq_some_iff.mp hres
    exact ⟨cls, rfl, .inr (resourceClass_isResource hcls)⟩
  next => exact ⟨.skillManifest, by simp [hname, hplain], .inl rfl⟩

theorem blocked_of_resource {index : PackageIndex} (hm : manifestDirectory m = some d)
    (hclass : index.classify m = some cls) (hres : cls.isResource) : Blocked index.roots m d := by
  obtain ⟨r, hr, -, hcls⟩ := classify_resource hclass hres
  have hne : r ≠ d := by
    rintro rfl
    rw [resourceClass_manifest hm] at hcls
    cases hcls
  exact ⟨r, hr, hne, ((encloses_manifest hm).mp (resourceClass_encloses hcls)).resolve_left hne,
    by simp [hcls]⟩

theorem mem_scanned (h : discover config walk = .ok files) :
    (∃ file ∈ files, file.path = path ∧ file.cls = cls) ↔
      (∃ size hash, ⟨path, .file size hash⟩ ∈ walk) ∧
        classifyCandidate config (.fromPaths (selectedManifests config walk)) path = some cls := by
  rw [← mem_candidates, ← (discover_ok h).2, List.mem_map]
  simp only [Prod.mk.injEq]

theorem selected_scanned (h : discover config walk = .ok files)
    (hm : m ∈ selectedManifests config walk) :
    ∃ file ∈ files, file.path = m ∧
      (PackageIndex.fromPaths (selectedManifests config walk)).classify m = some file.cls := by
  obtain ⟨hwalk, hmanifest, hselected⟩ := mem_selectedManifests.mp hm
  rw [selectedByGlobs, Bool.and_eq_true, Bool.or_eq_true, Bool.not_eq_true'] at hselected
  obtain ⟨d, hd⟩ := Option.isSome_iff_exists.mp hmanifest
  obtain ⟨cls, hclass, -⟩ := classify_of_manifest (.fromPaths (selectedManifests config walk)) hd
  obtain ⟨file, hfile, rfl, rfl⟩ :=
    (mem_scanned h).mpr ⟨hwalk, classifyCandidate_eq_some.mpr ⟨hclass, hselected.2, .inr hselected.1⟩⟩
  exact ⟨file, hfile, rfl, hclass⟩

variable {file : FileMetadata}

theorem scanned_selected (h : discover config walk = .ok files) (hfile : file ∈ files)
    (hm : manifestDirectory file.path = some d) (hres : ¬file.cls.isResource) :
    file.path ∈ selectedManifests config walk := by
  obtain ⟨hwalk, hclass⟩ := (mem_scanned h).mp ⟨file, hfile, rfl, rfl⟩
  obtain ⟨-, hexcluded, hselected⟩ := classifyCandidate_eq_some.mp hclass
  refine mem_selectedManifests.mpr ⟨hwalk, by simp [hm], ?_⟩
  rw [selectedByGlobs, hexcluded, Bool.and_eq_true, Bool.or_eq_true]
  exact ⟨hselected.resolve_left hres, rfl⟩

theorem scanned_classify (h : discover config walk = .ok files) (hfile : file ∈ files) :
    (PackageIndex.fromPaths (selectedManifests config walk)).classify file.path = some file.cls :=
  (classifyCandidate_eq_some.mp ((mem_scanned h).mp ⟨file, hfile, rfl, rfl⟩).2).1

/-- The index of all scanned paths: what the patterns left out and the scan took as a resource
declares nothing. -/
theorem fromPaths_scanned (h : discover config walk = .ok files) :
    PackageIndex.fromPaths (files.map (·.path)) = .fromPaths (selectedManifests config walk) := by
  refine PackageIndex.ext ((fromPaths_declares _).unique_of_blocked (fromPaths_declares _) ?_ ?_)
  · intro m d _ hm
    obtain ⟨file, hfile, rfl, -⟩ := selected_scanned h hm
    exact List.mem_map_of_mem hfile
  · intro m d hdir hm _
    obtain ⟨file, hfile, rfl⟩ := List.mem_map.mp hm
    by_cases hres : file.cls.isResource
    · exact .inr (blocked_of_resource hdir (scanned_classify h hfile) hres)
    · exact .inl (scanned_selected h hfile hdir hres)

theorem manifestIndex_scanned (h : discover config walk = .ok files) :
    manifestIndex files = .fromPaths (selectedManifests config walk) := by
  have hmanifests : PackageIndex.fromPaths ((files.map (·.path)).filter fun path =>
      (PackageIndex.fromPaths (files.map (·.path))).classify path = some .skillManifest) =
        .fromPaths (files.map (·.path)) :=
    fromPaths_manifests
  rw [fromPaths_scanned h] at hmanifests
  rw [manifestIndex, ← hmanifests]
  refine fromPaths_congr fun m => ?_
  simp only [List.mem_map, List.mem_filter, decide_eq_true_eq]
  constructor
  · rintro ⟨file, ⟨hfile, hcls⟩, rfl⟩
    exact ⟨⟨file, hfile, rfl⟩, by rw [scanned_classify h hfile, hcls]⟩
  · rintro ⟨⟨file, hfile, rfl⟩, hclass⟩
    exact ⟨file, ⟨hfile, Option.some.inj ((scanned_classify h hfile).symm.trans hclass)⟩, rfl⟩

end Scanned

theorem manifestIndex_content {digest : Bytes → Text} {paths : List Text} {contents : List Bytes}
    {hlen : paths.length = contents.length} {source : ContentSource}
    (h : ContentSource.new digest paths contents hlen = .ok source) :
    manifestIndex source.snapshot.entries = .fromPaths paths := by
  rw [source.snapshot.manifestIndex_eq, Snapshot.index]
  exact fromPaths_congr fun path => (ContentSource.new_paths h).mem_iff

/-- The index of the manifests is the index of all paths: one index for the scan, the content and
the sync. -/
theorem reindex_stable :
    (∀ paths, PackageIndex.fromPaths (paths.filter fun path =>
      (PackageIndex.fromPaths paths).classify path = some .skillManifest) = .fromPaths paths) ∧
    (∀ digest paths contents hlen source, ContentSource.new digest paths contents hlen = .ok source →
      manifestIndex source.snapshot.entries = .fromPaths paths) ∧
    ∀ config walk files, discover config walk = .ok files →
      ∃ index, locatePackages config walk = .ok index ∧ ∀ path,
        (PackageIndex.fromPaths (files.map (·.path))).classify path = index.classify path ∧
          (manifestIndex files).classify path = index.classify path := by
  refine ⟨fun paths => fromPaths_manifests, fun digest paths contents hlen source h =>
    manifestIndex_content h,
    fun config walk files h => ?_⟩
  refine ⟨_, (discover_ok h).1, fun path => ⟨?_, ?_⟩⟩
  · rw [fromPaths_scanned h]
  · rw [manifestIndex_scanned h]

/- A `SKILL.md` that no pattern includes comes into the scan as a reference of the package around
it. -/
def nestedScan : ScanConfig := ⟨false, (· = "kit/SKILL.md"), fun _ => false, none, none, none⟩

def nestedWalk : List WalkEntry :=
  [⟨"kit/SKILL.md", .file (some 12) (some "a1")⟩,
    ⟨"kit/references/SKILL.md", .file (some 9) (some "b2")⟩]

theorem reindex_stable_nested :
    (PackageIndex.fromPaths ["kit/SKILL.md", "kit/references/SKILL.md"]).classify
        "kit/references/SKILL.md" = some .skillReference ∧
      (PackageIndex.fromPaths ["kit/SKILL.md"]).classify "kit/references/SKILL.md" =
        some .skillReference := by
  have hscan : discover nestedScan nestedWalk = .ok
      [⟨"kit/SKILL.md", "a1", .skillManifest⟩,
        ⟨"kit/references/SKILL.md", "b2", .skillReference⟩] := by
    decide +kernel
  obtain ⟨index, hindex, hclass⟩ := reindex_stable.2.2 _ _ _ hscan
  have hlocated : locatePackages nestedScan nestedWalk = .ok (.fromPaths ["kit/SKILL.md"]) := by
    decide +kernel
  obtain rfl := Except.ok.inj (hindex.symm.trans hlocated)
  obtain ⟨hpaths, hmanifests⟩ := hclass "kit/references/SKILL.md"
  exact ⟨hpaths.trans (hmanifests.symm.trans (by decide +kernel)),
    hmanifests.symm.trans (by decide +kernel)⟩

end Pgokf.Sync
