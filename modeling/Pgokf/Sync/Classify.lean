import Pgokf.Lib.Batch
import Pgokf.Security
import Pgokf.Sync.Snapshot

/-! # The difference between a snapshot and the stored projection (`catalog/sync.rs`)

The scan gives the resources of a package precedence over reserved names; the engine looks at the
name only. -/

namespace Pgokf.Sync

open Lib

abbrev Bytes := List UInt8

/- What is not opened here: the digest, the parsers, and the tests of bytes and of format versions. -/
structure Parsers where
  hashBytes : Text → Text
  parseConcept : Bytes → Text → Except String Unit
  parseSkillManifest : Bytes → Text → Except String Unit
  isScriptText : Bytes → Bool
  isSupportedOkfVersion : Text → Bool
  parseLog : Bytes → List Text

structure Source where
  snapshot : Snapshot
  readBytes : Text → Except CatalogError Bytes
  rootOkfVersion : Option Text

abbrev TextMap := AList fun _ : Text => Text

structure StoredProjection where
  hashes : TextMap
  ids : TextMap
  owners : TextMap
  skills : List Text

def packageRootOf (skillConceptId : Text) : Text := parentDirectory skillConceptId

def skillConceptIdOf (root : Text) : Text :=
  let stem := conceptId skillManifest
  if root = [] then stem else root ++ '/' :: stem

structure SyncReport where
  added : Nat
  updated : Nat
  unchanged : Nat
  removed : Nat
  deriving DecidableEq

structure BundleDelta where
  toParse : List FileMetadata
  removedPaths : List Text
  report : SyncReport
  deriving DecidableEq

def BundleDelta.default : BundleDelta := ⟨[], [], ⟨0, 0, 0, 0⟩⟩

section Classify

variable (projection : StoredProjection) (packages : PackageIndex)

def sameOwner (entry : FileMetadata) : Bool :=
  !entry.cls.isResource ||
    (projection.owners.lookup entry.path).any fun owner =>
      (packages.ownerOf entry.path).any fun root => skillConceptIdOf root = owner

def sameIdentity (entry : FileMetadata) : Bool :=
  (projection.ids.lookup entry.path).all (· = entry.conceptId) &&
    sameOwner projection packages entry &&
    (entry.cls ≠ .skillManifest || entry.path ∈ projection.skills)

def classifyEntry (delta : BundleDelta) (entry : FileMetadata) : BundleDelta :=
  if isReservedPath entry.path then delta
  else match projection.hashes.lookup entry.path with
    | none =>
      { delta with
        toParse := delta.toParse ++ [entry]
        report := { delta.report with added := delta.report.added + 1 } }
    | some storedHash =>
      if storedHash = entry.hash && sameIdentity projection packages entry then
        { delta with report := { delta.report with unchanged := delta.report.unchanged + 1 } }
      else
        { delta with
          toParse := delta.toParse ++ [entry]
          report := { delta.report with updated := delta.report.updated + 1 } }

def classifyChanges (current : List FileMetadata) : BundleDelta :=
  let delta := current.foldl (classifyEntry projection packages) .default
  let currentPaths := (current.filter fun entry => !isReservedPath entry.path).map (·.path)
  let removed := projection.hashes.keys.filter fun path => path ∉ currentPaths
  { delta with
    removedPaths := removed
    report := { delta.report with removed := removed.length } }

end Classify

def syncBuffer (current : List FileMetadata) : Text :=
  current.flatMap fun entry =>
    if isReservedPath entry.path then [] else entry.path ++ '\x00' :: entry.hash ++ ['\n']

def bundleSyncHash (parsers : Parsers) (current : List FileMetadata) : Text :=
  parsers.hashBytes (syncBuffer current)

/- `project_bundle_logs`: an unreadable log is skipped. -/
def directoryLogs (parsers : Parsers) (source : Source) (current : List FileMetadata) :
    List (Text × List Text) :=
  current.filterMap fun entry =>
    if !isReservedLog entry.path then none
    else match source.readBytes entry.path with
      | .error _ => none
      | .ok bytes => some (parentDirectory entry.path, parsers.parseLog bytes)

section Spec

variable {projection : StoredProjection} {packages : PackageIndex} {current : List FileMetadata}
  {e : FileMetadata} {p : Text}

def isAdded (projection : StoredProjection) (e : FileMetadata) : Bool :=
  !isReservedPath e.path && (projection.hashes.lookup e.path).isNone

def isUnchanged (projection : StoredProjection) (packages : PackageIndex) (e : FileMetadata) : Bool :=
  !isReservedPath e.path && projection.hashes.lookup e.path = some e.hash &&
    sameIdentity projection packages e

def isUpdated (projection : StoredProjection) (packages : PackageIndex) (e : FileMetadata) : Bool :=
  !isReservedPath e.path && (projection.hashes.lookup e.path).isSome &&
    !isUnchanged projection packages e

theorem classifyEntry_eq (delta : BundleDelta) (e : FileMetadata) :
    classifyEntry projection packages delta e =
      { delta with
        toParse := delta.toParse ++
          if isAdded projection e || isUpdated projection packages e then [e] else []
        report :=
          { delta.report with
            added := delta.report.added + (isAdded projection e).toNat
            updated := delta.report.updated + (isUpdated projection packages e).toNat
            unchanged := delta.report.unchanged + (isUnchanged projection packages e).toNat } } := by
  unfold classifyEntry isUpdated isUnchanged isAdded
  cases hres : isReservedPath e.path with
  | true => simp
  | false =>
    cases hstored : projection.hashes.lookup e.path with
    | none => simp
    | some storedHash =>
      cases hid : sameIdentity projection packages e with
      | false => simp
      | true =>
        by_cases hh : storedHash = e.hash
        · simp [hh]
        · simp [hh]

theorem foldl_classifyEntry (current : List FileMetadata) (delta : BundleDelta) :
    current.foldl (classifyEntry projection packages) delta =
      { delta with
        toParse := delta.toParse ++ current.filter fun e =>
          isAdded projection e || isUpdated projection packages e
        report :=
          { delta.report with
            added := delta.report.added + current.countP (isAdded projection)
            updated := delta.report.updated + current.countP (isUpdated projection packages)
            unchanged := delta.report.unchanged + current.countP
              (isUnchanged projection packages) } } := by
  induction current generalizing delta with
  | nil => simp
  | cons e current ih =>
    rw [List.foldl_cons, ih, classifyEntry_eq]
    have hadded : (isAdded projection e).toNat + current.countP (isAdded projection) =
        (e :: current).countP (isAdded projection) := by
      cases h : isAdded projection e <;> simp [h, Nat.add_comm]
    have hupdated : (isUpdated projection packages e).toNat +
        current.countP (isUpdated projection packages) =
        (e :: current).countP (isUpdated projection packages) := by
      cases h : isUpdated projection packages e <;> simp [h, Nat.add_comm]
    have hunchanged : (isUnchanged projection packages e).toNat +
        current.countP (isUnchanged projection packages) =
        (e :: current).countP (isUnchanged projection packages) := by
      cases h : isUnchanged projection packages e <;> simp [h, Nat.add_comm]
    simp only [Nat.add_assoc, hadded, hupdated, hunchanged, List.filter_cons, List.append_assoc]
    split <;> simp

theorem classifyChanges_toParse : (classifyChanges projection packages current).toParse =
    current.filter fun e => isAdded projection e || isUpdated projection packages e := by
  simp [classifyChanges, foldl_classifyEntry, BundleDelta.default]

theorem classifyChanges_report : (classifyChanges projection packages current).report =
    { added := current.countP (isAdded projection)
      updated := current.countP (isUpdated projection packages)
      unchanged := current.countP (isUnchanged projection packages)
      removed := (classifyChanges projection packages current).removedPaths.length } := by
  simp [classifyChanges, foldl_classifyEntry, BundleDelta.default]

theorem mem_removedPaths : p ∈ (classifyChanges projection packages current).removedPaths ↔
    p ∈ projection.hashes ∧ ∀ e ∈ current, isReservedPath e.path = false → e.path ≠ p := by
  simp only [classifyChanges, List.mem_filter, AList.mem_keys, decide_eq_true_eq, List.mem_map,
    Bool.not_eq_true', not_exists, not_and, and_imp]

theorem mem_toParse : e ∈ (classifyChanges projection packages current).toParse ↔
    e ∈ current ∧ isReservedPath e.path = false ∧ isUnchanged projection packages e = false := by
  rw [classifyChanges_toParse, List.mem_filter]
  refine and_congr_right fun _ => ?_
  unfold isUpdated isUnchanged isAdded
  cases hres : isReservedPath e.path with
  | true => simp
  | false =>
    cases hstored : projection.hashes.lookup e.path with
    | none => simp
    | some storedHash =>
      cases sameIdentity projection packages e <;> simp

end Spec

def SyncReport.GainsOne (before after : SyncReport) : Prop :=
  (after.added, after.updated, after.unchanged) = (before.added + 1, before.updated, before.unchanged) ∨
  (after.added, after.updated, after.unchanged) = (before.added, before.updated + 1, before.unchanged) ∨
  (after.added, after.updated, after.unchanged) = (before.added, before.updated, before.unchanged + 1)

section Kept

variable {projection : StoredProjection} {packages index : PackageIndex} {parsers : Parsers}
  {source : Source} {before after : List FileMetadata} {e : FileMetadata}

theorem gainsOne_iff :
    (classifyChanges projection packages (before ++ after)).report.GainsOne
      (classifyChanges projection packages (before ++ e :: after)).report ↔
    isReservedPath e.path = false := by
  rw [classifyChanges_report, classifyChanges_report]
  unfold SyncReport.GainsOne
  simp only [List.countP_append, List.countP_cons, Prod.mk.injEq]
  cases hres : isReservedPath e.path with
  | true =>
    have hadded : isAdded projection e = false := by simp [isAdded, hres]
    have hupdated : isUpdated projection packages e = false := by simp [isUpdated, hres]
    have hunchanged : isUnchanged projection packages e = false := by simp [isUnchanged, hres]
    simp only [hadded, hupdated, hunchanged, Bool.false_eq_true, if_false, reduceCtorEq, iff_false]
    omega
  | false =>
    -- Exactly one of the three tests holds.
    cases hstored : projection.hashes.lookup e.path with
    | none =>
      have hadded : isAdded projection e = true := by simp [isAdded, hres, hstored]
      have hupdated : isUpdated projection packages e = false := by simp [isUpdated, hstored]
      have hunchanged : isUnchanged projection packages e = false := by simp [isUnchanged, hstored]
      simp only [hadded, hupdated, hunchanged, Bool.false_eq_true, if_true, if_false, iff_true]
      omega
    | some storedHash =>
      have hadded : isAdded projection e = false := by simp [isAdded, hstored]
      have hupdated : isUpdated projection packages e = !isUnchanged projection packages e := by
        simp [isUpdated, hres, hstored]
      simp only [hadded, hupdated, Bool.false_eq_true, if_false]
      cases isUnchanged projection packages e with
      | true =>
        simp only [Bool.not_true, Bool.false_eq_true, if_true, if_false, iff_true]
        omega
      | false =>
        simp only [Bool.not_false, Bool.false_eq_true, if_true, if_false, iff_true]
        omega

theorem syncBuffer_append (l₁ l₂ : List FileMetadata) :
    syncBuffer (l₁ ++ l₂) = syncBuffer l₁ ++ syncBuffer l₂ :=
  List.flatMap_append

theorem syncBuffer_entry (h : isReservedPath e.path = false) :
    syncBuffer (before ++ e :: after) =
      syncBuffer before ++ (e.path ++ '\x00' :: e.hash ++ ['\n']) ++ syncBuffer after := by
  rw [syncBuffer_append, List.append_assoc]
  simp [syncBuffer, h]

theorem directoryLogs_entry (h : isReservedLog e.path = false) :
    directoryLogs parsers source (before ++ e :: after) =
      directoryLogs parsers source before ++ directoryLogs parsers source after := by
  simp [directoryLogs, List.filterMap_append, h]

/-- A classified file is counted once, contributes to the sync hash and is no activity log, exactly
when it is not a resource under a reserved name. -/
theorem classified_file_kept (hcls : index.classify e.path = some e.cls) (hne : e.cls ≠ .reserved) :
    ((classifyChanges projection packages (before ++ after)).report.GainsOne
        (classifyChanges projection packages (before ++ e :: after)).report ∧
      syncBuffer (before ++ e :: after) =
        syncBuffer before ++ (e.path ++ '\x00' :: e.hash ++ ['\n']) ++ syncBuffer after ∧
      directoryLogs parsers source (before ++ e :: after) =
        directoryLogs parsers source before ++ directoryLogs parsers source after) ↔
    ¬ (e.cls.isResource = true ∧ fileName e.path ∈ reservedFileNames) := by
  rw [gainsOne_iff, ← isReservedPath_iff]
  constructor
  · rintro ⟨hplain, -, -⟩ ⟨-, hname⟩
    rw [hplain] at hname
    cases hname
  · intro hfree
    have hplain : isReservedPath e.path = false := by
      by_contra hname
      rw [Bool.not_eq_false] at hname
      rcases reserved_or_resource hcls hname with hres | hres
      · exact hne hres
      · exact hfree ⟨hres, hname⟩
    have hlog : isReservedLog e.path = false := by
      by_contra hlog
      rw [Bool.not_eq_false] at hlog
      rw [isReservedPath_of_log hlog] at hplain
      cases hplain
    exact ⟨hplain, syncBuffer_entry hplain, directoryLogs_entry hlog⟩

end Kept

def sampleParsers : Parsers where
  hashBytes := id
  parseConcept _ _ := .ok ()
  parseSkillManifest _ _ := .ok ()
  isScriptText _ := true
  isSupportedOkfVersion _ := true
  parseLog _ := []

def emptyProjection : StoredProjection := ⟨∅, ∅, ∅, []⟩

def samplePackage : Snapshot where
  entries :=
    [⟨"kit/SKILL.md", "h1", .skillManifest⟩,
      ⟨"kit/references/guide.md", "h2", .skillReference⟩,
      ⟨"kit/references/index.md", "h3", .skillReference⟩,
      ⟨"kit/scripts/log.md", "h4", .skillScript⟩]
  classified := by decide

def sampleSource (snapshot : Snapshot) : Source where
  snapshot := snapshot
  readBytes _ := .ok []
  rootOkfVersion := none

theorem classified_file_kept_guide :
    let manifest : FileMetadata := ⟨"kit/SKILL.md", "h1", .skillManifest⟩
    let guide : FileMetadata := ⟨"kit/references/guide.md", "h2", .skillReference⟩
    ((classifyChanges emptyProjection samplePackage.index ([manifest] ++ [])).report.GainsOne
        (classifyChanges emptyProjection samplePackage.index ([manifest] ++ guide :: [])).report ∧
      syncBuffer ([manifest] ++ guide :: []) =
        syncBuffer [manifest] ++ (guide.path ++ '\x00' :: guide.hash ++ ['\n']) ++ syncBuffer [] ∧
      directoryLogs sampleParsers (sampleSource samplePackage) ([manifest] ++ guide :: []) =
        directoryLogs sampleParsers (sampleSource samplePackage) [manifest] ++
          directoryLogs sampleParsers (sampleSource samplePackage) []) ↔
    ¬ (guide.cls.isResource = true ∧ fileName guide.path ∈ reservedFileNames) := by
  intro manifest guide
  have hcls : samplePackage.index.classify guide.path = some guide.cls := by decide
  exact classified_file_kept hcls (by decide)

/-- Two resources of the package are in no bucket and not in the buffer, and the second is projected
as a log. -/
theorem reserved_resources_lost :
    samplePackage.index.classify "kit/references/index.md".toList = some .skillReference ∧
    samplePackage.index.classify "kit/scripts/log.md".toList = some .skillScript ∧
    (classifyChanges emptyProjection samplePackage.index samplePackage.entries).report = ⟨2, 0, 0, 0⟩ ∧
    syncBuffer samplePackage.entries =
      "kit/SKILL.md\x00h1\nkit/references/guide.md\x00h2\n".toList ∧
    directoryLogs sampleParsers (sampleSource samplePackage) samplePackage.entries =
      [("kit/scripts".toList, [])] := by
  decide

end Pgokf.Sync
