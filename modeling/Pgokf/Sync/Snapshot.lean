import Pgokf.Sync.Ownership

/-! # Snapshots of a bundle (`okf-sync/src/discover.rs`, `okf-parser/src/normalize.rs`) -/

namespace Pgokf.Sync

open Lib

def fileName (normalizedPath : Text) : Text := (splitParent '/' normalizedPath).2

def parentDirectory (normalizedPath : Text) : Text := (splitParent '/' normalizedPath).1

def isReservedPath (normalizedPath : Text) : Bool := fileName normalizedPath ∈ reservedFileNames

theorem isReservedPath_iff {p : Text} : isReservedPath p = true ↔ fileName p ∈ reservedFileNames :=
  decide_eq_true_iff

def isReservedLog (normalizedPath : Text) : Bool := fileName normalizedPath = "log.md"

def conceptId (normalizedPath : Text) : Text :=
  (".md".toList.isSuffixOf? normalizedPath).getD normalizedPath

theorem FileClass.conceptId_eq {cls : FileClass} (h : cls.isResource = false) (path : Text) :
    cls.conceptId path = Sync.conceptId path := by
  simp [FileClass.conceptId, Sync.conceptId, h]

/-! ### Entries -/

structure FileMetadata where
  path : Text
  hash : Text
  cls : FileClass
  deriving DecidableEq

def FileMetadata.conceptId (entry : FileMetadata) : Text := entry.cls.conceptId entry.path

def manifestIndex (current : List FileMetadata) : PackageIndex :=
  .fromPaths ((current.filter fun entry => entry.cls = .skillManifest).map (·.path))

/- What a scan returns: every entry has the class the index of all paths gives it. -/
structure Snapshot where
  entries : List FileMetadata
  classified : ∀ entry ∈ entries,
    (PackageIndex.fromPaths (entries.map (·.path))).classify entry.path = some entry.cls

namespace Snapshot

variable (snap : Snapshot)

def paths : List Text := snap.entries.map (·.path)

def index : PackageIndex := .fromPaths snap.paths

def concepts : List FileMetadata := snap.entries.filter fun entry => !isReservedPath entry.path

/- A scan of a directory has one entry for each path. -/
def Distinct : Prop := snap.paths.Nodup

instance : Decidable snap.Distinct := inferInstanceAs (Decidable snap.paths.Nodup)

variable {snap} {e e' : FileMetadata}

theorem classify (he : e ∈ snap.entries) : snap.index.classify e.path = some e.cls :=
  snap.classified e he

theorem settled : Settled snap.index.roots := fromPaths_settled snap.paths

theorem mem_concepts : e ∈ snap.concepts ↔ e ∈ snap.entries ∧ isReservedPath e.path = false := by
  simp [concepts]

theorem cls_eq (he : e ∈ snap.entries) (he' : e' ∈ snap.entries) (hp : e.path = e'.path) :
    e.cls = e'.cls := by
  have h := classify he
  rw [hp, classify he', Option.some.injEq] at h
  exact h.symm

theorem path_eq_of_conceptId (he : e ∈ snap.entries) (he' : e' ∈ snap.entries)
    (hid : e.conceptId = e'.conceptId) : e.path = e'.path :=
  conceptId_injective settled (classify he) (classify he') hid

theorem Distinct.eq (h : snap.Distinct) (he : e ∈ snap.entries) (he' : e' ∈ snap.entries)
    (hp : e.path = e'.path) : e = e' :=
  List.inj_on_of_nodup_map h he he' hp

theorem manifestIndex_eq (snap : Snapshot) : manifestIndex snap.entries = snap.index := by
  have hmap : (snap.entries.filter fun entry => entry.cls = .skillManifest).map (·.path) =
      snap.paths.filter fun p => snap.index.classify p = some .skillManifest := by
    rw [paths, List.filter_map]
    refine congrArg (List.map _) (List.filter_congr fun e he => ?_)
    simp [classify he]
  rw [manifestIndex, hmap]
  exact fromPaths_manifests

end Snapshot

variable {index : PackageIndex} {e : FileMetadata} {cls : FileClass} {p : Text}

/-- A name that is reserved makes a reserved file, except in the resources of a package. -/
theorem reserved_or_resource (h : index.classify p = some cls) (hname : isReservedPath p = true) :
    cls = .reserved ∨ cls.isResource = true := by
  rcases classify_ok h with ⟨r, -, hcls⟩ | ⟨-, ⟨-, hcls⟩ | ⟨hother, -⟩⟩
  · exact .inr (resourceClass_isResource hcls)
  · exact .inl hcls
  · exact absurd (isReservedPath_iff.mp hname) hother

theorem isReservedPath_of_reserved (h : index.classify p = some .reserved) :
    isReservedPath p = true := by
  rcases classify_ok h with ⟨r, -, hcls⟩ | ⟨-, ⟨hname, -⟩ | ⟨-, ⟨-, hcls⟩ | ⟨-, hcls⟩⟩⟩
  · exact absurd (resourceClass_isResource hcls) (by decide)
  · exact isReservedPath_iff.mpr hname
  · cases hcls
  · cases hcls

theorem isReservedPath_of_log (h : isReservedLog p = true) : isReservedPath p = true := by
  have hname : fileName p = "log.md" := of_decide_eq_true h
  rw [isReservedPath_iff, hname]
  decide

end Pgokf.Sync
