import Pgokf.Sync.Classify

/-! # Members, hash and invalidation of packages (`catalog/packages.rs`) -/

namespace Pgokf.Sync

open Lib

structure PackageMember where
  cls : FileClass
  path : Text
  packagePath : Text
  conceptId : Text
  fileHash : Text
  deriving DecidableEq

def packageMember (root : Text) (index : PackageIndex) (entry : FileMetadata) : Option PackageMember :=
  if entry.cls.isResource && index.ownerOf entry.path = some root then
    (index.packageRelative entry.path).map fun packagePath =>
      { cls := entry.cls, path := entry.path, packagePath, conceptId := entry.conceptId,
        fileHash := entry.hash }
  else none

def packageMembers (root : Text) (index : PackageIndex) (current : List FileMetadata) :
    List PackageMember :=
  (current.filterMap (packageMember root index)).insertionSort fun a b => a.path ≤ b.path

/-- The buffer of `package_hash`: domain, versions, the hash of the manifest, and the members by
path. -/
def packageBuffer (skillMdHash : Text) (members : List PackageMember) : Text :=
  "pgokf.package:v1\n1\n1\n" ++ skillMdHash ++ '\n' ::
    (members.insertionSort fun a b => a.packagePath ≤ b.packagePath).flatMap fun member =>
      member.cls.label ++ '\x00' :: member.packagePath ++ '\x00' :: member.fileHash ++ ['\n']

def packageHash (parsers : Parsers) (skillMdHash : Text) (members : List PackageMember) : Text :=
  parsers.hashBytes (packageBuffer skillMdHash members)

/-- The packages a path touches: its owners before and now, and for a manifest the one that encloses
its directory. -/
def touchedRoots (index : PackageIndex) (storedOwners : TextMap) (path : Text) : List Text :=
  ((storedOwners.lookup path).map packageRootOf).toList ++
    (if (index.classify path).any (·.isResource) then (index.ownerOf path).toList else []) ++
    ((manifestDirectory path).bind index.ownerOf).toList

/- `invalidate_packages`: the list of files to parse with the manifests of touched packages. -/
def invalidatePackages (toParse : List FileMetadata) (removedPaths : List Text)
    (current : List FileMetadata) (storedOwners : TextMap) : List FileMetadata :=
  let index := manifestIndex current
  let scheduled := toParse.map (·.path)
  let touched := (scheduled ++ removedPaths).flatMap (touchedRoots index storedOwners)
  toParse ++ current.filter fun entry =>
    entry.cls = .skillManifest &&
      (manifestDirectory entry.path).any fun root => root ∈ touched && entry.path ∉ scheduled

section Invalidation

variable {toParse current : List FileMetadata} {removedPaths : List Text} {owners : TextMap}
  {e : FileMetadata}

theorem mem_invalidatePackages : e ∈ invalidatePackages toParse removedPaths current owners ↔
    e ∈ toParse ∨ e ∈ current ∧ e.cls = .skillManifest ∧ e.path ∉ toParse.map (·.path) ∧
      ∃ root, manifestDirectory e.path = some root ∧
        ∃ p ∈ toParse.map (·.path) ++ removedPaths,
          root ∈ touchedRoots (manifestIndex current) owners p := by
  simp only [invalidatePackages, List.mem_append, List.mem_filter, Bool.and_eq_true, decide_eq_true_eq,
    Option.any_eq_true, List.mem_flatMap]
  constructor
  · rintro (h | ⟨he, hcls, root, hroot, htouched, hnew⟩)
    · exact .inl h
    · exact .inr ⟨he, hcls, by simpa using hnew, root, hroot, htouched⟩
  · rintro (h | ⟨he, hcls, hnew, root, hroot, htouched⟩)
    · exact .inl h
    · exact .inr ⟨he, hcls, root, hroot, htouched, by simpa using hnew⟩

theorem invalidatePackages_nil : invalidatePackages [] [] current owners = [] := by
  refine List.eq_nil_iff_forall_not_mem.mpr fun e he => ?_
  rcases mem_invalidatePackages.mp he with h | ⟨-, -, -, root, -, p, hp, -⟩
  · simp at h
  · simp at hp

theorem invalidatePackages_nodup (hpaths : (current.map (·.path)).Nodup)
    (hsub : toParse.Sublist current) :
    ((invalidatePackages toParse removedPaths current owners).map (·.path)).Nodup := by
  rw [invalidatePackages, List.map_append, List.nodup_append]
  refine ⟨hpaths.sublist (hsub.map _), hpaths.sublist (List.filter_sublist.map _), ?_⟩
  rintro p hp q hq rfl
  obtain ⟨e, he, rfl⟩ := List.mem_map.mp hq
  have htest := (List.mem_filter.mp he).2
  simp only [Bool.and_eq_true, Option.any_eq_true, decide_eq_true_eq] at htest
  obtain ⟨-, root, -, -, hnew⟩ := htest
  exact hnew hp

theorem mem_touchedRoots {index : PackageIndex} {p root : Text} {cls : FileClass}
    (hcls : index.classify p = some cls) (hres : cls.isResource = true)
    (hown : index.ownerOf p = some root) : root ∈ touchedRoots index owners p := by
  simp [touchedRoots, hcls, hres, hown]

end Invalidation

/- What a sync parses: the changed files and the manifests of the packages they touch. -/
def filesToParse (projection : StoredProjection) (current : List FileMetadata) : List FileMetadata :=
  let delta := classifyChanges projection (manifestIndex current) current
  invalidatePackages delta.toParse delta.removedPaths current projection.owners

theorem filesToParse_sub {projection : StoredProjection} {current : List FileMetadata} {e : FileMetadata}
    (he : e ∈ filesToParse projection current) : e ∈ current := by
  rcases mem_invalidatePackages.mp he with h | ⟨h, -⟩
  · exact (mem_toParse.mp h).1
  · exact h

end Pgokf.Sync
