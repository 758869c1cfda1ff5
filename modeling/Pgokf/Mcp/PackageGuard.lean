import Pgokf.Mcp.Whole

/-! # Document writes and skill packages

A tool does not write into a package, going by the roots of the stored skills. It passes over the
root of the bundle. -/

namespace Pgokf.Mcp

open Lib Sync
open Web (Change Files Site)

variable {F : Type} {cat : Catalog F} {session : WriterSession} {b b' : ContentBundle} {path root : Text}

theorem manifestDirectory_of_not_manifest (h : isManifestPath path = false) :
    manifestDirectory path = none := by
  simp only [isManifestPath, Bool.or_eq_false_iff, decide_eq_false_iff_not] at h
  refine Option.eq_none_iff_forall_ne_some.mpr fun d hd => ?_
  rcases manifestDirectory_eq_some.mp hd with ⟨hm, -⟩ | hm
  · exact h.1 hm
  · have hsuffix : ('/' :: skillManifest) <:+ path := ⟨d, hm.symm⟩
    rw [← List.isSuffixOf_iff_suffix, h.2] at hsuffix
    cases hsuffix

theorem encloses_iff_starts (hroot : root ≠ []) :
    Encloses '/' root path ↔ (root ++ ['/']).isPrefixOf path = true := by
  rw [ List.isPrefixOf_iff_prefix]
  constructor
  · rintro (hnil | ⟨rest, rfl⟩)
    · exact absurd hnil hroot
    · exact ⟨rest, by simp⟩
  · rintro ⟨rest, rfl⟩
    exact .inr ⟨rest, by simp⟩

theorem ensureNotAPackage_ok (h : ensureNotAPackage b path = .ok ()) :
    manifestDirectory path = none ∧
      ∀ root ∈ b.packageRoots, root ≠ [] → ¬ Encloses '/' root path := by
  obtain ⟨_, hmanifest, h⟩ := bind_eq_ok.mp h
  refine ⟨manifestDirectory_of_not_manifest (by simpa using hmanifest), ?_⟩
  intro root hroot hne hencloses
  split at h
  · cases h
  next hnone =>
    have hinside := List.find?_eq_none.mp hnone root hroot
    rw [(encloses_iff_starts hne).mp hencloses] at hinside
    simp [hne] at hinside

inductive Lands (cat : Catalog F) (session : WriterSession) (b : ContentBundle) (path : Text) :
    ContentBundle → Prop where
  | put {b' : ContentBundle} {arg : Text} {text : Bytes} {actor time : Text} (hpath : path = trim arg)
      (h : cat.putDocument session b arg text actor time = .ok b') : Lands cat session b path b'
  | delete {b' : ContentBundle} {arg : Text} (hpath : path = trim arg)
      (h : cat.deleteDocument session b arg = .ok b') : Lands cat session b path b'

theorem Lands.notAPackage (h : Lands cat session b path b') : ensureNotAPackage b path = .ok () := by
  cases h with
  | put hpath h | delete hpath h =>
    obtain ⟨path', hpath', h⟩ := bind_eq_ok.mp h
    obtain ⟨-, -, h⟩ := bind_eq_ok.mp h
    obtain ⟨_, hpackage, -⟩ := bind_eq_ok.mp h
    rw [hpath, ← requirePath_ok hpath']
    exact hpackage

def ContentBundle.index (b : ContentBundle) : PackageIndex := .fromPaths (b.files.map Prod.fst)

theorem ownerOf_eq_none {index : PackageIndex} :
    index.ownerOf path = none ↔ ∀ root ∈ index.roots, ¬ Encloses '/' root path := by
  constructor
  · intro h root hroot hencloses
    obtain ⟨r, hr, -⟩ := nearest_ge hroot hencloses
    rw [PackageIndex.ownerOf, hr] at h
    cases h
  · intro h
    refine Option.eq_none_iff_forall_ne_some.mpr fun root hroot => ?_
    obtain ⟨hmem, hencloses⟩ := nearest_mem hroot
    exact h root hmem hencloses

variable {b₀ : ContentBundle} {session₀ : WriterSession}

theorem mem_packageRoots (h : cat.registerBundleContent session₀ b₀ b.files = .ok b)
    (hstrict : session₀.defaults.strict = true) (hnodup : (b.files.map Prod.fst).Nodup)
    (hroot : root ∈ b.index.roots) :
    root ∈ b.packageRoots := by
  obtain ⟨source, out, hsource, hsynced⟩ := registerBundleContent_ok h
  have hd := distinct_of_nodup hsource hnodup
  have hindex : source.snapshot.index = b.index :=
    fromPaths_congr fun p => (ContentSource.new_paths hsource).mem_iff
  obtain ⟨m, hm, hdir, -⟩ := (fromPaths_declares _ root).mp hroot
  obtain ⟨f, hf, rfl⟩ := List.mem_map.mp hm
  obtain ⟨e, he, hpath, -⟩ := entry_of_file hsource hf
  have hcls : e.cls = .skillManifest := by
    have hclassify := Snapshot.classify he
    rw [hindex, hpath, classify_manifest_of_root hdir hroot] at hclassify
    exact (Option.some.inj hclassify).symm
  have hconcept := Snapshot.manifest_mem_concepts he hcls
  have hrow : ⟨e.conceptId, e.path, e.hash⟩ ∈ b.rows :=
    (hsynced.converged hstrict hd _).mpr (mem_rows.mpr ⟨e, hconcept, rfl, rfl, rfl⟩)
  refine List.mem_map.mpr
    ⟨_, List.mem_filter.mpr ⟨hrow, hsynced.skill_isSome hstrict hd hconcept hcls⟩, ?_⟩
  rw [manifestDirectory_parent hdir]
  exact congrArg (fun p => (splitParent '/' p).1) hpath

theorem validated_of_registered {files : List (Text × Bytes)}
    (h : cat.registerBundleContent session₀ b₀ files = .ok b)
    {f : Text × Bytes} (hf : f ∈ files) : validateContentPath f.1 = .ok () := by
  obtain ⟨_, hvalid, -⟩ := bind_eq_ok.mp h
  simp only [validateArrays, bind_eq_ok] at hvalid
  obtain ⟨-, -, -, -, hall⟩ := hvalid
  have hfile : f ∈ (files.map Prod.fst).zip (files.map Prod.snd) := by
    rw [List.zip_map']
    exact List.mem_map.mpr ⟨f, hf, rfl⟩
  obtain ⟨_, hpath, -⟩ := bind_eq_ok.mp (of_forM hall f hfile)
  exact hpath

theorem nil_mem_roots (h : cat.registerBundleContent session₀ b₀ b.files = .ok b) :
    [] ∈ b.index.roots ↔ skillManifest ∈ b.files.map Prod.fst := by
  rw [ContentBundle.index, fromPaths_declares]
  constructor
  · rintro ⟨m, hm, hdir, -⟩
    rcases manifestDirectory_eq_some.mp hdir with ⟨rfl, -⟩ | rfl
    · exact hm
    · -- An absolute path was refused.
      obtain ⟨f, hf, hpath⟩ := List.mem_map.mp hm
      have hvalid := validated_of_registered h hf
      rw [hpath] at hvalid
      cases hvalid
  · intro hm
    refine ⟨skillManifest, hm, by decide, ?_⟩
    rintro ⟨r, -, hne, hnil | ⟨rest, hrest⟩, -⟩
    · exact hne hnil
    · simp at hrest

/-- A tool call never lands on a manifest. It lands outside every package exactly when the packages
that enclose the path have a row among the skills and are not rooted at the bundle's root; under the
strict policy, exactly when no manifest stands there. -/
theorem tools_stay_outside_packages (h : Lands cat session b path b') :
    manifestDirectory path = none ∧
    (b.index.ownerOf path = none ↔
      ∀ root ∈ b.index.roots, Encloses '/' root path → root ≠ [] ∧ root ∈ b.packageRoots) ∧
    ∀ session₀ b₀, cat.registerBundleContent session₀ b₀ b.files = .ok b →
      session₀.defaults.strict = true → (b.files.map Prod.fst).Nodup →
      (b.index.ownerOf path = none ↔ skillManifest ∉ b.files.map Prod.fst) := by
  obtain ⟨hmanifest, hroots⟩ := ensureNotAPackage_ok h.notAPackage
  have howner : b.index.ownerOf path = none ↔
      ∀ root ∈ b.index.roots, Encloses '/' root path → root ≠ [] ∧ root ∈ b.packageRoots := by
    rw [ownerOf_eq_none]
    constructor
    · intro hnone root hroot hencloses
      exact absurd hencloses (hnone root hroot)
    · intro hall root hroot hencloses
      obtain ⟨hne, hmem⟩ := hall root hroot hencloses
      exact hroots root hmem hne hencloses
  refine ⟨hmanifest, howner, ?_⟩
  intro session₀ b₀ hregister hstrict hnodup
  rw [howner, ← nil_mem_roots hregister]
  constructor
  · intro hall hnil
    exact (hall [] hnil (.inl rfl)).1 rfl
  · intro hnil root hroot _
    refine ⟨?_, mem_packageRoots hregister hstrict hnodup hroot⟩
    rintro rfl
    exact hnil hroot

def packageFiles (manifest : String) : List (Text × Bytes) :=
  [("a.md", [1]), (manifest.toList, [2])]

def guideWrite (b : ContentBundle) : Except String ContentBundle :=
  sampleCatalog.putDocument sampleSession b "references/guide.md" [3] "agent:scribe"
    "t"

theorem tools_stay_outside_packages_below :
    ∃ b b', sampleCatalog.registerBundleContent sampleSession emptyBundle
        (packageFiles "kit/SKILL.md") = .ok b ∧ guideWrite b = .ok b' ∧
      b.index.ownerOf "references/guide.md" = none := by
  have hwrites : ∃ b b', sampleCatalog.registerBundleContent sampleSession emptyBundle
      (packageFiles "kit/SKILL.md") = .ok b ∧ guideWrite b = .ok b' ∧
      b.files = packageFiles "kit/SKILL.md" := ⟨_, _, rfl, rfl, rfl⟩
  obtain ⟨b, b', hregister, hwrite, hfiles⟩ := hwrites
  have hland : Lands sampleCatalog sampleSession b "references/guide.md" b' :=
    .put (by decide) hwrite
  have howner := (tools_stay_outside_packages hland).2.2 sampleSession emptyBundle
  rw [hfiles] at howner
  exact ⟨b, b', hregister, hwrite, (howner hregister rfl (by decide)).mpr (by decide)⟩

/-- With the package at the root of the bundle the same write is accepted and lands inside it. -/
theorem write_into_root_package :
    ∃ b b', sampleCatalog.registerBundleContent sampleSession emptyBundle
        (packageFiles "SKILL.md") = .ok b ∧ guideWrite b = .ok b' ∧
      b.index.ownerOf "references/guide.md" = some [] ∧
      b'.index.classify "references/guide.md" = some .skillReference := by
  exact ⟨_, _, rfl, rfl, by decide +kernel, by decide +kernel⟩

end Pgokf.Mcp
