import Pgokf.Json
import Pgokf.Sync.Staging

/-! # The visibility of packages (`catalog/sync.rs`, `catalog/packages.rs`)

A manifest declares a visibility, and a resource takes that of its package. Without visibilities
this is `stageChangedConcepts`. -/

namespace Pgokf.Sync

open Lib

def visibilityNames : List Text := ["public", "internal", "private"]

def defaultVisibility : Text := "internal"

def skillVisibility {F : Type} (agentSkill : Json F) : Text :=
  (((agentSkill.get "visibility").bind Json.asStr).filter (· ∈ visibilityNames)).getD defaultVisibility

/- A document has no visibility of its own. -/
structure VisibleConcept where
  concept : StagedConcept
  visibility : Option Text

structure VisibleStaging where
  staged : List VisibleConcept
  skipped : List Text
  skippedRoots : List Text
  visibilities : TextMap

def VisibleStaging.erase (s : VisibleStaging) : Staging :=
    ⟨s.staged.map (·.concept), s.skipped, s.skippedRoots⟩

def VisibleStaging.push (s : VisibleStaging) (concept : StagedConcept) (visibility : Option Text) :
    VisibleStaging :=
  { s with staged := s.staged ++ [⟨concept, visibility⟩] }

section Stage

/- `agentSkill` is the frontmatter a parsed manifest keeps. -/
variable {F : Type} (parsers : Parsers) (agentSkill : Bytes → Text → Json F) (source : Source)
  (index : PackageIndex) (current : List FileMetadata) (strict : Bool)

def malformedVisible (s : VisibleStaging) (entry : FileMetadata) (error : String) :
    Except CatalogError VisibleStaging :=
  (malformed strict s.erase entry error).map fun t => { s with skipped := t.skipped }

def stageManifestVisible (s : VisibleStaging) (entry : FileMetadata) :
    Except CatalogError VisibleStaging := do
  let bytes ← source.readBytes entry.path
  let root := (manifestDirectory entry.path).getD []
  let members := packageMembers root index current
  match parsers.parseSkillManifest bytes entry.path with
  | .ok () =>
    let visibility := skillVisibility (agentSkill bytes entry.path)
    let staged := s.push
      { id := conceptId entry.path, path := entry.path, fileHash := entry.hash,
        typed := some (.skill (packageHash parsers entry.hash members)) } (some visibility)
    .ok { staged with visibilities := staged.visibilities.insert root visibility }
  | .error error => do
    let skipping ← malformedVisible strict s entry error
    .ok { skipping with skippedRoots := skipping.skippedRoots ++ [root] }

def stageResourceVisible (s : VisibleStaging) (entry : FileMetadata) (bytes : Bytes) :
    Except CatalogError VisibleStaging :=
  match index.ownerOf entry.path, index.packageRelative entry.path with
  | some root, some _ =>
    let packageConceptId := skillConceptIdOf root
    let visibility := (s.visibilities.lookup root).getD defaultVisibility
    if entry.cls = .skillScript then
      if parsers.isScriptText bytes then
        .ok (s.push
          { id := entry.path, path := entry.path, fileHash := entry.hash,
            typed := some (.script packageConceptId) } (some visibility))
      else
        malformedVisible strict s entry
          (String.ofList entry.path ++ " is not text a script can be stored as; a binary file below " ++
            "scripts/ is not a Script (place it under assets/ instead)")
    else
      .ok (s.push
        { id := entry.path, path := entry.path, fileHash := entry.hash,
          typed := some (.reference packageConceptId) } (some visibility))
  | _, _ =>
    .error
      { kind := .internal,
        message := "resource " ++ String.ofList entry.path ++
          " has no owning skill package in the snapshot",
        bundlePath := entry.path }

def stageDocumentVisible (s : VisibleStaging) (entry : FileMetadata) (bytes : Bytes) :
    Except CatalogError VisibleStaging :=
  match parsers.parseConcept bytes entry.path with
  | .ok () =>
    .ok (s.push
      { id := conceptId entry.path, path := entry.path, fileHash := entry.hash, typed := none } none)
  | .error error => malformedVisible strict s entry error

def stageOtherVisible (s : VisibleStaging) (entry : FileMetadata) : Except CatalogError VisibleStaging :=
  if entry.cls.isResource && (index.ownerOf entry.path).any (· ∈ s.skippedRoots) then
    .ok { s with skipped := s.skipped ++ [entry.path] }
  else do
    let bytes ← source.readBytes entry.path
    match entry.cls with
    | .okfDocument => stageDocumentVisible parsers strict s entry bytes
    | .skillScript | .skillReference | .skillAsset =>
      stageResourceVisible parsers index strict s entry bytes
    | .skillManifest | .reserved => .ok s

def stageVisible (toParse : List FileMetadata) : Except CatalogError VisibleStaging := do
  let index := manifestIndex current
  let manifests := toParse.filter fun entry => entry.cls = .skillManifest
  let others := toParse.filter fun entry => entry.cls ≠ .skillManifest
  let s ← manifests.foldlM
    (stageManifestVisible parsers agentSkill source index current strict) ⟨[], [], [], ∅⟩
  others.foldlM (stageOtherVisible parsers source index strict) s

end Stage

section Erase

variable {F : Type} {parsers : Parsers} {agentSkill : Bytes → Text → Json F} {source : Source}
  {index : PackageIndex} {current : List FileMetadata} {strict : Bool}

theorem push_erase (s : VisibleStaging) (concept : StagedConcept) (visibility : Option Text) :
    (s.push concept visibility).erase = s.erase.push concept := by
  simp [VisibleStaging.push, VisibleStaging.erase, Staging.push]

theorem malformedVisible_erase (s : VisibleStaging) (entry : FileMetadata) (error : String) :
    (malformedVisible strict s entry error).map VisibleStaging.erase =
      malformed strict s.erase entry error := by
  rw [malformedVisible, malformed]
  split <;> rfl

theorem stageManifestVisible_erase (s : VisibleStaging) (entry : FileMetadata) :
    (stageManifestVisible parsers agentSkill source index current strict s entry).map
      VisibleStaging.erase =
      stageManifest parsers source index current strict s.erase entry := by
  rw [stageManifestVisible, stageManifest]
  cases source.readBytes entry.path with
  | error e => rfl
  | ok bytes =>
    simp only [bind, Except.bind]
    cases parsers.parseSkillManifest bytes entry.path with
    | ok u => exact congrArg Except.ok (push_erase _ _ _)
    | error e =>
      simp only [← malformedVisible_erase]
      cases malformedVisible strict s entry e <;> rfl

theorem stageResourceVisible_erase (s : VisibleStaging) (entry : FileMetadata) (bytes : Bytes) :
    (stageResourceVisible parsers index strict s entry bytes).map VisibleStaging.erase =
      stageResource parsers index strict s.erase entry bytes := by
  rw [stageResourceVisible, stageResource]
  cases index.ownerOf entry.path with
  | none => rfl
  | some root =>
    cases index.packageRelative entry.path with
    | none => rfl
    | some packagePath =>
      dsimp only
      split
      · split
        · exact congrArg Except.ok (push_erase _ _ _)
        · exact malformedVisible_erase _ _ _
      · exact congrArg Except.ok (push_erase _ _ _)

theorem stageOtherVisible_erase (s : VisibleStaging) (entry : FileMetadata) :
    (stageOtherVisible parsers source index strict s entry).map VisibleStaging.erase =
      stageOther parsers source index strict s.erase entry := by
  have hroots : s.erase.skippedRoots = s.skippedRoots := rfl
  rw [stageOtherVisible, stageOther, hroots]
  split
  · rfl
  · cases source.readBytes entry.path with
    | error e => rfl
    | ok bytes =>
      simp only [bind, Except.bind]
      cases entry.cls with
      | okfDocument =>
        dsimp only
        rw [stageDocumentVisible, stageDocument]
        cases parsers.parseConcept bytes entry.path with
        | ok u => exact congrArg Except.ok (push_erase _ _ _)
        | error e => exact malformedVisible_erase _ _ _
      | skillScript | skillReference | skillAsset => exact stageResourceVisible_erase _ _ _
      | skillManifest => rfl
      | reserved => rfl

theorem foldlM_erase {f : VisibleStaging → FileMetadata → Except CatalogError VisibleStaging}
    {g : Staging → FileMetadata → Except CatalogError Staging}
    (hstep : ∀ s entry, (f s entry).map VisibleStaging.erase = g s.erase entry)
    (entries : List FileMetadata)
    (s : VisibleStaging) : (entries.foldlM f s).map VisibleStaging.erase = entries.foldlM g s.erase := by
  induction entries generalizing s with
  | nil => rfl
  | cons entry entries ih =>
    rw [List.foldlM_cons, List.foldlM_cons, ← hstep]
    cases hf : f s entry with
    | error e => rfl
    | ok t => exact ih t

theorem stageVisible_erase (toParse : List FileMetadata) :
    (stageVisible parsers agentSkill source current strict toParse).map VisibleStaging.erase =
      stageChangedConcepts parsers source current strict toParse := by
  have hmanifests : ((toParse.filter fun entry => entry.cls = .skillManifest).foldlM
      (stageManifestVisible parsers agentSkill source (manifestIndex current) current strict)
        ⟨[], [], [], ∅⟩).map VisibleStaging.erase =
      (toParse.filter fun entry => entry.cls = .skillManifest).foldlM
        (stageManifest parsers source (manifestIndex current) current strict) ⟨[], [], []⟩ :=
    foldlM_erase (fun s entry => stageManifestVisible_erase s entry) _ _
  rw [stageVisible, stageChangedConcepts, ← hmanifests]
  cases (toParse.filter fun entry => entry.cls = .skillManifest).foldlM
      (stageManifestVisible parsers agentSkill source (manifestIndex current) current strict)
        ⟨[], [], [], ∅⟩ with
  | error e => rfl
  | ok s => exact foldlM_erase (fun s entry => stageOtherVisible_erase s entry) _ s

end Erase

section Owners

variable {toParse current : List FileMetadata} {removedPaths : List Text} {owners : TextMap}
  {e : FileMetadata}

/- Every root of the index has a manifest among the entries. -/
theorem exists_manifest {root : Text} (hroot : root ∈ (manifestIndex current).roots) :
    ∃ m ∈ current, m.cls = .skillManifest ∧ manifestDirectory m.path = some root := by
  obtain ⟨path, hmem, hdirectory, -⟩ := (fromPaths_declares _ root).mp hroot
  obtain ⟨m, hm, rfl⟩ := List.mem_map.mp hmem
  obtain ⟨hm, hcls⟩ := List.mem_filter.mp hm
  exact ⟨m, hm, of_decide_eq_true hcls, hdirectory⟩

/-- The manifest of the package that owns a scheduled resource is scheduled. -/
theorem owner_scheduled (snap : Snapshot) (hsub : ∀ e ∈ toParse, e ∈ snap.entries)
    (he : e ∈ invalidatePackages toParse removedPaths snap.entries owners) (hres : e.cls.isResource) :
    ∃ root, (manifestIndex snap.entries).ownerOf e.path = some root ∧
      ∃ m ∈ invalidatePackages toParse removedPaths snap.entries owners,
        m.cls = .skillManifest ∧ manifestDirectory m.path = some root := by
  have htoParse : e ∈ toParse := by
    rcases mem_invalidatePackages.mp he with h | ⟨-, hcls, -⟩
    · exact h
    · rw [hcls] at hres
      cases hres
  have hclass : (manifestIndex snap.entries).classify e.path = some e.cls := by
    rw [snap.manifestIndex_eq]
    exact Snapshot.classify (hsub e htoParse)
  obtain ⟨root, hroot, hown, -⟩ := classify_resource hclass hres
  obtain ⟨m, hm, hcls, hdirectory⟩ := exists_manifest hroot
  refine ⟨root, hown, ?_⟩
  by_cases hscheduled : m.path ∈ toParse.map (·.path)
  · -- The entry scheduled under this path has the class of the manifest.
    obtain ⟨m', hm', hpath⟩ := List.mem_map.mp hscheduled
    refine ⟨m', mem_invalidatePackages.mpr (.inl hm'), ?_, by rw [hpath, hdirectory]⟩
    rw [Snapshot.cls_eq (hsub m' hm') hm hpath, hcls]
  · refine ⟨m, mem_invalidatePackages.mpr
      (.inr ⟨hm, hcls, hscheduled, root, hdirectory, e.path, ?_, ?_⟩), hcls, hdirectory⟩
    · exact List.mem_append_left _ (List.mem_map_of_mem htoParse)
    · exact mem_touchedRoots hclass hres hown

end Owners

section Inherit

variable {F : Type} {parsers : Parsers} {agentSkill : Bytes → Text → Json F} {source : Source}
  {index : PackageIndex} {current : List FileMetadata} {s t : VisibleStaging} {e : FileMetadata}

def Declared (parsers : Parsers) (agentSkill : Bytes → Text → Json F) (source : Source)
    (m : FileMetadata) (visibility : Text) : Prop :=
  ∃ bytes, source.readBytes m.path = .ok bytes ∧ parsers.parseSkillManifest bytes m.path = .ok () ∧
    visibility = skillVisibility (agentSkill bytes m.path)

/- The visibilities after the manifests `done`. -/
def Collected (parsers : Parsers) (agentSkill : Bytes → Text → Json F) (source : Source)
    (done : List FileMetadata) (visibilities : TextMap) : Prop :=
  (∀ root visibility, visibilities.lookup root = some visibility →
    ∃ m ∈ done, (manifestDirectory m.path).getD [] = root ∧
      Declared parsers agentSkill source m visibility) ∧
  ∀ m ∈ done, ((manifestDirectory m.path).getD []) ∈ visibilities

theorem malformedVisible_strict {error : String} : malformedVisible true s e error ≠ .ok t := by
  rw [malformedVisible, malformed]
  intro h
  cases h

theorem stageManifestVisible_strict
    (h : stageManifestVisible parsers agentSkill source index current true s e = .ok t) :
    ∃ visibility concept, Declared parsers agentSkill source e visibility ∧
      t = { s with
        staged := s.staged ++ [⟨concept, some visibility⟩]
        visibilities := s.visibilities.insert ((manifestDirectory e.path).getD []) visibility } ∧
      concept.path = e.path := by
  rw [stageManifestVisible, bind_eq_ok] at h
  obtain ⟨bytes, hbytes, h⟩ := h
  dsimp only at h
  cases hparse : parsers.parseSkillManifest bytes e.path with
  | ok u =>
    rw [hparse] at h
    obtain rfl := Except.ok.inj h
    exact ⟨_, _, ⟨bytes, hbytes, hparse, rfl⟩, rfl, rfl⟩
  | error error =>
    rw [hparse] at h
    simp only [bind_eq_ok] at h
    obtain ⟨skipping, hskipping, -⟩ := h
    exact absurd hskipping malformedVisible_strict

theorem Collected.step {done : List FileMetadata}
    (hs : Collected parsers agentSkill source done s.visibilities)
    (h : stageManifestVisible parsers agentSkill source index current true s e = .ok t) :
    Collected parsers agentSkill source (done ++ [e]) t.visibilities := by
  obtain ⟨visibility, concept, hdeclared, rfl, -⟩ := stageManifestVisible_strict h
  refine ⟨fun root v hlookup => ?_, fun m hm => ?_⟩
  · by_cases hroot : root = (manifestDirectory e.path).getD []
    · subst hroot
      rw [AList.lookup_insert, Option.some.injEq] at hlookup
      subst hlookup
      exact ⟨e, by simp, rfl, hdeclared⟩
    · rw [AList.lookup_insert_ne hroot] at hlookup
      obtain ⟨m, hm, hdirectory⟩ := hs.1 root v hlookup
      exact ⟨m, List.mem_append_left _ hm, hdirectory⟩
  · rw [AList.mem_insert]
    rcases List.mem_append.mp hm with hm | hm
    · exact .inr (hs.2 m hm)
    · rw [List.mem_singleton.mp hm]
      exact .inl rfl

/- A concept staged for an entry that is no manifest, with the visibility its owner has among those
collected. -/
def Inherits (index : PackageIndex) (visibilities : TextMap) (e : FileMetadata)
    (c : VisibleConcept) : Prop :=
  c.concept.path = e.path ∧ (e.cls.isResource → ∃ root, index.ownerOf e.path = some root ∧
    c.visibility = some ((visibilities.lookup root).getD defaultVisibility))

theorem stageResourceVisible_strict {bytes : Bytes}
    (h : stageResourceVisible parsers index true s e bytes = .ok t) :
    ∃ c, t = { s with staged := s.staged ++ [c] } ∧ Inherits index s.visibilities e c := by
  rw [stageResourceVisible] at h
  split at h
  next root packagePath hown hrelative =>
    dsimp only at h
    split at h
    · split at h
      · obtain rfl := Except.ok.inj h
        exact ⟨_, rfl, rfl, fun _ => ⟨root, hown, rfl⟩⟩
      · exact absurd h malformedVisible_strict
    · obtain rfl := Except.ok.inj h
      exact ⟨_, rfl, rfl, fun _ => ⟨root, hown, rfl⟩⟩
  next => cases h

theorem stageOtherVisible_strict (h : stageOtherVisible parsers source index true s e = .ok t) :
    t.visibilities = s.visibilities ∧ ∀ c ∈ t.staged, c ∈ s.staged ∨
      Inherits index s.visibilities e c := by
  rw [stageOtherVisible] at h
  split at h
  · obtain rfl := Except.ok.inj h
    exact ⟨rfl, fun c hc => .inl hc⟩
  · rw [bind_eq_ok] at h
    obtain ⟨bytes, -, h⟩ := h
    have hresource : ∀ {t : VisibleStaging}, stageResourceVisible parsers index true s e bytes = .ok t →
        t.visibilities = s.visibilities ∧ ∀ c ∈ t.staged, c ∈ s.staged ∨
          Inherits index s.visibilities e c := by
      intro t ht
      obtain ⟨c, rfl, hc⟩ := stageResourceVisible_strict ht
      refine ⟨rfl, fun c' hc' => (List.mem_append.mp hc').imp_right fun hmem => ?_⟩
      rwa [List.mem_singleton.mp hmem]
    split at h
    next hcls =>
      rw [stageDocumentVisible] at h
      split at h
      · obtain rfl := Except.ok.inj h
        refine ⟨rfl, fun c hc => (List.mem_append.mp hc).imp_right fun hmem => ?_⟩
        rw [List.mem_singleton.mp hmem]
        refine ⟨rfl, fun hres => ?_⟩
        rw [hcls] at hres
        cases hres
      · exact absurd h malformedVisible_strict
    next => exact hresource h
    next => exact hresource h
    next => exact hresource h
    next =>
      obtain rfl := Except.ok.inj h
      exact ⟨rfl, fun c hc => .inl hc⟩
    next =>
      obtain rfl := Except.ok.inj h
      exact ⟨rfl, fun c hc => .inl hc⟩

/- The two loops under the strict policy. -/
theorem stageVisible_strict {toParse : List FileMetadata}
    (h : stageVisible parsers agentSkill source current true toParse = .ok t) :
    ∃ visibilities, Collected parsers agentSkill source
      (toParse.filter fun entry => entry.cls = .skillManifest)
        visibilities ∧
      ∀ c ∈ t.staged, (∃ m ∈ toParse, m.cls = .skillManifest ∧ c.concept.path = m.path) ∨
        ∃ e ∈ toParse, Inherits (manifestIndex current) visibilities e c := by
  rw [stageVisible, bind_eq_ok] at h
  obtain ⟨s, hmanifests, hothers⟩ := h
  have hfirst : Collected parsers agentSkill source
    (toParse.filter fun entry => entry.cls = .skillManifest)
      s.visibilities ∧ ∀ c ∈ s.staged, ∃ m ∈ toParse, m.cls = .skillManifest ∧
        c.concept.path = m.path := by
    refine foldlM_invariant (P := fun done s => Collected parsers agentSkill source done s.visibilities ∧
      ∀ c ∈ s.staged, ∃ m ∈ toParse, m.cls = .skillManifest ∧ c.concept.path = m.path) hmanifests
        ⟨⟨?_, ?_⟩, ?_⟩ ?_
    · intro root visibility hlookup
      cases hlookup
    · simp
    · simp
    · intro done e rest s t hl hs hstep
      obtain ⟨he, hcls⟩ := List.mem_filter.mp (hl ▸ List.mem_append_right done List.mem_cons_self)
      refine ⟨hs.1.step hstep, fun c hc => ?_⟩
      obtain ⟨visibility, concept, -, rfl, hpath⟩ := stageManifestVisible_strict hstep
      rcases List.mem_append.mp hc with hc | hc
      · exact hs.2 c hc
      · rw [List.mem_singleton.mp hc]
        exact ⟨e, he, of_decide_eq_true hcls, hpath⟩
  refine ⟨s.visibilities, hfirst.1, ?_⟩
  have hsecond : t.visibilities = s.visibilities ∧
      ∀ c ∈ t.staged, (∃ m ∈ toParse, m.cls = .skillManifest ∧ c.concept.path = m.path) ∨
        ∃ e ∈ toParse, Inherits (manifestIndex current) s.visibilities e c := by
    refine foldlM_invariant (P := fun _ t => t.visibilities = s.visibilities ∧
      ∀ c ∈ t.staged, (∃ m ∈ toParse, m.cls = .skillManifest ∧ c.concept.path = m.path) ∨
        ∃ e ∈ toParse, Inherits (manifestIndex current) s.visibilities e c) hothers
      ⟨rfl, fun c hc => .inl (hfirst.2 c hc)⟩ ?_
    intro done e rest u v hl hu hstep
    obtain ⟨he, -⟩ := List.mem_filter.mp (hl ▸ List.mem_append_right done List.mem_cons_self)
    obtain ⟨hvisibilities, hstaged⟩ := stageOtherVisible_strict hstep
    refine ⟨hvisibilities.trans hu.1, fun c hc => ?_⟩
    rcases hstaged c hc with hc | hc
    · exact hu.2 c hc
    · rw [hu.1] at hc
      exact .inr ⟨e, he, hc⟩
  exact hsecond.2

end Inherit

theorem filesToParse_plain {projection : StoredProjection} {snap : Snapshot} {e : FileMetadata}
    (he : e ∈ filesToParse projection snap.entries) : e.cls ≠ .reserved := by
  intro hreserved
  rcases mem_invalidatePackages.mp he with he | ⟨-, hcls, -⟩
  · obtain ⟨he, hplain, -⟩ := mem_toParse.mp he
    rw [isReservedPath_of_reserved (hreserved ▸ Snapshot.classify he)] at hplain
    cases hplain
  · rw [hcls] at hreserved
    cases hreserved

theorem stageVisible_erase_ok {F : Type} {parsers : Parsers} {agentSkill : Bytes → Text → Json F}
    {source : Source} {current toParse : List FileMetadata} {strict : Bool} {t : VisibleStaging}
    (h : stageVisible parsers agentSkill source current strict toParse = .ok t) :
    stageChangedConcepts parsers source current strict toParse = .ok t.erase := by
  have herase : (stageVisible parsers agentSkill source current strict toParse).map _ = _ :=
    stageVisible_erase toParse
  rw [← herase, h]
  rfl

/-- A resource is never parsed without its manifest. Under the strict policy it is staged, with the
visibility of its package, and what is staged is what is staged without visibilities. -/
theorem resource_takes_owner_visibility {F : Type} (projection : StoredProjection) (source : Source)
    (parsers : Parsers) (agentSkill : Bytes → Text → Json F) :
    (∀ e ∈ filesToParse projection source.snapshot.entries, e.cls.isResource →
      ∃ root, (manifestIndex source.snapshot.entries).ownerOf e.path = some root ∧
        ∃ m ∈ filesToParse projection source.snapshot.entries,
          m.cls = .skillManifest ∧ manifestDirectory m.path = some root) ∧
    ∀ t, stageVisible parsers agentSkill source source.snapshot.entries true
        (filesToParse projection source.snapshot.entries) = .ok t →
      stageChangedConcepts parsers source source.snapshot.entries true
        (filesToParse projection source.snapshot.entries) = .ok t.erase ∧
      (∀ e ∈ filesToParse projection source.snapshot.entries, e.cls.isResource →
        ∃ c ∈ t.staged, c.concept.path = e.path) ∧
      ∀ c ∈ t.staged, ∀ e ∈ filesToParse projection source.snapshot.entries,
        e.path = c.concept.path → e.cls.isResource →
          ∃ root visibility, (manifestIndex source.snapshot.entries).ownerOf e.path = some root ∧
          c.visibility = some visibility ∧ ∃ m ∈ filesToParse projection source.snapshot.entries,
            manifestDirectory m.path = some root ∧ Declared parsers agentSkill source m visibility := by
  have howner : ∀ e ∈ filesToParse projection source.snapshot.entries, e.cls.isResource →
      ∃ root, (manifestIndex source.snapshot.entries).ownerOf e.path = some root ∧
        ∃ m ∈ filesToParse projection source.snapshot.entries,
          m.cls = .skillManifest ∧ manifestDirectory m.path = some root :=
    fun e he hres => owner_scheduled source.snapshot (fun e he => (mem_toParse.mp he).1) he hres
  refine ⟨howner, fun t ht => ⟨stageVisible_erase_ok ht, fun e he _ => ?_, ?_⟩⟩
  · obtain ⟨l, -, hl, hall⟩ :=
      stageChangedConcepts_ok (fun _ => filesToParse_plain) (stageVisible_erase_ok ht)
    obtain ⟨rfl, -, -⟩ := hall rfl
    have hmem := List.mem_map_of_mem (f := (·.staged parsers
      (manifestIndex source.snapshot.entries) source.snapshot.entries))
      ((stagingOrder_perm _).mem_iff.mpr he)
    rw [← hl] at hmem
    obtain ⟨c, hc, hconcept⟩ := List.mem_map.mp hmem
    exact ⟨c, hc, congrArg StagedConcept.path hconcept⟩
  intro c hc e he hpath hres
  obtain ⟨visibilities, hcollected, hstaged⟩ := stageVisible_strict ht
  -- Entries of one path have one class, so the concept comes from the second loop.
  have hcls : ∀ e' ∈ filesToParse projection source.snapshot.entries, c.concept.path = e'.path →
    e'.cls = e.cls :=
    fun e' he' hpath' =>
      Snapshot.cls_eq (filesToParse_sub he') (filesToParse_sub he) (hpath'.symm.trans hpath.symm)
  rcases hstaged c hc with ⟨m, hm, hmanifest, hmpath⟩ | ⟨e', he', hpath', hinherits⟩
  · rw [← hcls m hm hmpath, hmanifest] at hres
    cases hres
  · obtain ⟨root, hown, hvisibility⟩ := hinherits (by rwa [hcls e' he' hpath'])
    rw [← hpath', ← hpath] at hown
    obtain ⟨root', hown', m, hm, hmanifest, hdirectory⟩ := howner e he hres
    obtain rfl := Option.some.inj (hown.symm.trans hown')
    have hin : root ∈ visibilities := by
      have hmem := hcollected.2 m (List.mem_filter.mpr ⟨hm, decide_eq_true hmanifest⟩)
      rwa [hdirectory] at hmem
    obtain ⟨visibility, hlookup⟩ := Option.isSome_iff_exists.mp (AList.lookup_isSome.mpr hin)
    obtain ⟨m', hm', hdirectory', hdeclared⟩ := hcollected.1 root visibility hlookup
    obtain ⟨hm', hmanifest'⟩ := List.mem_filter.mp hm'
    rw [hlookup] at hvisibility
    refine ⟨root, visibility, hown, hvisibility, m', hm', ?_, hdeclared⟩
    obtain ⟨d, hd⟩ := manifestDirectory_of_classify
      ((Snapshot.classify (filesToParse_sub hm')).trans (congrArg some (of_decide_eq_true hmanifest')))
    rw [hd] at hdirectory' ⊢
    exact congrArg some hdirectory'

/- The frontmatter of the package below. -/
def privateSkill (_ : Bytes) (_ : Text) : Json Unit := .object [("visibility", .string "private")]

theorem resource_takes_owner_visibility_private :
    ∃ t, stageVisible sampleParsers privateSkill (sampleSource samplePackage) samplePackage.entries true
        (filesToParse emptyProjection samplePackage.entries) = .ok t ∧
      ∃ c ∈ t.staged, c.concept.path = "kit/references/guide.md".toList ∧
        c.visibility = some "private".toList := by
  refine ⟨_, rfl, ?_⟩
  have hguide : ⟨"kit/references/guide.md".toList, "h2".toList, .skillReference⟩ ∈
      filesToParse emptyProjection samplePackage.entries := by
    decide +kernel
  obtain ⟨-, hstaged, hvisible⟩ := (resource_takes_owner_visibility emptyProjection
    (sampleSource samplePackage) sampleParsers privateSkill).2 _ rfl
  obtain ⟨c, hc, hpath⟩ := hstaged _ hguide rfl
  obtain ⟨root, visibility, -, hvisibility, m, -, -, bytes, -, -, rfl⟩ :=
    hvisible c hc _ hguide hpath.symm rfl
  exact ⟨c, hc, hpath, hvisibility⟩

end Pgokf.Sync
