import Pgokf.Sync.Packages

/-! # Staging of the changed files (`catalog/sync.rs`, `stage_changed_concepts`)

Under the strict policy the first file that does not parse ends the sync; otherwise it is skipped,
and with a manifest all resources of its package. -/

namespace Pgokf.Sync

open Lib

inductive TypedPayload where
  | skill (packageHash : Text)
  | script (packageConceptId : Text)
  | reference (packageConceptId : Text)
  deriving DecidableEq

structure StagedConcept where
  id : Text
  path : Text
  fileHash : Text
  typed : Option TypedPayload
  deriving DecidableEq

structure Staging where
  staged : List StagedConcept
  skipped : List Text
  skippedRoots : List Text

section Stage

variable (parsers : Parsers) (source : Source) (index : PackageIndex) (current : List FileMetadata)
  (strict : Bool)

def Staging.push (staging : Staging) (concept : StagedConcept) : Staging :=
  { staging with staged := staging.staged ++ [concept] }

def Staging.skip (staging : Staging) (path : Text) : Staging :=
  { staging with skipped := staging.skipped ++ [path] }

def malformed (staging : Staging) (entry : FileMetadata) (error : String) :
    Except CatalogError Staging :=
  if strict then
    .error
      { kind := .invalidParameter, message := "failed to parse OKF concept: " ++ error,
        bundlePath := entry.path }
  else .ok (staging.skip entry.path)

/- One manifest: `stage_manifest` with the members of its package. -/
def stageManifest (staging : Staging) (entry : FileMetadata) : Except CatalogError Staging := do
  let bytes ← source.readBytes entry.path
  let root := (manifestDirectory entry.path).getD []
  let members := packageMembers root index current
  match parsers.parseSkillManifest bytes entry.path with
  | .ok () =>
    .ok (staging.push
      { id := conceptId entry.path, path := entry.path, fileHash := entry.hash,
        typed := some (.skill (packageHash parsers entry.hash members)) })
  | .error error => do
    let skipping ← malformed strict staging entry error
    .ok { skipping with skippedRoots := skipping.skippedRoots ++ [root] }

/-- `stage_resource`, with `stage_script` and `stage_reference`. -/
def stageResource (staging : Staging) (entry : FileMetadata) (bytes : Bytes) :
    Except CatalogError Staging :=
  match index.ownerOf entry.path, index.packageRelative entry.path with
  | some root, some _ =>
    let packageConceptId := skillConceptIdOf root
    if entry.cls = .skillScript then
      if parsers.isScriptText bytes then
        .ok (staging.push
          { id := entry.path, path := entry.path, fileHash := entry.hash,
            typed := some (.script packageConceptId) })
      else
        malformed strict staging entry
          (String.ofList entry.path ++ " is not text a script can be stored as; a binary file below " ++
            "scripts/ is not a Script (place it under assets/ instead)")
    else
      .ok (staging.push
        { id := entry.path, path := entry.path, fileHash := entry.hash,
          typed := some (.reference packageConceptId) })
  | _, _ =>
    .error
      { kind := .internal,
        message := "resource " ++ String.ofList entry.path ++
          " has no owning skill package in the snapshot",
        bundlePath := entry.path }

def stageDocument (staging : Staging) (entry : FileMetadata) (bytes : Bytes) :
    Except CatalogError Staging :=
  match parsers.parseConcept bytes entry.path with
  | .ok () =>
    .ok (staging.push
      { id := conceptId entry.path, path := entry.path, fileHash := entry.hash, typed := none })
  | .error error => malformed strict staging entry error

def stageOther (staging : Staging) (entry : FileMetadata) : Except CatalogError Staging :=
  if entry.cls.isResource && (index.ownerOf entry.path).any (· ∈ staging.skippedRoots) then
    .ok (staging.skip entry.path)
  else do
    let bytes ← source.readBytes entry.path
    match entry.cls with
    | .okfDocument => stageDocument parsers strict staging entry bytes
    | .skillScript | .skillReference | .skillAsset =>
      stageResource parsers index strict staging entry bytes
    | .skillManifest | .reserved => .ok staging

def stageChangedConcepts (toParse : List FileMetadata) : Except CatalogError Staging := do
  let index := manifestIndex current
  let manifests := toParse.filter fun entry => entry.cls = .skillManifest
  let others := toParse.filter fun entry => entry.cls ≠ .skillManifest
  let staging ← manifests.foldlM (stageManifest parsers source index current strict) ⟨[], [], []⟩
  others.foldlM (stageOther parsers source index strict) staging

def FileMetadata.staged (entry : FileMetadata) : StagedConcept where
  id := entry.conceptId
  path := entry.path
  fileHash := entry.hash
  typed :=
    let owner := skillConceptIdOf ((index.ownerOf entry.path).getD [])
    match entry.cls with
    | .skillManifest =>
      let root := (manifestDirectory entry.path).getD []
      some (.skill (packageHash parsers entry.hash (packageMembers root index current)))
    | .skillScript => some (.script owner)
    | .skillReference | .skillAsset => some (.reference owner)
    | .okfDocument | .reserved => none

end Stage

section Spec

variable {parsers : Parsers} {source : Source} {index : PackageIndex} {current : List FileMetadata}
  {strict : Bool} {s t : Staging} {e : FileMetadata} {error : String} {bytes : Bytes}

theorem malformed_ok (h : malformed strict s e error = .ok t) :
    strict = false ∧ t = s.skip e.path := by
  unfold malformed at h
  split at h
  · cases h
  · rename_i hs
    exact ⟨by simpa using hs, (Except.ok.inj h).symm⟩

/- An entry is staged as its class asks for, or passed over: under the strict policy only a resource
of a skipped package. -/
inductive StagesOne (parsers : Parsers) (index : PackageIndex) (current : List FileMetadata)
    (strict : Bool) (s : Staging) (e : FileMetadata) : Staging → Prop where
  | staged : StagesOne parsers index current strict s e (s.push (e.staged parsers index current))
  | skipped {t : Staging} : t.staged = s.staged → (strict = true → s.skippedRoots ≠ []) →
      StagesOne parsers index current strict s e t

theorem stageManifest_ok (hcls : e.cls = .skillManifest)
    (h : stageManifest parsers source index current strict s e = .ok t) :
    StagesOne parsers index current strict s e t := by
  have hid : e.conceptId = conceptId e.path := FileClass.conceptId_eq (by rw [hcls]; rfl) e.path
  simp only [stageManifest, bind_eq_ok] at h
  obtain ⟨bytes, -, h⟩ := h
  split at h
  · have hstaged : StagesOne parsers index current strict s e
      (s.push (e.staged parsers index current)) :=
      .staged
    cases h
    simpa [FileMetadata.staged, hcls, hid] using hstaged
  · rw [bind_eq_ok] at h
    obtain ⟨u, hu, h⟩ := h
    obtain ⟨hs, rfl⟩ := malformed_ok hu
    cases h
    exact .skipped rfl (by simp [hs])

theorem stageResource_ok (hres : e.cls.isResource = true)
    (h : stageResource parsers index strict s e bytes = .ok t) :
    StagesOne parsers index current strict s e t := by
  have hid : e.conceptId = e.path := conceptId_resource hres
  have hstaged : StagesOne parsers index current strict s e (s.push (e.staged parsers index current)) :=
    .staged
  unfold stageResource at h
  split at h
  · rename_i root _ hown _
    dsimp only at h
    split at h
    · rename_i hcls
      split at h
      · cases h
        simpa [FileMetadata.staged, hcls, hid, hown] using hstaged
      · obtain ⟨hs, rfl⟩ := malformed_ok h
        exact .skipped rfl (by simp [hs])
    · rename_i hcls
      cases h
      have htyped : (e.staged parsers index current).typed = some
        (.reference (skillConceptIdOf root)) := by
        cases hc : e.cls <;> simp_all [FileMetadata.staged, FileClass.isResource]
      have heta : e.staged parsers index current =
          ⟨e.conceptId, e.path, e.hash, (e.staged parsers index current).typed⟩ := rfl
      rwa [heta, htyped, hid] at hstaged
  · cases h

theorem stageDocument_ok (hcls : e.cls = .okfDocument)
    (h : stageDocument parsers strict s e bytes = .ok t) :
    StagesOne parsers index current strict s e t := by
  have hid : e.conceptId = conceptId e.path := FileClass.conceptId_eq (by rw [hcls]; rfl) e.path
  have hstaged : StagesOne parsers index current strict s e (s.push (e.staged parsers index current)) :=
    .staged
  unfold stageDocument at h
  split at h
  · cases h
    simpa [FileMetadata.staged, hcls, hid] using hstaged
  · obtain ⟨hs, rfl⟩ := malformed_ok h
    exact .skipped rfl (by simp [hs])

theorem stageOther_ok (hman : e.cls ≠ .skillManifest) (hres : e.cls ≠ .reserved)
    (h : stageOther parsers source index strict s e = .ok t) :
    StagesOne parsers index current strict s e t := by
  unfold stageOther at h
  split at h
  · rename_i hskip
    cases h
    refine .skipped rfl fun _ hnil => ?_
    simp [hnil] at hskip
  · rw [bind_eq_ok] at h
    obtain ⟨bytes, -, h⟩ := h
    split at h
    · rename_i hcls
      exact stageDocument_ok hcls h
    · rename_i hcls
      exact stageResource_ok (by rw [hcls]; rfl) h
    · rename_i hcls
      exact stageResource_ok (by rw [hcls]; rfl) h
    · rename_i hcls
      exact stageResource_ok (by rw [hcls]; rfl) h
    · exact absurd ‹_› hman
    · exact absurd ‹_› hres

/- What a fold over the entries `done` has staged: some of them, all of them under the strict
policy. -/
def StagedOf (parsers : Parsers) (index : PackageIndex) (current : List FileMetadata) (strict : Bool)
    (done : List FileMetadata) (s : Staging) : Prop :=
  ∃ l, l.Sublist done ∧ s.staged = l.map (·.staged parsers index current) ∧
    (strict = true → l = done ∧ s.skipped = [] ∧ s.skippedRoots = [])

theorem StagedOf.step {done : List FileMetadata} (h : StagedOf parsers index current strict done s)
    (hone : StagesOne parsers index current strict s e t) :
    StagedOf parsers index current strict (done ++ [e]) t := by
  obtain ⟨l, hsub, hl, hall⟩ := h
  cases hone with
  | staged =>
    refine ⟨l ++ [e], hsub.append_right [e], by simp [Staging.push, hl], fun hs => ?_⟩
    obtain ⟨hdone, hskipped, hroots⟩ := hall hs
    exact ⟨by rw [hdone], hskipped, hroots⟩
  | skipped heq hroots =>
    refine ⟨l, hsub.trans (List.sublist_append_left done [e]), by rw [heq, hl], fun hs => ?_⟩
    exact absurd (hall hs).2.2 (hroots hs)

/- The order in which entries are staged. -/
def stagingOrder (toParse : List FileMetadata) : List FileMetadata :=
  (toParse.filter fun entry => entry.cls = .skillManifest) ++
    toParse.filter fun entry => entry.cls ≠ .skillManifest

theorem stagingOrder_perm (toParse : List FileMetadata) : (stagingOrder toParse).Perm toParse := by
  have h := List.filter_append_perm
    (fun entry : FileMetadata => decide (entry.cls = .skillManifest)) toParse
  simpa [stagingOrder] using h

variable {toParse : List FileMetadata}

theorem stageChangedConcepts_ok (hplain : ∀ e ∈ toParse, e.cls ≠ .reserved)
    (h : stageChangedConcepts parsers source current strict toParse = .ok t) :
    StagedOf parsers (manifestIndex current) current strict (stagingOrder toParse) t := by
  simp only [stageChangedConcepts, bind_eq_ok] at h
  obtain ⟨s, hmanifests, hothers⟩ := h
  have hfirst : StagedOf parsers (manifestIndex current) current strict
      (toParse.filter fun entry => entry.cls = .skillManifest) s := by
    refine foldlM_invariant hmanifests ⟨[], .slnil, rfl, fun _ => ⟨rfl, rfl, rfl⟩⟩ ?_
    intro done e rest s t hl hs hstep
    obtain ⟨-, hman⟩ := List.mem_filter.mp (hl ▸ List.mem_append_right done List.mem_cons_self)
    exact hs.step (stageManifest_ok (of_decide_eq_true hman) hstep)
  -- The second loop goes on from what the first one staged.
  refine foldlM_invariant (P := fun done t => StagedOf parsers (manifestIndex current) current strict
    ((toParse.filter fun entry => entry.cls = .skillManifest) ++ done) t) hothers ?_ ?_
  · rwa [List.append_nil]
  · intro done e rest s t hl hs hstep
    obtain ⟨he, hman⟩ := List.mem_filter.mp (hl ▸ List.mem_append_right done List.mem_cons_self)
    rw [← List.append_assoc]
    exact hs.step (stageOther_ok (of_decide_eq_true hman) (hplain e he) hstep)

def Staging.AllRead (source : Source) (s : Staging) : Prop :=
  ∀ c ∈ s.staged, ∃ bytes, source.readBytes c.path = .ok bytes

theorem StagesOne.allRead (hone : StagesOne parsers index current strict s e t)
    (hread : t.staged = s.staged ∨ ∃ bytes, source.readBytes e.path = .ok bytes)
    (hs : s.AllRead source) : t.AllRead source := by
  intro c hc
  cases hone with
  | skipped heq _ => exact hs c (heq ▸ hc)
  | staged =>
    rcases hread with heq | hread
    · exact hs c (heq ▸ hc)
    · rcases List.mem_append.mp hc with hc | hc
      · exact hs c hc
      · rw [List.mem_singleton.mp hc]
        exact hread

theorem stageOther_read (h : stageOther parsers source index strict s e = .ok t) :
    t.staged = s.staged ∨ ∃ bytes, source.readBytes e.path = .ok bytes := by
  unfold stageOther at h
  split at h
  · cases h
    exact .inl rfl
  · rw [bind_eq_ok] at h
    obtain ⟨bytes, hbytes, -⟩ := h
    exact .inr ⟨bytes, hbytes⟩

theorem stageChangedConcepts_read (hplain : ∀ e ∈ toParse, e.cls ≠ .reserved)
    (h : stageChangedConcepts parsers source current strict toParse = .ok t) : t.AllRead source := by
  simp only [stageChangedConcepts, bind_eq_ok] at h
  obtain ⟨s, hmanifests, hothers⟩ := h
  have hfirst : s.AllRead source := by
    refine foldlM_invariant (P := fun _ s => s.AllRead source) hmanifests (by simp [Staging.AllRead]) ?_
    intro done e rest s t hl hs hstep
    obtain ⟨-, hman⟩ := List.mem_filter.mp (hl ▸ List.mem_append_right done List.mem_cons_self)
    refine (stageManifest_ok (of_decide_eq_true hman) hstep).allRead (.inr ?_) hs
    simp only [stageManifest, bind_eq_ok] at hstep
    obtain ⟨bytes, hbytes, -⟩ := hstep
    exact ⟨bytes, hbytes⟩
  refine foldlM_invariant (P := fun _ s => s.AllRead source) hothers hfirst ?_
  intro done e rest s t hl hs hstep
  obtain ⟨he, hman⟩ := List.mem_filter.mp (hl ▸ List.mem_append_right done List.mem_cons_self)
  have hone : StagesOne parsers (manifestIndex current) current strict s e t :=
    stageOther_ok (of_decide_eq_true hman) (hplain e he) hstep
  exact hone.allRead (stageOther_read hstep) hs

def Stageable (parsers : Parsers) (source : Source) (e : FileMetadata) : Prop :=
  ∃ bytes, source.readBytes e.path = .ok bytes ∧
    (e.cls = .skillManifest → parsers.parseSkillManifest bytes e.path = .ok ()) ∧
    (e.cls = .okfDocument → parsers.parseConcept bytes e.path = .ok ()) ∧
    (e.cls = .skillScript → parsers.isScriptText bytes = true)

theorem stageManifest_total (hcls : e.cls = .skillManifest) (h : Stageable parsers source e) :
    ∃ t, stageManifest parsers source index current strict s e = .ok t ∧
      t.skippedRoots = s.skippedRoots := by
  obtain ⟨bytes, hread, hparse, -, -⟩ := h
  simp [stageManifest, hread, hparse hcls, Staging.push, bind, Except.bind]

theorem stageOther_total (hroots : s.skippedRoots = [])
    (hres : e.cls.isResource = true → ∃ root x, index.ownerOf e.path = some root ∧
      index.packageRelative e.path = some x)
    (h : Stageable parsers source e) :
    ∃ t, stageOther parsers source index strict s e = .ok t ∧ t.skippedRoots = [] := by
  obtain ⟨bytes, hread, -, hdoc, hscript⟩ := h
  have hskip : ¬ (e.cls.isResource && (index.ownerOf e.path).any (· ∈ s.skippedRoots)) = true := by
    simp [hroots]
  unfold stageOther
  rw [if_neg hskip, hread]
  cases hcls : e.cls with
  | okfDocument =>
    exact ⟨s.push ⟨conceptId e.path, e.path, e.hash, none⟩,
      by simp [stageDocument, hdoc hcls, bind, Except.bind], hroots⟩
  | skillManifest | reserved => exact ⟨s, rfl, hroots⟩
  | skillScript =>
    obtain ⟨root, x, hown, hrel⟩ := hres (by rw [hcls]; rfl)
    exact ⟨s.push ⟨e.path, e.path, e.hash, some (.script (skillConceptIdOf root))⟩,
      by simp [stageResource, hown, hrel, hcls, hscript hcls, bind, Except.bind], hroots⟩
  | skillReference | skillAsset =>
    obtain ⟨root, x, hown, hrel⟩ := hres (by rw [hcls]; rfl)
    exact ⟨s.push ⟨e.path, e.path, e.hash, some (.reference (skillConceptIdOf root))⟩,
      by simp [stageResource, hown, hrel, hcls, bind, Except.bind], hroots⟩

theorem stageChangedConcepts_total (hres : ∀ e ∈ toParse, e.cls.isResource = true → ∃ root x,
      (manifestIndex current).ownerOf e.path = some root ∧
      (manifestIndex current).packageRelative e.path = some x)
        (h : ∀ e ∈ toParse, Stageable parsers source e) :
    ∃ t, stageChangedConcepts parsers source current strict toParse = .ok t := by
  obtain ⟨s, hs, hroots⟩ := foldlM_total (l := toParse.filter fun entry => entry.cls = .skillManifest)
    (f := stageManifest parsers source (manifestIndex current) current strict)
    (P := fun _ s => s.skippedRoots = []) (s := ⟨[], [], []⟩) rfl (by
      intro done e rest s hl hs
      obtain ⟨he, hcls⟩ := List.mem_filter.mp (hl ▸ List.mem_append_right done List.mem_cons_self)
      obtain ⟨t, ht, heq⟩ := stageManifest_total (of_decide_eq_true hcls) (h e he)
      exact ⟨t, ht, heq.trans hs⟩)
  obtain ⟨t, ht, -⟩ := foldlM_total (l := toParse.filter fun entry => entry.cls ≠ .skillManifest)
    (f := stageOther parsers source (manifestIndex current) strict)
    (P := fun _ s => s.skippedRoots = []) (s := s) hroots (by
      intro done e rest s hl hs
      obtain ⟨he, -⟩ := List.mem_filter.mp (hl ▸ List.mem_append_right done List.mem_cons_self)
      exact stageOther_total hs (hres e he) (h e he))
  refine ⟨t, ?_⟩
  simp only [stageChangedConcepts, bind_eq_ok]
  exact ⟨s, hs, ht⟩

end Spec

end Pgokf.Sync
