import Pgokf.Sync.TypedRows

/-! # Idempotence of incremental syncs

The stored owner of a resource is read from two typed tables in no particular order, and a row of
the wrong one stays while its concept does. -/

namespace Pgokf.Sync

open Lib

section Second

variable {parsers : Parsers} {b b' : BundleState} {call : SyncCall} {out : SyncOutcome} {o : Text}
  {e : FileMetadata}

/-- No resource of the snapshot has a stored row of the other kind. -/
def KindsKept (t : Tables) (snap : Snapshot) : Prop :=
  ∀ e ∈ snap.concepts, e.cls.isResource = true →
    (e.cls = .skillScript → t.referenceDocuments e.conceptId = none) ∧
    (e.cls ≠ .skillScript → t.scripts e.conceptId = none)

variable {t : Tables} {snap : Snapshot}

theorem kindsKept_iff : KindsKept t snap ↔
    ∀ e ∈ snap.concepts, e.cls.isResource = true → otherTable t e.cls e.conceptId = none := by
  refine forall_congr' fun e => forall_congr' fun _ => forall_congr' fun _ => ?_
  unfold otherTable
  by_cases hcls : e.cls = .skillScript
  · simp [hcls]
  · simp [hcls]

structure Projected (t : Tables) (snap : Snapshot) : Prop where
  converged : Converged t snap
  owners : ∀ e ∈ snap.concepts, e.cls.isResource = true →
    ownTable t e.cls e.conceptId = some (skillConceptIdOf ((snap.index.ownerOf e.path).getD [])) ∧
      otherTable t e.cls e.conceptId = none
  skills : ∀ e ∈ snap.concepts, e.cls = .skillManifest → (t.skills e.conceptId).isSome = true

theorem Synced.projected (h : Synced parsers b call b' out) (hstrict : call.defaults.strict = true)
    (hd : call.source.snapshot.Distinct) (hkept : KindsKept b.tables call.source.snapshot) :
    Projected b'.tables call.source.snapshot where
  converged := h.converged hstrict hd
  owners := fun e he hres => by
    have hnone := kindsKept_iff.mp hkept e he hres
    refine ⟨h.ownRow hstrict hd he hres hnone, ?_⟩
    rw [h.otherRow hd he]
    unfold cascade
    split
    · exact hnone
    · rfl
  skills := fun e he hcls => h.skill_isSome hstrict hd he hcls

theorem Projected.owner (h : Projected t snap) (scan : RowOrder) (he : e ∈ snap.concepts) :
    sameOwner (loadStoredProjection t scan) snap.index e = true := by
  unfold sameOwner
  cases hres : e.cls.isResource with
  | false => rfl
  | true =>
    obtain ⟨root, -, -, hroot, -, -⟩ := Snapshot.resource_owned (Snapshot.concepts_subset he) hres
    obtain ⟨hown, hother⟩ := h.owners e he hres
    rw [hroot, Option.getD_some] at hown
    have hrow : (⟨e.conceptId, e.path, e.hash⟩ : ConceptRow) ∈ t.concepts.rows :=
      (h.converged _).mpr (mem_rows.mpr ⟨e, he, rfl, rfl, rfl⟩)
    have hmem : (e.path, skillConceptIdOf root) ∈ t.ownerRows :=
      (mem_ownerRows_iff e.cls).mpr ⟨_, hrow, rfl, .inl hown⟩
    have hsome : ((loadStoredProjection t scan).owners.lookup e.path).isSome := owners_lookup_isSome hmem
    obtain ⟨owner, howner⟩ := Option.isSome_iff_exists.mp hsome
    obtain ⟨r, hr, hp, hrow'⟩ := (mem_ownerRows_iff e.cls).mp (owners_lookup_mem howner)
    obtain rfl := ConceptTable.eq_of_path hrow hr hp.symm
    have hsame : skillConceptIdOf root = owner := by
      rcases hrow' with hrow' | hrow'
      · exact Option.some.inj (hown.symm.trans hrow')
      · rw [hother] at hrow'
        cases hrow'
    simp [howner, hroot, hsame]

theorem Projected.unchanged (h : Projected t snap) (scan : RowOrder) (he : e ∈ snap.concepts) :
    isUnchanged (loadStoredProjection t scan) snap.index e = true := by
  have hrow : (⟨e.conceptId, e.path, e.hash⟩ : ConceptRow) ∈ t.concepts.rows :=
    (h.converged _).mpr (mem_rows.mpr ⟨e, he, rfl, rfl, rfl⟩)
  have hhash : (loadStoredProjection t scan).hashes.lookup e.path = some e.hash :=
    hashes_lookup.mpr ⟨_, hrow, rfl, rfl⟩
  have hid : (loadStoredProjection t scan).ids.lookup e.path = some e.conceptId :=
    ids_lookup.mpr ⟨_, hrow, rfl, rfl⟩
  have hskill : e.cls = .skillManifest → e.path ∈ (loadStoredProjection t scan).skills :=
    fun hcls => mem_skills.mpr ⟨_, hrow, rfl, h.skills e he hcls⟩
  have howner := h.owner scan he
  have hplain := (Snapshot.mem_concepts.mp he).2
  unfold isUnchanged sameIdentity
  by_cases hcls : e.cls = .skillManifest
  · simp [hplain, hhash, hid, howner, hskill hcls]
  · simp [hplain, hhash, hid, howner, hcls]

def Quiet (parsers : Parsers) (b : BundleState) (call : SyncCall) : Prop :=
  ∃ b' out, runBundleSync parsers b call = .ok (b', out) ∧
    out.toParse = [] ∧ out.staged = [] ∧ out.removedIds = [] ∧
    (∀ r, r ∈ b'.tables.concepts.rows ↔ r ∈ b.tables.concepts.rows) ∧
    out.report.added = 0 ∧ out.report.updated = 0 ∧ out.report.removed = 0

theorem Projected.plan (h : Projected t snap) (scan : RowOrder) :
    (planSync t scan snap.entries).toParse = [] ∧ (planSync t scan snap.entries).removedPaths = [] ∧
      (planSync t scan snap.entries).report.added = 0 ∧
      (planSync t scan snap.entries).report.updated = 0 ∧
      (planSync t scan snap.entries).report.removed = 0 := by
  have hnone : ∀ e ∈ snap.entries, isAdded (loadStoredProjection t scan) e = false ∧
      isUpdated (loadStoredProjection t scan) snap.index e = false := by
    intro e he
    cases hname : isReservedPath e.path with
    | true => simp [isAdded, isUpdated, hname]
    | false =>
      have hun := h.unchanged scan (Snapshot.mem_concepts.mpr ⟨he, hname⟩)
      have hhash : (loadStoredProjection t scan).hashes.lookup e.path = some e.hash := by
        simp only [isUnchanged, Bool.and_eq_true, decide_eq_true_eq] at hun
        exact hun.1.2
      simp [isAdded, isUpdated, hun, hhash]
  have hparse : (storedDelta t scan snap).toParse = [] := by
    rw [storedDelta, classifyChanges_toParse, List.filter_eq_nil_iff]
    intro e he
    simp [hnone e he]
  have hremoved : (storedDelta t scan snap).removedPaths = [] := by
    refine List.eq_nil_iff_forall_not_mem.mpr fun p hp => ?_
    have hplanned : p ∈ (planSync t scan snap.entries).removedPaths := by
      rw [planSync_eq]
      exact hp
    obtain ⟨⟨r, hr, hrp⟩, hgone⟩ := mem_planned_removedPaths.mp hplanned
    obtain ⟨e, he, -, hpe, -⟩ := mem_rows.mp ((h.converged r).mp hr)
    exact hgone e he (hpe.symm.trans hrp)
  rw [planSync_eq]
  refine ⟨?_, hremoved, ?_, ?_, ?_⟩
  · simp only [hparse, hremoved, invalidatePackages_nil]
  · rw [storedDelta, classifyChanges_report]
    exact List.countP_eq_zero.mpr fun e he => by simp [hnone e he]
  · rw [storedDelta, classifyChanges_report]
    exact List.countP_eq_zero.mpr fun e he => by simp [hnone e he]
  · rw [storedDelta, classifyChanges_report]
    exact congrArg List.length hremoved

theorem Projected.quiet (h : Projected b.tables call.source.snapshot)
    (hstrict : call.defaults.strict = true) (hd : call.source.snapshot.Distinct)
    (hversion : ∃ v, applyOkfVersionPolicy parsers call.source.rootOkfVersion
      call.defaults.okfVersionPolicy = .ok v) : Quiet parsers b call := by
  obtain ⟨hparse, hremoved, hadded, hupdated, hgone⟩ := h.plan call.scan
  obtain ⟨b', out, hok⟩ := strict_sync_accepted (b := b) hstrict hd
    (fun e he => absurd (hparse ▸ he) List.not_mem_nil) hversion
  have hsync := runBundleSync_synced hok
  have htoParse : out.toParse = [] := hsync.toParse.trans hparse
  have hstaged : out.staged = [] := by
    rw [hsync.staged_eq hstrict, htoParse]
    rfl
  have hreport : out.report = (planSync b.tables call.scan call.source.snapshot.entries).report :=
    hsync.report hstrict
  refine ⟨b', out, hok, htoParse, hstaged, ?_, fun r => ?_, ?_, ?_, ?_⟩
  · refine List.eq_nil_iff_forall_not_mem.mpr fun i hi => ?_
    rw [hsync.removedIds, hstaged] at hi
    simp [loadRemovedConceptIds, SyncCall.plan, hremoved] at hi
  · rw [hsync.converged hstrict hd r, h.converged r]
  · rw [hreport, hadded]
  · rw [hreport, hupdated]
  · rw [hreport, hgone]

theorem skillConceptIdOf_injective : Function.Injective skillConceptIdOf := by
  intro r r' h
  unfold skillConceptIdOf at h
  by_cases hr : r = []
  · by_cases hr' : r' = []
    · rw [hr, hr']
    · have hlen := congrArg List.length h
      simp [hr, hr'] at hlen
      omega
  · by_cases hr' : r' = []
    · have hlen := congrArg List.length h
      simp [hr, hr'] at hlen
      omega
    · simpa [hr, hr'] using h

theorem Synced.not_quiet (h : Synced parsers b call b' out) (hstrict : call.defaults.strict = true)
    (hd : call.source.snapshot.Distinct) (hold : TypedRows b.tables)
    (he : e ∈ call.source.snapshot.concepts) (hres : e.cls.isResource = true)
    (ho : otherTable b.tables e.cls e.conceptId = some o) :
    ∃ scan, ¬ Quiet parsers b' { call with scan } := by
  obtain ⟨⟨r, hr, hid, hp⟩, root, cls, rfl, hcls, hne⟩ := hold.otherRow ho
  have hpath : e.conceptId = e.path := conceptId_resource hres
  have hstays : r ∈ (deletedRows b.tables
    (call.plan b.tables).removedPaths out.staged).concepts.rows := by
    refine mem_deletedRows.mpr ⟨hr, fun hgone => ?_, fun s hs hps => ?_⟩
    · exact (mem_planned_removedPaths.mp hgone).2 e he (hpath.symm.trans hp.symm)
    · obtain ⟨e', -, he', rfl⟩ := h.entry hs
      obtain rfl := hd.eq (Snapshot.concepts_subset he') (Snapshot.concepts_subset he)
        (hps.symm.trans (hp.trans hpath))
      exact hid
  have hother : otherTable b'.tables e.cls e.conceptId = some (skillConceptIdOf root) := by
    rw [h.otherRow hd he, cascade_of_has ⟨r, hstays, hid⟩, ho]
  have hrow : (⟨e.conceptId, e.path, e.hash⟩ : ConceptRow) ∈ b'.tables.concepts.rows :=
    (h.converged hstrict hd _).mpr (mem_rows.mpr ⟨e, he, rfl, rfl, rfl⟩)
  obtain ⟨scan, hscan⟩ := exists_scan_owner
    ((mem_ownerRows_iff e.cls).mpr ⟨_, hrow, rfl, .inr hother⟩)
  refine ⟨scan, ?_⟩
  rintro ⟨b'', out', hok, hquiet, -⟩
  -- Had the resource been found unchanged, the package of that row would be its owner.
  have hun := (runBundleSync_synced hok).unchanged he (hquiet ▸ List.not_mem_nil)
  obtain ⟨root', hroot', howner⟩ := isUnchanged_owner hun hres
  have hsame : root = root' :=
    skillConceptIdOf_injective (Option.some.inj (hscan.symm.trans howner))
  obtain ⟨root'', -, -, hroot'', hcls'', -⟩ :=
    Snapshot.resource_owned (Snapshot.concepts_subset he) hres
  have hboth : root' = root'' := Option.some.inj (hroot'.symm.trans hroot'')
  rw [hpath, hsame, hboth, hcls''] at hcls
  exact hne (Option.some.inj hcls).symm

/-- A strict sync of files that all parse leaves exactly the concepts of the snapshot. A second one
finds nothing to do, in whatever order rows come, exactly when no resource had a row of the other
kind before. -/
theorem sync_convergence {calls : List SyncCall} (hrun : Run (StrictSync parsers) .empty calls b)
    (hstrict : call.defaults.strict = true) (hd : call.source.snapshot.Distinct)
    (hparses : ∀ e ∈ call.source.snapshot.concepts, Stageable parsers call.source e)
    (hversion : ∃ v, applyOkfVersionPolicy parsers call.source.rootOkfVersion
      call.defaults.okfVersionPolicy = .ok v) :
    ∃ b' out, runBundleSync parsers b call = .ok (b', out) ∧
      Converged b'.tables call.source.snapshot ∧
      ((∀ again : SyncCall, again.source.snapshot = call.source.snapshot →
          again.defaults.strict = true →
          (∃ v, applyOkfVersionPolicy parsers again.source.rootOkfVersion
            again.defaults.okfVersionPolicy = .ok v) →
          Quiet parsers b' again) ↔
        KindsKept b.tables call.source.snapshot) := by
  obtain ⟨b', out, hok⟩ := strict_sync_accepted (b := b) hstrict hd
    (fun e he => hparses e (mem_concepts_of_toParse he)) hversion
  have hsync := runBundleSync_synced hok
  refine ⟨b', out, hok, hsync.converged hstrict hd, fun hquiet => ?_, fun hkept again hsame hs hv => ?_⟩
  · refine kindsKept_iff.mpr fun e he hres => ?_
    by_contra hne
    obtain ⟨o, ho⟩ := Option.ne_none_iff_exists'.mp hne
    obtain ⟨scan, hnot⟩ := hsync.not_quiet hstrict hd (typedRows_of_run hrun) he hres ho
    exact hnot (hquiet { call with scan } rfl hstrict hversion)
  · have hprojected := hsync.projected hstrict hd hkept
    rw [← hsame] at hprojected hd
    exact hprojected.quiet hs hd hv

end Second

instance {t : Tables} {snap : Snapshot} : Decidable (KindsKept t snap) :=
  inferInstanceAs (Decidable (∀ e ∈ snap.concepts, _ → (_ → _) ∧ (_ → _)))

theorem sync_convergence_reclassified : ∃ b₂ out,
    runBundleSync sampleParsers documentStored (sampleCall runBoth 2) = .ok (b₂, out) ∧
      Converged b₂.tables runBoth ∧ Quiet sampleParsers b₂ (sampleCall runBoth 3) := by
  have haccepts : BundleState.empty.accepts sampleParsers (sampleCall runDocument 1) = true := by decide
  have hdistinct : runBoth.Distinct := by decide
  have hkept : KindsKept documentStored.tables runBoth := by decide
  have hrun : Run (StrictSync sampleParsers) .empty ([] ++ [sampleCall runDocument 1]) documentStored :=
    .snoc (.start _) ⟨rfl, by decide, BundleState.sync_of_accepts haccepts⟩
  have hstrict : (sampleCall runBoth 2).defaults.strict = true := rfl
  obtain ⟨b₂, out, hok, hconv, hquiet⟩ := sync_convergence hrun hstrict hdistinct
    (fun e _ => ⟨[], rfl, fun _ => rfl, fun _ => rfl, fun _ => rfl⟩) ⟨none, rfl⟩
  exact ⟨b₂, out, hok, hconv, hquiet.mpr hkept _ rfl rfl ⟨none, rfl⟩⟩

def enclosedScript : Snapshot where
  entries :=
    [⟨"a/SKILL.md", "h1", .skillManifest⟩,
      ⟨"a/references/SKILL.md", "h2", .skillReference⟩,
      ⟨"a/references/scripts/y.sh", "h3", .skillReference⟩]
  classified := by decide

def freedScript : Snapshot where
  entries :=
    [⟨"a/references/SKILL.md", "h2", .skillManifest⟩,
      ⟨"a/references/scripts/y.sh", "h3", .skillScript⟩]
  classified := by decide

def scriptEnclosed : BundleState := BundleState.empty.sync sampleParsers (sampleCall enclosedScript 1)

def scriptFreed : BundleState := scriptEnclosed.sync sampleParsers (sampleCall freedScript 2)

/-- The second sync stages the script again: the owner it reads is that of the document the script
was. -/
theorem freed_script_staged_again :
    let result := (runBundleSync sampleParsers scriptFreed (sampleCall freedScript 3)).toOption
    BundleState.empty.accepts sampleParsers (sampleCall enclosedScript 1) = true ∧
    scriptEnclosed.accepts sampleParsers (sampleCall freedScript 2) = true ∧
    (result.map fun r => r.2.report) = some ⟨0, 1, 1, 0⟩ ∧
    (result.map fun r => r.2.staged.map (·.path)) =
      some ["a/references/SKILL.md".toList, "a/references/scripts/y.sh".toList] := by
  decide

end Pgokf.Sync
