import Pgokf.Sync.Replay

/-! # Convergence of incremental syncs

A strict sync leaves the rows that a sync of the same snapshot into an empty bundle writes. -/

namespace Pgokf.Sync

open Lib

def Snapshot.rows (snap : Snapshot) : List ConceptRow :=
  snap.concepts.map fun e => ⟨e.conceptId, e.path, e.hash⟩

/-- The stored concepts are those of the snapshot. -/
def Converged (t : Tables) (snap : Snapshot) : Prop := ∀ r, r ∈ t.concepts.rows ↔ r ∈ snap.rows

def StrictSync (parsers : Parsers) (b : BundleState) (call : SyncCall) (b' : BundleState) : Prop :=
  call.defaults.strict = true ∧ call.source.snapshot.Distinct ∧
    ∃ out, runBundleSync parsers b call = .ok (b', out)

section Facts

variable {parsers : Parsers} {b b' : BundleState} {call : SyncCall} {out : SyncOutcome}
  {s : StagedConcept} {e e' : FileMetadata} {r : ConceptRow} {snap : Snapshot} {t : Tables}
  {scan : RowOrder}

theorem mem_rows : r ∈ snap.rows ↔
    ∃ e ∈ snap.concepts, r.id = e.conceptId ∧ r.path = e.path ∧ r.fileHash = e.hash := by
  simp only [Snapshot.rows, List.mem_map]
  constructor
  · rintro ⟨e, he, rfl⟩
    exact ⟨e, he, rfl, rfl, rfl⟩
  · rintro ⟨e, he, hid, hp, hh⟩
    exact ⟨e, he, by rw [← hid, ← hp, ← hh]⟩

theorem Snapshot.concepts_subset (he : e ∈ snap.concepts) : e ∈ snap.entries :=
  (Snapshot.mem_concepts.mp he).1

theorem toParse_paths_nodup (hd : snap.Distinct) :
    ((planSync t scan snap.entries).toParse.map (·.path)).Nodup := by
  refine invalidatePackages_nodup hd ?_
  rw [classifyChanges_toParse]
  exact List.filter_sublist

theorem Synced.staged_eq (h : Synced parsers b call b' out) (hstrict : call.defaults.strict = true) :
    out.staged = (stagingOrder out.toParse).map
      (·.staged parsers call.source.snapshot.index call.source.snapshot.entries) := by
  obtain ⟨l, -, hl, hall⟩ := h.staged
  rw [hl, hall hstrict]

variable {toParse : List FileMetadata}

theorem staged_nodup {index : PackageIndex} {current : List FileMetadata}
    (hpaths : (toParse.map (·.path)).Nodup) (hsub : ∀ e ∈ toParse, e ∈ snap.concepts) :
    (((stagingOrder toParse).map (·.staged parsers index current)).map (·.path)).Nodup ∧
      (((stagingOrder toParse).map (·.staged parsers index current)).map (·.id)).Nodup := by
  have hperm := stagingOrder_perm toParse
  have hpaths' : ((stagingOrder toParse).map (·.path)).Nodup := (hperm.map _).nodup_iff.mpr hpaths
  rw [List.map_map, List.map_map]
  refine ⟨hpaths', List.Nodup.map_on (fun e he e' he' hid => ?_) hpaths'.of_map⟩
  have hmem : ∀ e ∈ stagingOrder toParse, e ∈ snap.entries :=
    fun e he => Snapshot.concepts_subset (hsub e (hperm.mem_iff.mp he))
  have hpath := Snapshot.path_eq_of_conceptId (hmem e he) (hmem e' he') hid
  exact List.inj_on_of_nodup_map hpaths' he he' hpath

theorem Synced.staged_ids_nodup (h : Synced parsers b call b' out)
    (hd : call.source.snapshot.Distinct) : (out.staged.map (·.id)).Nodup := by
  obtain ⟨l, hsub, hl, -⟩ := h.staged
  rw [h.toParse] at hsub
  rw [hl]
  exact (staged_nodup (toParse_paths_nodup hd) fun e he => mem_concepts_of_toParse he).2.sublist
    ((hsub.map _).map _)

theorem Synced.surviving_row (h : Synced parsers b call b' out) (hstrict : call.defaults.strict = true)
    (hr : r ∈ (deletedRows b.tables (call.plan b.tables).removedPaths out.staged).concepts.rows) :
    ∃ e ∈ call.source.snapshot.concepts, e.path = r.path ∧ e.conceptId = r.id ∧
      (e ∉ out.toParse → r.fileHash = e.hash) := by
  obtain ⟨hr, hkept, hsame⟩ := mem_deletedRows.mp hr
  have hstays : ∃ e ∈ call.source.snapshot.concepts, e.path = r.path := by
    by_contra hnone
    exact hkept (mem_planned_removedPaths.mpr ⟨⟨r, hr, rfl⟩, fun e he hp => hnone ⟨e, he, hp⟩⟩)
  obtain ⟨e, he, hp⟩ := hstays
  by_cases hparse : e ∈ out.toParse
  · have hid := hsame _ (h.staged_of_strict hstrict hparse) hp.symm
    exact ⟨e, he, hp, hid.symm, fun hnot => absurd hparse hnot⟩
  · rcases mem_toParse_or_unchanged he with hmem | hun
    · exact absurd (h.toParse ▸ hmem) hparse
    · obtain ⟨r', hr', hp', hh, hid⟩ := isUnchanged_row hun
      obtain rfl := ConceptTable.eq_of_path hr' hr (hp'.trans hp)
      exact ⟨e, he, hp, hid.symm, fun _ => hh⟩

theorem Synced.unchanged_row (h : Synced parsers b call b' out) (hd : call.source.snapshot.Distinct)
    (he : e ∈ call.source.snapshot.concepts) (hnot : e ∉ out.toParse) :
    ∃ r ∈ (deletedRows b.tables (call.plan b.tables).removedPaths out.staged).concepts.rows,
      r.path = e.path ∧ r.fileHash = e.hash ∧ r.id = e.conceptId ∧ r.id ∉ out.staged.map (·.id) := by
  have hun : isUnchanged (loadStoredProjection b.tables call.scan) call.source.snapshot.index e =
    true := by
    rcases mem_toParse_or_unchanged he with hmem | hun
    · exact absurd (h.toParse ▸ hmem) hnot
    · exact hun
  obtain ⟨r, hr, hp, hh, hid⟩ := isUnchanged_row hun
  -- Whatever is staged is another entry, with another path and another id.
  have hother : ∀ s ∈ out.staged, s.path ≠ e.path ∧ s.id ≠ e.conceptId := by
    intro s hs
    obtain ⟨e', hparse, he', rfl⟩ := h.entry hs
    have hne : e'.path ≠ e.path := fun hpath =>
      hnot (hd.eq (Snapshot.concepts_subset he') (Snapshot.concepts_subset he) hpath ▸ hparse)
    exact ⟨hne, fun hid' => hne (Snapshot.path_eq_of_conceptId (Snapshot.concepts_subset he')
      (Snapshot.concepts_subset he) hid')⟩
  refine ⟨r, mem_deletedRows.mpr ⟨hr, fun hgone => ?_, fun s hs hps => ?_⟩, hp, hh, hid, fun hmem => ?_⟩
  · exact (mem_planned_removedPaths.mp hgone).2 e he hp.symm
  · exact absurd (hps.symm.trans hp) (hother s hs).1
  · obtain ⟨s, hs, hsid⟩ := List.mem_map.mp hmem
    exact (hother s hs).2 (hsid.trans hid)

/-- After a strict sync the stored concepts are those of the snapshot, whatever was stored before. -/
theorem Synced.converged (h : Synced parsers b call b' out) (hstrict : call.defaults.strict = true)
    (hd : call.source.snapshot.Distinct) : Converged b'.tables call.source.snapshot := by
  intro r
  rw [upsertConcepts_rows (h.staged_ids_nodup hd) h.concepts r, mem_rows, List.mem_map]
  constructor
  · rintro (⟨s, hs, rfl⟩ | ⟨hr, hid⟩)
    · obtain ⟨e, -, he, rfl⟩ := h.entry hs
      exact ⟨e, he, rfl, rfl, rfl⟩
    · obtain ⟨e, he, hp, hid', hh⟩ := h.surviving_row hstrict hr
      refine ⟨e, he, hid'.symm, hp.symm, hh fun hparse => hid ?_⟩
      exact List.mem_map.mpr ⟨_, h.staged_of_strict hstrict hparse, hid'⟩
  · rintro ⟨e, he, hid, hp, hh⟩
    by_cases hparse : e ∈ out.toParse
    · refine .inl ⟨_, h.staged_of_strict hstrict hparse, ?_⟩
      cases r
      simp_all [StagedConcept.row, FileMetadata.staged]
    · obtain ⟨r', hr', hp', hh', hid', hnot⟩ := h.unchanged_row hd he hparse
      obtain rfl : r' = r := by
        cases r
        cases r'
        simp_all
      exact .inr ⟨hr', hnot⟩

theorem Snapshot.resource_owned (he : e ∈ snap.entries) (hres : e.cls.isResource = true) :
    ∃ root x, root ∈ snap.index.roots ∧ snap.index.ownerOf e.path = some root ∧
      resourceClass root e.path = some e.cls ∧ snap.index.packageRelative e.path = some x := by
  obtain ⟨root, hroot, hown, hcls⟩ := classify_resource (Snapshot.classify he) hres
  obtain ⟨x, hx⟩ := relative_isSome (resourceClass_encloses hcls)
  exact ⟨root, x, hroot, hown, hcls, by simp [PackageIndex.packageRelative, hown, hx, hcls]⟩

variable {staged : List StagedConcept}

theorem removedIds_nodup (hpaths : (staged.map (·.path)).Nodup)
    (hstaged : ∀ s ∈ staged, ∃ e ∈ snap.concepts, e.path = s.path) :
    (loadRemovedConceptIds t (planSync t scan snap.entries).removedPaths ++
      staged.filterMap (reclassifiedId (planSync t scan snap.entries).projection.ids)).Nodup := by
  have hold : ∀ {s i}, reclassifiedId (planSync t scan snap.entries).projection.ids s = some i →
      ∃ r ∈ t.concepts.rows, r.path = s.path ∧ r.id = i := by
    intro s i hs
    exact ids_lookup.mp (Option.filter_eq_some_iff.mp hs).1
  rw [List.nodup_append]
  refine ⟨t.concepts.ids_nodup.sublist (List.filter_sublist.map _), ?_, ?_⟩
  · rw [List.Nodup, List.pairwise_filterMap]
    refine (List.pairwise_map.mp hpaths).imp fun {s s'} hne i hi i' hi' heq => hne ?_
    obtain ⟨r, hr, hp, rfl⟩ := hold hi
    obtain ⟨r', hr', hp', rfl⟩ := hold hi'
    rw [← hp, ← hp', ConceptTable.eq_of_id hr hr' heq]
  · -- A removed path is not in the snapshot, a staged path is.
    rintro i hi j hj rfl
    obtain ⟨r, hr, rfl⟩ := List.mem_map.mp hi
    obtain ⟨s, hs, hid⟩ := List.mem_filterMap.mp hj
    obtain ⟨r', hr', hp', hid'⟩ := hold hid
    obtain ⟨hr, hgone⟩ := List.mem_filter.mp hr
    obtain ⟨e, he, hpe⟩ := hstaged s hs
    rw [ConceptTable.eq_of_id hr' hr hid'] at hp'
    exact (mem_planned_removedPaths.mp (of_decide_eq_true hgone)).2 e he (hpe.trans hp'.symm)

theorem strict_staging_accepted {source : Source} (hsub : ∀ e ∈ toParse, e ∈ source.snapshot.concepts)
    (hparses : ∀ e ∈ toParse, Stageable parsers source e) :
    ∃ staging, stageChangedConcepts parsers source source.snapshot.entries true toParse = .ok staging ∧
      staging.staged = (stagingOrder toParse).map
        (·.staged parsers source.snapshot.index source.snapshot.entries) := by
  have howned : ∀ e ∈ toParse, e.cls.isResource = true → ∃ root x,
      (manifestIndex source.snapshot.entries).ownerOf e.path = some root ∧
      (manifestIndex source.snapshot.entries).packageRelative e.path = some x := by
    intro e he hres
    obtain ⟨root, x, -, hown, -, hrel⟩ :=
      Snapshot.resource_owned (Snapshot.concepts_subset (hsub e he)) hres
    rw [Snapshot.manifestIndex_eq]
    exact ⟨root, x, hown, hrel⟩
  obtain ⟨staging, hstage⟩ := stageChangedConcepts_total howned hparses
  obtain ⟨l, -, hl, hall⟩ := stageChangedConcepts_ok
    (fun e he => Snapshot.cls_ne_reserved (hsub e he)) hstage
  refine ⟨staging, hstage, ?_⟩
  rw [hl, (hall rfl).1, Snapshot.manifestIndex_eq]

theorem writeRows_accepted (removedPaths : List Text) (hpaths : (staged.map (·.path)).Nodup)
    (hids : (staged.map (·.id)).Nodup) :
    ∃ tables, writeRows t removedPaths staged = .ok tables := by
  obtain ⟨concepts, hconcepts⟩ : ∃ concepts,
      upsertConcepts (deletedRows t removedPaths staged).concepts staged = .ok concepts := by
    refine upsertConcepts_total hids (fun r hr s hs => (mem_deletedRows.mp hr).2.2 s hs) ?_
    intro s hs s' hs' hp
    rw [List.inj_on_of_nodup_map hpaths hs hs' hp]
  obtain ⟨tables, htables⟩ :=
    projectPackages_total hids { deletedRows t removedPaths staged with concepts }
  exact ⟨tables, bind_eq_ok.mpr ⟨concepts, hconcepts, htables⟩⟩

theorem writeHistory_accepted {removedIds : List Text} (hids : (staged.map (·.id)).Nodup)
    (hremoved : removedIds.Nodup) (sync : SyncCall) (stored : TextMap) (h : History) :
    ∃ history, writeHistory sync stored staged removedIds h = .ok history := by
  unfold writeHistory
  split
  · obtain ⟨recorded, hrecorded⟩ := projectHistory_total hids hremoved
    exact ⟨_, bind_eq_ok.mpr ⟨recorded, hrecorded, rfl⟩⟩
  · exact ⟨h, rfl⟩

theorem strict_sync_accepted (hstrict : call.defaults.strict = true) (hd : call.source.snapshot.Distinct)
    (hparses : ∀ e ∈ (call.plan b.tables).toParse, Stageable parsers call.source e)
    (hversion : ∃ v, applyOkfVersionPolicy parsers call.source.rootOkfVersion
      call.defaults.okfVersionPolicy = .ok v) :
    ∃ b' out, runBundleSync parsers b call = .ok (b', out) := by
  have hsub : ∀ e ∈ (call.plan b.tables).toParse, e ∈ call.source.snapshot.concepts :=
    fun e he => mem_concepts_of_toParse he
  obtain ⟨staging, hstage, hstaged⟩ := strict_staging_accepted hsub hparses
  rw [← hstrict] at hstage
  have hnodup : (staging.staged.map (·.path)).Nodup ∧ (staging.staged.map (·.id)).Nodup := by
    rw [hstaged]
    exact staged_nodup (toParse_paths_nodup hd) hsub
  have hentry : ∀ s ∈ staging.staged, ∃ e ∈ call.source.snapshot.concepts, e.path = s.path := by
    intro s hs
    rw [hstaged] at hs
    obtain ⟨e, he, rfl⟩ := List.mem_map.mp hs
    exact ⟨e, hsub e ((stagingOrder_perm _).mem_iff.mp he), rfl⟩
  obtain ⟨tables, htables⟩ :=
    writeRows_accepted (t := b.tables) (call.plan b.tables).removedPaths hnodup.1 hnodup.2
  obtain ⟨history, hhistory⟩ := writeHistory_accepted hnodup.2 (removedIds_nodup hnodup.1 hentry) call
    (storedView (call.plan b.tables).projection staging.staged) b.history
  obtain ⟨v, hv⟩ := hversion
  simp only [runBundleSync, bind_eq_ok]
  exact ⟨_, _, staging, hstage, tables, htables, history, hhistory, v, hv, rfl⟩

end Facts

end Pgokf.Sync
