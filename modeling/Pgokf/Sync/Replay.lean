import Pgokf.Sync.Handover

/-! # Replaying the changes of a sync

A consumer that drops the removed ids of an event and adds the added ones should hold the stored
ids. -/

namespace Pgokf.Sync

open Lib
open Catalog (ChangeKind)

structure Replays (before after : Text → Prop) (changes : List (Text × ChangeKind)) : Prop where
  disjoint : ∀ i, (i, .removed) ∈ changes → (i, .added) ∉ changes ∧ (i, .updated) ∉ changes
  replay : ∀ i, after i ↔ before i ∧ (i, .removed) ∉ changes ∨ (i, .added) ∈ changes
  updated : ∀ i, (i, .updated) ∈ changes → before i

section Changes

variable {parsers : Parsers} {b b' : BundleState} {call : SyncCall} {out : SyncOutcome} {i : Text}
  {s : StagedConcept} {e : FileMetadata}

def StagedConcept.Kept (s : StagedConcept) (t : Tables) : Prop :=
  ∃ r ∈ t.concepts.rows, r.path = s.path ∧ r.id = s.id

variable {scan : RowOrder} {t : Tables}

theorem kept_iff :
    ((loadStoredProjection t scan).hashes.lookup s.path).isSome = true ∧
      reclassifiedId (loadStoredProjection t scan).ids s = none ↔ s.Kept t := by
  have hids : reclassifiedId (loadStoredProjection t scan).ids s = none ↔
      ∀ r ∈ t.concepts.rows, r.path = s.path → r.id = s.id := by
    simp only [reclassifiedId, Option.filter_eq_none_iff, ids_lookup, decide_eq_true_eq, ne_eq,
      Decidable.not_not, forall_exists_index, and_imp]
    constructor
    · intro h r hr hp
      exact h r.id r hr hp rfl
    · rintro h i r hr hp rfl
      exact h r hr hp
  rw [hids, AList.lookup_isSome, mem_hashes]
  constructor
  · rintro ⟨⟨r, hr, hp⟩, hsame⟩
    exact ⟨r, hr, hp, hsame r hr hp⟩
  · rintro ⟨r, hr, hp, hid⟩
    refine ⟨⟨r, hr, hp⟩, fun r' hr' hp' => ?_⟩
    rw [ConceptTable.eq_of_path hr' hr (hp'.trans hp.symm), hid]

variable {staged : List StagedConcept} {kind : ChangeKind}

theorem mem_buildChanges {hashes ids : TextMap} {removedPaths : List Text} :
    (i, kind) ∈ (buildChanges hashes ids staged removedPaths).map (fun c => (c.id, c.kind)) ↔
      (∃ s ∈ staged, reclassifiedId ids s = some i ∧ kind = .removed) ∨
      (∃ s ∈ staged, s.id = i ∧ kind =
        if (hashes.lookup s.path).isSome && (reclassifiedId ids s).isNone then .updated else .added) ∨
      ∃ p ∈ removedPaths, (ids.lookup p).getD p = i ∧ kind = .removed := by
  simp only [buildChanges, List.map_append, List.map_flatMap, List.map_map, List.mem_append,
    List.mem_flatMap, List.mem_map, Option.mem_toList, Function.comp_apply, List.map_cons,
    List.map_nil, List.mem_singleton, Prod.mk.injEq, and_or_left, exists_or]
  constructor
  · rintro ((⟨s, hs, j, hj, rfl, rfl⟩ | ⟨s, hs, rfl, rfl⟩) | ⟨p, hp, rfl, rfl⟩)
    · exact .inl ⟨s, hs, hj, rfl⟩
    · exact .inr (.inl ⟨s, hs, rfl, rfl⟩)
    · exact .inr (.inr ⟨p, hp, rfl, rfl⟩)
  · rintro (⟨s, hs, hj, rfl⟩ | ⟨s, hs, rfl, rfl⟩ | ⟨p, hp, rfl, rfl⟩)
    · exact .inl (.inl ⟨s, hs, i, hj, rfl, rfl⟩)
    · exact .inl (.inr ⟨s, hs, rfl, rfl⟩)
    · exact .inr ⟨p, hp, rfl, rfl⟩

theorem mem_buildChangeManifest {stored : TextMap} {removedIds : List Text} :
    (i, kind) ∈ buildChangeManifest stored staged removedIds ↔
      (∃ s ∈ staged, s.id = i ∧ kind = if s.path ∈ stored then .updated else .added) ∨
      i ∈ removedIds ∧ kind = .removed := by
  simp only [buildChangeManifest, List.mem_append, List.mem_map, Prod.mk.injEq]
  constructor
  · rintro (⟨s, hs, rfl, rfl⟩ | ⟨j, hj, rfl, rfl⟩)
    · exact .inl ⟨s, hs, rfl, rfl⟩
    · exact .inr ⟨hj, rfl⟩
  · rintro (⟨s, hs, rfl, rfl⟩ | ⟨hj, rfl⟩)
    · exact .inl ⟨s, hs, rfl, rfl⟩
    · exact .inr ⟨i, hj, rfl, rfl⟩

theorem mem_storedView {projection : StoredProjection} {p : Text} :
    p ∈ storedView projection staged ↔ p ∈ projection.hashes ∧
      ∀ s ∈ staged, s.path = p → reclassifiedId projection.ids s = none := by
  unfold storedView
  generalize projection.hashes = stored
  induction staged generalizing stored with
  | nil => simp
  | cons s staged ih =>
    rw [List.foldl_cons, ih, List.forall_mem_cons]
    cases hold : reclassifiedId projection.ids s with
    | none => simp
    | some old =>
      simp only [Option.isSome_some, if_true, AList.mem_erase]
      constructor
      · rintro ⟨⟨hne, hp⟩, hrest⟩
        exact ⟨hp, fun h => absurd h.symm hne, hrest⟩
      · rintro ⟨hp, hs, hrest⟩
        exact ⟨⟨fun h => absurd (hs h.symm) (by simp), hp⟩, hrest⟩

theorem mem_loadRemovedConceptIds :
    i ∈ loadRemovedConceptIds b.tables (call.plan b.tables).removedPaths ↔
    ∃ p ∈ (call.plan b.tables).removedPaths,
      ((call.plan b.tables).projection.ids.lookup p).getD p = i := by
  have hlookup : ∀ r ∈ b.tables.concepts.rows,
      (call.plan b.tables).projection.ids.lookup r.path = some r.id :=
    fun r hr => ids_lookup.mpr ⟨r, hr, rfl, rfl⟩
  simp only [loadRemovedConceptIds, List.mem_map, List.mem_filter, decide_eq_true_eq]
  constructor
  · rintro ⟨r, ⟨hr, hp⟩, rfl⟩
    exact ⟨r.path, hp, by rw [hlookup r hr, Option.getD_some]⟩
  · rintro ⟨p, hp, hid⟩
    obtain ⟨r, hr, rfl⟩ := (mem_planned_removedPaths.mp hp).1
    rw [hlookup r hr, Option.getD_some] at hid
    exact ⟨r, ⟨hr, hp⟩, hid⟩

variable {c : Prop}

theorem updated_eq_ite [Decidable c] :
    ChangeKind.updated = (if c then .updated else .added) ↔ c := by
  by_cases hc : c <;> simp [hc]

theorem added_eq_ite [Decidable c] :
    ChangeKind.added = (if c then .updated else .added) ↔ ¬ c := by
  by_cases hc : c <;> simp [hc]

structure Lists (b : BundleState) (out : SyncOutcome) (changes : List (Text × ChangeKind)) : Prop where
  removed : ∀ i, (i, .removed) ∈ changes ↔ i ∈ out.removedIds
  updated : ∀ i, (i, .updated) ∈ changes ↔ ∃ s ∈ out.staged, s.id = i ∧ s.Kept b.tables
  added : ∀ i, (i, .added) ∈ changes ↔ ∃ s ∈ out.staged, s.id = i ∧ ¬ s.Kept b.tables

theorem Synced.lists_changes (h : Synced parsers b call b' out) :
    Lists b out (out.changes.map fun c => (c.id, c.kind)) := by
  have hkept : ∀ s : StagedConcept,
      (((call.plan b.tables).projection.hashes.lookup s.path).isSome &&
        (reclassifiedId (call.plan b.tables).projection.ids s).isNone) = true ↔ s.Kept b.tables := by
    intro s
    rw [Bool.and_eq_true, Option.isNone_iff_eq_none]
    exact kept_iff
  rw [h.changes]
  refine ⟨fun i => ?_, fun i => ?_, fun i => ?_⟩
  · rw [mem_buildChanges, h.removedIds, List.mem_append, List.mem_filterMap, mem_loadRemovedConceptIds]
    constructor
    · rintro (⟨s, hs, hid, -⟩ | ⟨s, hs, -, hkind⟩ | ⟨p, hp, hid, -⟩)
      · exact .inr ⟨s, hs, hid⟩
      · split at hkind <;> cases hkind
      · exact .inl ⟨p, hp, hid⟩
    · rintro (⟨p, hp, hid⟩ | ⟨s, hs, hid⟩)
      · exact .inr (.inr ⟨p, hp, hid, rfl⟩)
      · exact .inl ⟨s, hs, hid, rfl⟩
  · simp [mem_buildChanges, ← hkept]
  · simp [mem_buildChanges, ← hkept]

theorem Synced.lists_changeManifest (h : Synced parsers b call b' out) :
    Lists b out out.changeManifest := by
  have hkept : ∀ s ∈ out.staged,
      (s.path ∈ storedView (call.plan b.tables).projection out.staged ↔ s.Kept b.tables) := by
    intro s hs
    rw [mem_storedView, ← AList.lookup_isSome]
    -- All concepts staged at the path have the id of this one.
    have hall : (∀ s' ∈ out.staged, s'.path = s.path →
        reclassifiedId (call.plan b.tables).projection.ids s' = none) ↔
        reclassifiedId (call.plan b.tables).projection.ids s = none := by
      constructor
      · exact fun hall => hall s hs rfl
      · intro hnone s' hs' hp
        rw [reclassifiedId, hp, h.staged_id hs' hs hp]
        exact hnone
    rw [hall]
    exact kept_iff
  rw [h.changeManifest]
  refine ⟨fun i => ?_, fun i => ?_, fun i => ?_⟩
  · rw [mem_buildChangeManifest]
    constructor
    · rintro (⟨s, hs, -, hkind⟩ | ⟨hi, -⟩)
      · split at hkind <;> cases hkind
      · exact hi
    · exact fun hi => .inr ⟨hi, rfl⟩
  · simp only [mem_buildChangeManifest, updated_eq_ite, reduceCtorEq, and_false, or_false]
    exact exists_congr fun s => and_congr_right fun hs => and_congr_right fun _ => hkept s hs
  · simp only [mem_buildChangeManifest, added_eq_ite, reduceCtorEq, and_false, or_false]
    exact exists_congr fun s => and_congr_right fun hs => and_congr_right fun _ =>
      not_congr (hkept s hs)

theorem Lists.replays {changes : List (Text × ChangeKind)} (hl : Lists b out changes)
    (h : Synced parsers b call b' out) (hno : NoHandover b.tables call.source.snapshot) :
    Replays b.tables.concepts.Has b'.tables.concepts.Has changes := by
  have hstaged : ∀ s ∈ out.staged, s.id ∉ out.removedIds :=
    fun s hs => h.staged_not_removed hno (List.mem_map_of_mem hs)
  have hkept : ∀ s : StagedConcept, s.Kept b.tables → b.tables.concepts.Has s.id := by
    rintro s ⟨r, hr, -, hid⟩
    exact ⟨r, hr, hid⟩
  refine ⟨fun i hi => ⟨fun ha => ?_, fun hu => ?_⟩, fun i => ?_, fun i hu => ?_⟩
  · obtain ⟨s, hs, rfl, -⟩ := (hl.added i).mp ha
    exact hstaged s hs ((hl.removed s.id).mp hi)
  · obtain ⟨s, hs, rfl, -⟩ := (hl.updated i).mp hu
    exact hstaged s hs ((hl.removed s.id).mp hi)
  · rw [h.has_iff, hl.removed i, hl.added i, List.mem_map]
    constructor
    · rintro (hold | ⟨s, hs, rfl⟩)
      · exact .inl hold
      · by_cases hk : s.Kept b.tables
        · exact .inl ⟨hkept s hk, hstaged s hs⟩
        · exact .inr ⟨s, hs, rfl, hk⟩
    · rintro (hold | ⟨s, hs, hid, -⟩)
      · exact .inl hold
      · exact .inr ⟨s, hs, hid⟩
  · obtain ⟨s, -, rfl, hk⟩ := (hl.updated i).mp hu
    exact hkept s hk

theorem isUnchanged_row {index : PackageIndex}
    (h : isUnchanged (loadStoredProjection t scan) index e = true) :
    ∃ r ∈ t.concepts.rows, r.path = e.path ∧ r.fileHash = e.hash ∧ r.id = e.conceptId := by
  simp only [isUnchanged, sameIdentity, Bool.and_eq_true, decide_eq_true_eq] at h
  obtain ⟨⟨-, hhash⟩, ⟨hid, -⟩, -⟩ := h
  obtain ⟨r, hr, hp, hh⟩ := hashes_lookup.mp hhash
  have hlookup : (loadStoredProjection t scan).ids.lookup e.path = some r.id :=
    ids_lookup.mpr ⟨r, hr, hp, rfl⟩
  rw [hlookup] at hid
  exact ⟨r, hr, hp, hh, by simpa using hid⟩

theorem Synced.handover (h : Synced parsers b call b' out) (hstrict : call.defaults.strict = true)
    {r : ConceptRow} (he : e ∈ call.source.snapshot.concepts) (hr : r ∈ b.tables.concepts.rows)
    (hid : r.id = e.conceptId) (hne : r.path ≠ e.path) :
    r.id ∈ out.removedIds ∧ ∃ s ∈ out.staged, s.id = r.id ∧ ¬ s.Kept b.tables := by
  have hparse : ∀ e' ∈ call.source.snapshot.concepts,
      (∀ r' ∈ b.tables.concepts.rows, r'.path = e'.path → r'.id ≠ e'.conceptId) → e' ∈ out.toParse := by
    intro e' he' hdiff
    rcases mem_toParse_or_unchanged he' with hmem | hun
    · exact h.toParse ▸ hmem
    · obtain ⟨r', hr', hp, -, hid'⟩ := isUnchanged_row hun
      exact absurd hid' (hdiff r' hr' hp)
  have hnew : ∀ r' ∈ b.tables.concepts.rows, r'.path = e.path → r'.id ≠ e.conceptId := by
    intro r' hr' hp hid'
    rw [ConceptTable.eq_of_id hr' hr (hid'.trans hid.symm)] at hp
    exact hne hp
  refine ⟨h.mem_removedIds.mpr ⟨r, hr, rfl, ?_⟩, ?_⟩
  · -- The old holder is gone from the snapshot, or has another id there and is staged.
    by_cases hgone : r.path ∈ (call.plan b.tables).removedPaths
    · exact .inl hgone
    · have hstays : ∃ e' ∈ call.source.snapshot.concepts, e'.path = r.path := by
        by_contra hnone
        refine hgone (mem_planned_removedPaths.mpr ⟨⟨r, hr, rfl⟩, fun e' he' hp => hnone ⟨e', he', hp⟩⟩)
      obtain ⟨e', he', hp⟩ := hstays
      have hid' : r.id ≠ e'.conceptId := by
        intro heq
        have hpath := Snapshot.path_eq_of_conceptId (Snapshot.mem_concepts.mp he').1
          (Snapshot.mem_concepts.mp he).1 (heq.symm.trans hid)
        exact hne (hp.symm.trans hpath)
      have hmem := hparse e' he' fun r' hr' hp' => by
        rwa [ConceptTable.eq_of_path hr' hr (hp'.trans hp)]
      exact .inr ⟨_, h.staged_of_strict hstrict hmem, hp, hid'⟩
  · refine ⟨_, h.staged_of_strict hstrict (hparse e he hnew), hid.symm, ?_⟩
    rintro ⟨r', hr', hp, hid'⟩
    exact hnew r' hr' hp hid'

/-- The changes of a strict sync replay exactly when no id changes hands. -/
theorem change_replay (hok : runBundleSync parsers b call = .ok (b', out))
    (hstrict : call.defaults.strict = true) :
    Replays b.tables.concepts.Has b'.tables.concepts.Has (out.changes.map fun c => (c.id, c.kind)) ∧
      Replays b.tables.concepts.Has b'.tables.concepts.Has out.changeManifest ↔
    NoHandover b.tables call.source.snapshot := by
  have hsync := runBundleSync_synced hok
  constructor
  · rintro ⟨hreplay, -⟩ e he r hr hid
    by_contra hne
    obtain ⟨hremoved, hadded⟩ := hsync.handover hstrict he hr hid hne
    have hl := hsync.lists_changes
    exact (hreplay.disjoint r.id ((hl.removed r.id).mpr hremoved)).1 ((hl.added r.id).mpr hadded)
  · intro hno
    exact ⟨hsync.lists_changes.replays hsync hno, hsync.lists_changeManifest.replays hsync hno⟩

end Changes

theorem change_replay_reclassified : ∃ b₂ out,
    runBundleSync sampleParsers documentStored (sampleCall runBoth 2) = .ok (b₂, out) ∧
      Replays documentStored.tables.concepts.Has b₂.tables.concepts.Has
        (out.changes.map fun c => (c.id, c.kind)) ∧
      Replays documentStored.tables.concepts.Has b₂.tables.concepts.Has out.changeManifest := by
  have haccepts : documentStored.accepts sampleParsers (sampleCall runBoth 2) = true := by decide
  have hno : NoHandover documentStored.tables runBoth := by decide
  obtain ⟨out, hok⟩ := BundleState.sync_of_accepts haccepts
  exact ⟨_, out, hok, (change_replay hok rfl).mpr hno⟩

/-- The id of the removed document is removed and added in the event and in the audit manifest. -/
theorem handover_removed_and_added :
    let result := (runBundleSync sampleParsers documentStored (sampleCall runPackage 2)).toOption
    let changes : List (Text × ChangeKind) :=
      [("docs/SKILL", .added), ("docs/scripts/run", .added),
        ("docs/scripts/run", .removed)]
    (result.map fun r => r.2.changes.map fun c => (c.id, c.kind)) = some changes ∧
      (result.map fun r => r.2.changeManifest) = some changes := by
  decide

end Pgokf.Sync
