import Pgokf.Sync.History

/-! # One sync of a bundle (`catalog/sync.rs`, `run_bundle_sync`)

From the snapshot to the rows written and the changes handed on. The rest of the transaction is
`Catalog.syncTail`. -/

namespace Pgokf.Sync

open Lib
open Catalog (ChangeKind ConceptChange)

structure SyncDefaults where
  strict : Bool
  trackHistory : Bool
  historyRetentionDays : Int
  okfVersionPolicy : Text

/- One call: the source of the bytes, the configuration, the order of stored owners, and two clocks. -/
structure SyncCall where
  source : Source
  defaults : SyncDefaults
  scan : RowOrder
  instant : Int
  transactionTime : Int

structure BundleState where
  tables : Tables
  history : History
  bundleLog : List (Text × List Text)

def BundleState.empty : BundleState := ⟨.empty, [], []⟩

/- The projection, and the delta after the invalidation of packages. -/
structure SyncPlan where
  projection : StoredProjection
  toParse : List FileMetadata
  removedPaths : List Text
  report : SyncReport

def planSync (t : Tables) (scan : RowOrder) (current : List FileMetadata) : SyncPlan :=
  let projection := loadStoredProjection t scan
  let delta := classifyChanges projection (manifestIndex current) current
  { projection, removedPaths := delta.removedPaths, report := delta.report
    toParse := invalidatePackages delta.toParse delta.removedPaths current projection.owners }

def adjustReportForSkips (stored : TextMap) (skipped : List Text) (report : SyncReport) : SyncReport :=
  skipped.foldl (fun report path =>
    if path ∈ stored then { report with updated := report.updated - 1 }
    else { report with added := report.added - 1 }) report

/-- The other id under which the path of a staged concept is stored. -/
def reclassifiedId (ids : TextMap) (s : StagedConcept) : Option Text :=
  (ids.lookup s.path).filter (· ≠ s.id)

def storedView (projection : StoredProjection) (staged : List StagedConcept) : TextMap :=
  staged.foldl (fun stored s =>
    if (reclassifiedId projection.ids s).isSome then stored.erase s.path else stored) projection.hashes

def loadRemovedConceptIds (t : Tables) (removedPaths : List Text) : List Text :=
  (t.concepts.rows.filter fun r => r.path ∈ removedPaths).map (·.id)

def deleteRemovedConcepts (t : Tables) (removedPaths : List Text) : Tables :=
  t.deleteConcepts fun r => r.path ∈ removedPaths

def deleteReclassifiedConcepts (t : Tables) (staged : List StagedConcept) : Tables :=
  (chunks batchSize staged).foldl (fun t chunk =>
    t.deleteConcepts fun r => chunk.any fun s => r.path = s.path && r.id ≠ s.id) t

def writeRows (t : Tables) (removedPaths : List Text) (staged : List StagedConcept) :
    Except CatalogError Tables := do
  let deleted := deleteReclassifiedConcepts (deleteRemovedConcepts t removedPaths) staged
  let concepts ← upsertConcepts deleted.concepts staged
  projectPackages { deleted with concepts } staged

def writeHistory (call : SyncCall) (stored : TextMap) (staged : List StagedConcept)
    (removedIds : List Text) (h : History) : Except CatalogError History :=
  if call.defaults.trackHistory then do
    let h ← projectHistory call.instant stored staged removedIds h
    .ok (pruneHistory call.defaults.historyRetentionDays call.transactionTime h)
  else .ok h

def applyOkfVersionPolicy (parsers : Parsers) (version : Option Text) (policy : Text) :
    Except CatalogError (Option Text) :=
  match version with
  | none => .ok none
  | some declared =>
    if !parsers.isSupportedOkfVersion declared && policy = "reject" then
      .error (.invalidParameter ("bundle declares unsupported OKF version " ++ String.ofList declared ++
        " (this build supports 0.2 / 0.2.x); okf_version_policy=reject"))
    else .ok (some declared)

def buildChanges (storedHashes storedIds : TextMap) (staged : List StagedConcept)
    (removedPaths : List Text) : List ConceptChange :=
  (staged.flatMap fun s =>
    let before := storedHashes.lookup s.path
    let old := reclassifiedId storedIds s
    (old.toList.map fun id =>
      { id, path := s.path, kind := .removed, beforeHash := before, afterHash := none }) ++
      [{ id := s.id, path := s.path
         kind := if before.isSome && old.isNone then .updated else .added
         beforeHash := if old.isSome then none else before
         afterHash := some s.fileHash }]) ++
    removedPaths.map fun path =>
      { id := (storedIds.lookup path).getD path, path, kind := .removed
        beforeHash := storedHashes.lookup path, afterHash := none }

def buildChangeManifest (stored : TextMap) (staged : List StagedConcept) (removedIds : List Text) :
    List (Text × ChangeKind) :=
  (staged.map fun s => (s.id, if s.path ∈ stored then .updated else .added)) ++
    removedIds.map fun i => (i, .removed)

structure SyncOutcome where
  report : SyncReport
  toParse : List FileMetadata
  staged : List StagedConcept
  removedIds : List Text
  changes : List ConceptChange
  changeManifest : List (Text × ChangeKind)
  syncHash : Text
  okfVersion : Option Text

def runBundleSync (parsers : Parsers) (b : BundleState) (call : SyncCall) :
    Except CatalogError (BundleState × SyncOutcome) := do
  let current := call.source.snapshot.entries
  let plan := planSync b.tables call.scan current
  let staging ←
    stageChangedConcepts parsers call.source current call.defaults.strict plan.toParse
  let staged := staging.staged
  let stored := storedView plan.projection staged
  let removedIds := loadRemovedConceptIds b.tables plan.removedPaths ++
    staged.filterMap (reclassifiedId plan.projection.ids)
  let tables ← writeRows b.tables plan.removedPaths staged
  let history ← writeHistory call stored staged removedIds b.history
  let okfVersion ←
    applyOkfVersionPolicy parsers call.source.rootOkfVersion call.defaults.okfVersionPolicy
  .ok
    ({ tables, history, bundleLog := directoryLogs parsers call.source current },
      { report := adjustReportForSkips plan.projection.hashes staging.skipped plan.report
        toParse := plan.toParse
        staged, removedIds
        changes := buildChanges plan.projection.hashes plan.projection.ids staged plan.removedPaths
        changeManifest := buildChangeManifest stored staged removedIds
        syncHash := bundleSyncHash parsers current
        okfVersion })

def BundleState.accepts (parsers : Parsers) (b : BundleState) (call : SyncCall) : Bool :=
  (runBundleSync parsers b call).isOk

/- The state after a call, unchanged where the call is refused. -/
def BundleState.sync (parsers : Parsers) (b : BundleState) (call : SyncCall) : BundleState :=
  match runBundleSync parsers b call with
  | .ok (b', _) => b'
  | .error _ => b

theorem BundleState.sync_of_accepts {parsers : Parsers} {b : BundleState} {call : SyncCall}
    (h : b.accepts parsers call = true) :
    ∃ out, runBundleSync parsers b call = .ok (b.sync parsers call, out) := by
  unfold BundleState.accepts at h
  unfold BundleState.sync
  cases hrun : runBundleSync parsers b call with
  | error e =>
    rw [hrun] at h
    cases h
  | ok r => exact ⟨r.2, rfl⟩

section Deleted

variable {t u : Tables} {removedPaths : List Text} {staged : List StagedConcept} {r : ConceptRow}
  {i : Text}

def deletedRows (t : Tables) (removedPaths : List Text) (staged : List StagedConcept) : Tables :=
  deleteReclassifiedConcepts (deleteRemovedConcepts t removedPaths) staged

theorem mem_deleteReclassified : r ∈ (deleteReclassifiedConcepts t staged).concepts.rows ↔
    r ∈ t.concepts.rows ∧ ∀ s ∈ staged, r.path = s.path → r.id = s.id := by
  have hgen : ∀ (bs : List (List StagedConcept)) (t : Tables),
      r ∈ (bs.foldl (fun t chunk => t.deleteConcepts fun r => chunk.any fun s =>
        r.path = s.path && r.id ≠ s.id) t).concepts.rows ↔
      r ∈ t.concepts.rows ∧ ∀ s ∈ bs.flatten, r.path = s.path → r.id = s.id := by
    intro bs
    induction bs with
    | nil => simp
    | cons b bs ih =>
      intro t
      rw [List.foldl_cons, ih]
      simp only [Tables.deleteConcepts, ConceptTable.mem_deleteWhere, List.flatten_cons,
        List.mem_append, List.any_eq_false, Bool.and_eq_true, decide_eq_true_eq, not_and, ne_eq,
        Decidable.not_not]
      constructor
      · rintro ⟨⟨hr, hb⟩, hbs⟩
        exact ⟨hr, fun s hs => hs.elim (hb s) (hbs s)⟩
      · rintro ⟨hr, hall⟩
        exact ⟨⟨hr, fun s hs => hall s (.inl hs)⟩, fun s hs => hall s (.inr hs)⟩
  rw [deleteReclassifiedConcepts, hgen, flatten_chunks batchSize_pos]

theorem mem_deletedRows : r ∈ (deletedRows t removedPaths staged).concepts.rows ↔
    r ∈ t.concepts.rows ∧ r.path ∉ removedPaths ∧ ∀ s ∈ staged, r.path = s.path → r.id = s.id := by
  rw [deletedRows, mem_deleteReclassified]
  simp [deleteRemovedConcepts, Tables.deleteConcepts, and_assoc]

structure Cascaded (t u : Tables) : Prop where
  skills : u.skills = cascade u.concepts t.skills
  scripts : u.scripts = cascade u.concepts t.scripts
  referenceDocuments : u.referenceDocuments = cascade u.concepts t.referenceDocuments

variable {c : ConceptTable}

theorem cascade_cascade {c' : ConceptTable} (h : ∀ r ∈ c'.rows, r ∈ c.rows)
    (table : Text → Option Text) :
    cascade c' (cascade c table) = cascade c' table := by
  funext i
  unfold cascade
  split
  · rename_i hi
    obtain ⟨r, hr, hid⟩ := List.any_eq_true.mp hi
    rw [if_pos (List.any_eq_true.mpr ⟨r, h r hr, hid⟩)]
  · rfl

theorem Cascaded.delete (h : Cascaded t u) (gone : ConceptRow → Bool) :
    Cascaded t (u.deleteConcepts gone) := by
  have hsub : ∀ r ∈ (u.deleteConcepts gone).concepts.rows, r ∈ u.concepts.rows :=
    fun r hr => (ConceptTable.mem_deleteWhere.mp hr).1
  constructor
  · rw [← cascade_cascade hsub t.skills, ← h.skills]
    rfl
  · rw [← cascade_cascade hsub t.scripts, ← h.scripts]
    rfl
  · rw [← cascade_cascade hsub t.referenceDocuments, ← h.referenceDocuments]
    rfl

theorem deletedRows_cascaded : Cascaded t (deletedRows t removedPaths staged) := by
  have hgen : ∀ (bs : List (List StagedConcept)) (u : Tables), Cascaded t u →
      Cascaded t (bs.foldl (fun t chunk => t.deleteConcepts fun r => chunk.any fun s =>
        r.path = s.path && r.id ≠ s.id) u) := by
    intro bs
    induction bs with
    | nil => exact fun u h => h
    | cons b bs ih => exact fun u h => ih _ (h.delete _)
  exact hgen _ _ ⟨rfl, rfl, rfl⟩

theorem cascade_eq_some {table : Text → Option Text} {v : Text} :
    cascade c table i = some v ↔ c.Has i ∧ table i = some v := by
  have hany : c.rows.any (·.id = i) = true ↔ c.Has i := by simp [ConceptTable.Has]
  unfold cascade
  by_cases hi : c.Has i
  · rw [if_pos (hany.mpr hi)]
    simp [hi]
  · rw [if_neg fun h => hi (hany.mp h)]
    simp [hi]

end Deleted

section Plan

variable {t : Tables} {scan : RowOrder} {snap : Snapshot} {e : FileMetadata} {p : Text}

theorem Snapshot.cls_ne_reserved (he : e ∈ snap.concepts) : e.cls ≠ .reserved := by
  intro hcls
  obtain ⟨he, hplain⟩ := Snapshot.mem_concepts.mp he
  rw [isReservedPath_of_reserved (hcls ▸ Snapshot.classify he)] at hplain
  cases hplain

theorem Snapshot.manifest_mem_concepts (he : e ∈ snap.entries) (hcls : e.cls = .skillManifest) :
    e ∈ snap.concepts := by
  refine Snapshot.mem_concepts.mpr ⟨he, ?_⟩
  by_contra hname
  rw [Bool.not_eq_false] at hname
  rcases reserved_or_resource (Snapshot.classify he) hname with h | h
  · rw [hcls] at h
    cases h
  · rw [hcls] at h
    cases h

def storedDelta (t : Tables) (scan : RowOrder) (snap : Snapshot) : BundleDelta :=
  classifyChanges (loadStoredProjection t scan) snap.index snap.entries

theorem planSync_eq (t : Tables) (scan : RowOrder) (snap : Snapshot) : planSync t scan snap.entries =
    { projection := loadStoredProjection t scan
      toParse := invalidatePackages (storedDelta t scan snap).toParse
        (storedDelta t scan snap).removedPaths
        snap.entries (loadStoredProjection t scan).owners
      removedPaths := (storedDelta t scan snap).removedPaths
      report := (storedDelta t scan snap).report } := by
  simp only [planSync, storedDelta, Snapshot.manifestIndex_eq]

theorem mem_concepts_of_toParse (he : e ∈ (planSync t scan snap.entries).toParse) :
    e ∈ snap.concepts := by
  rw [planSync_eq] at he
  rcases mem_invalidatePackages.mp he with he | ⟨he, hcls, -⟩
  · obtain ⟨he, hplain, -⟩ := mem_toParse.mp he
    exact Snapshot.mem_concepts.mpr ⟨he, hplain⟩
  · exact Snapshot.manifest_mem_concepts he hcls

theorem mem_toParse_or_unchanged (he : e ∈ snap.concepts) :
    e ∈ (planSync t scan snap.entries).toParse ∨
      isUnchanged (loadStoredProjection t scan) snap.index e = true := by
  obtain ⟨he, hplain⟩ := Snapshot.mem_concepts.mp he
  cases hun : isUnchanged (loadStoredProjection t scan) snap.index e with
  | true => exact .inr rfl
  | false =>
    rw [planSync_eq]
    exact .inl (mem_invalidatePackages.mpr (.inl (mem_toParse.mpr ⟨he, hplain, hun⟩)))

theorem mem_planned_removedPaths : p ∈ (planSync t scan snap.entries).removedPaths ↔
    (∃ r ∈ t.concepts.rows, r.path = p) ∧ ∀ e ∈ snap.concepts, e.path ≠ p := by
  rw [planSync_eq, storedDelta, mem_removedPaths, mem_hashes]
  simp [Snapshot.concepts]

end Plan

section Synced

variable {parsers : Parsers} {b b' : BundleState} {call : SyncCall} {out : SyncOutcome}

def SyncCall.plan (call : SyncCall) (t : Tables) : SyncPlan :=
  planSync t call.scan call.source.snapshot.entries

structure Synced (parsers : Parsers) (b : BundleState) (call : SyncCall) (b' : BundleState)
    (out : SyncOutcome) : Prop where
  toParse : out.toParse = (call.plan b.tables).toParse
  staged : ∃ l, l.Sublist (stagingOrder out.toParse) ∧
    out.staged = l.map (·.staged parsers call.source.snapshot.index call.source.snapshot.entries) ∧
    (call.defaults.strict = true → l = stagingOrder out.toParse)
  report : call.defaults.strict = true → out.report = (call.plan b.tables).report
  removedIds : out.removedIds = loadRemovedConceptIds b.tables (call.plan b.tables).removedPaths ++
    out.staged.filterMap (reclassifiedId (call.plan b.tables).projection.ids)
  concepts : upsertConcepts (deletedRows b.tables (call.plan b.tables).removedPaths out.staged).concepts
    out.staged = .ok b'.tables.concepts
  skills : b'.tables.skills =
    overlay (deletedRows b.tables (call.plan b.tables).removedPaths out.staged).skills
      (columns (·.packageHash) out.staged)
  scripts : b'.tables.scripts =
    overlay (deletedRows b.tables (call.plan b.tables).removedPaths out.staged).scripts
      (columns (·.scriptOwner) out.staged)
  referenceDocuments : b'.tables.referenceDocuments =
    overlay (deletedRows b.tables (call.plan b.tables).removedPaths out.staged).referenceDocuments
      (columns (·.referenceOwner) out.staged)
  history : writeHistory call (storedView (call.plan b.tables).projection out.staged) out.staged
    out.removedIds b.history = .ok b'.history
  changes : out.changes = buildChanges (call.plan b.tables).projection.hashes
    (call.plan b.tables).projection.ids out.staged (call.plan b.tables).removedPaths
  changeManifest : out.changeManifest = buildChangeManifest
    (storedView (call.plan b.tables).projection out.staged) out.staged out.removedIds

theorem runBundleSync_synced (h : runBundleSync parsers b call = .ok (b', out)) :
    Synced parsers b call b' out := by
  simp only [runBundleSync, writeRows, bind_eq_ok] at h
  obtain ⟨staging, hstage, tables, ⟨concepts, hconcepts, htables⟩, history, hhistory, version, -, h⟩ := h
  obtain ⟨rfl, rfl⟩ := Prod.mk.inj (Except.ok.inj h)
  have hplain : ∀ e ∈ (call.plan b.tables).toParse, e.cls ≠ .reserved :=
    fun e he => Snapshot.cls_ne_reserved (mem_concepts_of_toParse he)
  obtain ⟨l, hsub, hl, hall⟩ := stageChangedConcepts_ok hplain hstage
  rw [Snapshot.manifestIndex_eq] at hl
  have hproject := projectPackages_ok htables
  subst hproject
  exact
    { toParse := rfl
      staged := ⟨l, hsub, hl, fun hs => (hall hs).1⟩
      report := fun hs => by simp [(hall hs).2.1, adjustReportForSkips, SyncCall.plan]
      removedIds := rfl
      concepts := hconcepts
      skills := rfl
      scripts := rfl
      referenceDocuments := rfl
      history := hhistory
      changes := rfl
      changeManifest := rfl }

theorem runBundleSync_read (h : runBundleSync parsers b call = .ok (b', out)) :
    ∀ c ∈ out.staged, ∃ bytes, call.source.readBytes c.path = .ok bytes := by
  simp only [runBundleSync, bind_eq_ok] at h
  obtain ⟨staging, hstage, tables, -, history, -, version, -, h⟩ := h
  obtain ⟨-, rfl⟩ := Prod.mk.inj (Except.ok.inj h)
  exact stageChangedConcepts_read
    (fun e he => Snapshot.cls_ne_reserved (mem_concepts_of_toParse he)) hstage

end Synced

end Pgokf.Sync
