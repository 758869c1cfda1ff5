import Pgokf.Sync.Content

/-! # The stored bytes of a bundle (`catalog/source.rs`, `pgokf-mcp/src/write.rs`)

Four columns hold the bytes of a file: `raw_content` of `pgokf.concept_source`, written while
`store_source` is on, and those of the typed rows. -/

namespace Pgokf.Sync

open Lib

inductive ByteColumn where
  | skillMd
  | scriptBytes
  | referenceBytes
  | rawContent
  deriving DecidableEq

def ByteColumn.table : ByteColumn → String
  | .skillMd => "skills"
  | .scriptBytes => "scripts"
  | .referenceBytes => "reference documents"
  | .rawContent => "concept source"

abbrev ByteTables := ByteColumn → Text → Option Bytes

structure SourceState where
  bundle : BundleState
  storeSource : Bool
  bytes : ByteTables

def SourceState.empty : SourceState := ⟨.empty, false, fun _ _ => none⟩

/-- The columns staging fills: the typed payload, and `store_source.then_some(bytes)`. -/
def StagedConcept.writes (storeSource : Bool) (s : StagedConcept) : ByteColumn → Bool
  | .skillMd => match s.typed with
    | some (.skill _) => true
    | _ => false
  | .scriptBytes => match s.typed with
    | some (.script _) => true
    | _ => false
  | .referenceBytes => match s.typed with
    | some (.reference _) => true
    | _ => false
  | .rawContent => storeSource

/-- `marshal_sources` and `collect_columns`: what staging read, for the concepts that have the
column. -/
def marshalBytes (source : Source) (storeSource : Bool) (staged : List StagedConcept)
    (column : ByteColumn) : List (Text × Bytes) :=
  staged.filterMap fun s =>
    if s.writes storeSource column then (source.readBytes s.path).toOption.map fun bytes => (s.id, bytes)
    else none

def cascadeBytes (concepts : ConceptTable) (table : Text → Option Bytes) (i : Text) : Option Bytes :=
  if concepts.rows.any (·.id = i) then table i else none

def upsertBytes (what : String) (table : Text → Option Bytes) (rows : List (Text × Bytes)) :
    Except CatalogError (Text → Option Bytes) :=
  (chunks batchSize rows).foldlM (fun table chunk => do
    ensureDistinct what (chunk.map Prod.fst)
    chunk.foldlM (fun table row => pure (Function.update table row.1 (some row.2))) table) table

inductive SourceOp where
  | setStoreSource (storeSource : Bool)
  | sync (call : SyncCall)

/-- A sync deletes the bytes of deleted concepts with them and then writes those of staged ones. -/
def SourceState.projectBytes (s : SourceState) (call : SyncCall) (staged : List StagedConcept)
    (column : ByteColumn) : Except CatalogError (Text → Option Bytes) :=
  let deleted := deletedRows s.bundle.tables (call.plan s.bundle.tables).removedPaths staged
  upsertBytes column.table (cascadeBytes deleted.concepts (s.bytes column))
    (marshalBytes call.source s.storeSource staged column)

def SourceState.exec (parsers : Parsers) (s : SourceState) : SourceOp → Except CatalogError SourceState
  | .setStoreSource storeSource => .ok { s with storeSource }
  | .sync call => do
    let (bundle, out) ← runBundleSync parsers s.bundle call
    let skillMd ← s.projectBytes call out.staged .skillMd
    let scriptBytes ← s.projectBytes call out.staged .scriptBytes
    let referenceBytes ← s.projectBytes call out.staged .referenceBytes
    let rawContent ← s.projectBytes call out.staged .rawContent
    .ok
      { s with
        bundle
        bytes := fun
          | .skillMd => skillMd
          | .scriptBytes => scriptBytes
          | .referenceBytes => referenceBytes
          | .rawContent => rawContent }

def SourceState.getConceptSource (s : SourceState) (session : Session) (tenantRequired : Bool)
    (tenant : Text) (bundleId : Int) (conceptId : Text) : Except CatalogError Bytes := do
  authorizeCurrentUser .search session tenantRequired
  let visible := tenantPredicate session tenantRequired tenant
  match (s.bytes .rawContent conceptId).filter fun _ => visible with
  | some bytes => .ok bytes
  | none =>
    if visible && s.bundle.tables.concepts.rows.any (·.id = conceptId) then
      .error (.invalidParameter ("no source is stored for concept " ++ String.ofList conceptId ++
        " in bundle " ++ toString bundleId ++ "; the bundle was synced with store_source disabled"))
    else
      .error (.invalidParameter ("no such concept " ++ String.ofList conceptId ++ " in bundle " ++
        toString bundleId))

def maxSnapshotBytes : Nat := 64 * 1024 * 1024

def echoMax : Nat := 96

def echo (value : Text) : String :=
  String.ofList (if echoMax < value.length then value.take echoMax ++ ['…'] else value)

def ensureSources (storeSource : Bool) : Except String Unit :=
  ensure storeSource ("this catalog does not keep document sources (store_source is off), so a bundle " ++
    "cannot be read back to be written whole. An admin turns it on with " ++
    "pgokf.set_config('store_source', 'true') and refreshes the bundles")

/- `coalesce(sk.skill_md, sc.exact_bytes, rd.exact_bytes, s.raw_content)` -/
def SourceState.heldBytes (s : SourceState) (i : Text) : Option Bytes :=
  (s.bytes .skillMd i).or ((s.bytes .scriptBytes i).or
    ((s.bytes .referenceBytes i).or (s.bytes .rawContent i)))

def SourceState.carry (s : SourceState) (bundleId : Int) (files : List (Text × Bytes) × Nat)
    (r : ConceptRow) : Except String (List (Text × Bytes) × Nat) :=
  match s.heldBytes r.id with
  | none =>
    .error ("the catalog holds no source for " ++ echo r.path ++ ", so the bundle cannot be written " ++
      "whole without losing it; refresh the bundle with store_source on first")
  | some bytes =>
    let carried := files.2 + bytes.length
    if maxSnapshotBytes < carried then
      .error ("bundle " ++ toString bundleId ++ " holds more than " ++
        toString (maxSnapshotBytes / (1024 * 1024)) ++ " MiB of documents; writing one rewrites the " ++
        "whole bundle, and this server does not hold that much at once")
    else .ok (files.1 ++ [(r.path, bytes)], carried)

/-- The files a document write sends back, read from the rows of the bundle in some order. -/
def SourceState.snapshotFiles (s : SourceState) (bundleId : Int) (rows : List ConceptRow) :
    Except String (List (Text × Bytes)) := do
  ensureSources s.storeSource
  let held := (rows.map fun r => ((s.heldBytes r.id).getD []).length).sum
  ensure (held ≤ maxSnapshotBytes) ("bundle " ++ toString bundleId ++ " holds " ++
    toString (held / (1024 * 1024)) ++
      " MiB of documents; writing one rewrites the whole bundle, and " ++
    "this server does not hold more than " ++ toString (maxSnapshotBytes / (1024 * 1024)) ++
    " MiB at once")
  let (files, _) ← rows.foldlM (s.carry bundleId) ([], 0)
  .ok files

section Columns

variable {parsers : Parsers} {s s' : SourceState} {call : SyncCall} {source : Source}
  {staged : List StagedConcept} {storeSource : Bool} {column : ByteColumn} {i : Text} {bytes : Bytes}

theorem mem_marshalBytes : (i, bytes) ∈ marshalBytes source storeSource staged column ↔
    ∃ c ∈ staged, c.id = i ∧ c.writes storeSource column = true ∧
      source.readBytes c.path = .ok bytes := by
  have hok : ∀ c : StagedConcept, (source.readBytes c.path).toOption = some bytes ↔
      source.readBytes c.path = .ok bytes := by
    intro c
    cases source.readBytes c.path <;> simp [Except.toOption]
  simp only [marshalBytes, List.mem_filterMap, Option.ite_none_right_eq_some, Option.map_eq_some_iff,
    Prod.mk.injEq]
  constructor
  · rintro ⟨c, hc, hwrites, v, hv, rfl, rfl⟩
    exact ⟨c, hc, rfl, hwrites, (hok c).mp hv⟩
  · rintro ⟨c, hc, rfl, hwrites, hread⟩
    exact ⟨c, hc, hwrites, bytes, (hok c).mpr hread, rfl, rfl⟩

theorem cascadeBytes_eq_some {c : ConceptTable} {table : Text → Option Bytes} :
    cascadeBytes c table i = some bytes ↔ c.Has i ∧ table i = some bytes := by
  have hany : c.rows.any (·.id = i) = true ↔ c.Has i := by simp [ConceptTable.Has]
  rw [← hany, cascadeBytes, Option.ite_none_right_eq_some]

theorem upsertBytes_ok {what : String} {table table' : Text → Option Bytes} {rows : List (Text × Bytes)}
    (h : upsertBytes what table rows = .ok table') : table' = overlay table rows := by
  have hbatches := (foldlM_batches.mp h).2
  rw [flatten_chunks batchSize_pos, List.foldlM_pure, pure_eq_ok] at hbatches
  exact hbatches.symm

structure ProjectsBytes (s : SourceState) (call : SyncCall) (staged : List StagedConcept)
    (s' : SourceState) : Prop where
  storeSource : s'.storeSource = s.storeSource
  bytes : ∀ column, s'.bytes column =
    overlay (cascadeBytes (deletedRows s.bundle.tables (call.plan s.bundle.tables).removedPaths
      staged).concepts (s.bytes column)) (marshalBytes call.source s.storeSource staged column)

theorem exec_sync_ok (h : s.exec parsers (.sync call) = .ok s') :
    ∃ out, runBundleSync parsers s.bundle call = .ok (s'.bundle, out) ∧
      ProjectsBytes s call out.staged s' := by
  simp only [SourceState.exec, bind_eq_ok] at h
  obtain ⟨⟨bundle, out⟩, hsync, skillMd, hskill, scriptBytes, hscript, referenceBytes, hreference,
    rawContent, hraw, h⟩ := h
  cases h
  refine ⟨out, hsync, rfl, fun column => ?_⟩
  cases column with
  | skillMd => exact upsertBytes_ok hskill
  | scriptBytes => exact upsertBytes_ok hscript
  | referenceBytes => exact upsertBytes_ok hreference
  | rawContent => exact upsertBytes_ok hraw

end Columns

/-! ### The law -/

def ByteColumn.writtenFor (storeSource : Bool) (cls : FileClass) : ByteColumn → Bool
  | .skillMd => cls = .skillManifest
  | .scriptBytes => cls = .skillScript
  | .referenceBytes => cls = .skillReference || cls = .skillAsset
  | .rawContent => storeSource

/- Every stored row of bytes belongs to a concept and hashes to the hash of its file. -/
def SourceState.Current (digest : Bytes → Text) (s : SourceState) : Prop :=
  ∀ column i bytes, s.bytes column i = some bytes →
    ∃ r ∈ s.bundle.tables.concepts.rows, r.id = i ∧ digest bytes = r.fileHash

/-- A file does not change between the scan that hashed it and the read that staged it. -/
def SourceOp.Hashed (digest : Bytes → Text) : SourceOp → Prop
  | .setStoreSource _ => True
  | .sync call => ∀ e ∈ call.source.snapshot.entries, ∀ bytes,
      call.source.readBytes e.path = .ok bytes → digest bytes = e.hash

/-- Where the sync finds another hash for a stored id whose path is still there, it writes every
column with bytes of that concept. -/
def SourceState.Renews (s : SourceState) : SourceOp → Prop
  | .setStoreSource _ => True
  | .sync call => ∀ e ∈ call.source.snapshot.concepts, ∀ r ∈ s.bundle.tables.concepts.rows,
      r.id = e.conceptId → r.path ∈ call.source.snapshot.concepts.map (·.path) → r.fileHash ≠ e.hash →
      ∀ column, (s.bytes column r.id).isSome → column.writtenFor s.storeSource e.cls = true

structure RenewingStep (parsers : Parsers) (digest : Bytes → Text) (s : SourceState) (op : SourceOp)
    (s' : SourceState) : Prop where
  exec : s.exec parsers op = .ok s'
  hashed : op.Hashed digest
  renews : s.Renews op

section Law

variable {parsers : Parsers} {digest : Bytes → Text} {s s' : SourceState} {call : SyncCall}
  {op : SourceOp} {column : ByteColumn} {i : Text} {bytes : Bytes} {e : FileMetadata}

theorem writes_staged {index : PackageIndex} {current : List FileMetadata} (storeSource : Bool)
    (column : ByteColumn) : (e.staged parsers index current).writes storeSource column =
      column.writtenFor storeSource e.cls := by
  cases hcls : e.cls <;> cases column <;>
    simp [StagedConcept.writes, FileMetadata.staged, ByteColumn.writtenFor, hcls]

variable {b b' : BundleState} {out : SyncOutcome}

theorem Synced.digest_read (h : Synced parsers b call b' out)
    (hhashed : (SourceOp.sync call).Hashed digest)
    {c c' : StagedConcept} (hc : c ∈ out.staged) (hc' : c' ∈ out.staged) (hid : c.id = c'.id)
    (hread : call.source.readBytes c.path = .ok bytes) :
    digest bytes = c'.fileHash := by
  obtain ⟨e, -, he, rfl⟩ := h.entry hc
  obtain ⟨e', -, he', rfl⟩ := h.entry hc'
  have hpath : e.path = e'.path := Snapshot.path_eq_of_conceptId (Snapshot.concepts_subset he)
    (Snapshot.concepts_subset he') hid
  refine hhashed e' (Snapshot.concepts_subset he') bytes ?_
  rw [← hpath]
  exact hread

theorem written_current {storeSource : Bool} (h : Synced parsers b call b' out)
    (hhashed : (SourceOp.sync call).Hashed digest)
    (hwritten : (i, bytes) ∈ marshalBytes call.source storeSource out.staged column) :
    ∃ r ∈ b'.tables.concepts.rows, r.id = i ∧ digest bytes = r.fileHash := by
  obtain ⟨c, hc, rfl, -, hread⟩ := mem_marshalBytes.mp hwritten
  obtain ⟨r, hr, hid⟩ := (upsertConcepts_has h.concepts c.id).mpr (.inr ⟨c, hc, rfl⟩)
  refine ⟨r, hr, hid, ?_⟩
  rcases upsertConcepts_origin h.concepts hr with ⟨c', hc', rfl⟩ | ⟨-, hnot⟩
  · exact h.digest_read hhashed hc hc' hid.symm hread
  · exact absurd hid.symm (hnot c hc)

theorem SourceState.Current.sync (hs : s.Current digest) (h : s.exec parsers (.sync call) = .ok s')
    (hhashed : (SourceOp.sync call).Hashed digest) (hrenews : s.Renews (.sync call)) :
    s'.Current digest := by
  obtain ⟨out, hsync, hproj⟩ := exec_sync_ok h
  have hsynced := runBundleSync_synced hsync
  intro column i bytes hi
  rw [hproj.bytes] at hi
  by_cases hwritten : ∃ v, (i, v) ∈ marshalBytes call.source s.storeSource out.staged column
  · -- the sync wrote the row
    obtain ⟨w, hw⟩ := hwritten
    obtain ⟨v, hv, hoverlay⟩ := overlay_of_mem (f := cascadeBytes (deletedRows s.bundle.tables
      (call.plan s.bundle.tables).removedPaths out.staged).concepts (s.bytes column)) hw
    obtain rfl := Option.some.inj (hoverlay.symm.trans hi)
    exact written_current hsynced hhashed hv
  · -- the row was there and its concept was not deleted
    rw [overlay_of_not_mem fun v hv => hwritten ⟨v, hv⟩, cascadeBytes_eq_some] at hi
    obtain ⟨⟨r, hr, rfl⟩, htable⟩ := hi
    obtain ⟨hold, hkept, -⟩ := mem_deletedRows.mp hr
    obtain ⟨r₀, hr₀, hid₀, hdigest⟩ := hs column r.id bytes htable
    obtain rfl := ConceptTable.eq_of_id hr₀ hold hid₀
    obtain ⟨r', hr', hid'⟩ := (upsertConcepts_has hsynced.concepts r₀.id).mpr (.inl ⟨r₀, hr, rfl⟩)
    refine ⟨r', hr', hid', ?_⟩
    rcases upsertConcepts_origin hsynced.concepts hr' with ⟨c, hc, rfl⟩ | ⟨hmem, -⟩
    · obtain ⟨e, -, he, rfl⟩ := hsynced.entry hc
      change digest bytes = e.hash
      by_contra hne
      refine hwritten ?_
      have hpath : r₀.path ∈ call.source.snapshot.concepts.map (·.path) := by
        by_contra hgone
        refine hkept (mem_planned_removedPaths.mpr ⟨⟨r₀, hold, rfl⟩, fun e' he' hp => hgone ?_⟩)
        exact List.mem_map.mpr ⟨e', he', hp⟩
      have hwrites := hrenews e he r₀ hold hid'.symm hpath (fun h => hne (hdigest.trans h)) column
        (Option.isSome_iff_exists.mpr ⟨bytes, htable⟩)
      obtain ⟨v, hv⟩ := runBundleSync_read hsync _ hc
      exact ⟨v, mem_marshalBytes.mpr ⟨_, hc, hid', by rw [writes_staged]; exact hwrites, hv⟩⟩
    · rw [ConceptTable.eq_of_id (mem_deletedRows.mp hmem).1 hold hid']
      exact hdigest

theorem SourceState.Current.step (hs : s.Current digest) (h : RenewingStep parsers digest s op s') :
    s'.Current digest := by
  cases op with
  | setStoreSource storeSource =>
    cases h.exec
    exact hs
  | sync call => exact SourceState.Current.sync hs h.exec h.hashed h.renews

theorem SourceState.Current.run {ops : List SourceOp}
    (h : Run (RenewingStep parsers digest) .empty ops s) :
    s.Current digest := by
  refine h.invariant ?_ fun s op s' hs hstep => SourceState.Current.step hs hstep
  intro column i bytes hi
  cases hi

end Law

section Readers

variable {parsers : Parsers} {digest : Bytes → Text} {s : SourceState} {i : Text} {bytes : Bytes}
  {r : ConceptRow}

/-- These bytes and no others have the recorded hash. -/
def CurrentVersion (digest : Bytes → Text) (r : ConceptRow) (bytes : Bytes) : Prop :=
  ∀ v, digest v = r.fileHash ↔ v = bytes

theorem currentVersion_of_digest (hinj : Function.Injective digest) (h : digest bytes = r.fileHash) :
    CurrentVersion digest r bytes := by
  intro v
  constructor
  · intro hv
    exact hinj (hv.trans h.symm)
  · rintro rfl
    exact h

variable {bundleId : Int}

theorem getConceptSource_ok {session : Session} {tenantRequired : Bool} {tenant : Text}
    (h : s.getConceptSource session tenantRequired tenant bundleId i = .ok bytes) :
    s.bytes .rawContent i = some bytes := by
  simp only [SourceState.getConceptSource, bind_eq_ok] at h
  obtain ⟨-, -, h⟩ := h
  split at h
  · rename_i v hv
    cases h
    exact (Option.filter_eq_some_iff.mp hv).1
  · split at h <;> cases h

theorem SourceState.Current.heldBytes (hs : s.Current digest) (h : s.heldBytes i = some bytes) :
    ∃ r ∈ s.bundle.tables.concepts.rows, r.id = i ∧ digest bytes = r.fileHash := by
  simp only [SourceState.heldBytes, Option.or_eq_some_iff] at h
  rcases h with h | ⟨-, h | ⟨-, h | ⟨-, h⟩⟩⟩
  · exact hs _ i bytes h
  · exact hs _ i bytes h
  · exact hs _ i bytes h
  · exact hs _ i bytes h

theorem snapshotFiles_ok {rows : List ConceptRow} {files : List (Text × Bytes)}
    (h : s.snapshotFiles bundleId rows = .ok files) :
    List.Forall₂ (fun r file => file.1 = r.path ∧ s.heldBytes r.id = some file.2) rows files := by
  simp only [SourceState.snapshotFiles, bind_eq_ok] at h
  obtain ⟨-, -, -, -, ⟨files', carried⟩, hfold, h⟩ := h
  cases h
  refine foldlM_invariant (P := fun done (files : List (Text × Bytes) × Nat) =>
    List.Forall₂ (fun r file => file.1 = r.path ∧ s.heldBytes r.id = some file.2) done files.1)
    hfold .nil ?_
  intro done r rest files files' _ hdone hstep
  unfold SourceState.carry at hstep
  split at hstep
  · cases hstep
  · rename_i v hv
    dsimp only at hstep
    split at hstep
    · cases hstep
    · cases hstep
      exact List.rel_append hdone (.cons ⟨rfl, hv⟩ .nil)

theorem stored_sources_current (hinj : Function.Injective digest) {ops : List SourceOp}
    (hrun : Run (RenewingStep parsers digest) .empty ops s) :
    s.Current digest ∧
    (∀ session tenantRequired tenant bundleId i bytes,
      s.getConceptSource session tenantRequired tenant bundleId i = .ok bytes →
      ∃ r ∈ s.bundle.tables.concepts.rows, r.id = i ∧ CurrentVersion digest r bytes) ∧
    (∀ bundleId rows files, rows.Perm s.bundle.tables.concepts.rows →
      s.snapshotFiles bundleId rows = .ok files →
      List.Forall₂ (fun r file => file.1 = r.path ∧ CurrentVersion digest r file.2) rows files) := by
  have hs := SourceState.Current.run hrun
  refine ⟨hs, ?_, ?_⟩
  · intro session tenantRequired tenant bundleId i bytes h
    obtain ⟨r, hr, hid, hdigest⟩ := hs _ i bytes (getConceptSource_ok h)
    exact ⟨r, hr, hid, currentVersion_of_digest hinj hdigest⟩
  · intro bundleId rows files hperm h
    have hfiles := snapshotFiles_ok h
    rw [List.forall₂_iff_get] at hfiles ⊢
    refine ⟨hfiles.1, fun k hk hk' => ?_⟩
    obtain ⟨hpath, hheld⟩ := hfiles.2 k hk hk'
    obtain ⟨r, hr, hid, hdigest⟩ := SourceState.Current.heldBytes hs hheld
    obtain rfl := ConceptTable.eq_of_id hr (hperm.subset (List.get_mem rows ⟨k, hk⟩)) hid
    exact ⟨hpath, currentVersion_of_digest hinj hdigest⟩

end Readers

def versionOf (content : Bytes) : Source where
  snapshot :=
    { entries := [⟨"a.md", sampleDigest content, .okfDocument⟩]
      classified := by
        intro e he
        obtain rfl := List.mem_singleton.mp he
        rfl }
  readBytes _ := .ok content
  rootOkfVersion := none

def versionCall (content : Bytes) (instant : Int) : SyncCall :=
  { sampleCall (versionOf content).snapshot instant with source := versionOf content }

def SourceState.play (s : SourceState) (ops : List SourceOp) : SourceState :=
  ops.foldl (fun s op => match s.exec sampleParsers op with
    | .ok s' => s'
    | .error _ => s) s

def sampleReader : Session := ⟨fun role => role = .reader, none⟩

theorem sampleDigest_injective : Function.Injective sampleDigest := by
  refine List.map_injective_iff.mpr fun a b h => ?_
  have hvalid : ∀ c : UInt8, (Char.ofNat c.toNat).toNat = c.toNat := by
    intro c
    have hlt := c.toNat_lt
    have hc : c.toNat.isValidChar := .inl (by omega)
    rw [Char.ofNat, dif_pos hc]
    rfl
  exact UInt8.toNat_inj.mp (by rw [← hvalid a, ← hvalid b, h])

/-- With the setting on, the second version replaces the bytes of the first. -/
theorem stored_sources_current_renewed :
    let s := SourceState.empty.play
      [.setStoreSource true, .sync (versionCall [1] 1), .sync (versionCall [2] 2)]
    s.getConceptSource sampleReader false [] 1 "a" = .ok [2] ∧
    ∃ r ∈ s.bundle.tables.concepts.rows, r.id = "a" ∧ CurrentVersion sampleDigest r [2] := by
  intro s
  have hhashed : ∀ content instant,
    (SourceOp.sync (versionCall content instant)).Hashed sampleDigest := by
    intro content instant e he bytes hread
    obtain rfl := List.mem_singleton.mp he
    cases hread
    rfl
  have hrun : Run (RenewingStep sampleParsers sampleDigest) .empty
      ([.setStoreSource true] ++ [.sync (versionCall [1] 1)] ++ [.sync (versionCall [2] 2)]) s := by
    refine .snoc (.snoc (.snoc (.start _) ⟨rfl, trivial, trivial⟩) ⟨rfl, hhashed _ _, ?_⟩)
      ⟨rfl, hhashed _ _, ?_⟩
    · intro e he r hr
      cases hr
    · intro e he r hr hid hpath hne column hsome
      obtain rfl := List.mem_singleton.mp hr
      cases column with
      | rawContent => rfl
      | skillMd | scriptBytes | referenceBytes => cases hsome
  have hread : s.getConceptSource sampleReader false [] 1 "a" = .ok [2] := rfl
  exact ⟨hread, (stored_sources_current sampleDigest_injective hrun).2.1 _ _ _ _ _ _ hread⟩

/-- Switched off for the second version, the setting leaves the bytes of the first under the hash of
the second. -/
theorem stored_source_outdated :
    let s := SourceState.empty.play
      [.setStoreSource true, .sync (versionCall [1] 1), .setStoreSource false, .sync (versionCall [2] 2),
        .setStoreSource true]
    s.bundle.tables.concepts.rows = [⟨"a", "a.md", sampleDigest [2]⟩] ∧
    s.bytes .rawContent "a" = some [1] ∧
    s.getConceptSource sampleReader false [] 1 "a" = .ok [1] ∧
    s.snapshotFiles 1 s.bundle.tables.concepts.rows = .ok [("a.md", [1])] ∧
    ¬ s.Current sampleDigest := by
  intro s
  refine ⟨rfl, rfl, rfl, rfl, fun hcurrent => ?_⟩
  obtain ⟨r, hr, -, hdigest⟩ := hcurrent .rawContent "a" [1] rfl
  obtain rfl := List.mem_singleton.mp hr
  exact absurd hdigest (by decide)

end Pgokf.Sync
