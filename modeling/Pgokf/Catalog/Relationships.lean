import Pgokf.Catalog.Fence
import Pgokf.Catalog.Freshness

/-! # Relationship publications (`relationships.rs`)

The ledger of publications: writing, staging, activation at a sync, and retention. -/

namespace Pgokf.Catalog

open Lib

inductive PublicationState where
  | staged
  | active
  | superseded
  deriving DecidableEq

structure Publication where
  publicationId : Int
  tenantId : Text
  producer : Text
  -- Cleared when the bundle leaves the catalog.
  sourceBundleId : Option BundleId
  publicationGeneration : Int
  expectedCatalogGeneration : Int
  activatedCatalogGeneration : Option Int
  fencingToken : Int
  relationshipSetHash : Text
  manifestHash : Option Text
  state : PublicationState
  rowCount : Nat
  activatedAt : Option Instant
  updatedAt : Instant
  deriving DecidableEq

abbrev PublicationTable := SerialTable Publication Publication.publicationId

def Publication.isOf (p : Publication) (b : BundleId) (state : PublicationState) : Bool :=
  p.sourceBundleId == some b && p.state == state

def Publication.superseded (p : Publication) (now : Instant) : Publication :=
  { p with state := .superseded, updatedAt := now }

def hasCoverage (publications : PublicationTable) (b : BundleId) : Bool :=
  publications.rows.any (·.isOf b .active)

/-- `prune_aged_superseded`: also sweeps the publications of bundles that have left the catalog. -/
def pruneAgedSuperseded (now : Instant) (b : BundleId) (publications : PublicationTable) :
    PublicationTable :=
  publications.retain fun p =>
    !((p.sourceBundleId == some b || p.sourceBundleId.isNone) && p.state == .superseded &&
      decide (p.updatedAt < now - days 30))

def pruneAgedDetachedSuperseded (now : Instant) (publications : PublicationTable) : PublicationTable :=
  publications.retain fun p =>
    !(p.sourceBundleId.isNone && p.state == .superseded && decide (p.updatedAt < now - days 30))

def detachPublications (b : BundleId) (publications : PublicationTable) : PublicationTable :=
  publications.updateWhere (·.sourceBundleId == some b) ({ · with sourceBundleId := none })
    (fun _ => rfl)

def Publication.attempts (p : Publication) (b : BundleId) (catalogGeneration : Int) : Bool :=
  p.isOf b .staged && p.expectedCatalogGeneration == catalogGeneration

/- The newest attempt of its producer scope; generations are unique within a scope. -/
def Publication.wins (p : Publication) (attempts : List Publication) : Bool :=
  attempts.all fun q =>
    !(q.tenantId == p.tenantId && q.producer == p.producer) ||
      decide (q.publicationGeneration ≤ p.publicationGeneration)

def Publication.activated (p : Publication) (now : Instant) (catalogGeneration : Int) : Publication :=
  { p with
    state := .active
    activatedCatalogGeneration := some catalogGeneration
    activatedAt := some now
    updatedAt := now }

structure Activation where
  publications : PublicationTable
  -- The bundle had an active publication before, and all of them are superseded now.
  hadCoverage : Bool
  activated : List Int

/-- The publications of `b` after step 3: nothing active, nothing staged for an older generation. -/
def supersedeOutdated (now : Instant) (b : BundleId) (catalogGeneration : Int)
    (publications : PublicationTable) : PublicationTable :=
  (publications.updateWhere (·.isOf b .active) (·.superseded now) (fun _ => rfl)).updateWhere
    (fun p => p.isOf b .staged && decide (p.expectedCatalogGeneration < catalogGeneration))
    (·.superseded now) (fun _ => rfl)

/-- `activate_staged`, without the relationship rows and the freshness row it touches. -/
def activateStaged (now : Instant) (b : BundleId) (catalogGeneration : Int)
    (publications : PublicationTable) : Activation :=
  let outdated := supersedeOutdated now b catalogGeneration publications
  let attempts := outdated.rows.filter (·.attempts b catalogGeneration)
  let settled := outdated.updateWhere (·.attempts b catalogGeneration)
    (fun p => if p.wins attempts then p.activated now catalogGeneration else p.superseded now)
    (fun p => by split <;> rfl)
  { publications := pruneAgedSuperseded now b settled
    hadCoverage := hasCoverage publications b
    activated := (attempts.filter (·.wins attempts)).map (·.publicationId) }

def Activation.coverageMissing (activation : Activation) : Bool :=
  activation.hadCoverage && activation.activated.isEmpty

/-- `activation_mode`: activate against the current generation, stage for the next. -/
def activationMode (expected current : Int) : Except CatalogError Bool :=
  if expected = current then .ok true
  else if expected = current + 1 then .ok false
  else .error (.invalidParameter ("expected_catalog_generation " ++ toString expected ++
    " does not match the bundle's current catalog generation " ++ toString current ++
    " (activate) or its next generation " ++ toString (current + 1) ++
    " (stage for the pending refresh); re-read the catalog and retry"))

/- The submitted rows enter through what becomes of them in the mode of the write. -/
structure CanonicalSet where
  setHash : Text
  rowCount : Nat

structure Submission where
  parsed : Except CatalogError Unit
  resolved : Bool → Except CatalogError CanonicalSet

structure RelationshipWrite where
  producer : Text
  sourceBundleId : BundleId
  publicationGeneration : Int
  expectedCatalogGeneration : Int
  fencingToken : Int
  submission : Submission

def existingPublication (publications : PublicationTable) (key : FenceKey)
    (publicationGeneration : Int) : Option Publication :=
  publications.rows.find? fun p =>
    p.tenantId == key.tenantId && p.producer == key.producer &&
      p.sourceBundleId == some key.bundleId && p.publicationGeneration == publicationGeneration

def supersedeActive (now : Instant) (key : FenceKey) (publications : PublicationTable) :
    PublicationTable :=
  publications.updateWhere
    (fun p => p.tenantId == key.tenantId && p.producer == key.producer && p.isOf key.bundleId .active)
    (·.superseded now) (fun _ => rfl)

def newPublication (now : Instant) (key : FenceKey) (write : RelationshipWrite) (fence : Fence)
    (set : CanonicalSet) (activate : Bool) (publicationId : Int) : Publication :=
  { publicationId
    tenantId := key.tenantId
    producer := key.producer
    sourceBundleId := some key.bundleId
    publicationGeneration := write.publicationGeneration
    expectedCatalogGeneration := write.expectedCatalogGeneration
    activatedCatalogGeneration := if activate then some write.expectedCatalogGeneration else none
    fencingToken := write.fencingToken
    relationshipSetHash := set.setHash
    manifestHash := fence.manifestHash
    state := if activate then .active else .staged
    rowCount := set.rowCount
    activatedAt := if activate then some now else none
    updatedAt := now }

structure Published where
  publications : PublicationTable
  rows : FreshnessRows
  publication : Publication
  -- A publication has become active by this write.
  activated : Bool

def publish (now : Instant) (key : FenceKey) (write : RelationshipWrite) (fence : Fence)
    (set : CanonicalSet) (activate : Bool) (publications : PublicationTable) (rows : FreshnessRows) :
    Published :=
  let row := newPublication now key write fence set activate
  let room := if activate then supersedeActive now key publications else publications
  let written := room.insert row fun _ => rfl
  { publications := if activate then pruneAgedSuperseded now key.bundleId written else written
    rows := if activate then clearRelationshipCoverageMissing rows key.bundleId else rows
    publication := row room.next
    activated := activate }

structure CheckedWrite where
  key : FenceKey
  fence : Fence
  activate : Bool
  set : CanonicalSet

def checkedWrite (txn : Txn) (bundles : BundleTable) (fences : FenceTable) (write : RelationshipWrite) :
    Except CatalogError CheckedWrite := do
  authorizeCurrentUser .ingest txn.session txn.requireTenant
  validateProducer write.producer
  ensure (0 < write.publicationGeneration)
    (.invalidParameter ("publication_generation must be greater than 0, got " ++
      toString write.publicationGeneration))
  ensure (0 ≤ write.expectedCatalogGeneration)
    (.invalidParameter ("expected_catalog_generation must be at least 0, got " ++
      toString write.expectedCatalogGeneration))
  enforceBundleTenant txn bundles write.sourceBundleId
  write.submission.parsed
  let bundle ← registeredBundle bundles write.sourceBundleId
  let key : FenceKey := ⟨bundle.tenantId, write.producer, write.sourceBundleId⟩
  let fence ← checkedFence txn.now fences key write.publicationGeneration write.fencingToken
  let activate ← activationMode write.expectedCatalogGeneration bundle.catalogGeneration
  let set ← write.submission.resolved activate
  pure { key, fence, activate, set }

def conflictingSet (write : RelationshipWrite) : CatalogError :=
  .duplicatePath ("publication (" ++ String.ofList write.producer ++ ", bundle " ++
    toString write.sourceBundleId ++ ", generation " ++ toString write.publicationGeneration ++
    ") already exists with a different relationship set; " ++
    "choose a new publication_generation (re-issue the fence)")

def answerWrite (txn : Txn) (publications : PublicationTable) (rows : FreshnessRows)
    (write : RelationshipWrite) (checked : CheckedWrite) : Except CatalogError Published :=
  match existingPublication publications checked.key write.publicationGeneration with
  | some existing => do
    -- A retry answers with the publication it repeats; a different set under the key conflicts.
    ensure (existing.relationshipSetHash == checked.set.setHash) (conflictingSet write)
    pure { publications, rows, publication := existing, activated := false }
  | none => pure (publish txn.now checked.key write checked.fence checked.set checked.activate
      publications rows)

def replaceRelationships (txn : Txn) (bundles : BundleTable) (fences : FenceTable)
    (publications : PublicationTable) (rows : FreshnessRows) (write : RelationshipWrite) :
    Except CatalogError Published :=
  checkedWrite txn bundles fences write >>= answerWrite txn publications rows write

section Accepted

variable {txn : Txn} {bundles : BundleTable} {fences : FenceTable} {publications : PublicationTable}
  {rows : FreshnessRows} {write : RelationshipWrite}

theorem checkedWrite_ok {checked : CheckedWrite}
    (h : checkedWrite txn bundles fences write = .ok checked) :
    ∃ bundle, bundles write.sourceBundleId = some bundle ∧
      checked.key = ⟨bundle.tenantId, write.producer, write.sourceBundleId⟩ ∧
      fences checked.key = some checked.fence ∧ checked.fence.state = .issued ∧
      txn.now < checked.fence.expiresAt ∧ checked.fence.fencingToken = write.fencingToken ∧
      checked.fence.targetGeneration = write.publicationGeneration ∧
      activationMode write.expectedCatalogGeneration bundle.catalogGeneration = .ok checked.activate ∧
      write.submission.resolved checked.activate = .ok checked.set := by
  simp only [checkedWrite, registeredBundle, bind_eq_ok, orRefuse_eq_ok, pure_eq_ok] at h
  obtain ⟨-, -, -, -, -, -, -, -, -, -, -, -, bundle, hbundle, fence, hfence, activate, hactivate,
    set, hset, rfl⟩ := h
  obtain ⟨hslot, hstate, hlive, htoken, htarget⟩ := checkedFence_ok hfence
  exact ⟨bundle, hbundle, rfl, hslot, hstate, hlive, htoken, htarget, hactivate, hset⟩

theorem answerWrite_ok {checked : CheckedWrite} {published : Published}
    (h : answerWrite txn publications rows write checked = .ok published) :
    (∃ existing,
      existingPublication publications checked.key write.publicationGeneration = some existing ∧
      existing.relationshipSetHash = checked.set.setHash ∧
      published = ⟨publications, rows, existing, false⟩) ∨
    existingPublication publications checked.key write.publicationGeneration = none ∧
      published = publish txn.now checked.key write checked.fence checked.set checked.activate
        publications rows := by
  rw [answerWrite] at h
  split at h
  next existing hexisting =>
    simp only [bind_eq_ok, ensure_eq_ok, beq_iff_eq, pure_eq_ok] at h
    obtain ⟨-, hhash, rfl⟩ := h
    exact .inl ⟨existing, hexisting, hhash, rfl⟩
  next hnone => exact .inr ⟨hnone, (pure_eq_ok.mp h).symm⟩

/-- An accepted write held the live fence of its slot; it repeats a publication or adds one. -/
theorem replaceRelationships_ok {published : Published}
    (h : replaceRelationships txn bundles fences publications rows write = .ok published) :
    ∃ bundle fence, bundles write.sourceBundleId = some bundle ∧
      fences ⟨bundle.tenantId, write.producer, write.sourceBundleId⟩ = some fence ∧
      fence.state = .issued ∧ txn.now < fence.expiresAt ∧ fence.fencingToken = write.fencingToken ∧
      fence.targetGeneration = write.publicationGeneration ∧
      ((∃ existing, published = ⟨publications, rows, existing, false⟩) ∨
        ∃ set activate, published = publish txn.now
          ⟨bundle.tenantId, write.producer, write.sourceBundleId⟩ write fence set activate
          publications rows) := by
  obtain ⟨checked, hchecked, h⟩ := bind_eq_ok.mp h
  obtain ⟨bundle, hbundle, hkey, hslot, hstate, hlive, htoken, htarget, -⟩ := checkedWrite_ok hchecked
  rw [hkey] at hslot
  refine ⟨bundle, checked.fence, hbundle, hslot, hstate, hlive, htoken, htarget, ?_⟩
  rcases answerWrite_ok h with ⟨existing, -, -, rfl⟩ | ⟨-, rfl⟩
  · exact .inl ⟨existing, rfl⟩
  · exact .inr ⟨checked.set, checked.activate, by rw [hkey]⟩

end Accepted

end Pgokf.Catalog
