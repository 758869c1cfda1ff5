import Pgokf.Catalog.Freshness

/-! # Producer marks and the compare-and-set completion (`freshness.rs`) -/

namespace Pgokf.Catalog

open Lib

/- The common start of the bundle-addressed functions. -/
def confinedBundle (operation : Operation) (txn : Txn) (bundles : BundleTable) (bundleId : BundleId) :
    Except CatalogError BundleRow := do
  authorizeCurrentUser operation txn.session txn.requireTenant
  enforceBundleTenant txn bundles bundleId
  registeredBundle bundles bundleId

theorem confinedBundle_row {operation : Operation} {txn : Txn} {bundles : BundleTable} {b : BundleId}
    {bundle : BundleRow} (h : confinedBundle operation txn bundles b = .ok bundle) :
    bundles b = some bundle := by
  simp only [confinedBundle, registeredBundle, bind_eq_ok, orRefuse_eq_ok] at h
  obtain ⟨-, -, -, -, hbundle⟩ := h
  exact hbundle

def validatedReasons (reasonCodes : List Text) : Except CatalogError (List Text) := do
  ensure (reasonCodes.all fun reason => !isBlank reason)
    (.invalidParameter "reason_codes must not contain empty entries")
  pure (if reasonCodes.isEmpty then ["producer_reported"] else reasonCodes)

def markStale (txn : Txn) (bundles : BundleTable) (rows : FreshnessRows) (bundleId : BundleId)
    (reasonCodes : List Text) (producer observedSourceGeneration : Option Text) :
    Except CatalogError FreshnessRows := do
  let _ ← confinedBundle .ingest txn bundles bundleId
  let reasons ← validatedReasons reasonCodes
  pure (setBundleState bundles txn.now rows bundleId .stale reasons producer
    observedSourceGeneration)

def markBlocked (txn : Txn) (bundles : BundleTable) (rows : FreshnessRows) (bundleId : BundleId)
    (reasonCodes : List Text) (producer : Option Text) : Except CatalogError FreshnessRows := do
  let _ ← confinedBundle .ingest txn bundles bundleId
  let reasons ← validatedReasons reasonCodes
  pure (setBundleState bundles txn.now rows bundleId .blocked reasons producer none)

/-- `mark_reconciling_impl`: the standing epoch is claimed, also on a retired row, and is the token. -/
def markReconciling (txn : Txn) (bundles : BundleTable) (rows : FreshnessRows) (bundleId : BundleId)
    (producer : Option Text) : Except CatalogError (FreshnessRows × Int) := do
  let _ ← confinedBundle .ingest txn bundles bundleId
  let entered := setBundleState bundles txn.now rows bundleId .reconciling [] producer none
  let row ← orRefuse (entered bundleId)
    (.internal ("bundle " ++ toString bundleId ++ " has no freshness row to claim"))
  let claimed := updateRow entered bundleId (fun _ => true) fun row =>
    { row with claimedInvalidationEpoch := row.dependencyInvalidationEpoch }
  pure (claimed, row.dependencyInvalidationEpoch)

structure FreshEvidence where
  expectedObservedSourceGeneration : Option Text
  expectedCatalogGeneration : Int
  claimedInvalidationEpoch : Int
  manifestHash : Option Text
  embeddingContract : Option Text
  producer : Option Text

/- Evidence that names a generation and the first token, and nothing else. -/
def freshAt (catalogGeneration : Int) : FreshEvidence where
  expectedObservedSourceGeneration := none
  expectedCatalogGeneration := catalogGeneration
  claimedInvalidationEpoch := 0
  manifestHash := none
  embeddingContract := none
  producer := none

/- The condition of `MARK_FRESH_CAS`. -/
def FreshEvidence.completes (evidence : FreshEvidence) (bundle : BundleRow)
    (row : FreshnessRow) : Bool :=
  row.notRetired &&
    row.observedSourceGeneration == evidence.expectedObservedSourceGeneration &&
    bundle.catalogGeneration == evidence.expectedCatalogGeneration &&
    row.materializedCatalogGeneration.all (fun g => decide (g ≤ evidence.expectedCatalogGeneration)) &&
    decide (row.dependencyInvalidationEpoch ≤ evidence.claimedInvalidationEpoch) &&
    decide (row.claimedInvalidationEpoch ≤ evidence.claimedInvalidationEpoch) &&
    row.relationshipCoverageMissingSince.isNone &&
    !row.reasonCodes.contains reasonRelationshipCoverageMissing

def FreshnessRow.completed (row : FreshnessRow) (now : Instant) (evidence : FreshEvidence) :
    FreshnessRow :=
  { row with
    state := .fresh
    reasonCodes := []
    staleSince := none
    lastReconciledAt := some now
    materializedSourceGeneration := evidence.expectedObservedSourceGeneration
    materializedCatalogGeneration := some evidence.expectedCatalogGeneration
    manifestHash := evidence.manifestHash.or row.manifestHash
    embeddingContract := evidence.embeddingContract.or row.embeddingContract
    producer := evidence.producer.or row.producer }

/-- `mark_fresh_impl`: a refusal is the answer `false` and changes nothing. -/
def markFresh (txn : Txn) (bundles : BundleTable) (rows : FreshnessRows) (bundleId : BundleId)
    (evidence : FreshEvidence) : Except CatalogError (FreshnessRows × Bool) := do
  let bundle ← confinedBundle .ingest txn bundles bundleId
  let completes := evidence.completes bundle
  pure (updateRow rows bundleId completes (·.completed txn.now evidence),
    (rows bundleId).any completes)

/- `mark_scope_stale_impl`; the kinds it admits are the constructors of `ScopeKind`. -/
def markScopeStale (txn : Txn) (bundles : BundleTable) (scopes : ScopeTable) (bundleId : BundleId)
    (kind : ScopeKind) (key : Text) (reasonCodes : List Text) (producer : Option Text) :
    Except CatalogError ScopeTable := do
  let _ ← confinedBundle .ingest txn bundles bundleId
  ensure (!key.isEmpty) (.invalidParameter "scope_key must not be empty")
  let reasons ← validatedReasons reasonCodes
  pure (setScopeState bundles txn.now scopes bundleId kind key .stale reasons producer)

/-- The update of `repair_bundle_freshness_impl`: state and reasons as given, the epoch pair
settled. -/
def FreshnessRow.repaired (row : FreshnessRow) (now : Instant) (state : FreshnessState)
    (reasons : List Text) : FreshnessRow :=
  { row with
    state
    reasonCodes := reasons
    staleSince := if state = .fresh then none else some now
    lastReconciledAt := if state = .fresh then some now else row.lastReconciledAt
    claimedInvalidationEpoch := row.dependencyInvalidationEpoch
    relationshipCoverageMissingSince :=
      if reasons.contains reasonRelationshipCoverageMissing then
        row.relationshipCoverageMissingSince.or (some now)
      else none }

def repairBundleFreshness (txn : Txn) (bundles : BundleTable) (rows : FreshnessRows)
    (bundleId : BundleId) (state : FreshnessState) (reasonCodes : List Text) :
    Except CatalogError FreshnessRows := do
  let _ ← confinedBundle .register txn bundles bundleId
  let reasons ← validatedReasons reasonCodes
  -- A missing row is inserted with the column defaults, which the same repair then rewrites.
  let row := (rows bundleId).getD (.inserted txn.now state reasons none none)
  pure (Function.update rows bundleId (some (row.repaired txn.now state reasons)))

end Pgokf.Catalog
