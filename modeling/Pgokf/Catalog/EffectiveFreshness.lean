import Pgokf.Catalog.Machine

/-! # What readers see of the freshness (`freshness.rs`, `search.rs`)

The view `pgokf.effective_freshness`, and the precedence among its rows. -/

namespace Pgokf.Catalog

/- Columns that no reader modelled here takes are left out. -/
structure EffectiveRow where
  state : FreshnessState
  reasons : List Text
  staleSince : Option Instant
  observedRevision : Option Text
  indexedRevision : Option Text
  publishedRevision : Option Text
  catalogGeneration : Int
  lastReconciledAt : Option Instant
  deriving DecidableEq

def FreshnessState.text : FreshnessState → Text
  | .fresh => "fresh"
  | .stale => "stale"
  | .reconciling => "reconciling"
  | .blocked => "blocked"
  | .retired => "retired"

namespace State

variable (c : State) (txn : Txn)

def viewedBundle (b : BundleId) : Option BundleRow :=
  (c.bundles.rows b).filter fun bundle => tenantPredicate txn.session txn.requireTenant bundle.tenantId

def bundleFreshness (b : BundleId) : Option EffectiveRow :=
  (c.viewedBundle txn b).bind fun bundle => (c.freshness.rows b).map fun row =>
    { state := row.state
      reasons := row.reasonCodes
      staleSince := row.staleSince
      observedRevision := row.observedSourceGeneration
      indexedRevision := row.materializedSourceGeneration
      publishedRevision := row.materializedCatalogGeneration.map fun generation =>
        (toString generation).toList
      catalogGeneration := bundle.catalogGeneration
      lastReconciledAt := row.lastReconciledAt }

/- No write sets the revisions of an override. -/
def scopeFreshness (b : BundleId) (kind : ScopeKind) (key : Text) : Option EffectiveRow :=
  (c.viewedBundle txn b).bind fun bundle => (c.freshness.scopes (b, kind, key)).map fun row =>
    { state := row.state
      reasons := row.reasonCodes
      staleSince := row.staleSince
      observedRevision := none
      indexedRevision := none
      publishedRevision := none
      catalogGeneration := bundle.catalogGeneration
      lastReconciledAt := none }

/-- `COALESCE(fc.state, fp.state, fb.state, 'fresh')`: an override of the concept, then one of its
path, then the bundle. -/
def effectiveState (b : BundleId) (concept path : Text) : FreshnessState :=
  (((c.scopeFreshness txn b .concept concept).or (c.scopeFreshness txn b .path path)).or
    (c.bundleFreshness txn b)).elim .fresh (·.state)

end State

end Pgokf.Catalog
