import Pgokf.Catalog.Dependencies
import Pgokf.Catalog.Marks
import Pgokf.Catalog.Relationships

/-! # The catalog as a transactional store

One state for all bundles, and one transaction per call: ingestion (`sync.rs`), administration
(`admin.rs`), freshness, fences, publications and the outbox. -/

namespace Pgokf.Catalog

open Lib

structure State where
  bundles : BundleRegistry
  freshness : Freshness
  fences : FenceTable
  publications : PublicationTable
  outbox : Outbox

def State.empty : State where
  bundles := ⟨fun _ => none, 1, by simp⟩
  freshness := ⟨fun _ => none, fun _ => none, .empty, fun _ => 0⟩
  fences := fun _ => none
  publications := .empty
  outbox := .empty

/-- What the projection of a snapshot hands to the tail of the sync. -/
structure SyncInput where
  changes : List ConceptChange
  syncHash : Text
  context : ChangeContext

def syncedRows (txn : Txn) (bundles : BundleTable) (rows : FreshnessRows) (b : BundleId)
    (generation : Int) (input : SyncInput) (activation : Activation) : FreshnessRows :=
  let cleared :=
    if activation.activated.isEmpty then rows else clearRelationshipCoverageMissing rows b
  let initialized :=
    initializeBundle bundles txn.now cleared b generation input.syncHash input.context
  if activation.coverageMissing then markRelationshipCoverageMissing bundles txn.now initialized b
  else initialized

/-- The tail of `run_bundle_sync`, from `update_bundle_row` to the retention of events. -/
def syncTail (txn : Txn) (c : State) (b : BundleId) (input : SyncInput) :
    Except CatalogError (State × Activation) := do
  let bundle ← orRefuse (c.bundles.rows b) (.internal "bundle update returned no row")
  let generation := bundle.catalogGeneration + 1
  let bundles := c.bundles.modify b ({ · with catalogGeneration := generation })
  let activation := activateStaged txn.now b generation c.publications
  let recorded ← recordEvent bundles.rows c.outbox b input.context.operationForSync generation
    input.changes input.context (some input.syncHash)
  let event : EvaluatedEvent :=
    { sourceBundleId := b
      eventId := recorded.2
      catalogGeneration := generation
      isStateChange := false
      changes := input.changes
      truncated := isTruncated input.changes
      causationKey := input.context.causationKey }
  let rows := syncedRows txn bundles.rows c.freshness.rows b generation input activation
  let synced : State :=
    { c with
      bundles
      publications := activation.publications
      freshness := evaluateDependencies bundles.rows txn.now event { c.freshness with rows }
      outbox := pruneEvents txn.now txn.changeEventRetentionDays recorded.1 }
  pure (synced, activation)

def effectiveTenant (session : Session) : Text :=
  match session.tenant with
  | none => "default"
  | some [] => "default"
  | some tenant => tenant

def registerBundle (txn : Txn) (c : State) (input : SyncInput) :
    Except CatalogError (State × Activation) := do
  authorizeCurrentUser .ingest txn.session txn.requireTenant
  let row : BundleRow :=
    { tenantId := effectiveTenant txn.session, enabled := true, retiredAt := none,
      catalogGeneration := 0 }
  syncTail txn { c with bundles := c.bundles.add row } c.bundles.next input

/- `refresh_bundle_impl` and the re-registration of a content bundle; neither asks whether the
bundle is retired. -/
def syncBundle (txn : Txn) (c : State) (b : BundleId) (input : SyncInput) :
    Except CatalogError (State × Activation) := do
  let _ ← confinedBundle .ingest txn c.bundles.rows b
  syncTail txn c b input

def emitStateChangeEvent (txn : Txn) (c : State) (b : BundleId) (operation : ChangeOperation)
    (generation : Int) : Except CatalogError State := do
  let recorded ← recordEvent c.bundles.rows c.outbox b operation generation [] .default none
  let event : EvaluatedEvent :=
    { sourceBundleId := b
      eventId := recorded.2
      catalogGeneration := generation
      isStateChange := true
      changes := []
      truncated := false
      causationKey := none }
  pure { c with
    freshness := evaluateDependencies c.bundles.rows txn.now event c.freshness
    outbox := recorded.1 }

def transitionedRows (bundles : BundleTable) (now : Instant) (rows : FreshnessRows) (b : BundleId) :
    Option BundleTransition → FreshnessRows
  | none => rows
  | some transition => transitionBundle bundles now rows b transition

/-- The common shape of the lifecycle functions: bump the generation, move the freshness row, emit. -/
def changeBundle (txn : Txn) (c : State) (b : BundleId) (change : BundleRow → BundleRow)
    (transition : Option BundleTransition) (operation : ChangeOperation) :
    Except CatalogError State := do
  let bundle ← confinedBundle .ingest txn c.bundles.rows b
  let generation := bundle.catalogGeneration + 1
  let bundles := c.bundles.modify b fun row => { change row with catalogGeneration := generation }
  let rows := transitionedRows bundles.rows txn.now c.freshness.rows b transition
  emitStateChangeEvent txn { c with bundles, freshness := { c.freshness with rows } } b operation
    generation

def setBundleEnabled (txn : Txn) (c : State) (b : BundleId) (enabled : Bool) :
    Except CatalogError State :=
  changeBundle txn c b ({ · with enabled }) (if enabled then none else some .disable)
    (if enabled then .enableBundle else .disableBundle)

def retireBundle (txn : Txn) (c : State) (b : BundleId) : Except CatalogError State :=
  changeBundle txn c b (fun row => { row with retiredAt := row.retiredAt.or (some txn.now) })
    (some .retire) .retireBundle

def unretireBundle (txn : Txn) (c : State) (b : BundleId) : Except CatalogError State :=
  changeBundle txn c b ({ · with retiredAt := none }) (some .unretire) .unretireBundle

/-- `unregister_bundle_impl`: the event and the dependents are captured before the delete cascades. -/
def unregisterBundle (txn : Txn) (c : State) (b : BundleId) : Except CatalogError State := do
  let bundle ← confinedBundle .ingest txn c.bundles.rows b
  let recorded ← recordEvent c.bundles.rows c.outbox b .unregisterBundle bundle.catalogGeneration []
    .default none
  let dependents := departingDependents c.freshness.dependencies.rows b
  let bundles := c.bundles.drop b
  pure
    { bundles
      freshness := invalidateDepartingDependents bundles.rows txn.now dependents
        (c.freshness.dropBundle b)
      fences := fun key => if key.bundleId = b then none else c.fences key
      publications := pruneAgedDetachedSuperseded txn.now (detachPublications b c.publications)
      outbox := detachEvents b recorded.1 }

inductive Op where
  | registerBundle (input : SyncInput)
  | syncBundle (b : BundleId) (input : SyncInput)
  | unregisterBundle (b : BundleId)
  | setBundleEnabled (b : BundleId) (enabled : Bool)
  | retireBundle (b : BundleId)
  | unretireBundle (b : BundleId)
  | markStale (b : BundleId) (reasons : List Text) (producer observed : Option Text)
  | markBlocked (b : BundleId) (reasons : List Text) (producer : Option Text)
  | markReconciling (b : BundleId) (producer : Option Text)
  | markFresh (b : BundleId) (evidence : FreshEvidence)
  | markScopeStale (b : BundleId) (kind : ScopeKind) (key : Text) (reasons : List Text)
      (producer : Option Text)
  | repairBundleFreshness (b : BundleId) (state : FreshnessState) (reasons : List Text)
  | registerDependency (request : DependencyRequest)
  | disableDependency (id : Int)
  | removeDependency (id : Int)
  | issueFence (b : BundleId) (producer : Text) (target expected : Int) (manifest : Option Text)
      (lease : Int)
  | releaseFence (b : BundleId) (producer : Text) (token : Int)
  | replaceRelationships (write : RelationshipWrite)
  | claimEvents (producer : Text) (limit lease : Int) (locked : List Int)
  | ackEvent (eventId : Int) (producer key : Text)

structure Request where
  txn : Txn
  committedAt : Instant
  op : Op

/- A call by an unscoped session that holds every role, committed at its own instant. -/
def Request.byAdmin (now : Instant) (op : Op) : Request :=
  { txn :=
      { session := { isMemberOf := fun _ => true, tenant := none }
        now
        requireTenant := false
        changeEventRetentionDays := 30 }
    committedAt := now
    op }

/- What the caller is told; of a sync also which publications it superseded and activated. -/
inductive Reply where
  | done
  | synced (b : BundleId) (hadCoverage : Bool) (activated : List Int)
  | token (claimedInvalidationEpoch : Int)
  | completed (success : Bool)
  | dependency (id : Int)
  | fence (fence : Fence)
  | published (publication : Publication) (activated : Bool)
  | claimed (events : List ChangeEvent)
  | acknowledged (success : Bool)
  deriving DecidableEq

def exec (c : State) (request : Request) : Except CatalogError (State × Reply) :=
  let txn := request.txn
  let bundles := c.bundles.rows
  match request.op with
  | .registerBundle input => do
    let (c', activation) ← registerBundle txn c input
    pure (c', .synced c.bundles.next activation.hadCoverage activation.activated)
  | .syncBundle b input => do
    let (c', activation) ← syncBundle txn c b input
    pure (c', .synced b activation.hadCoverage activation.activated)
  | .unregisterBundle b => do
    pure (← unregisterBundle txn c b, .done)
  | .setBundleEnabled b enabled => do
    pure (← setBundleEnabled txn c b enabled, .done)
  | .retireBundle b => do
    pure (← retireBundle txn c b, .done)
  | .unretireBundle b => do
    pure (← unretireBundle txn c b, .done)
  | .markStale b reasons producer observed => do
    let rows ← markStale txn bundles c.freshness.rows b reasons producer observed
    pure ({ c with freshness := { c.freshness with rows } }, .done)
  | .markBlocked b reasons producer => do
    let rows ← markBlocked txn bundles c.freshness.rows b reasons producer
    pure ({ c with freshness := { c.freshness with rows } }, .done)
  | .markReconciling b producer => do
    let (rows, token) ← markReconciling txn bundles c.freshness.rows b producer
    pure ({ c with freshness := { c.freshness with rows } }, .token token)
  | .markFresh b evidence => do
    let (rows, success) ← markFresh txn bundles c.freshness.rows b evidence
    pure ({ c with freshness := { c.freshness with rows } }, .completed success)
  | .markScopeStale b kind key reasons producer => do
    let scopes ← markScopeStale txn bundles c.freshness.scopes b kind key reasons producer
    pure ({ c with freshness := { c.freshness with scopes } }, .done)
  | .repairBundleFreshness b state reasons => do
    let rows ← repairBundleFreshness txn bundles c.freshness.rows b state reasons
    pure ({ c with freshness := { c.freshness with rows } }, .done)
  | .registerDependency request => do
    let (dependencies, id) ← registerDependency txn bundles c.freshness.dependencies request
    pure ({ c with freshness := { c.freshness with dependencies } }, .dependency id)
  | .disableDependency id => do
    let dependencies ← disableDependency txn c.freshness.dependencies id
    pure ({ c with freshness := { c.freshness with dependencies } }, .done)
  | .removeDependency id => do
    let dependencies ← removeDependency txn c.freshness.dependencies id
    pure ({ c with freshness := { c.freshness with dependencies } }, .done)
  | .issueFence b producer target expected manifest lease => do
    let (fences, fence) ← issueFence txn bundles c.fences b producer target expected manifest lease
    pure ({ c with fences }, .fence fence)
  | .releaseFence b producer token => do
    let fences ← releaseFence txn bundles c.fences b producer token
    pure ({ c with fences }, .done)
  | .replaceRelationships write => do
    let published ← replaceRelationships txn bundles c.fences c.publications c.freshness.rows write
    pure ({ c with
        publications := published.publications
        freshness := { c.freshness with rows := published.rows } },
      .published published.publication published.activated)
  | .claimEvents producer limit lease locked => do
    let (outbox, events) ← claimEvents txn c.outbox producer limit lease locked
    pure ({ c with outbox }, .claimed events)
  | .ackEvent eventId producer key => do
    let (outbox, success) ← ackEvent txn c.outbox eventId producer key
    pure ({ c with outbox }, .acknowledged success)

abbrev Journal := List (Entry Request CatalogError Reply)
abbrev CatalogRun := Run (Step exec)

end Pgokf.Catalog
