import Pgokf.Catalog.Bundles
import Pgokf.Lib.SerialTable

/-! # Change events and the outbox (`change_event.rs`) -/

namespace Pgokf.Catalog

open Lib

inductive ChangeKind where
  | added
  | updated
  | removed
  deriving DecidableEq

structure ConceptChange where
  id : Text
  path : Text
  kind : ChangeKind
  beforeHash : Option Text
  afterHash : Option Text
  deriving DecidableEq

def changeRecordCap : Nat := 256

/-- One bucket of an event's payload: the first records, and the exact number of all of them. -/
structure ChangeBucket where
  records : List ConceptChange
  total : Nat
  deriving DecidableEq

def ChangeBucket.collect (kind : ChangeKind) (changes : List ConceptChange) : ChangeBucket :=
  let ofKind := changes.filter (·.kind == kind)
  { records := ofKind.take changeRecordCap, total := ofKind.length }

def isTruncated (changes : List ConceptChange) : Bool :=
  [ChangeKind.added, .updated, .removed].any fun kind =>
    changeRecordCap < (changes.filter (·.kind == kind)).length

/-! ### Events -/

inductive ChangeOperation where
  | refreshBundle
  | putDocument
  | deleteDocument
  | conceptChange
  | enableBundle
  | disableBundle
  | retireBundle
  | unretireBundle
  | unregisterBundle
  | purgeBundle
  deriving DecidableEq

structure ChangeContext where
  operation : Option ChangeOperation
  origin : Option Text
  causationKey : Option Text
  reconciliationKey : Option Text
  producer : Option Text
  observedSourceGeneration : Option Text
  deriving DecidableEq

def ChangeContext.default : ChangeContext := ⟨none, none, none, none, none, none⟩

def ChangeContext.operationForSync (context : ChangeContext) : ChangeOperation :=
  context.operation.getD .refreshBundle

inductive EventStatus where
  | pending
  | claimed
  | acknowledged
  deriving DecidableEq

structure ChangeEvent where
  eventId : Int
  tenantId : Text
  -- Cleared when the bundle leaves the catalog.
  bundleId : Option BundleId
  catalogGeneration : Int
  operation : ChangeOperation
  added : ChangeBucket
  updated : ChangeBucket
  removed : ChangeBucket
  syncHash : Option Text
  context : ChangeContext
  status : EventStatus
  claimedBy : Option Text
  claimExpiresAt : Option Instant
  attempts : Nat
  acceptanceKey : Option Text
  acknowledgedAt : Option Instant
  deriving DecidableEq

abbrev Outbox := SerialTable ChangeEvent ChangeEvent.eventId

def recordEvent (bundles : BundleTable) (outbox : Outbox) (bundleId : BundleId)
    (operation : ChangeOperation) (catalogGeneration : Int) (changes : List ConceptChange)
    (context : ChangeContext) (syncHash : Option Text) : Except CatalogError (Outbox × Int) := do
  let bundle ← orRefuse (bundles bundleId) (.internal "change-event insert returned no id")
  let row := fun eventId : Int =>
    { eventId
      tenantId := bundle.tenantId
      bundleId := some bundleId
      catalogGeneration
      operation
      added := .collect .added changes
      updated := .collect .updated changes
      removed := .collect .removed changes
      syncHash
      context
      status := .pending
      claimedBy := none
      claimExpiresAt := none
      attempts := 0
      acceptanceKey := none
      acknowledgedAt := none : ChangeEvent }
  pure (outbox.insert row fun _ => rfl, outbox.next)

def ChangeEvent.claimable (event : ChangeEvent) (now : Instant) : Bool :=
  match event.status, event.claimExpiresAt with
  | .pending, _ => true
  | .claimed, some expires => expires < now
  | _, _ => false

def ChangeEvent.claim (event : ChangeEvent) (producer : Text) (expires : Instant) : ChangeEvent :=
  { event with
    status := .claimed
    claimedBy := some producer
    claimExpiresAt := some expires
    attempts := event.attempts + 1 }

/-- The rows a claim picks: `locked` are those that other transactions hold, which it skips. -/
def pickedEvents (txn : Txn) (outbox : Outbox) (limit : Nat) (locked : List Int) : List Int :=
  ((outbox.rows.filter fun event =>
      event.claimable txn.now && tenantPredicate txn.session txn.requireTenant event.tenantId &&
        !locked.contains event.eventId).take limit).map (·.eventId)

def claimEvents (txn : Txn) (outbox : Outbox) (producer : Text) (limit leaseSeconds : Int)
    (locked : List Int) : Except CatalogError (Outbox × List ChangeEvent) := do
  authorizeDispatcherCurrentUser txn.session
  ensure (1 ≤ limit && limit ≤ 1000)
    (.invalidParameter ("limit must be between 1 and 1000, got " ++ toString limit))
  validateProducer producer
  validateLease leaseSeconds
  let picked := pickedEvents txn outbox limit.toNat locked
  let claimed := outbox.updateWhere (fun event => picked.contains event.eventId)
    (·.claim producer (txn.now + secs leaseSeconds)) (fun _ => rfl)
  pure (claimed, claimed.rows.filter fun event => picked.contains event.eventId)

def ChangeEvent.acknowledge (event : ChangeEvent) (key : Text) (now : Instant) : ChangeEvent :=
  { event with status := .acknowledged, acceptanceKey := some key, acknowledgedAt := some now }

def ackEvent (txn : Txn) (outbox : Outbox) (eventId : Int) (producer acceptanceKey : Text) :
    Except CatalogError (Outbox × Bool) := do
  authorizeDispatcherCurrentUser txn.session
  ensure (!isBlank producer && !isBlank acceptanceKey)
    (.invalidParameter "producer and acceptance_key must not be empty")
  let visible := fun event : ChangeEvent =>
    event.eventId == eventId && tenantPredicate txn.session txn.requireTenant event.tenantId
  let held := fun event : ChangeEvent =>
    visible event && event.status == .claimed && event.claimedBy == some producer
  if outbox.rows.any held then
    pure (outbox.updateWhere held (·.acknowledge acceptanceKey txn.now) (fun _ => rfl), true)
  else
    -- The update matched no row: tell a retry from a conflict and from a lost or missing claim.
    match outbox.rows.find? visible with
    | none =>
      .error (.invalidParameter ("catalog change event " ++ toString eventId ++ " does not exist"))
    | some event =>
      if event.status = .acknowledged then
        if event.claimedBy = some producer ∧ event.acceptanceKey = some acceptanceKey then
          pure (outbox, true)
        else
          .error (.invalidParameter ("catalog change event " ++ toString eventId ++
            " is already acknowledged with a different producer or acceptance_key"))
      else if event.claimedBy ≠ some producer then
        .error (.insufficientPrivilege ("catalog change event " ++ toString eventId ++
          " is not claimed by producer " ++ String.ofList producer))
      else
        .error (.invalidParameter ("catalog change event " ++ toString eventId ++
          " is not currently claimed"))

def ChangeEvent.aged (event : ChangeEvent) (now : Instant) (retentionDays : Int) : Bool :=
  match event.status, event.acknowledgedAt with
  | .acknowledged, some acknowledgedAt => acknowledgedAt < now - days retentionDays
  | _, _ => false

/-- `prune`: a retention of 0 keeps acknowledged events. -/
def pruneEvents (now : Instant) (retentionDays : Int) (outbox : Outbox) : Outbox :=
  if 0 < retentionDays then outbox.retain fun event => !event.aged now retentionDays else outbox

/- `ON DELETE SET NULL` of the bundle reference. -/
def detachEvents (bundleId : BundleId) (outbox : Outbox) : Outbox :=
  outbox.updateWhere (·.bundleId == some bundleId) ({ · with bundleId := none }) (fun _ => rfl)

end Pgokf.Catalog
