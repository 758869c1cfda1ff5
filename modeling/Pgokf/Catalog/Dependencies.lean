import Pgokf.Catalog.Freshness

/-! # Registered dependencies and their evaluation (`freshness.rs`) -/

namespace Pgokf.Catalog

open Lib

abbrev DependencyTable := SerialTable Dependency Dependency.id

/- `validate_selector`; the kinds it admits are the constructors of `SelectorKind`. -/
def validateSelector (kind : SelectorKind) (value : Text) : Except CatalogError Unit :=
  if kind = .bundle then
    ensure value.isEmpty (.invalidParameter "selector_value must be empty for a bundle selector")
  else
    ensure (!value.isEmpty)
      (.invalidParameter ("selector_value must not be empty for a " ++ kind.name ++ " selector"))

def validateTargetScope : TargetScope → Except CatalogError Unit
  | .bundle => .ok ()
  | .scope kind key =>
    ensure (!key.isEmpty)
      (.invalidParameter ("target_scope_key must not be empty for a " ++ kind.name ++ " target"))

structure DependencyRequest where
  producer : Text
  sourceBundleId : BundleId
  selectorKind : SelectorKind
  selectorValue : Text
  targetBundleId : BundleId
  target : TargetScope
  causationKey : Option Text

def DependencyRequest.registers (request : DependencyRequest) (tenantId : Text)
    (d : Dependency) : Bool :=
  d.tenantId == tenantId && d.producer == request.producer &&
    d.sourceBundleId == request.sourceBundleId && d.selectorKind == request.selectorKind &&
    d.selectorValue == request.selectorValue && d.targetBundleId == request.targetBundleId &&
    d.target == request.target

/-- `register_dependency_impl`: the baseline is the source's generation at registration. -/
def registerDependency (txn : Txn) (bundles : BundleTable) (dependencies : DependencyTable)
    (request : DependencyRequest) : Except CatalogError (DependencyTable × Int) := do
  authorizeCurrentUser .ingest txn.session txn.requireTenant
  validateProducer request.producer
  validateSelector request.selectorKind request.selectorValue
  validateTargetScope request.target
  enforceBundleTenant txn bundles request.sourceBundleId
  enforceBundleTenant txn bundles request.targetBundleId
  let source ← registeredBundle bundles request.sourceBundleId
  -- An unregistered target violates the foreign key.
  let _ ← registeredBundle bundles request.targetBundleId
  ensure (!dependencies.rows.any (request.registers source.tenantId))
    (.duplicatePath ("an identical freshness dependency is already registered " ++
      "(same producer, source selector, and target)"))
  let row := fun id : Int =>
    { id
      tenantId := source.tenantId
      producer := request.producer
      enabled := true
      causationKey := request.causationKey
      sourceBundleId := request.sourceBundleId
      selectorKind := request.selectorKind
      selectorValue := request.selectorValue
      lastSourceCatalogGeneration := source.catalogGeneration
      lastEventId := none
      targetBundleId := request.targetBundleId
      target := request.target : Dependency }
  pure (dependencies.insert row fun _ => rfl, dependencies.next)

def confinedDependency (txn : Txn) (dependencies : DependencyTable) (id : Int) :
    Except CatalogError Dependency := do
  authorizeCurrentUser .ingest txn.session txn.requireTenant
  orRefuse (dependencies.rows.find? fun d =>
      d.id == id && tenantPredicate txn.session txn.requireTenant d.tenantId)
    (.invalidParameter ("freshness dependency " ++ toString id ++ " is not registered"))

def disableDependency (txn : Txn) (dependencies : DependencyTable) (id : Int) :
    Except CatalogError DependencyTable := do
  let _ ← confinedDependency txn dependencies id
  pure (dependencies.updateWhere (·.id == id) ({ · with enabled := false }) (fun _ => rfl))

def removeDependency (txn : Txn) (dependencies : DependencyTable) (id : Int) :
    Except CatalogError DependencyTable := do
  let _ ← confinedDependency txn dependencies id
  pure (dependencies.retain (·.id != id))

def selectorMatches (kind : SelectorKind) (value : Text) (changes : List ConceptChange) : Bool :=
  match kind with
  | .concept => changes.any (·.id == value)
  | .path => changes.any (·.path == value)
  | .pathPrefix => changes.any fun change => value.isPrefixOf change.path
  | .bundle => false

/-- `invalidate_registered_target`, with whether the invalidation landed at bundle scope. -/
def invalidateRegisteredTarget (bundles : BundleTable) (now : Instant) (f : Freshness)
    (dependency : Dependency) : Freshness × Bool :=
  match dependency.target with
  | .bundle => (invalidateDependentBundle bundles now f dependency.targetBundleId, true)
  | .scope kind key =>
    ({ f with
        scopes := setScopeState bundles now f.scopes dependency.targetBundleId kind key .stale
          [reasonSourceChanged] none }, false)

structure EvaluatedEvent where
  sourceBundleId : BundleId
  eventId : Int
  catalogGeneration : Int
  -- A lifecycle event, which carries no changes.
  isStateChange : Bool
  changes : List ConceptChange
  truncated : Bool
  causationKey : Option Text

def EvaluatedEvent.scopeUnknown (event : EvaluatedEvent) (dependency : Dependency) : Bool :=
  dependency.selectorKind != .bundle && (event.isStateChange || event.truncated)

def EvaluatedEvent.matches (event : EvaluatedEvent) (dependency : Dependency) : Bool :=
  dependency.selectorKind == .bundle ||
    selectorMatches dependency.selectorKind dependency.selectorValue event.changes

def EvaluatedEvent.selects (event : EvaluatedEvent) (dependency : Dependency) : Bool :=
  dependency.sourceBundleId == event.sourceBundleId && dependency.enabled &&
    decide (dependency.lastSourceCatalogGeneration < event.catalogGeneration)

def advanceWatermark (event : EvaluatedEvent) (id : Int) (dependencies : DependencyTable) :
    DependencyTable :=
  dependencies.updateWhere (·.id == id)
    ({ · with
      lastSourceCatalogGeneration := event.catalogGeneration
      lastEventId := some event.eventId })
    (fun _ => rfl)

/-- One turn of the evaluation loop; the list collects the roots of the transitive walk. -/
def evaluateDependency (bundles : BundleTable) (now : Instant) (event : EvaluatedEvent)
    (acc : Freshness × List BundleId) (dependency : Dependency) : Freshness × List BundleId :=
  let f : Freshness :=
    { acc.1 with dependencies := advanceWatermark event dependency.id acc.1.dependencies }
  let invalidate := fun f : Freshness =>
    let (f, atBundle) := invalidateRegisteredTarget bundles now f dependency
    (f, if atBundle then acc.2 ++ [dependency.targetBundleId] else acc.2)
  if dependency.suppressed event.causationKey then (f, acc.2)
  else if event.scopeUnknown dependency then
    -- The source itself turns stale, and the registration proves its dependent.
    invalidate
      { f with
        rows := setBundleState bundles now f.rows event.sourceBundleId .stale [reasonScopeUnknown]
          none none }
  else if event.matches dependency then invalidate f
  else (f, acc.2)

def evaluateDependencies (bundles : BundleTable) (now : Instant) (event : EvaluatedEvent)
    (f : Freshness) : Freshness :=
  let evaluated :=
    (f.dependencies.rows.filter event.selects).foldl (evaluateDependency bundles now event) (f, [])
  propagateTransitive bundles now evaluated.2 event.causationKey evaluated.1

def departingDependents (dependencies : List Dependency) (sourceBundleId : BundleId) :
    List Dependency :=
  dependencies.filter fun d => d.sourceBundleId == sourceBundleId && d.enabled

def invalidateDepartingDependents (bundles : BundleTable) (now : Instant)
    (dependents : List Dependency) (f : Freshness) : Freshness :=
  let invalidated := dependents.foldl (fun f d => (invalidateRegisteredTarget bundles now f d).1) f
  let roots := (dependents.filter (·.target == .bundle)).map (·.targetBundleId)
  propagateTransitive bundles now roots none invalidated

/- The cascades of a deleted bundle row. -/
def Freshness.dropBundle (f : Freshness) (b : BundleId) : Freshness :=
  { f with
    rows := Function.update f.rows b none
    scopes := fun key => if key.1 = b then none else f.scopes key
    dependencies := f.dependencies.retain fun d => d.sourceBundleId != b && d.targetBundleId != b }

end Pgokf.Catalog
