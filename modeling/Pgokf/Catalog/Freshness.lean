import Mathlib.Data.List.Dedup
import Pgokf.Catalog.ChangeEvent
import Pgokf.Lib.Walk

/-! # Freshness rows, dependencies and invalidation (`freshness.rs`) -/

namespace Pgokf.Catalog

open Lib

inductive FreshnessState where
  | fresh
  | stale
  | reconciling
  | blocked
  | retired
  deriving DecidableEq

structure FreshnessRow where
  state : FreshnessState
  reasonCodes : List Text
  observedSourceGeneration : Option Text
  materializedSourceGeneration : Option Text
  materializedCatalogGeneration : Option Int
  staleSince : Option Instant
  lastReconciledAt : Option Instant
  producer : Option Text
  manifestHash : Option Text
  embeddingContract : Option Text
  dependencyInvalidationEpoch : Int
  claimedInvalidationEpoch : Int
  relationshipCoverageMissingSince : Option Instant
  deriving DecidableEq

abbrev FreshnessRows := BundleId → Option FreshnessRow

def reasonSourceChanged : Text := "dependency_source_changed"
def reasonScopeUnknown : Text := "change_scope_unknown"
def reasonRelationshipCoverageMissing : Text := "relationship_coverage_missing"

def updateRow (rows : FreshnessRows) (b : BundleId) (p : FreshnessRow → Bool)
    (f : FreshnessRow → FreshnessRow) : FreshnessRows :=
  Function.update rows b ((rows b).map fun row => if p row then f row else row)

def FreshnessRow.notRetired (row : FreshnessRow) : Bool := row.state != .retired

/- `array_agg(DISTINCT r)` over the union of both arrays. -/
def mergeReasons (old new : List Text) : List Text := (old ++ new).dedup

def FreshnessRow.inserted (now : Instant) (state : FreshnessState) (reasonCodes : List Text)
    (producer observedSourceGeneration : Option Text) : FreshnessRow :=
  { state
    reasonCodes
    observedSourceGeneration
    materializedSourceGeneration := none
    materializedCatalogGeneration := none
    staleSince := if state = .fresh then none else some now
    lastReconciledAt := none
    producer
    manifestHash := none
    embeddingContract := none
    dependencyInvalidationEpoch := 0
    claimedInvalidationEpoch := 0
    relationshipCoverageMissingSince := none }

/-- The update of an existing row: reasons are merged while the state persists, replaced otherwise. -/
def FreshnessRow.entered (row : FreshnessRow) (now : Instant) (state : FreshnessState)
    (reasonCodes : List Text) (producer observedSourceGeneration : Option Text) : FreshnessRow :=
  { row with
    state
    reasonCodes := if row.state = state then mergeReasons row.reasonCodes reasonCodes else reasonCodes
    staleSince :=
      if state = .stale then if row.state = .stale then row.staleSince else some now
      else row.staleSince
    producer := producer.or row.producer
    observedSourceGeneration := observedSourceGeneration.or row.observedSourceGeneration }

/-- `set_bundle_state`: a retired row is never moved by this path. -/
def setBundleState (bundles : BundleTable) (now : Instant) (rows : FreshnessRows) (b : BundleId)
    (state : FreshnessState) (reasonCodes : List Text)
    (producer observedSourceGeneration : Option Text) : FreshnessRows :=
  match bundles b with
  | none => rows
  | some _ =>
    match rows b with
    | none =>
      Function.update rows b
        (some (.inserted now state reasonCodes producer observedSourceGeneration))
    | some _ =>
      updateRow rows b (·.notRetired)
        (·.entered now state reasonCodes producer observedSourceGeneration)

/- `initialize_bundle`: `ON CONFLICT DO NOTHING`. -/
def initializeBundle (bundles : BundleTable) (now : Instant) (rows : FreshnessRows) (b : BundleId)
    (catalogGeneration : Int) (syncHash : Text) (context : ChangeContext) : FreshnessRows :=
  match bundles b, rows b with
  | some _, none =>
    Function.update rows b (some
      { state := .fresh
        reasonCodes := []
        observedSourceGeneration := context.observedSourceGeneration
        materializedSourceGeneration := context.observedSourceGeneration
        materializedCatalogGeneration := some catalogGeneration
        staleSince := none
        lastReconciledAt := some now
        producer := context.producer
        manifestHash := some syncHash
        embeddingContract := none
        dependencyInvalidationEpoch := 0
        claimedInvalidationEpoch := 0
        relationshipCoverageMissingSince := none })
  | _, _ => rows

inductive BundleTransition where
  | retire
  | unretire
  | disable
  deriving DecidableEq

def transitionBundle (bundles : BundleTable) (now : Instant) (rows : FreshnessRows) (b : BundleId) :
    BundleTransition → FreshnessRows
  | .retire => setBundleState bundles now rows b .retired ["bundle_retired"] none none
  | .unretire =>
    -- The guard on retired rows would skip this one, so the source writes it directly.
    updateRow rows b (fun _ => true) fun row =>
      { row with
        state := .stale
        reasonCodes := ["bundle_restored"]
        staleSince := some now }
  | .disable => setBundleState bundles now rows b .stale ["bundle_disabled"] none none

def markRelationshipCoverageMissing (bundles : BundleTable) (now : Instant) (rows : FreshnessRows)
    (b : BundleId) : FreshnessRows :=
  updateRow (setBundleState bundles now rows b .stale [reasonRelationshipCoverageMissing] none none) b
    (·.notRetired) fun row =>
      { row with
        relationshipCoverageMissingSince := row.relationshipCoverageMissingSince.or (some now) }

/-- `clear_relationship_coverage_missing`: leaves the state and every other reason as they are. -/
def clearRelationshipCoverageMissing (rows : FreshnessRows) (b : BundleId) : FreshnessRows :=
  updateRow rows b
    (fun row => row.reasonCodes.contains reasonRelationshipCoverageMissing ||
      row.relationshipCoverageMissingSince.isSome)
    fun row =>
      { row with
        reasonCodes := row.reasonCodes.filter (· != reasonRelationshipCoverageMissing)
        relationshipCoverageMissingSince := none }

/-! ### Registered dependencies -/

inductive SelectorKind where
  | bundle
  | concept
  | path
  | pathPrefix
  deriving DecidableEq

def SelectorKind.name : SelectorKind → String
  | .bundle => "bundle"
  | .concept => "concept"
  | .path => "path"
  | .pathPrefix => "path_prefix"

inductive ScopeKind where
  | concept
  | path
  | group
  deriving DecidableEq

def ScopeKind.name : ScopeKind → String
  | .concept => "concept"
  | .path => "path"
  | .group => "group"

/- `validate_target_scope` admits a key for the narrower kinds only, and requires one there. -/
inductive TargetScope where
  | bundle
  | scope (kind : ScopeKind) (key : Text)
  deriving DecidableEq

structure Dependency where
  id : Int
  tenantId : Text
  producer : Text
  enabled : Bool
  causationKey : Option Text
  sourceBundleId : BundleId
  selectorKind : SelectorKind
  selectorValue : Text
  lastSourceCatalogGeneration : Int
  lastEventId : Option Int
  targetBundleId : BundleId
  target : TargetScope
  deriving DecidableEq

structure ScopeRow where
  state : FreshnessState
  reasonCodes : List Text
  staleSince : Option Instant
  producer : Option Text
  deriving DecidableEq

abbrev ScopeTable := BundleId × ScopeKind × Text → Option ScopeRow

structure Freshness where
  rows : FreshnessRows
  scopes : ScopeTable
  dependencies : SerialTable Dependency Dependency.id
  /- Ghost counter: how often a dependency invalidation was raised against a bundle as a whole,
  whether or not its row took it. -/
  raised : BundleId → Nat

/- An edge of the dependency graph between bundles: enabled, and aimed at a whole bundle. -/
def Dependency.bundleEdge (dependency : Dependency) : Bool :=
  dependency.enabled && dependency.target == .bundle

def Dependency.suppressed (dependency : Dependency) (causationKey : Option Text) : Bool :=
  causationKey.isSome && dependency.causationKey == causationKey

def setScopeState (bundles : BundleTable) (now : Instant) (scopes : ScopeTable) (b : BundleId)
    (kind : ScopeKind) (key : Text) (state : FreshnessState) (reasonCodes : List Text)
    (producer : Option Text) : ScopeTable :=
  match bundles b with
  | none => scopes
  | some _ =>
    match scopes (b, kind, key) with
    | none =>
      Function.update scopes (b, kind, key) (some
        { state, reasonCodes, producer, staleSince := if state = .fresh then none else some now })
    | some row =>
      if row.state = .retired then scopes
      else Function.update scopes (b, kind, key) (some
        { state
          reasonCodes :=
            if row.state = state then mergeReasons row.reasonCodes reasonCodes else reasonCodes
          staleSince :=
            if state = .stale then if row.state = .stale then row.staleSince else some now
            else row.staleSince
          producer := producer.or row.producer })

def invalidateDependentBundle (bundles : BundleTable) (now : Instant) (f : Freshness)
    (b : BundleId) : Freshness :=
  { f with
    rows := updateRow (setBundleState bundles now f.rows b .stale [reasonSourceChanged] none none) b
      (·.notRetired) fun row =>
        { row with dependencyInvalidationEpoch := row.dependencyInvalidationEpoch + 1 }
    raised := Function.update f.raised b (f.raised b + 1) }

def transitiveInvalidationRowCap : Nat := 1024

def isBundleTarget (dependencies : List Dependency) (b : BundleId) : Bool :=
  dependencies.any fun d => d.bundleEdge && d.targetBundleId == b

/-- `escalate_blanket_invalidation`: every target of an enabled bundle-scope dependency the walk did
not visit. -/
def escalateBlanketInvalidation (now : Instant) (visited : Finset BundleId) (f : Freshness) :
    Freshness :=
  { f with
    rows := fun b => (f.rows b).map fun row =>
      if row.notRetired && decide (b ∉ visited) && isBundleTarget f.dependencies.rows b then
        { row with
          state := .stale
          reasonCodes :=
            if row.state = .stale then mergeReasons row.reasonCodes [reasonSourceChanged]
            else [reasonSourceChanged]
          staleSince := if row.state = .stale then row.staleSince else some now
          dependencyInvalidationEpoch := row.dependencyInvalidationEpoch + 1 }
      else row
    raised := fun b =>
      if b ∉ visited ∧ isBundleTarget f.dependencies.rows b then f.raised b + 1 else f.raised b }

def transitiveWalk (bundles : BundleTable) (now : Instant) (dependencies : List Dependency)
    (causationKey : Option Text) : WalkSpec BundleId Dependency Freshness where
  cap := transitiveInvalidationRowCap
  edges b := dependencies.filter fun d => d.sourceBundleId == b && d.bundleEdge
  target := (·.targetBundleId)
  follow d := !d.suppressed causationKey
  visit := invalidateDependentBundle bundles now

def propagateTransitive (bundles : BundleTable) (now : Instant) (roots : List BundleId)
    (causationKey : Option Text) (f : Freshness) : Freshness :=
  let walk := (transitiveWalk bundles now f.dependencies.rows causationKey).run roots f
  if walk.truncated then escalateBlanketInvalidation now walk.visited walk.store else walk.store

end Pgokf.Catalog
