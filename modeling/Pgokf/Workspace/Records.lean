import Pgokf.Catalog.Traversal
import Pgokf.Lib.OrderedMap
import Pgokf.Sync.Classify

/-! # What a workspace build selects (`pgokf-workspace`, `selection.rs`)

The selection, and the records that a build takes from the catalog. The narrowing selectors are left
out: they decide which records a build starts from, and the results here are about any. -/

namespace Pgokf.Workspace

open Lib Catalog Sync

abbrev ConceptRef := ConceptKey

inductive StalePolicy where
  | warn
  | exclude
  deriving DecidableEq

def defaultHops : Nat := 2
def maxHops : Nat := 8
def maxConcepts : Nat := 500

structure Selection where
  verifiedOnly : Bool
  picks : List ConceptRef
  stalePolicy : StalePolicy
  seeds : List ConceptRef
  relationTypes : List Text
  direction : TraversalDirection
  hops : Option Nat
  requireClosure : Bool

def Selection.effectiveHops (selection : Selection) : Nat :=
  max 1 (min (selection.hops.getD defaultHops) maxHops)

/-! ### Records -/

structure Freshness where
  state : Text
  reasons : List Text
  scope : Text
  staleSince : Option Text
  observedRevision : Option Text
  indexedRevision : Option Text
  publishedRevision : Option Text
  catalogGeneration : Option Int
  lastReconciledAt : Option Text
  deriving DecidableEq

def Freshness.unknown : Freshness where
  state := "unknown"
  reasons := []
  scope := []
  staleSince := none
  observedRevision := none
  indexedRevision := none
  publishedRevision := none
  catalogGeneration := none
  lastReconciledAt := none

/-- An unknown state is not a stale one. -/
def Freshness.isStale (freshness : Freshness) : Bool :=
  freshness.state != "fresh" && freshness.state != "unknown"

structure Origin where
  pick : Bool
  seed : Bool
  closure : Bool
  deriving DecidableEq

def Origin.role (origin : Origin) (requireClosure : Bool) : String :=
  if origin.pick then "pick"
  else if origin.seed then "seed"
  else if origin.closure && requireClosure then "required-closure"
  else if origin.closure then "closure"
  else "selected"

def Origin.required (origin : Origin) (requireClosure : Bool) : Bool :=
  origin.pick || origin.seed || (origin.closure && requireClosure)

structure ResourceFile where
  conceptId : Text
  isScript : Bool
  path : Text
  fileHash : Text
  bytes : Bytes
  deriving DecidableEq

structure PackageRecord where
  name : Text
  root : Text
  hash : Text
  resources : List ResourceFile
  -- By the concept id of the member.
  memberFreshness : OrderedMap Text Freshness
  deriving DecidableEq

structure ResourceRecord where
  isScript : Bool
  packageConceptId : Text
  deriving DecidableEq

structure ConceptRecord where
  bundleId : BundleId
  bundleName : Text
  conceptId : Text
  path : Text
  title : Option Text
  fileHash : Text
  trustTier : Text
  exact : Bool
  bytes : Bytes
  package : Option PackageRecord
  resource : Option ResourceRecord
  freshness : Freshness
  origin : Origin
  deriving DecidableEq

def ConceptRecord.key (record : ConceptRecord) : ConceptRef := (record.bundleId, record.conceptId)

/- The row that the resolution statement joins for a concept. -/
structure ConceptRow where
  bundleName : Text
  path : Text
  title : Option Text
  fileHash : Text
  trustTier : Text
  package : Option PackageRecord
  resource : Option ResourceRecord

/-- The snapshot a build reads, with the settings of the database that its statements depend on. -/
structure Client (F : Type) where
  store : CatalogStore F
  txn : Txn
  collate : Text → Text → Bool
  maxGraphHops : Int
  rows : ConceptRef → ConceptRow
  -- The concepts of a package's bundle whose script or reference row names the package.
  members : ConceptRef → List Text
  -- `to_char` of a time in UTC.
  toChar : Instant → Text

def recordFromRow (v : ConceptRef) (row : ConceptRow) (picked : Bool) : ConceptRecord where
  bundleId := v.1
  bundleName := row.bundleName
  conceptId := v.2
  path := row.path
  title := row.title
  fileHash := row.fileHash
  trustTier := row.trustTier
  exact := false
  bytes := []
  package := row.package
  resource := row.resource
  freshness := .unknown
  origin := ⟨picked, false, false⟩

structure StaleConcept where
  concept : ConceptRef
  role : String
  state : Text
  reasons : List Text
  deriving DecidableEq

structure UnresolvedEdge where
  source : ConceptRef
  relationType : Text
  direction : Catalog.Direction
  targetBundleId : Option BundleId
  targetConceptId : Option Text
  externalTarget : Option Text
  deriving DecidableEq

inductive BuildError where
  | staleRequired (concepts : List StaleConcept)
  | noFreshConcepts (concepts : List StaleConcept)
  | unresolvedRequired (edges : List UnresolvedEdge)
  | seedNotFound (seeds : List ConceptRef)
  | closureNodesMissing (nodes : List ConceptRef)
  | closureExceedsLimit (limit : Nat)
  | catalog (error : CatalogError)
  | invalid (message : String)

end Pgokf.Workspace
