import Mathlib.Logic.Function.Basic
import Pgokf.Security

/-! # Registered bundles (`pgokf.bundles`) and the context of a transaction -/

namespace Pgokf.Catalog

open Lib

abbrev BundleId := Int

/- Instants are `timestamptz` values: microseconds. -/
abbrev Instant := Int

def secs (n : Int) : Int := n * 1000000
def days (n : Int) : Int := n * 86400000000

structure BundleRow where
  tenantId : Text
  enabled : Bool
  retiredAt : Option Instant
  catalogGeneration : Int
  deriving DecidableEq

abbrev BundleTable := BundleId → Option BundleRow

/- The table with its identity column: no id is handed out twice. -/
structure BundleRegistry where
  rows : BundleTable
  next : BundleId
  allocated : ∀ b, (rows b).isSome → b < next

namespace BundleRegistry

def modify (registry : BundleRegistry) (b : BundleId) (f : BundleRow → BundleRow) : BundleRegistry where
  rows := Function.update registry.rows b ((registry.rows b).map f)
  next := registry.next
  allocated := by
    intro a ha
    by_cases h : a = b
    · subst h
      exact registry.allocated a (by simpa using ha)
    · exact registry.allocated a (by simpa [h] using ha)

def add (registry : BundleRegistry) (row : BundleRow) : BundleRegistry where
  rows := Function.update registry.rows registry.next (some row)
  next := registry.next + 1
  allocated := by
    intro a ha
    by_cases h : a = registry.next
    · exact h ▸ Int.lt_succ _
    · exact Int.lt_trans (registry.allocated a (by simpa [h] using ha)) (Int.lt_succ _)

def drop (registry : BundleRegistry) (b : BundleId) : BundleRegistry where
  rows := Function.update registry.rows b none
  next := registry.next
  allocated := by
    intro a ha
    by_cases h : a = b
    · simp [h] at ha
    · exact registry.allocated a (by simpa [h] using ha)

end BundleRegistry

/- What a transaction reads besides the tables: its caller, its `now()`, and the values of
`pgokf_private.config`. -/
structure Txn where
  session : Session
  now : Instant
  requireTenant : Bool
  changeEventRetentionDays : Int

def enforceBundleTenant (txn : Txn) (bundles : BundleTable) (bundleId : BundleId) :
    Except CatalogError Unit :=
  Pgokf.enforceBundleTenant txn.session txn.requireTenant bundleId
    ((bundles bundleId).map (·.tenantId))

/- The row, or the shared error for an unregistered id. -/
def registeredBundle (bundles : BundleTable) (bundleId : BundleId) : Except CatalogError BundleRow :=
  orRefuse (bundles bundleId) (unknownBundleError bundleId)

def validateProducer (producer : Text) : Except CatalogError Unit :=
  ensure (!isBlank producer) (.invalidParameter "producer must not be empty")

def validateLease (leaseSeconds : Int) : Except CatalogError Unit :=
  ensure (1 ≤ leaseSeconds && leaseSeconds ≤ 86400)
    (.invalidParameter ("lease_seconds must be between 1 and 86400, got " ++ toString leaseSeconds))

end Pgokf.Catalog
