import Pgokf.Catalog.Bundles

/-! # Publication fences (`freshness.rs`, `relationships.rs`) -/

namespace Pgokf.Catalog

open Lib

structure FenceKey where
  tenantId : Text
  producer : Text
  bundleId : BundleId
  deriving DecidableEq

/- The column check also admits `superseded` and `expired`, which no function writes. -/
inductive FenceState where
  | issued
  | released
  deriving DecidableEq

structure Fence where
  targetGeneration : Int
  fencingToken : Int
  expectedCatalogGeneration : Int
  manifestHash : Option Text
  state : FenceState
  issuedAt : Instant
  expiresAt : Instant
  deriving DecidableEq

abbrev FenceTable := FenceKey → Option Fence

def Fence.live (fence : Fence) (now : Instant) : Bool := now < fence.expiresAt

/-- `upsert_fence`: the first issuance of a slot has token 1, every later one the next token. -/
def upsertFence (fences : FenceTable) (now : Instant) (key : FenceKey) (targetGeneration : Int)
    (expectedCatalogGeneration : Int) (manifestHash : Option Text) (leaseSeconds : Int) :
    FenceTable × Fence :=
  let fence : Fence :=
    { targetGeneration
      fencingToken := match fences key with
        | none => 1
        | some slot => slot.fencingToken + 1
      expectedCatalogGeneration
      manifestHash
      state := .issued
      issuedAt := now
      expiresAt := now + secs leaseSeconds }
  (Function.update fences key (some fence), fence)

def advancesTarget (slot : Option Fence) (targetGeneration : Int) : Except CatalogError Unit :=
  match slot with
  | none => .ok ()
  | some slot =>
    ensure (slot.targetGeneration < targetGeneration)
      (.invalidParameter ("target_generation " ++ toString targetGeneration ++
        " does not advance past the fence's current target " ++ toString slot.targetGeneration ++
        "; only the newest producer attempt may hold the fence"))

variable {target : Int}

theorem advancesTarget_eq_ok {slot : Option Fence} {u : Unit} :
    advancesTarget slot target = .ok u ↔ ∀ fence, slot = some fence →
      fence.targetGeneration < target := by
  cases slot <;> simp [advancesTarget]

def issueFence (txn : Txn) (bundles : BundleTable) (fences : FenceTable) (bundleId : BundleId)
    (producer : Text) (targetGeneration expectedCatalogGeneration : Int)
    (manifestHash : Option Text) (leaseSeconds : Int) :
    Except CatalogError (FenceTable × Fence) := do
  authorizeCurrentUser .ingest txn.session txn.requireTenant
  validateProducer producer
  ensure (0 < targetGeneration)
    (.invalidParameter ("target_generation must be greater than 0, got " ++ toString targetGeneration))
  validateLease leaseSeconds
  enforceBundleTenant txn bundles bundleId
  let bundle ← registeredBundle bundles bundleId
  ensure (bundle.catalogGeneration == expectedCatalogGeneration)
    (.invalidParameter ("expected_catalog_generation " ++ toString expectedCatalogGeneration ++
      " does not match the bundle's current catalog generation " ++
      toString bundle.catalogGeneration ++ "; re-read the catalog and re-issue"))
  let key : FenceKey := { tenantId := bundle.tenantId, producer, bundleId }
  advancesTarget (fences key) targetGeneration
  pure (upsertFence fences txn.now key targetGeneration expectedCatalogGeneration manifestHash
    leaseSeconds)

/-- `release_fence_impl`: one conditional update, refused when it changes no row. -/
def releaseFence (txn : Txn) (bundles : BundleTable) (fences : FenceTable) (bundleId : BundleId)
    (producer : Text) (fencingToken : Int) : Except CatalogError FenceTable := do
  authorizeCurrentUser .ingest txn.session txn.requireTenant
  validateProducer producer
  enforceBundleTenant txn bundles bundleId
  let bundle ← registeredBundle bundles bundleId
  let key : FenceKey := { tenantId := bundle.tenantId, producer, bundleId }
  let missing : CatalogError :=
    .invalidParameter ("no live publication fence for producer " ++ String.ofList producer ++
      " on bundle " ++ toString bundleId ++ " with fencing_token " ++ toString fencingToken ++
      " (the token is superseded, expired, or never issued)")
  let slot ← orRefuse (fences key) missing
  ensure (slot.fencingToken == fencingToken && slot.state == .issued && slot.live txn.now) missing
  pure (Function.update fences key (some { slot with state := .released }))

/-- `checked_fence`: the compare-and-set of a relationship write against the live slot. -/
def checkedFence (now : Instant) (fences : FenceTable) (key : FenceKey)
    (publicationGeneration fencingToken : Int) : Except CatalogError Fence := do
  let fence ← orRefuse (fences key)
    (.invalidParameter ("no publication fence for producer " ++ String.ofList key.producer ++
      " on bundle " ++ toString key.bundleId ++
      "; issue one with pgokf.issue_publication_fence first"))
  ensure (fence.state == .issued && fence.live now && fence.fencingToken == fencingToken)
    (.invalidParameter ("no live publication fence for producer " ++ String.ofList key.producer ++
      " on bundle " ++ toString key.bundleId ++ " with fencing_token " ++ toString fencingToken ++
      " (the token is superseded, expired, or never issued)"))
  ensure (fence.targetGeneration == publicationGeneration)
    (.invalidParameter ("publication_generation " ++ toString publicationGeneration ++
      " does not match the live fence's target generation " ++ toString fence.targetGeneration ++
      "; re-issue the fence for this publication"))
  pure fence

variable {txn : Txn} {bundles : BundleTable} {fences fences' : FenceTable} {b : BundleId}
  {producer : Text}

variable {fence : Fence}

theorem issueFence_ok {expected lease : Int} {manifest : Option Text}
    (h : issueFence txn bundles fences b producer target expected manifest lease =
      .ok (fences', fence)) :
    ∃ bundle, bundles b = some bundle ∧
      fences' = Function.update fences ⟨bundle.tenantId, producer, b⟩ (some fence) ∧
      fence.state = .issued ∧
      ∀ slot, fences ⟨bundle.tenantId, producer, b⟩ = some slot →
        slot.fencingToken < fence.fencingToken ∧ slot.targetGeneration < fence.targetGeneration := by
  simp only [issueFence, registeredBundle, bind_eq_ok, orRefuse_eq_ok, pure_eq_ok,
    advancesTarget_eq_ok, upsertFence, Prod.mk.injEq] at h
  obtain ⟨-, -, -, -, -, -, -, -, -, -, bundle, hbundle, -, -, -, hadvance, rfl, rfl⟩ := h
  refine ⟨bundle, hbundle, rfl, rfl, ?_⟩
  intro slot hslot
  simp only [hslot]
  exact ⟨Int.lt_succ _, hadvance slot hslot⟩

variable {token : Int}

theorem releaseFence_ok (h : releaseFence txn bundles fences b producer token = .ok fences') :
    ∃ bundle slot, bundles b = some bundle ∧ fences ⟨bundle.tenantId, producer, b⟩ = some slot ∧
      slot.fencingToken = token ∧ slot.state = .issued ∧ txn.now < slot.expiresAt ∧
      fences' = Function.update fences ⟨bundle.tenantId, producer, b⟩
        (some { slot with state := .released }) := by
  simp only [releaseFence, registeredBundle, bind_eq_ok, orRefuse_eq_ok, pure_eq_ok, ensure_eq_ok,
    Bool.and_eq_true, beq_iff_eq, Fence.live, decide_eq_true_eq] at h
  obtain ⟨-, -, -, -, -, -, bundle, hbundle, slot, hslot, -, ⟨⟨htoken, hstate⟩, hlive⟩, rfl⟩ := h
  exact ⟨bundle, slot, hbundle, hslot, htoken, hstate, hlive, rfl⟩

theorem checkedFence_ok {now : Instant} {key : FenceKey} {generation : Int}
    (h : checkedFence now fences key generation token = .ok fence) :
    fences key = some fence ∧ fence.state = .issued ∧ now < fence.expiresAt ∧
      fence.fencingToken = token ∧ fence.targetGeneration = generation := by
  simp only [checkedFence, bind_eq_ok, orRefuse_eq_ok, pure_eq_ok, ensure_eq_ok, Bool.and_eq_true,
    beq_iff_eq, Fence.live, decide_eq_true_eq] at h
  obtain ⟨slot, hslot, -, ⟨⟨hstate, hlive⟩, htoken⟩, -, htarget, rfl⟩ := h
  exact ⟨hslot, hstate, hlive, htoken, htarget⟩

end Pgokf.Catalog
