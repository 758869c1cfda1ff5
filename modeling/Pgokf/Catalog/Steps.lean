import Pgokf.Catalog.Machine

/-! # What a call of the catalog does -/

namespace Pgokf.Catalog

open Lib

inductive Does (c : State) (txn : Txn) : Op → State → Reply → Prop where
  | registerBundle {input c' activation} : registerBundle txn c input = .ok (c', activation) →
      Does c txn (.registerBundle input) c'
        (.synced c.bundles.next activation.hadCoverage activation.activated)
  | syncBundle {b input c' activation} : syncBundle txn c b input = .ok (c', activation) →
      Does c txn (.syncBundle b input) c' (.synced b activation.hadCoverage activation.activated)
  | unregisterBundle {b c'} : unregisterBundle txn c b = .ok c' →
      Does c txn (.unregisterBundle b) c' .done
  | setBundleEnabled {b enabled c'} : setBundleEnabled txn c b enabled = .ok c' →
      Does c txn (.setBundleEnabled b enabled) c' .done
  | retireBundle {b c'} : retireBundle txn c b = .ok c' → Does c txn (.retireBundle b) c' .done
  | unretireBundle {b c'} : unretireBundle txn c b = .ok c' → Does c txn (.unretireBundle b) c' .done
  | markStale {b reasons producer observed rows} :
      markStale txn c.bundles.rows c.freshness.rows b reasons producer observed = .ok rows →
      Does c txn (.markStale b reasons producer observed)
        { c with freshness := { c.freshness with rows } } .done
  | markBlocked {b reasons producer rows} :
      markBlocked txn c.bundles.rows c.freshness.rows b reasons producer = .ok rows →
      Does c txn (.markBlocked b reasons producer)
        { c with freshness := { c.freshness with rows } } .done
  | markReconciling {b producer rows token} :
      markReconciling txn c.bundles.rows c.freshness.rows b producer = .ok (rows, token) →
      Does c txn (.markReconciling b producer)
        { c with freshness := { c.freshness with rows } } (.token token)
  | markFresh {b evidence rows success} :
      markFresh txn c.bundles.rows c.freshness.rows b evidence = .ok (rows, success) →
      Does c txn (.markFresh b evidence)
        { c with freshness := { c.freshness with rows } } (.completed success)
  | markScopeStale {b kind key reasons producer scopes} :
      markScopeStale txn c.bundles.rows c.freshness.scopes b kind key reasons producer = .ok scopes →
      Does c txn (.markScopeStale b kind key reasons producer)
        { c with freshness := { c.freshness with scopes } } .done
  | repairBundleFreshness {b state reasons rows} :
      repairBundleFreshness txn c.bundles.rows c.freshness.rows b state reasons = .ok rows →
      Does c txn (.repairBundleFreshness b state reasons)
        { c with freshness := { c.freshness with rows } } .done
  | registerDependency {request dependencies id} :
      registerDependency txn c.bundles.rows c.freshness.dependencies request =
        .ok (dependencies, id) →
      Does c txn (.registerDependency request)
        { c with freshness := { c.freshness with dependencies } } (.dependency id)
  | disableDependency {id dependencies} :
      disableDependency txn c.freshness.dependencies id = .ok dependencies →
      Does c txn (.disableDependency id)
        { c with freshness := { c.freshness with dependencies } } .done
  | removeDependency {id dependencies} :
      removeDependency txn c.freshness.dependencies id = .ok dependencies →
      Does c txn (.removeDependency id)
        { c with freshness := { c.freshness with dependencies } } .done
  | issueFence {b producer target expected manifest lease fences fence} :
      issueFence txn c.bundles.rows c.fences b producer target expected manifest lease =
        .ok (fences, fence) →
      Does c txn (.issueFence b producer target expected manifest lease) { c with fences }
        (.fence fence)
  | releaseFence {b producer token fences} :
      releaseFence txn c.bundles.rows c.fences b producer token = .ok fences →
      Does c txn (.releaseFence b producer token) { c with fences } .done
  | replaceRelationships {write published} :
      replaceRelationships txn c.bundles.rows c.fences c.publications c.freshness.rows write =
        .ok published →
      Does c txn (.replaceRelationships write)
        { c with
          publications := published.publications
          freshness := { c.freshness with rows := published.rows } }
        (.published published.publication published.activated)
  | claimEvents {producer limit lease locked outbox events} :
      claimEvents txn c.outbox producer limit lease locked = .ok (outbox, events) →
      Does c txn (.claimEvents producer limit lease locked) { c with outbox } (.claimed events)
  | ackEvent {eventId producer key outbox success} :
      ackEvent txn c.outbox eventId producer key = .ok (outbox, success) →
      Does c txn (.ackEvent eventId producer key) { c with outbox } (.acknowledged success)

variable {reply : Reply}

theorem exec_does {c c' : State} {request : Request} (h : exec c request = .ok (c', reply)) :
    Does c request.txn request.op c' reply := by
  obtain ⟨txn, committedAt, op⟩ := request
  cases op <;> simp only [exec, bind_eq_ok, pure_eq_ok, Prod.mk.injEq, Prod.exists] at h
  case unregisterBundle | setBundleEnabled | retireBundle | unretireBundle =>
    obtain ⟨c'', h, rfl, rfl⟩ := h
    constructor
    exact h
  case registerBundle | syncBundle =>
    obtain ⟨c'', activation, h, rfl, rfl⟩ := h
    constructor
    exact h
  case markReconciling | markFresh | registerDependency | issueFence | claimEvents | ackEvent =>
    obtain ⟨table, answer, h, rfl, rfl⟩ := h
    constructor
    exact h
  all_goals
    obtain ⟨table, h, rfl, rfl⟩ := h
    constructor
    exact h

/-- A step of the catalog commits what its call does, or changes nothing. -/
theorem step_does {c c' : State} {e : Entry Request CatalogError Reply} (h : Step exec c e c') :
    (∃ reply, e.result = .ok reply ∧ Does c e.call.txn e.call.op c' reply) ∨
      (∃ error, e.result = .error error) ∧ c' = c := by
  cases h with
  | commit h => exact .inl ⟨_, rfl, exec_does h⟩
  | refuse h => exact .inr ⟨⟨_, rfl⟩, rfl⟩

variable {c c' : State} {txn : Txn} {b : BundleId}

def syncEvent (b : BundleId) (eventId generation : Int) (input : SyncInput) : EvaluatedEvent :=
  { sourceBundleId := b
    eventId
    catalogGeneration := generation
    isStateChange := false
    changes := input.changes
    truncated := isTruncated input.changes
    causationKey := input.context.causationKey }

def stateChangeEvent (b : BundleId) (eventId generation : Int) : EvaluatedEvent :=
  { sourceBundleId := b
    eventId
    catalogGeneration := generation
    isStateChange := true
    changes := []
    truncated := false
    causationKey := none }

variable {input : SyncInput} {activation : Activation}

theorem syncTail_ok (h : syncTail txn c b input = .ok (c', activation)) :
    ∃ bundle recorded, c.bundles.rows b = some bundle ∧
      (let generation := bundle.catalogGeneration + 1
       let bundles := c.bundles.modify b ({ · with catalogGeneration := generation })
       recordEvent bundles.rows c.outbox b input.context.operationForSync generation input.changes
          input.context (some input.syncHash) = .ok recorded ∧
        activation = activateStaged txn.now b generation c.publications ∧
        c'.bundles = bundles ∧ c'.fences = c.fences ∧
        c'.publications = activation.publications ∧
        c'.outbox = pruneEvents txn.now txn.changeEventRetentionDays recorded.1 ∧
        c'.freshness = evaluateDependencies bundles.rows txn.now
          (syncEvent b recorded.2 generation input)
          { c.freshness with
            rows := syncedRows txn bundles.rows c.freshness.rows b generation input activation }) := by
  simp only [syncTail, bind_eq_ok, orRefuse_eq_ok, pure_eq_ok, Prod.mk.injEq] at h
  obtain ⟨bundle, hbundle, recorded, hrecorded, rfl, rfl⟩ := h
  exact ⟨bundle, recorded, hbundle, hrecorded, rfl, rfl, rfl, rfl, rfl, rfl⟩

variable {change : BundleRow → BundleRow} {transition : Option BundleTransition}
  {operation : ChangeOperation}

theorem changeBundle_ok (h : changeBundle txn c b change transition operation = .ok c') :
    ∃ bundle recorded, c.bundles.rows b = some bundle ∧
      (let generation := bundle.catalogGeneration + 1
       let bundles := c.bundles.modify b fun row => { change row with catalogGeneration := generation }
       recordEvent bundles.rows c.outbox b operation generation [] .default none = .ok recorded ∧
        c'.bundles = bundles ∧ c'.fences = c.fences ∧ c'.publications = c.publications ∧
        c'.outbox = recorded.1 ∧
        c'.freshness = evaluateDependencies bundles.rows txn.now
          (stateChangeEvent b recorded.2 generation)
          { c.freshness with
            rows := transitionedRows bundles.rows txn.now c.freshness.rows b transition }) := by
  simp only [changeBundle, emitStateChangeEvent, bind_eq_ok, pure_eq_ok] at h
  obtain ⟨bundle, hconfined, recorded, hrecorded, rfl⟩ := h
  exact ⟨bundle, recorded, confinedBundle_row hconfined, hrecorded, rfl, rfl, rfl, rfl, rfl⟩

theorem unregisterBundle_ok (h : unregisterBundle txn c b = .ok c') :
    ∃ bundle recorded, c.bundles.rows b = some bundle ∧
      recordEvent c.bundles.rows c.outbox b .unregisterBundle bundle.catalogGeneration [] .default
        none = .ok recorded ∧
      c' =
        { bundles := c.bundles.drop b
          freshness := invalidateDepartingDependents (c.bundles.drop b).rows txn.now
            (departingDependents c.freshness.dependencies.rows b) (c.freshness.dropBundle b)
          fences := fun key => if key.bundleId = b then none else c.fences key
          publications := pruneAgedDetachedSuperseded txn.now (detachPublications b c.publications)
          outbox := detachEvents b recorded.1 } := by
  simp only [unregisterBundle, bind_eq_ok, pure_eq_ok] at h
  obtain ⟨bundle, hconfined, recorded, hrecorded, rfl⟩ := h
  exact ⟨bundle, recorded, confinedBundle_row hconfined, hrecorded, rfl⟩

theorem registerBundle_ok (h : registerBundle txn c input = .ok (c', activation)) :
    ∃ row : BundleRow, row.catalogGeneration = 0 ∧
      syncTail txn { c with bundles := c.bundles.add row } c.bundles.next input =
        .ok (c', activation) := by
  simp only [registerBundle, bind_eq_ok] at h
  obtain ⟨-, -, h⟩ := h
  exact ⟨_, rfl, h⟩

theorem syncBundle_ok (h : syncBundle txn c b input = .ok (c', activation)) :
    syncTail txn c b input = .ok (c', activation) := by
  simp only [syncBundle, bind_eq_ok] at h
  obtain ⟨-, -, h⟩ := h
  exact h

theorem modify_rows (registry : BundleRegistry) (a b : BundleId) (f : BundleRow → BundleRow) :
    (registry.modify a f).rows b = if b = a then (registry.rows b).map f else registry.rows b := by
  by_cases h : b = a
  · subst h
    simp [BundleRegistry.modify]
  · simp [BundleRegistry.modify, h]

def KeepsTenant (b : BundleId) (registry registry' : BundleRegistry) : Prop :=
  registry.next ≤ registry'.next ∧
    ∀ row, registry.rows b = some row → ∃ row', registry'.rows b = some row' ∧
      row'.tenantId = row.tenantId

theorem KeepsTenant.refl (b : BundleId) (registry : BundleRegistry) : KeepsTenant b registry registry :=
  ⟨Int.le_refl _, fun row h => ⟨row, h, rfl⟩⟩

theorem KeepsTenant.trans {registry₁ registry₂ registry₃ : BundleRegistry}
    (h₁ : KeepsTenant b registry₁ registry₂) (h₂ : KeepsTenant b registry₂ registry₃) :
    KeepsTenant b registry₁ registry₃ := by
  refine ⟨Int.le_trans h₁.1 h₂.1, fun row h => ?_⟩
  obtain ⟨row', h', ht'⟩ := h₁.2 row h
  obtain ⟨row'', h'', ht''⟩ := h₂.2 row' h'
  exact ⟨row'', h'', ht''.trans ht'⟩

theorem modify_keepsTenant (registry : BundleRegistry) (a b : BundleId) (f : BundleRow → BundleRow)
    (hf : ∀ row, (f row).tenantId = row.tenantId) : KeepsTenant b registry (registry.modify a f) := by
  refine ⟨Int.le_refl _, fun row h => ?_⟩
  by_cases hb : b = a
  · subst hb
    exact ⟨f row, by simp [modify_rows, h], hf row⟩
  · exact ⟨row, by simp [modify_rows, hb, h], rfl⟩

theorem add_keepsTenant (registry : BundleRegistry) (row : BundleRow) (b : BundleId) :
    KeepsTenant b registry (registry.add row) := by
  refine ⟨Int.le_of_lt (Int.lt_succ _), fun row' h => ⟨row', ?_, rfl⟩⟩
  have hlt := registry.allocated b (by simp [h])
  have hne : b ≠ registry.next := Int.ne_of_lt hlt
  simp [BundleRegistry.add, hne, h]

variable {a : BundleId}

theorem syncTail_keepsTenant (h : syncTail txn c a input = .ok (c', activation)) :
    KeepsTenant b c.bundles c'.bundles := by
  obtain ⟨bundle, recorded, -, -, -, hbundles, -⟩ := syncTail_ok h
  rw [hbundles]
  exact modify_keepsTenant _ _ _ _ fun _ => rfl

theorem changeBundle_keepsTenant (h : changeBundle txn c a change transition operation = .ok c')
    (hchange : ∀ row, (change row).tenantId = row.tenantId) :
    KeepsTenant b c.bundles c'.bundles := by
  obtain ⟨bundle, recorded, -, -, hbundles, -⟩ := changeBundle_ok h
  rw [hbundles]
  exact modify_keepsTenant _ _ _ _ hchange

variable {op : Op}

/-- Only its unregistration takes a bundle out of the catalog. -/
theorem Does.keepsTenant (h : Does c txn op c' reply) (hop : op ≠ .unregisterBundle b) :
    KeepsTenant b c.bundles c'.bundles := by
  cases h with
  | registerBundle h =>
    obtain ⟨row, -, h⟩ := registerBundle_ok h
    exact (add_keepsTenant c.bundles row b).trans (syncTail_keepsTenant h)
  | syncBundle h => exact syncTail_keepsTenant (syncBundle_ok h)
  | setBundleEnabled h | retireBundle h | unretireBundle h =>
    exact changeBundle_keepsTenant h fun _ => rfl
  | unregisterBundle h =>
    rename_i a
    obtain ⟨bundle, recorded, -, -, rfl⟩ := unregisterBundle_ok h
    have hne : b ≠ a := fun h => hop (h ▸ rfl)
    exact ⟨Int.le_refl _, fun row hrow => ⟨row, by simp [BundleRegistry.drop, hne, hrow], rfl⟩⟩
  | _ => exact KeepsTenant.refl _ _

/-- The id of a bundle that has left the catalog is never used again. -/
theorem Does.stays_gone (h : Does c txn op c' reply) (hgone : c.bundles.rows b = none)
    (hb : b < c.bundles.next) :
    c'.bundles.rows b = none ∧ b < c'.bundles.next := by
  have hsync : ∀ {c : State} {a input activation}, c.bundles.rows b = none → b < c.bundles.next →
      syncTail txn c a input = .ok (c', activation) →
      c'.bundles.rows b = none ∧ b < c'.bundles.next := by
    intro c a input activation hgone hb h
    obtain ⟨bundle, recorded, -, -, -, hbundles, -⟩ := syncTail_ok h
    rw [hbundles]
    exact ⟨by simp [modify_rows, hgone], hb⟩
  have hchange : ∀ {a change transition operation},
      changeBundle txn c a change transition operation = .ok c' →
      c'.bundles.rows b = none ∧ b < c'.bundles.next := by
    intro a change transition operation h
    obtain ⟨bundle, recorded, -, -, hbundles, -⟩ := changeBundle_ok h
    rw [hbundles]
    exact ⟨by simp [modify_rows, hgone], hb⟩
  cases h with
  | registerBundle h =>
    obtain ⟨row, -, h⟩ := registerBundle_ok h
    have hne : b ≠ c.bundles.next := Int.ne_of_lt hb
    exact hsync (by simp [BundleRegistry.add, hne, hgone]) (Int.lt_trans hb (Int.lt_succ _)) h
  | syncBundle h => exact hsync hgone hb (syncBundle_ok h)
  | setBundleEnabled h | retireBundle h | unretireBundle h => exact hchange h
  | unregisterBundle h =>
    obtain ⟨bundle, recorded, -, -, rfl⟩ := unregisterBundle_ok h
    refine ⟨?_, hb⟩
    simp only [BundleRegistry.drop, Function.update_apply]
    split
    · rfl
    · exact hgone
  | _ => exact ⟨hgone, hb⟩

def Op.writesFences : Op → Bool
  | .issueFence .. | .releaseFence .. | .unregisterBundle _ => true
  | _ => false

theorem Does.fences_eq (h : Does c txn op c' reply) (hop : op.writesFences = false) :
    c'.fences = c.fences := by
  cases h with
  | registerBundle h =>
    obtain ⟨row, -, h⟩ := registerBundle_ok h
    obtain ⟨_, _, -, -, -, -, hfences, -⟩ := syncTail_ok h
    exact hfences
  | syncBundle h =>
    obtain ⟨_, _, -, -, -, -, hfences, -⟩ := syncTail_ok (syncBundle_ok h)
    exact hfences
  | setBundleEnabled h | retireBundle h | unretireBundle h =>
    obtain ⟨_, _, -, -, -, hfences, -⟩ := changeBundle_ok h
    exact hfences
  | unregisterBundle | issueFence | releaseFence => simp [Op.writesFences] at hop
  | _ => rfl

end Pgokf.Catalog
