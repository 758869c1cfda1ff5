import Pgokf.Catalog.Evaluation
import Pgokf.Catalog.Steps

/-! # What one call does to the freshness row of a bundle

A call writes the row, evaluates dependencies, or does both in this order. -/

namespace Pgokf.Catalog

open Lib

variable {a b : BundleId} {row row₁ : FreshnessRow} {txn : Txn} {c c' : State}

def Op.source (c : State) : Op → Option BundleId
  | .registerBundle _ => some c.bundles.next
  | .syncBundle a _ | .unregisterBundle a | .setBundleEnabled a _ | .retireBundle a
  | .unretireBundle a => some a
  | _ => none

def Op.findsRetired (b : BundleId) (row : FreshnessRow) : Op → Bool
  | .retireBundle a => a == b || row.state == .retired
  | .unretireBundle a => a != b && row.state == .retired
  | _ => row.state == .retired

def Reply.activates (b : BundleId) : Reply → Bool
  | .synced a _ activated => a == b && !activated.isEmpty
  | .published p activated => p.sourceBundleId == some b && activated
  | _ => false

structure RowWrite (b : BundleId) (c : State) (op : Op) (reply : Reply) (row row₁ : FreshnessRow) :
    Prop where
  epoch : row₁.dependencyInvalidationEpoch = row.dependencyInvalidationEpoch
  retired : (op.source c).isSome → row₁.state = .retired → op.findsRetired b row = true
  coverage : row.relationshipCoverageMissingSince.isSome →
    row₁.relationshipCoverageMissingSince.isSome ∨ reply.activates b = true ∨
      ∃ state reasons, op = .repairBundleFreshness b state reasons

variable {rows : FreshnessRows}

theorem clearCoverage_row (a : BundleId) (hrow : rows b = some row) :
    ∃ row₁, clearRelationshipCoverageMissing rows a b = some row₁ ∧
      row₁.dependencyInvalidationEpoch = row.dependencyInvalidationEpoch ∧ row₁.state = row.state ∧
      (a = b ∨ row₁ = row) := by
  unfold clearRelationshipCoverageMissing
  obtain ⟨row₁, hrow₁, hcases⟩ := updateRow_cases a _ _ hrow
  refine ⟨row₁, hrow₁, ?_⟩
  obtain rfl | ⟨rfl, -, rfl⟩ := hcases
  · exact ⟨rfl, rfl, .inr rfl⟩
  · exact ⟨rfl, rfl, .inl rfl⟩

theorem initializeBundle_row (bundles : BundleTable) (now : Instant) (a : BundleId)
    (generation : Int) (syncHash : Text) (context : ChangeContext) (hrow : rows b = some row) :
    initializeBundle bundles now rows a generation syncHash context b = some row := by
  by_cases hab : b = a
  · subst hab
    cases hb : bundles b <;> simp [initializeBundle, hb, hrow]
  · cases hb : bundles a <;> cases ha : rows a <;> simp [initializeBundle, hb, ha, hab, hrow]

theorem markCoverageMissing_row (bundles : BundleTable) (now : Instant) (a : BundleId)
    (hrow : rows b = some row) :
    ∃ row₁, markRelationshipCoverageMissing bundles now rows a b = some row₁ ∧
      row₁.dependencyInvalidationEpoch = row.dependencyInvalidationEpoch ∧
      (row₁.state = .retired ↔ row.state = .retired) ∧
      (row.relationshipCoverageMissingSince.isSome → row₁.relationshipCoverageMissingSince.isSome) ∧
      (a = b → row.state ≠ .retired → row₁.relationshipCoverageMissingSince.isSome) := by
  have hstale : FreshnessState.stale ≠ .retired := by decide
  obtain ⟨row', hrow', hmove⟩ :=
    setBundleState_evaluated bundles now a hstale [reasonRelationshipCoverageMissing] none none hrow
  have hepoch : row'.dependencyInvalidationEpoch = row.dependencyInvalidationEpoch := by
    by_cases hlive : row.state = .retired
    · rw [hmove.retired hlive]
    · simpa using (hmove.live hlive).2
  have hretired : row'.state = .retired ↔ row.state = .retired :=
    ⟨fun h => by_contra fun hlive => (hmove.live hlive).1 h, fun h => hmove.retired h ▸ h⟩
  by_cases hab : b = a
  · subst hab
    simp only [markRelationshipCoverageMissing, updateRow_self, hrow', Option.map_some]
    refine ⟨_, rfl, ?_⟩
    split
    · exact ⟨hepoch, hretired, fun _ => by simp, fun _ _ => by simp⟩
    · rename_i hnot
      refine ⟨hepoch, hretired, fun h => hmove.coverage ▸ h, fun _ hlive => absurd ?_ hlive⟩
      exact hretired.mp (by simpa [FreshnessRow.notRetired] using hnot)
  · refine ⟨row', ?_, hepoch, hretired, fun h => hmove.coverage ▸ h, fun h => absurd h.symm hab⟩
    rw [markRelationshipCoverageMissing, updateRow_other _ _ _ hab, hrow']

theorem syncedRows_row (txn : Txn) (bundles : BundleTable) (a : BundleId) (generation : Int)
    (input : SyncInput) (activation : Activation) (hrow : rows b = some row) :
    ∃ row₁, syncedRows txn bundles rows a generation input activation b = some row₁ ∧
      row₁.dependencyInvalidationEpoch = row.dependencyInvalidationEpoch ∧
      (row₁.state = .retired ↔ row.state = .retired) ∧
      (row.relationshipCoverageMissingSince.isSome → row₁.relationshipCoverageMissingSince.isSome ∨
        a = b ∧ activation.activated ≠ []) ∧
      (a = b → activation.coverageMissing = true → row.state ≠ .retired →
        row₁.relationshipCoverageMissingSince.isSome) := by
  obtain ⟨cleared, hcleared, hepoch, hstate, hkept⟩ : ∃ cleared,
      (if activation.activated.isEmpty then rows else clearRelationshipCoverageMissing rows a) b =
        some cleared ∧
      cleared.dependencyInvalidationEpoch = row.dependencyInvalidationEpoch ∧
      cleared.state = row.state ∧ (a = b ∧ activation.activated ≠ [] ∨ cleared = row) := by
    split
    · exact ⟨row, hrow, rfl, rfl, .inr rfl⟩
    · rename_i hactivated
      obtain ⟨row₁, hrow₁, hepoch, hstate, hkept⟩ := clearCoverage_row a hrow
      refine ⟨row₁, hrow₁, hepoch, hstate, hkept.imp_left fun h => ⟨h, ?_⟩⟩
      simpa [List.isEmpty_iff] using hactivated
  have hinitialized :=
    initializeBundle_row bundles txn.now a generation input.syncHash input.context hcleared
  unfold syncedRows
  by_cases hmissing : activation.coverageMissing = true
  · rw [if_pos hmissing]
    obtain ⟨row₁, hrow₁, hepoch₁, hretired₁, hsome, hnew⟩ :=
      markCoverageMissing_row bundles txn.now a hinitialized
    refine ⟨row₁, hrow₁, hepoch₁.trans hepoch, hstate ▸ hretired₁, fun h => ?_, fun hab _ => ?_⟩
    · obtain hact | rfl := hkept
      · exact .inr hact
      · exact .inl (hsome h)
    · exact hstate ▸ hnew hab
  · rw [if_neg hmissing]
    refine ⟨cleared, hinitialized, hepoch, hstate ▸ Iff.rfl, fun h => ?_, fun _ h => absurd h hmissing⟩
    obtain hact | rfl := hkept
    · exact .inr hact
    · exact .inl h

theorem transitionedRows_row (bundles : BundleTable) (now : Instant) (a : BundleId)
    (transition : Option BundleTransition) (hrow : rows b = some row) :
    ∃ row₁, transitionedRows bundles now rows a transition b = some row₁ ∧
      row₁.dependencyInvalidationEpoch = row.dependencyInvalidationEpoch ∧
      row₁.relationshipCoverageMissingSince = row.relationshipCoverageMissingSince ∧
      (row₁.state = .retired → row.state = .retired ∨ a = b ∧ transition = some .retire) ∧
      (a = b → transition = some .unretire → row₁.state ≠ .retired) := by
  have hset : ∀ state reasons, ∃ row₁,
      setBundleState bundles now rows a state reasons none none b = some row₁ ∧
      row₁.dependencyInvalidationEpoch = row.dependencyInvalidationEpoch ∧
      row₁.relationshipCoverageMissingSince = row.relationshipCoverageMissingSince ∧
      (row₁.state = .retired → row.state = .retired ∨ a = b ∧ state = .retired) := by
    intro state reasons
    obtain ⟨row₁, hrow₁, rfl | ⟨hab, -, rfl⟩⟩ :=
      setBundleState_cases bundles now a state reasons none none hrow
    · exact ⟨row₁, hrow₁, rfl, rfl, .inl⟩
    · exact ⟨_, hrow₁, rfl, rfl, fun h => .inr ⟨hab.symm, h⟩⟩
  match transition with
  | none => exact ⟨row, hrow, rfl, rfl, .inl, by simp⟩
  | some .retire =>
    obtain ⟨row₁, hrow₁, hepoch, hsince, hretired⟩ := hset .retired ["bundle_retired"]
    exact ⟨row₁, hrow₁, hepoch, hsince, fun h => (hretired h).imp_right fun h => ⟨h.1, rfl⟩, by simp⟩
  | some .disable =>
    obtain ⟨row₁, hrow₁, hepoch, hsince, hretired⟩ := hset .stale ["bundle_disabled"]
    exact ⟨row₁, hrow₁, hepoch, hsince, fun h => (hretired h).imp_right fun h => by simp at h, by simp⟩
  | some .unretire =>
    by_cases hab : b = a
    · subst hab
      refine ⟨{ row with
        state := .stale, reasonCodes := ["bundle_restored"], staleSince := some now }, ?_, ?_⟩
      · simp [transitionedRows, transitionBundle, updateRow_self, hrow]
      · simp
    · refine ⟨row, ?_, rfl, rfl, .inl, fun h => absurd h.symm hab⟩
      simp only [transitionedRows, transitionBundle, updateRow_other _ _ _ hab, hrow]

def Moved (b : BundleId) (c : State) (op : Op) (reply : Reply) (c' : State) (row : FreshnessRow) :
    Prop :=
  c.freshness.raised b ≤ c'.freshness.raised b ∧
    ∃ row₁ row', RowWrite b c op reply row row₁ ∧ c'.freshness.rows b = some row' ∧
      EvaluatedRow (c'.freshness.raised b - c.freshness.raised b) row₁ row'

variable {op : Op} {reply : Reply}

theorem Moved.of_write (hsource : op.source c = none)
    (hraised : c'.freshness.raised = c.freshness.raised) (hrow : c'.freshness.rows b = some row₁)
    (hepoch : row₁.dependencyInvalidationEpoch = row.dependencyInvalidationEpoch)
    (hcoverage : row.relationshipCoverageMissingSince.isSome →
      row₁.relationshipCoverageMissingSince.isSome ∨ reply.activates b = true ∨
        ∃ state reasons, op = .repairBundleFreshness b state reasons) :
    Moved b c op reply c' row := by
  refine ⟨hraised ▸ le_rfl, row₁, row₁, ⟨hepoch, ?_, hcoverage⟩, hrow, ?_⟩
  · simp [hsource]
  · rw [hraised, Nat.sub_self]
    exact .refl row₁

variable {state : FreshnessState} {reasons : List Text} {producer : Option Text}

theorem Moved.of_entered {observed : Option Text} (hsource : op.source c = none)
    (hrow : c.freshness.rows b = some row)
    (hrows : setBundleState c.bundles.rows txn.now c.freshness.rows a state reasons producer
      observed = rows) :
    Moved b c op reply { c with freshness := { c.freshness with rows } } row := by
  subst hrows
  obtain ⟨row₁, hrow₁, rfl | ⟨-, -, rfl⟩⟩ :=
    setBundleState_cases c.bundles.rows txn.now a state reasons producer observed hrow
  · exact .of_write hsource rfl hrow₁ rfl .inl
  · exact .of_write hsource rfl hrow₁ rfl .inl

theorem syncTail_moved {input : SyncInput} {activation : Activation}
    (h : syncTail txn c a input = .ok (c', activation)) (hrow : c.freshness.rows b = some row)
    (hop : ∀ row, op.findsRetired b row = (row.state == .retired)) {c₀ : State}
    (hc₀ : c₀.freshness = c.freshness) :
    Moved b c₀ op (.synced a activation.hadCoverage activation.activated) c' row := by
  obtain ⟨bundle, recorded, -, -, -, -, -, -, -, hfreshness⟩ := syncTail_ok h
  obtain ⟨row₁, hrow₁, hepoch, hretired, hcoverage, -⟩ := syncedRows_row txn
    (c.bundles.modify a ({ · with catalogGeneration := bundle.catalogGeneration + 1 })).rows a
    (bundle.catalogGeneration + 1) input activation hrow
  obtain ⟨hraised, hmove⟩ := evaluateDependencies_evaluates (b := b)
    (c.bundles.modify a ({ · with catalogGeneration := bundle.catalogGeneration + 1 })).rows txn.now
    (syncEvent a recorded.2 (bundle.catalogGeneration + 1) input)
    { c.freshness with
      rows := syncedRows txn
        (c.bundles.modify a ({ · with catalogGeneration := bundle.catalogGeneration + 1 })).rows
        c.freshness.rows a (bundle.catalogGeneration + 1) input activation }
  rw [← hfreshness] at hraised hmove
  obtain ⟨row', hrow', hevaluated⟩ := hmove row₁ hrow₁
  refine ⟨hc₀ ▸ hraised, row₁, row', ⟨hepoch, fun _ h => ?_, fun h => ?_⟩, hrow', hc₀ ▸ hevaluated⟩
  · simpa [hop] using hretired.mp h
  · refine (hcoverage h).imp_right fun ⟨hab, hactivated⟩ => .inl ?_
    simp [Reply.activates, hab, hactivated]

theorem changeBundle_moved {change : BundleRow → BundleRow} {transition : Option BundleTransition}
    {operation : ChangeOperation} (h : changeBundle txn c a change transition operation = .ok c')
    (hrow : c.freshness.rows b = some row) (hop : ∀ row₁ : FreshnessRow,
      (row₁.state = .retired → row.state = .retired ∨ a = b ∧ transition = some .retire) →
      (a = b → transition = some .unretire → row₁.state ≠ .retired) →
      row₁.state = .retired → op.findsRetired b row = true) :
    Moved b c op .done c' row := by
  obtain ⟨bundle, recorded, -, -, -, -, -, -, hfreshness⟩ := changeBundle_ok h
  obtain ⟨row₁, hrow₁, hepoch, hsince, hretired, hunretired⟩ := transitionedRows_row
    (c.bundles.modify a fun row => { change row with
      catalogGeneration := bundle.catalogGeneration + 1 }).rows txn.now a transition hrow
  obtain ⟨hraised, hmove⟩ := evaluateDependencies_evaluates (b := b)
    (c.bundles.modify a fun row => { change row with
      catalogGeneration := bundle.catalogGeneration + 1 }).rows txn.now
    (stateChangeEvent a recorded.2 (bundle.catalogGeneration + 1))
    { c.freshness with
      rows := transitionedRows (c.bundles.modify a fun row => { change row with
        catalogGeneration := bundle.catalogGeneration + 1 }).rows txn.now c.freshness.rows a
        transition }
  rw [← hfreshness] at hraised hmove
  obtain ⟨row', hrow', hevaluated⟩ := hmove row₁ hrow₁
  refine ⟨hraised, row₁, row', ⟨hepoch, fun _ => hop row₁ hretired hunretired, fun h => ?_⟩, hrow',
    hevaluated⟩
  exact .inl (hsince ▸ h)

theorem unregisterBundle_moved (h : unregisterBundle txn c a = .ok c') (hne : b ≠ a)
    (hrow : c.freshness.rows b = some row) : Moved b c (.unregisterBundle a) .done c' row := by
  obtain ⟨bundle, recorded, -, -, rfl⟩ := unregisterBundle_ok h
  have hdropped : (c.freshness.dropBundle a).rows b = some row := by
    simp [Freshness.dropBundle, hne, hrow]
  obtain ⟨hraised, hmove⟩ := invalidateDeparting_evaluates (b := b) (c.bundles.drop a).rows txn.now
    (departingDependents c.freshness.dependencies.rows a) (c.freshness.dropBundle a)
  obtain ⟨row', hrow', hevaluated⟩ := hmove row hdropped
  exact ⟨hraised, row, row', ⟨rfl, fun _ h => by simp [Op.findsRetired, h], .inl⟩, hrow', hevaluated⟩

theorem markReconciling_moved {token : Int}
    (h : markReconciling txn c.bundles.rows c.freshness.rows a producer = .ok (rows, token))
    (hrow : c.freshness.rows b = some row) :
    Moved b c (.markReconciling a producer) (.token token)
      { c with freshness := { c.freshness with rows } } row := by
  simp only [markReconciling, bind_eq_ok, orRefuse_eq_ok, pure_eq_ok, Prod.mk.injEq] at h
  obtain ⟨-, -, -, -, rfl, -⟩ := h
  -- The state is entered first, and then the epoch is claimed on whatever row is there.
  obtain ⟨row₁, hrow₁, hentered⟩ :=
    setBundleState_cases c.bundles.rows txn.now a .reconciling [] producer none hrow
  have hfields : row₁.dependencyInvalidationEpoch = row.dependencyInvalidationEpoch ∧
      row₁.relationshipCoverageMissingSince = row.relationshipCoverageMissingSince := by
    rcases hentered with rfl | ⟨-, -, rfl⟩
    · exact ⟨rfl, rfl⟩
    · exact ⟨rfl, rfl⟩
  obtain ⟨row₂, hrow₂, hclaimed⟩ := updateRow_cases a (fun _ => true)
    (fun row => { row with claimedInvalidationEpoch := row.dependencyInvalidationEpoch }) hrow₁
  rcases hclaimed with rfl | ⟨-, -, rfl⟩
  · exact .of_write rfl rfl hrow₂ hfields.1 fun h => .inl (hfields.2 ▸ h)
  · exact .of_write rfl rfl hrow₂ hfields.1 fun h => .inl (hfields.2 ▸ h)

theorem markFresh_moved {evidence : FreshEvidence} {success : Bool}
    (h : markFresh txn c.bundles.rows c.freshness.rows a evidence = .ok (rows, success))
    (hrow : c.freshness.rows b = some row) :
    Moved b c (.markFresh a evidence) (.completed success)
      { c with freshness := { c.freshness with rows } } row := by
  simp only [markFresh, bind_eq_ok, pure_eq_ok, Prod.mk.injEq] at h
  obtain ⟨bundle, -, rfl, -⟩ := h
  obtain ⟨row₁, hrow₁, hcompleted⟩ := updateRow_cases a (evidence.completes bundle)
    (·.completed txn.now evidence) hrow
  rcases hcompleted with rfl | ⟨-, -, rfl⟩
  · exact .of_write rfl rfl hrow₁ rfl .inl
  · exact .of_write rfl rfl hrow₁ rfl .inl

theorem repairBundleFreshness_moved
    (h : repairBundleFreshness txn c.bundles.rows c.freshness.rows a state reasons = .ok rows)
    (hrow : c.freshness.rows b = some row) :
    Moved b c (.repairBundleFreshness a state reasons) .done
      { c with freshness := { c.freshness with rows } } row := by
  simp only [repairBundleFreshness, bind_eq_ok, pure_eq_ok] at h
  obtain ⟨-, -, reasons', -, rfl⟩ := h
  by_cases hab : b = a
  · subst hab
    have hrow₁ : Function.update c.freshness.rows b (some (((c.freshness.rows b).getD
        (.inserted txn.now state reasons' none none)).repaired txn.now state reasons')) b =
        some (row.repaired txn.now state reasons') := by
      simp [hrow]
    exact .of_write rfl rfl hrow₁ rfl fun _ => .inr (.inr ⟨state, reasons, rfl⟩)
  · refine .of_write rfl rfl ?_ rfl .inl
    simp [hab, hrow]

theorem replaceRelationships_moved {write : RelationshipWrite} {published : Published}
    (h : replaceRelationships txn c.bundles.rows c.fences c.publications c.freshness.rows write =
      .ok published) (hrow : c.freshness.rows b = some row) :
    Moved b c (.replaceRelationships write) (.published published.publication published.activated)
      { c with
        publications := published.publications
        freshness := { c.freshness with rows := published.rows } } row := by
  obtain ⟨bundle, fence, -, -, -, -, -, -, hpublished⟩ := replaceRelationships_ok h
  rcases hpublished with ⟨existing, rfl⟩ | ⟨set, activate, rfl⟩
  · exact .of_write rfl rfl hrow rfl .inl
  · cases activate with
    | false => exact .of_write rfl rfl hrow rfl .inl
    | true =>
      obtain ⟨row₁, hrow₁, hepoch, -, hkept⟩ := clearCoverage_row write.sourceBundleId hrow
      refine .of_write rfl rfl hrow₁ hepoch fun h => ?_
      rcases hkept with hab | rfl
      · exact .inr (.inl (by simp [Reply.activates, publish, newPublication, hab]))
      · exact .inl h

theorem Does.moved (h : Does c txn op c' reply) (hop : op ≠ .unregisterBundle b)
    (hrow : c.freshness.rows b = some row) :
    Moved b c op reply c' row := by
  cases h with
  | registerBundle h =>
    obtain ⟨_, -, h⟩ := registerBundle_ok h
    exact syncTail_moved h hrow (fun _ => rfl) rfl
  | syncBundle h => exact syncTail_moved (syncBundle_ok h) hrow (fun _ => rfl) rfl
  | unregisterBundle h => exact unregisterBundle_moved h (fun heq => hop (heq ▸ rfl)) hrow
  | setBundleEnabled h =>
    refine changeBundle_moved h hrow fun row₁ hretired _ h => ?_
    rcases hretired h with h | ⟨-, h⟩
    · simp [Op.findsRetired, h]
    · split at h <;> simp at h
  | retireBundle h =>
    refine changeBundle_moved h hrow fun row₁ hretired _ h => ?_
    rcases hretired h with h | ⟨rfl, -⟩
    · simp [Op.findsRetired, h]
    · simp [Op.findsRetired]
  | unretireBundle h =>
    refine changeBundle_moved h hrow fun row₁ hretired hunretired h => ?_
    have hne := fun hab => hunretired hab rfl h
    rcases hretired h with h | ⟨-, h⟩
    · simpa [Op.findsRetired, h] using hne
    · simp at h
  | markStale h =>
    simp only [Catalog.markStale, bind_eq_ok, pure_eq_ok] at h
    obtain ⟨-, -, reasons, -, h⟩ := h
    exact .of_entered rfl hrow h
  | markBlocked h =>
    simp only [Catalog.markBlocked, bind_eq_ok, pure_eq_ok] at h
    obtain ⟨-, -, reasons, -, h⟩ := h
    exact .of_entered rfl hrow h
  | markReconciling h => exact markReconciling_moved h hrow
  | markFresh h => exact markFresh_moved h hrow
  | repairBundleFreshness h => exact repairBundleFreshness_moved h hrow
  | replaceRelationships h => exact replaceRelationships_moved h hrow
  | _ => exact .of_write rfl rfl hrow rfl .inl

/-- An invalidation goes from a bundle with an outgoing bundle-scope dependency to one with an
incoming one. -/
theorem Does.raised (h : Does c txn op c' reply) (hne : c'.freshness.raised b ≠ c.freshness.raised b) :
    ∃ a, op.source c = some a ∧ isBundleSource c.freshness.dependencies.rows a = true ∧
      isBundleTarget c.freshness.dependencies.rows b = true := by
  have hchange : ∀ {a change transition operation},
      changeBundle txn c a change transition operation = .ok c' →
      isBundleSource c.freshness.dependencies.rows a = true ∧
        isBundleTarget c.freshness.dependencies.rows b = true := by
    intro a change transition operation h
    obtain ⟨bundle, recorded, -, -, -, -, -, -, hfreshness⟩ := changeBundle_ok h
    rw [hfreshness] at hne
    exact evaluateDependencies_raised hne
  have hsync : ∀ {c₁ : State} {a input activation}, c₁.freshness = c.freshness →
      syncTail txn c₁ a input = .ok (c', activation) →
      isBundleSource c.freshness.dependencies.rows a = true ∧
        isBundleTarget c.freshness.dependencies.rows b = true := by
    intro c₁ a input activation hc₁ h
    obtain ⟨bundle, recorded, -, -, -, -, -, -, -, hfreshness⟩ := syncTail_ok h
    rw [hfreshness, hc₁] at hne
    exact evaluateDependencies_raised hne
  cases h with
  | registerBundle h =>
    obtain ⟨_, -, h⟩ := registerBundle_ok h
    exact ⟨_, rfl, hsync (by rfl) h⟩
  | syncBundle h => exact ⟨_, rfl, hsync rfl (syncBundle_ok h)⟩
  | setBundleEnabled h | retireBundle h | unretireBundle h => exact ⟨_, rfl, hchange h⟩
  | unregisterBundle h =>
    obtain ⟨bundle, recorded, -, -, rfl⟩ := unregisterBundle_ok h
    exact ⟨_, rfl, invalidateDeparting_raised hne⟩
  | _ => exact absurd rfl hne

section Completion

variable {e : Entry Request CatalogError Reply}

def Gone (b : BundleId) (c : State) : Prop := c.bundles.rows b = none ∧ b < c.bundles.next

theorem step_gone (h : Step exec c e c') (hgone : Gone b c) : Gone b c' := by
  obtain ⟨reply, -, hdoes⟩ | ⟨-, rfl⟩ := step_does h
  · exact hdoes.stays_gone hgone.1 hgone.2
  · exact hgone

theorem Does.gone {reply : Reply} (h : Does c txn (.unregisterBundle b) c' reply) :
    Gone b c' := by
  cases h with
  | unregisterBundle h =>
    obtain ⟨bundle, recorded, hbundle, -, rfl⟩ := unregisterBundle_ok h
    exact ⟨by simp [BundleRegistry.drop], c.bundles.allocated b (by simp [hbundle])⟩

theorem step_completed {evidence : FreshEvidence} (h : Step exec c e c')
    (hop : e.call.op = .markFresh b evidence) (hok : e.result = .ok (.completed true)) :
    ∃ bundle row, c.bundles.rows b = some bundle ∧ c.freshness.rows b = some row ∧
      evidence.completes bundle row = true := by
  obtain ⟨reply, hreply, hdoes⟩ | ⟨⟨error, herror⟩, -⟩ := step_does h
  · rw [hop] at hdoes
    rw [hok] at hreply
    cases hreply
    cases hdoes with
    | markFresh h =>
      simp only [markFresh, bind_eq_ok, pure_eq_ok, Prod.mk.injEq] at h
      obtain ⟨bundle, hconfined, -, hcompletes⟩ := h
      obtain ⟨row, hrow, hcompletes⟩ := (Option.any_eq_true _ _).mp hcompletes
      exact ⟨bundle, row, confinedBundle_row hconfined, hrow, hcompletes⟩
  · rw [hok] at herror
    cases herror

end Completion

end Pgokf.Catalog
