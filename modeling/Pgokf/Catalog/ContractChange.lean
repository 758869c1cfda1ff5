import Pgokf.Catalog.Installation

/-! # A change of the embedding contract during a reconciliation

A completion compares epochs, and a change of the contract moves none. So a completion is judged as
when its token was handed out. -/

namespace Pgokf.Catalog

open Lib

variable {s s' : Installation} {b : BundleId} {row row₁ : FreshnessRow} {bundle : BundleRow}

/-- The calls of the interleaving: claims and completions of any bundle, and configuration. -/
def Call.reconciles : Call → Bool
  | .catalog (.markReconciling ..) | .catalog (.markFresh ..) => true
  | .setConfig .. | .resetConfig _ | .otherConfig => true
  | _ => false

def ReconcilingStep (s : Installation) (e : Entry Invocation CatalogError Reply) (s' : Installation) :
    Prop :=
  Step Installation.exec s e s' ∧ e.call.call.reconciles = true

def Installation.completable (s : Installation) (txn : Txn) (b : BundleId) (evidence : FreshEvidence) :
    Prop :=
  ∃ bundle row, confinedBundle .ingest txn s.catalog.bundles.rows b = .ok bundle ∧
    s.catalog.freshness.rows b = some row ∧ evidence.completes bundle row = true

def FreshnessRow.coverageReason (row : FreshnessRow) : Bool :=
  row.reasonCodes.contains reasonRelationshipCoverageMissing

/- What is kept of the row `row₁` that the claim left. Once a completion has succeeded its evidence
stands in the row. -/
structure Awaits (bundle : BundleRow) (row₁ row : FreshnessRow) : Prop where
  retired : row.state = .retired ↔ row₁.state = .retired
  observed : row.observedSourceGeneration = row₁.observedSourceGeneration
  epoch : row.dependencyInvalidationEpoch = row₁.dependencyInvalidationEpoch
  claimed : row.claimedInvalidationEpoch = row₁.dependencyInvalidationEpoch
  since : row.relationshipCoverageMissingSince = row₁.relationshipCoverageMissingSince
  materialized :
    row.state = row₁.state ∧ row.coverageReason = row₁.coverageReason ∧
      row.materializedCatalogGeneration = row₁.materializedCatalogGeneration ∨
    (row₁.state ≠ .retired ∧ row₁.relationshipCoverageMissingSince = none ∧
        row₁.coverageReason = false ∧
        row₁.materializedCatalogGeneration.all (fun g => decide (g ≤ bundle.catalogGeneration)) = true) ∧
      row.coverageReason = false ∧
      row.materializedCatalogGeneration = some bundle.catalogGeneration

variable {evidence : FreshEvidence}

theorem completes_iff : evidence.completes bundle row = true ↔
    row.state ≠ .retired ∧ row.observedSourceGeneration = evidence.expectedObservedSourceGeneration ∧
    bundle.catalogGeneration = evidence.expectedCatalogGeneration ∧
    row.materializedCatalogGeneration.all
      (fun g => decide (g ≤ evidence.expectedCatalogGeneration)) = true ∧
    row.dependencyInvalidationEpoch ≤ evidence.claimedInvalidationEpoch ∧
    row.claimedInvalidationEpoch ≤ evidence.claimedInvalidationEpoch ∧
    row.relationshipCoverageMissingSince = none ∧ row.coverageReason = false := by
  simp only [FreshEvidence.completes, FreshnessRow.notRetired, FreshnessRow.coverageReason,
    Bool.and_eq_true, bne_iff_ne, beq_iff_eq, decide_eq_true_eq, Option.isNone_iff_eq_none,
    Bool.not_eq_true', and_assoc]

theorem Awaits.completes (h : Awaits bundle row₁ row)
    (hclaimed : row₁.claimedInvalidationEpoch = row₁.dependencyInvalidationEpoch)
    (evidence : FreshEvidence) :
    evidence.completes bundle row = true ↔ evidence.completes bundle row₁ = true := by
  rw [completes_iff, completes_iff, ne_eq, h.retired, h.observed, h.epoch, h.claimed, h.since, hclaimed]
  refine and_congr_right fun _ => and_congr_right fun _ => and_congr_right fun hgeneration => ?_
  obtain ⟨-, hreason, hmat⟩ | ⟨⟨-, -, hreason₁, hmat₁⟩, hreason, hmat⟩ := h.materialized
  · rw [hreason, hmat]
  · rw [hreason, hreason₁, hmat, ← hgeneration, hmat₁]
    simp

theorem coverageReason_entered (h : row.state = .reconciling) (now : Instant) (producer : Option Text) :
    (row.entered now .reconciling [] producer none).coverageReason = row.coverageReason := by
  simp only [FreshnessRow.coverageReason, FreshnessRow.entered, h, if_true, mergeReasons,
    List.append_nil]
  rw [Bool.eq_iff_iff, List.contains_iff_mem, List.contains_iff_mem, List.mem_dedup]

theorem Awaits.entered (h : Awaits bundle row₁ row) (hstate : row₁.state = .reconciling)
    (now : Instant) (producer : Option Text) :
    Awaits bundle row₁ (row.entered now .reconciling [] producer none) := by
  have hreason : row.coverageReason = false →
      (row.entered now .reconciling [] producer none).coverageReason = false := by
    intro hreason
    by_cases hsame : row.state = .reconciling
    · rw [coverageReason_entered hsame, hreason]
    · simp [FreshnessRow.entered, hsame, FreshnessRow.coverageReason]
  refine ⟨?_, ?_, h.epoch, h.claimed, h.since, ?_⟩
  · simp [FreshnessRow.entered, hstate]
  · simpa [FreshnessRow.entered] using h.observed
  · obtain ⟨hsame, hcoverage, hmat⟩ | ⟨hold, hcoverage, hmat⟩ := h.materialized
    · refine .inl ⟨by simp [FreshnessRow.entered, hstate], ?_, hmat⟩
      rw [coverageReason_entered (hsame.trans hstate), hcoverage]
    · exact .inr ⟨hold, hreason hcoverage, hmat⟩

theorem Awaits.claim (h : Awaits bundle row₁ row) :
    Awaits bundle row₁ { row with claimedInvalidationEpoch := row.dependencyInvalidationEpoch } :=
  ⟨h.retired, h.observed, h.epoch, h.epoch, h.since, h.materialized⟩

theorem Awaits.completed (h : Awaits bundle row₁ row) (hcompletes : evidence.completes bundle row = true)
    (now : Instant) :
    Awaits bundle row₁ (row.completed now evidence) := by
  obtain ⟨hlive, -, hgeneration, hmat, -, -, hsince, hreason⟩ := completes_iff.mp hcompletes
  have hlive₁ : row₁.state ≠ .retired := fun heq => hlive (h.retired.mpr heq)
  refine ⟨?_, h.observed, h.epoch, h.claimed, h.since, .inr ⟨⟨hlive₁, ?_, ?_⟩, ?_, ?_⟩⟩
  · simp [FreshnessRow.completed, hlive₁]
  · rw [← h.since, hsince]
  · obtain ⟨-, hcoverage, hmaterialized⟩ | ⟨⟨-, -, hcoverage, hmaterialized⟩, -⟩ := h.materialized
    · rw [← hcoverage, ← hmaterialized, hgeneration]
      exact ⟨hreason, hmat⟩
    · exact ⟨hcoverage, hmaterialized⟩
  · rfl
  · rw [hgeneration]
    rfl

theorem Awaits.contractChanged (h : Awaits bundle row₁ row) (hfresh : row.state = .fresh)
    (hstate : row₁.state = .reconciling ∨ row₁.state = .retired) (now : Instant) :
    Awaits bundle row₁ (row.contractChanged now) := by
  have hother : reasonRelationshipCoverageMissing ≠ reasonEmbeddingContractChanged := by decide
  obtain ⟨hsame, -⟩ | ⟨hold, -, hmat⟩ := h.materialized
  · rw [hfresh] at hsame
    rcases hstate with hstate | hstate <;> rw [← hsame] at hstate <;> cases hstate
  · refine ⟨?_, h.observed, h.epoch, h.claimed, h.since, .inr ⟨hold, ?_, hmat⟩⟩
    · simp [FreshnessRow.contractChanged, hold.1]
    · simpa [FreshnessRow.coverageReason, FreshnessRow.contractChanged] using hother

/-- The invariant of the interleaving: the bundles are those of the claim, and the row awaits its
completion. -/
def AwaitsIn (bundles : BundleRegistry) (bundle : BundleRow) (b : BundleId) (row₁ : FreshnessRow)
    (s : Installation) : Prop :=
  s.catalog.bundles = bundles ∧
    ∃ row, s.catalog.freshness.rows b = some row ∧ Awaits bundle row₁ row

variable {e : Entry Invocation CatalogError Reply}

theorem ReconcilingStep.awaits {bundles : BundleRegistry} (hbundle : bundles.rows b = some bundle)
    (hstate : row₁.state = .reconciling ∨ row₁.state = .retired) (h : ReconcilingStep s e s')
    (hinv : AwaitsIn bundles bundle b row₁ s) :
    AwaitsIn bundles bundle b row₁ s' := by
  obtain ⟨hbundles, row, hrow, hawaits⟩ := hinv
  have hpolicy : ∀ now policy, AwaitsIn bundles bundle b row₁ (s.withPolicy now policy) := by
    intro now policy
    refine ⟨(s.withPolicy_bundles now policy).trans hbundles, ?_⟩
    obtain ⟨row', hrow', rfl | ⟨hfresh, rfl⟩⟩ := Installation.withPolicy_row hrow now policy
    · exact ⟨row', hrow', hawaits⟩
    · exact ⟨_, hrow', hawaits.contractChanged hfresh hstate now⟩
  obtain ⟨hstep, hcall⟩ := h
  obtain ⟨reply, -, heffect⟩ | ⟨-, rfl⟩ := Installation.step_effect hstep
  · cases hc : e.call.call with
    | catalog op =>
      rw [hc] at heffect hcall
      cases heffect with
      | catalog hdoes =>
        cases hdoes with
        | markReconciling hmark =>
          rename_i a producer rows token
          simp only [markReconciling, bind_eq_ok, orRefuse_eq_ok, pure_eq_ok, Prod.mk.injEq] at hmark
          obtain ⟨-, -, -, -, rfl, -⟩ := hmark
          refine ⟨hbundles, ?_⟩
          obtain ⟨row₂, hrow₂, hentered⟩ := setBundleState_cases s.catalog.bundles.rows
            e.call.txn.now a .reconciling [] producer none hrow
          have hawaits₂ : Awaits bundle row₁ row₂ := by
            rcases hentered with rfl | ⟨-, hlive, rfl⟩
            · exact hawaits
            · have hlive₁ : row₁.state ≠ .retired := fun heq => hlive (hawaits.retired.mpr heq)
              exact hawaits.entered (hstate.resolve_right hlive₁) _ _
          obtain ⟨row₃, hrow₃, rfl | ⟨-, -, rfl⟩⟩ := updateRow_cases a (fun _ => true)
            (fun row => { row with claimedInvalidationEpoch := row.dependencyInvalidationEpoch }) hrow₂
          · exact ⟨row₃, hrow₃, hawaits₂⟩
          · exact ⟨_, hrow₃, hawaits₂.claim⟩
        | markFresh hmark =>
          rename_i a evidence rows success
          simp only [markFresh, bind_eq_ok, pure_eq_ok, Prod.mk.injEq] at hmark
          obtain ⟨found, hconfined, rfl, -⟩ := hmark
          have hfound := confinedBundle_row hconfined
          refine ⟨hbundles, ?_⟩
          obtain ⟨row₂, hrow₂, rfl | ⟨rfl, hcompletes, rfl⟩⟩ := updateRow_cases a
            (evidence.completes found) (·.completed e.call.txn.now evidence) hrow
          · exact ⟨row₂, hrow₂, hawaits⟩
          · obtain rfl : bundle = found := by
              rw [hbundles, hbundle] at hfound
              exact Option.some.inj hfound
            exact ⟨_, hrow₂, hawaits.completed hcompletes _⟩
        | _ => cases hcall
    | setConceptEmbedding => rw [hc] at hcall; cases hcall
    | setConfig key value =>
      rw [hc] at heffect
      cases heffect with
      | setConfig => exact hpolicy _ _
    | resetConfig key =>
      rw [hc] at heffect
      cases heffect with
      | resetConfig => exact hpolicy _ _
    | otherConfig =>
      rw [hc] at heffect
      cases heffect with
      | otherConfig => exact ⟨hbundles, row, hrow, hawaits⟩
  · exact ⟨hbundles, row, hrow, hawaits⟩

variable {producer : Option Text}

theorem reconciling_or_retired {bundles : BundleTable} {rows : FreshnessRows} {now : Instant}
    (hbundle : bundles b = some bundle)
    (h : setBundleState bundles now rows b .reconciling [] producer none b = some row) :
    row.state = .reconciling ∨ row.state = .retired := by
  cases hrow : rows b with
  | none =>
    simp only [setBundleState, hbundle, hrow, Function.update_self, Option.some.injEq] at h
    exact .inl (h ▸ rfl)
  | some row₀ =>
    rw [setBundleState_self (by simp [hbundle]) hrow, Option.some.injEq] at h
    subst h
    split
    · exact .inl rfl
    · rename_i hretired
      exact .inr (by simpa [FreshnessRow.notRetired] using hretired)

theorem markReconciling_claims {token : Int} (h : Step Installation.exec s e s')
    (hop : e.call.call = .catalog (.markReconciling b producer)) (hok : e.result = .ok (.token token)) :
    ∃ bundle row₁, s'.catalog.bundles.rows b = some bundle ∧
      s'.catalog.freshness.rows b = some row₁ ∧
      (row₁.state = .reconciling ∨ row₁.state = .retired) ∧
      row₁.dependencyInvalidationEpoch = token ∧ row₁.claimedInvalidationEpoch = token := by
  obtain ⟨reply, hreply, heffect⟩ | ⟨⟨error, herror⟩, -⟩ := Installation.step_effect h
  · rw [hok] at hreply
    cases hreply
    rw [hop] at heffect
    cases heffect with
    | catalog hdoes =>
      cases hdoes with
      | markReconciling hmark =>
        simp only [markReconciling, bind_eq_ok, orRefuse_eq_ok, pure_eq_ok, Prod.mk.injEq] at hmark
        obtain ⟨bundle, hconfined, row, hrow, rfl, rfl⟩ := hmark
        have hbundle := confinedBundle_row hconfined
        refine ⟨bundle, { row with claimedInvalidationEpoch := row.dependencyInvalidationEpoch },
          hbundle, by simp [updateRow_self, hrow], ?_, rfl, rfl⟩
        have hstate := reconciling_or_retired hbundle hrow
        exact hstate
  · rw [hok] at herror
    cases herror

theorem markFresh_completes (h : Step Installation.exec s e s')
    (hop : e.call.call = .catalog (.markFresh b evidence)) :
    e.result = .ok (.completed true) ↔ s.completable e.call.txn b evidence := by
  obtain ⟨⟨txn, committedAt, call⟩, result⟩ := e
  subst hop
  cases hconfined : confinedBundle .ingest txn s.catalog.bundles.rows b with
  | error error =>
    have hexec : s.exec ⟨txn, committedAt, .catalog (.markFresh b evidence)⟩ = .error error := by
      simp only [Installation.exec, Catalog.exec, markFresh, hconfined]
      rfl
    cases h with
    | commit h => rw [hexec] at h; cases h
    | refuse h => simp [Installation.completable, hconfined]
  | ok bundle =>
    obtain ⟨t, hexec⟩ : ∃ t, s.exec ⟨txn, committedAt, .catalog (.markFresh b evidence)⟩ =
        .ok (t, .completed ((s.catalog.freshness.rows b).any (evidence.completes bundle))) := by
      simp only [Installation.exec, Catalog.exec, markFresh, hconfined]
      exact ⟨_, rfl⟩
    cases h with
    | commit h =>
      rw [hexec] at h
      cases h
      simp [Installation.completable, hconfined, Option.any_eq_true]
    | refuse h => rw [hexec] at h; cases h

/-- A claim that leaves `s₁`, a change of the contract while the bundle holds embeddings, and in
`s₂` the completion with the token of the claim. -/
structure ChangedBetween (b : BundleId) (evidence : FreshEvidence) (s₁ s₂ : Installation)
    (completion : Entry Invocation CatalogError Reply) : Prop where
  claims : ∃ s₀ claim producer, Step Installation.exec s₀ claim s₁ ∧
    claim.call.call = .catalog (.markReconciling b producer) ∧
    claim.result = .ok (.token evidence.claimedInvalidationEpoch)
  changes : ∃ es₁ u change v es₂, Run ReconcilingStep s₁ es₁ u ∧ ReconcilingStep u change v ∧
    v.policy ≠ u.policy ∧ u.embedded b ≠ [] ∧ Run ReconcilingStep v es₂ s₂
  completes : (∃ s₃, Step Installation.exec s₂ completion s₃) ∧
    completion.call.call = .catalog (.markFresh b evidence)

/-- The completion after the change is refused exactly if it would have been refused before it. -/
theorem contract_change_unseen {evidence : FreshEvidence} {s₁ s₂ : Installation}
    {completion : Entry Invocation CatalogError Reply}
    (h : ChangedBetween b evidence s₁ s₂ completion) :
    completion.result ≠ .ok (.completed true) ↔
      ¬ s₁.completable completion.call.txn b evidence := by
  obtain ⟨⟨s₀, claim, producer, hclaim, hop, hok⟩,
    ⟨es₁, u, change, v, es₂, hbefore, hchange, -, -, hafter⟩, ⟨s₃, hstep⟩, hcompletion⟩ := h
  obtain ⟨bundle, row₁, hbundle, hrow₁, hstate, hepoch, hclaimed⟩ :=
    markReconciling_claims hclaim hop hok
  have hstart : AwaitsIn s₁.catalog.bundles bundle b row₁ s₁ :=
    ⟨rfl, row₁, hrow₁, Iff.rfl, rfl, rfl, hclaimed.trans hepoch.symm, rfl, .inl ⟨rfl, rfl, rfl⟩⟩
  have hkeeps : ∀ {s es t}, Run ReconcilingStep s es t →
      AwaitsIn s₁.catalog.bundles bundle b row₁ s → AwaitsIn s₁.catalog.bundles bundle b row₁ t :=
    fun hrun hinv => hrun.invariant hinv fun _ _ _ hinv hstep => hstep.awaits hbundle hstate hinv
  obtain ⟨hbundles, row, hrow, hawaits⟩ :=
    hkeeps hafter (hchange.awaits hbundle hstate (hkeeps hbefore hstart))
  have hsame : s₂.completable completion.call.txn b evidence ↔
      s₁.completable completion.call.txn b evidence := by
    unfold Installation.completable
    rw [hbundles]
    refine exists_congr fun found => ?_
    simp only [hrow, hrow₁, Option.some.injEq, exists_eq_left', exists_and_left]
    refine and_congr_right fun hfound => ?_
    obtain rfl : bundle = found :=
      Option.some.inj (hbundle.symm.trans (confinedBundle_row hfound))
    exact hawaits.completes (hclaimed.trans hepoch.symm) evidence
  rw [ne_eq, markFresh_completes hstep hcompletion, hsame]

/- One embedded concept, the claim of its reconciliation, and a change of the model. -/
def embeddedBundle : Installation :=
  (play Installation.exec .empty
    [.byAdmin 0 (.catalog (.registerBundle
        ⟨[⟨"a", "a.md", .added, none, some "h"⟩], [], .default⟩)),
      .byAdmin 1 (.setConceptEmbedding 1 "a")]).1

def claimedBundle : Installation :=
  (play Installation.exec embeddedBundle [.byAdmin 2 (.catalog (.markReconciling 1 none))]).1

def repolicedBundle : Installation :=
  (play Installation.exec claimedBundle
    [.byAdmin 3 (.setConfig .model (.string "other-model"))]).1

theorem repoliced_changedBetween {generation : Int} {success : Bool}
    (h : (play Installation.exec repolicedBundle
      [.byAdmin 4 (.catalog (.markFresh 1 (freshAt generation)))]).2.map (·.result) =
      [.ok (.completed success)]) :
    ChangedBetween 1 (freshAt generation) claimedBundle repolicedBundle
      ⟨.byAdmin 4 (.catalog (.markFresh 1 (freshAt generation))), .ok (.completed success)⟩ where
  claims := by
    have hclaim : Step Installation.exec embeddedBundle
        ⟨.byAdmin 2 (.catalog (.markReconciling 1 none)), .ok (.token 0)⟩ claimedBundle :=
      play_step (by decide)
    exact ⟨_, _, none, hclaim, rfl, rfl⟩
  changes := by
    have hchange : ReconcilingStep claimedBundle
        ⟨.byAdmin 3 (.setConfig .model (.string "other-model")), .ok .done⟩ repolicedBundle :=
      ⟨play_step (by decide), rfl⟩
    exact ⟨[], _, _, _, [], .start _, hchange, by decide, by decide, .start _⟩
  completes := ⟨⟨_, play_step h⟩, rfl⟩

/-- Evidence for a catalog generation the bundle has left is refused, before the change and after. -/
theorem contract_change_unseen_outdated :
    ¬ claimedBundle.completable (Invocation.byAdmin 4 .otherConfig).txn 1 (freshAt 0) := by
  have hchanged : ChangedBetween 1 (freshAt 0) claimedBundle repolicedBundle
      ⟨.byAdmin 4 (.catalog (.markFresh 1 (freshAt 0))), .ok (.completed false)⟩ :=
    repoliced_changedBetween (by decide)
  exact (contract_change_unseen hchanged).mp (by decide)

/-- The old token completes, and the bundle is fresh under a policy its embeddings do not meet. -/
theorem contract_change_cleared :
    (∃ completion, ChangedBetween 1 (freshAt 1) claimedBundle repolicedBundle completion ∧
      completion.result = .ok (.completed true)) ∧
    ((play Installation.exec repolicedBundle
      [.byAdmin 4 (.catalog (.markFresh 1 (freshAt 1)))]).1.catalog.freshness.rows 1).map
        (·.state) = some .fresh := by
  exact ⟨⟨_, repoliced_changedBetween (by decide), rfl⟩, by decide⟩

end Pgokf.Catalog
