import Mathlib.Data.Finset.Max
import Pgokf.Catalog.RowSteps

/-! # Lost relationship coverage holds back completions

A sync that supersedes the active publications of a bundle and activates none leaves evidence in its
freshness row, unless the row is retired. -/

namespace Pgokf.Catalog

open Lib

variable {b : BundleId} {c c' : State} {e : Entry Request CatalogError Reply} {txn : Txn}

variable {generation : Int}

theorem activateStaged_attempt {now : Instant} {publications : PublicationTable} {p : Publication}
    (hp : p ∈ publications.rows) (hattempt : p.attempts b generation = true) :
    (activateStaged now b generation publications).activated ≠ [] := by
  set attempts := (supersedeOutdated now b generation publications).rows.filter
    (·.attempts b generation) with hattempts
  have hmem : p ∈ attempts := by
    refine List.mem_filter.mpr ⟨?_, hattempt⟩
    simp only [Publication.attempts, Publication.isOf, Bool.and_eq_true, beq_iff_eq] at hattempt
    obtain ⟨⟨hbundle, hstaged⟩, hexpected⟩ := hattempt
    -- A staged publication of this generation is out of reach of both supersessions.
    refine SerialTable.mem_updateWhere_of_not (SerialTable.mem_updateWhere_of_not hp ?_) ?_
    · simp [Publication.isOf, hstaged]
    · simp [hexpected]
  obtain ⟨q, hq, hmax⟩ := attempts.toFinset.exists_max_image (·.publicationGeneration)
    ⟨p, List.mem_toFinset.mpr hmem⟩
  have hwins : q.wins attempts = true := by
    refine List.all_eq_true.mpr fun r hr => ?_
    simp [hmax r (List.mem_toFinset.mpr hr)]
  have hactivated : q.publicationId ∈ (activateStaged now b generation publications).activated :=
    List.mem_map_of_mem (List.mem_filter.mpr ⟨List.mem_toFinset.mp hq, hwins⟩)
  exact List.ne_nil_of_mem hactivated

def Op.syncs (b : BundleId) (c : State) : Op → Bool
  | .registerBundle _ => c.bundles.next == b
  | .syncBundle a _ => a == b
  | _ => false

def nextGeneration (c : State) (b : BundleId) : Int :=
  (c.bundles.rows b).elim 1 fun bundle => bundle.catalogGeneration + 1

/-- A sync of a retired bundle with an active publication and none staged for the next generation. -/
def Op.losesCoverageRetired (b : BundleId) (c : State) (op : Op) : Bool :=
  op.syncs b c && (c.freshness.rows b).any (fun row => row.state == .retired) &&
    hasCoverage c.publications b &&
    !c.publications.rows.any fun p => p.attempts b (nextGeneration c b)

def EvidenceStands (b : BundleId) (c : State) : Prop :=
  ∃ row, c.freshness.rows b = some row ∧ row.relationshipCoverageMissingSince.isSome

variable {input : SyncInput} {activation : Activation}

theorem syncedRows_evidence {rows : FreshnessRows} {bundles : BundleTable} (hb : (bundles b).isSome)
    (hlive : ∀ row, rows b = some row → row.state ≠ .retired)
    (hmissing : activation.coverageMissing = true) :
    ∃ row₁, syncedRows txn bundles rows b generation input activation b = some row₁ ∧
      row₁.relationshipCoverageMissingSince.isSome := by
  cases hrow : rows b with
  | some row =>
    obtain ⟨row₁, hrow₁, -, -, -, hevidence⟩ :=
      syncedRows_row txn bundles b generation input activation hrow
    exact ⟨row₁, hrow₁, hevidence rfl hmissing (hlive row hrow)⟩
  | none =>
    have hempty : activation.activated.isEmpty = true := by
      simp only [Activation.coverageMissing, Bool.and_eq_true] at hmissing
      exact hmissing.2
    obtain ⟨bundle, hbundle⟩ := Option.isSome_iff_exists.mp hb
    obtain ⟨row₀, hrow₀, hfresh⟩ : ∃ row₀, initializeBundle bundles txn.now rows b generation
        input.syncHash input.context b = some row₀ ∧ row₀.state = .fresh := by
      simp [initializeBundle, hbundle, hrow]
    obtain ⟨row₁, hrow₁, -, -, -, hevidence⟩ := markCoverageMissing_row bundles txn.now b hrow₀
    refine ⟨row₁, ?_, hevidence rfl (by simp [hfresh])⟩
    simp only [syncedRows, hempty, if_true, hmissing, hrow₁]

theorem syncTail_evidence (h : syncTail txn c b input = .ok (c', activation))
    (hmissing : activation.coverageMissing = true)
    (hlive : ∀ row, c.freshness.rows b = some row → row.state ≠ .retired) :
    EvidenceStands b c' := by
  obtain ⟨bundle, recorded, hbundle, -, -, -, -, -, -, hfreshness⟩ := syncTail_ok h
  set bundles := c.bundles.modify b ({ · with catalogGeneration := bundle.catalogGeneration + 1 })
  have hb : (bundles.rows b).isSome := by simp [bundles, modify_rows, hbundle]
  obtain ⟨row₁, hrow₁, hsome⟩ := syncedRows_evidence hb hlive hmissing
  obtain ⟨-, hmove⟩ := evaluateDependencies_evaluates (b := b) bundles.rows txn.now
    (syncEvent b recorded.2 (bundle.catalogGeneration + 1) input)
    { c.freshness with
      rows := syncedRows txn bundles.rows c.freshness.rows b (bundle.catalogGeneration + 1) input
        activation }
  obtain ⟨row', hrow', hevaluated⟩ := hmove row₁ hrow₁
  rw [← hfreshness] at hrow'
  exact ⟨row', hrow', hevaluated.coverage ▸ hsome⟩

theorem step_evidence (h : Step exec c e c') (hlost : e.result = .ok (.synced b true []))
    (hsafe : e.call.op.losesCoverageRetired b c = false) : EvidenceStands b c' := by
  -- The tail of the sync, run from a state that differs from `c` in the new bundle's row at most.
  have htail : ∀ {c₁ : State} {input activation}, c₁.freshness = c.freshness →
      c₁.publications = c.publications → nextGeneration c₁ b = nextGeneration c b →
      e.call.op.syncs b c = true → activation.hadCoverage = true → activation.activated = [] →
      syncTail e.call.txn c₁ b input = .ok (c', activation) → EvidenceStands b c' := by
    intro c₁ input activation hfreshness hpublications hnext hsyncs hhad hnone h
    obtain ⟨bundle, recorded, hbundle, -, hactivation, -⟩ := syncTail_ok h
    have hgeneration : nextGeneration c b = bundle.catalogGeneration + 1 := by
      rw [← hnext]
      simp [nextGeneration, hbundle]
    refine syncTail_evidence h (by simp [Activation.coverageMissing, hhad, hnone]) ?_
    intro row hrow hretired
    have hcoverage : hasCoverage c.publications b = true := by
      rw [hactivation, hpublications] at hhad
      exact hhad
    have hattempt : (c.publications.rows.any fun p => p.attempts b (nextGeneration c b)) = false := by
      refine List.any_eq_false.mpr fun p hp hattempt => ?_
      rw [hgeneration] at hattempt
      rw [hactivation, hpublications] at hnone
      exact activateStaged_attempt hp hattempt hnone
    rw [hfreshness] at hrow
    simp [Op.losesCoverageRetired, hsyncs, hrow, hretired, hcoverage, hattempt] at hsafe
  obtain ⟨reply, hreply, hdoes⟩ | ⟨⟨error, herror⟩, -⟩ := step_does h
  swap
  · simp [hlost] at herror
  have hsynced : Reply.synced b true [] = reply := Except.ok.inj (hlost.symm.trans hreply)
  obtain ⟨⟨txn, committedAt, op⟩, result⟩ := e
  cases hdoes with
  | registerBundle h =>
    obtain ⟨row, hgeneration, h⟩ := registerBundle_ok h
    obtain ⟨rfl, hhad, hnone⟩ := Reply.synced.inj hsynced
    have hfresh : c.bundles.rows c.bundles.next = none := by
      by_contra hne
      exact lt_irrefl _ (c.bundles.allocated _ (Option.isSome_iff_ne_none.mpr hne))
    refine htail (by rfl) (by rfl) ?_ (by simp [Op.syncs]) hhad.symm hnone.symm h
    simp [nextGeneration, BundleRegistry.add, hgeneration, hfresh]
  | syncBundle h =>
    obtain ⟨rfl, hhad, hnone⟩ := Reply.synced.inj hsynced
    exact htail rfl rfl rfl (by simp [Op.syncs]) hhad.symm hnone.symm (syncBundle_ok h)
  | _ => cases hsynced

theorem step_evidence_stands (h : Step exec c e c') (hstands : EvidenceStands b c)
    (hinactive : ∀ reply, e.result = .ok reply → reply.activates b = false)
    (hrepair : ∀ state reasons, e.call.op ≠ .repairBundleFreshness b state reasons) :
    EvidenceStands b c' ∨ Gone b c' := by
  obtain ⟨reply, hreply, hdoes⟩ | ⟨-, rfl⟩ := step_does h
  · by_cases hop : e.call.op = .unregisterBundle b
    · rw [hop] at hdoes
      exact .inr hdoes.gone
    · obtain ⟨row, hrow, hsome⟩ := hstands
      obtain ⟨-, row₁, row', hwrite, hrow', hevaluated⟩ := hdoes.moved hop hrow
      obtain hsome₁ | hactive | ⟨state, reasons, hop'⟩ := hwrite.coverage hsome
      · exact .inl ⟨row', hrow', hevaluated.coverage ▸ hsome₁⟩
      · simp [hinactive reply hreply] at hactive
      · exact absurd hop' (hrepair state reasons)
  · exact .inl hstands

/-- After a sync of `b` that superseded its active publications and activated none, not finding its
row retired, no completion of `b` succeeds before a publication of `b` has become active or `b` is
repaired. -/
theorem coverage_gate {c₁ c₂ c₃ c₄ : State} {sync complete : Entry Request CatalogError Reply}
    {es : Journal} {evidence : FreshEvidence}
    (hsync : Step exec c₁ sync c₂) (hlost : sync.result = .ok (.synced b true []))
    (hsafe : sync.call.op.losesCoverageRetired b c₁ = false)
    (hrun : CatalogRun c₂ es c₃)
    (hrepair : ∀ e ∈ es, ∀ state reasons, e.call.op ≠ .repairBundleFreshness b state reasons)
    (hcomplete : Step exec c₃ complete c₄) (hop : complete.call.op = .markFresh b evidence)
    (hok : complete.result = .ok (.completed true)) :
    ∃ e ∈ es, ∃ reply, e.result = .ok reply ∧ reply.activates b = true := by
  by_contra hnone
  have hinactive : ∀ e ∈ es, ∀ reply, e.result = .ok reply → reply.activates b = false := by
    intro e he reply hreply
    by_contra hactive
    exact hnone ⟨e, he, reply, hreply, by simpa using hactive⟩
  have hstands : EvidenceStands b c₃ ∨ Gone b c₃ := by
    refine hrun.history_invariant (P := fun es c => (∀ e ∈ es, ∀ reply, e.result = .ok reply →
      reply.activates b = false) → (∀ e ∈ es, ∀ state reasons,
        e.call.op ≠ .repairBundleFreshness b state reasons) → EvidenceStands b c ∨ Gone b c)
      (fun _ _ => .inl (step_evidence hsync hlost hsafe)) ?_ hinactive hrepair
    intro es c e c' ih hstep hinactive hrepair
    have hlast : e ∈ es ++ [e] := by simp
    obtain hstands | hgone := ih (fun e he => hinactive e (List.mem_append_left _ he))
      (fun e he => hrepair e (List.mem_append_left _ he))
    · exact step_evidence_stands hstep hstands (hinactive e hlast) (hrepair e hlast)
    · exact .inr (step_gone hstep hgone)
  obtain ⟨bundle, row, hbundle, hrow, hcompletes⟩ := step_completed hcomplete hop hok
  obtain ⟨row', hrow', hsome⟩ | hgone := hstands
  · obtain rfl : row' = row := Option.some.inj (hrow'.symm.trans hrow)
    simp only [FreshEvidence.completes, Bool.and_eq_true] at hcompletes
    simp [Option.isSome_iff_ne_none.mp hsome] at hcompletes
  · simp [hgone.1] at hbundle

def publication (publication token catalog : Int) : Op :=
  .replaceRelationships
    ⟨['p'], 1, publication, catalog, token, .ok (), fun _ => .ok ⟨['h'], 0⟩⟩

def covered : State :=
  (play exec .empty
    [.byAdmin 0 (.registerBundle ⟨[], [], .default⟩),
      .byAdmin 10 (.issueFence 1 ['p'] 5 1 none 60),
      .byAdmin 20 (publication 5 1 1)]).1

theorem coverage_gate_republished :
    let synced := (play exec covered [.byAdmin 30 (.syncBundle 1 ⟨[], [], .default⟩)]).1
    let republished := play exec synced
      [.byAdmin 40 (.issueFence 1 ['p'] 6 2 none 60), .byAdmin 50 (publication 6 2 2)]
    (play exec republished.1 [.byAdmin 60 (.markFresh 1 (freshAt 2))]).2.map (·.result) =
        [.ok (.completed true)] ∧
      ∃ e ∈ republished.2, ∃ reply, e.result = .ok reply ∧ reply.activates 1 = true := by
  intro synced republished
  have hsync : Step exec covered
      ⟨.byAdmin 30 (.syncBundle 1 ⟨[], [], .default⟩), .ok (.synced 1 true [])⟩ synced :=
    play_step (by decide)
  have hdone : (play exec republished.1 [.byAdmin 60 (.markFresh 1 (freshAt 2))]).2.map (·.result) =
      [.ok (.completed true)] := by decide
  have hrepair : ∀ e ∈ republished.2, ∀ state reasons,
      e.call.op ≠ .repairBundleFreshness 1 state reasons := by
    intro e he state reasons hop
    have hcall := List.mem_map_of_mem (f := Entry.call) he
    rw [play_calls] at hcall
    simp only [List.mem_cons, List.not_mem_nil, or_false] at hcall
    obtain hcall | hcall := hcall <;> rw [hcall] at hop <;> cases hop
  exact ⟨hdone, coverage_gate hsync rfl (by decide) (play_run exec synced _) hrepair
    (play_step hdone) rfl rfl⟩

/-- The sync of a retired bundle loses its coverage without evidence, and a later completion
succeeds. -/
theorem coverage_lost_while_retired :
    let retired := (play exec covered [.byAdmin 30 (.retireBundle 1)]).1
    let synced := (play exec retired [.byAdmin 40 (.syncBundle 1 ⟨[], [], .default⟩)]).1
    let restored := play exec synced
      [.byAdmin 50 (.unretireBundle 1), .byAdmin 60 (.markReconciling 1 none)]
    (play exec retired [.byAdmin 40 (.syncBundle 1 ⟨[], [], .default⟩)]).2.map (·.result) =
        [.ok (.synced 1 true [])] ∧
      restored.2.map (·.result) = [.ok .done, .ok (.token 0)] ∧
      (play exec restored.1 [.byAdmin 70 (.markFresh 1 (freshAt 4))]).2.map (·.result) =
        [.ok (.completed true)] := by
  decide

end Pgokf.Catalog
