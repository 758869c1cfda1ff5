import Pgokf.Catalog.RowSteps

/-! # The compare-and-set completion and the invalidations it must see

A token claims the epoch of its bundle, and a completion compares the two. An invalidation that
meets a retired row leaves the epoch alone. -/

namespace Pgokf.Catalog

open Lib

variable {b : BundleId} {c c' : State} {e : Entry Request CatalogError Reply}

/-- The call evaluates the dependents of a bundle with an outgoing bundle-scope dependency, and `b`,
whose row is retired, has an incoming one. -/
def Op.exposes (b : BundleId) (c : State) (op : Op) : Bool :=
  (op.source c).any (isBundleSource c.freshness.dependencies.rows) &&
    isBundleTarget c.freshness.dependencies.rows b &&
    (c.freshness.rows b).any fun row => op.findsRetired b row

def ShelteredStep (b : BundleId) (c : State) (e : Entry Request CatalogError Reply) (c' : State) :
    Prop :=
  Step exec c e c' ∧ e.call.op.exposes b c = false

def Counts (b : BundleId) (k : Int) (r : Nat) (c : State) : Prop :=
  r ≤ c.freshness.raised b ∧ ∃ row, c.freshness.rows b = some row ∧
    row.dependencyInvalidationEpoch = k + (c.freshness.raised b - r : Nat)

theorem Moved.epoch {op : Op} {reply : Reply} {row : FreshnessRow} {txn : Txn}
    (hmoved : Moved b c op reply c' row) (hdoes : Does c txn op c' reply)
    (hrow : c.freshness.rows b = some row) (hsafe : op.exposes b c = false) :
    ∃ row', c'.freshness.rows b = some row' ∧ row'.dependencyInvalidationEpoch =
      row.dependencyInvalidationEpoch + (c'.freshness.raised b - c.freshness.raised b : Nat) := by
  obtain ⟨hle, row₁, row', hwrite, hrow', hevaluated⟩ := hmoved
  refine ⟨row', hrow', ?_⟩
  by_cases hretired : row₁.state = .retired
  · -- A retired row keeps its epoch, and by hypothesis nothing was raised against it.
    have hraised : c'.freshness.raised b = c.freshness.raised b := by
      by_contra hne
      obtain ⟨a, hsource, hout, hin⟩ := hdoes.raised hne
      have hfinds := hwrite.retired (by simp [hsource]) hretired
      simp [Op.exposes, hsource, hout, hin, hrow, hfinds] at hsafe
    rw [hevaluated.retired hretired, hwrite.epoch, hraised]
    simp
  · rw [(hevaluated.live hretired).2, hwrite.epoch]

theorem ShelteredStep.counts {k : Int} {r : Nat} (h : ShelteredStep b c e c')
    (hcounts : Counts b k r c ∨ Gone b c) : Counts b k r c' ∨ Gone b c' := by
  obtain ⟨hstep, hsafe⟩ := h
  obtain ⟨hle, row, hrow, hepoch⟩ | hgone := hcounts
  · obtain ⟨reply, -, hdoes⟩ | ⟨-, rfl⟩ := step_does hstep
    · by_cases hop : e.call.op = .unregisterBundle b
      · rw [hop] at hdoes
        exact .inr hdoes.gone
      · have hmoved := hdoes.moved hop hrow
        obtain ⟨row', hrow', hepoch'⟩ := hmoved.epoch hdoes hrow hsafe
        have hle' := hmoved.1
        refine .inl ⟨hle.trans hle', row', hrow', ?_⟩
        rw [hepoch', hepoch]
        omega
    · exact .inl ⟨hle, row, hrow, hepoch⟩
  · exact .inr (step_gone hstep hgone)

theorem step_token {producer : Option Text} {token : Int} (h : Step exec c e c')
    (hop : e.call.op = .markReconciling b producer) (htoken : e.result = .ok (.token token)) :
    Counts b token (c'.freshness.raised b) c' := by
  obtain ⟨reply, hreply, hdoes⟩ | ⟨⟨error, herror⟩, -⟩ := step_does h
  · rw [hop] at hdoes
    rw [htoken] at hreply
    cases hreply
    cases hdoes with
    | markReconciling h =>
      simp only [markReconciling, bind_eq_ok, orRefuse_eq_ok, pure_eq_ok, Prod.mk.injEq] at h
      obtain ⟨-, -, row, hrow, rfl, rfl⟩ := h
      refine ⟨le_rfl, { row with claimedInvalidationEpoch := row.dependencyInvalidationEpoch }, ?_, ?_⟩
      · simp [updateRow_self, hrow]
      · simp
  · rw [htoken] at herror
    cases herror

/-- No invalidation was raised against the bundle between the claim of a token and a completion with
it, where no call may raise one while the row is retired. -/
theorem no_false_clear {c₁ c₂ c₃ c₄ : State} {claim complete : Entry Request CatalogError Reply}
    {es : Journal} {producer : Option Text} {evidence : FreshEvidence}
    (hclaim : Step exec c₁ claim c₂) (hop : claim.call.op = .markReconciling b producer)
    (htoken : claim.result = .ok (.token evidence.claimedInvalidationEpoch))
    (hrun : Run (ShelteredStep b) c₂ es c₃) (hcomplete : Step exec c₃ complete c₄)
    (hop' : complete.call.op = .markFresh b evidence)
    (hok : complete.result = .ok (.completed true)) :
    c₃.freshness.raised b = c₂.freshness.raised b := by
  obtain ⟨bundle, row, hbundle, hrow, hcompletes⟩ := step_completed hcomplete hop' hok
  have hepoch : row.dependencyInvalidationEpoch ≤ evidence.claimedInvalidationEpoch := by
    simp only [FreshEvidence.completes, Bool.and_eq_true, decide_eq_true_eq] at hcompletes
    exact hcompletes.1.1.1.2
  have hcounts : Counts b evidence.claimedInvalidationEpoch (c₂.freshness.raised b) c₃ ∨ Gone b c₃ :=
    hrun.invariant (.inl (step_token hclaim hop htoken)) fun s e t hinv hstep => hstep.counts hinv
  obtain ⟨hle, row', hrow', hcount⟩ | hgone := hcounts
  · obtain rfl : row' = row := Option.some.inj (hrow'.symm.trans hrow)
    omega
  · simp [hgone.1] at hbundle

def dependentBundles : State :=
  (play exec .empty
    [.byAdmin 0 (.registerBundle ⟨[], [], .default⟩),
      .byAdmin 0 (.registerBundle ⟨[], [], .default⟩),
      .byAdmin 0 (.registerDependency
        { producer := ['p'], sourceBundleId := 1, selectorKind := .bundle, selectorValue := [],
          targetBundleId := 2, target := .bundle, causationKey := none })]).1

def reconciling : State := (play exec dependentBundles [.byAdmin 10 (.markReconciling 2 none)]).1

theorem no_false_clear_resynced :
    let synced := (play exec reconciling [.byAdmin 20 (.syncBundle 2 ⟨[], [], .default⟩)]).1
    (play exec synced [.byAdmin 30 (.markFresh 2 (freshAt 2))]).2.map (·.result) =
        [.ok (.completed true)] ∧
      synced.freshness.raised 2 = reconciling.freshness.raised 2 := by
  have hclaim : Step exec dependentBundles ⟨.byAdmin 10 (.markReconciling 2 none), .ok (.token 0)⟩
      reconciling := play_step (by decide)
  have hsync : ShelteredStep 2 reconciling
      ⟨.byAdmin 20 (.syncBundle 2 ⟨[], [], .default⟩), .ok (.synced 2 false [])⟩
      (play exec reconciling [.byAdmin 20 (.syncBundle 2 ⟨[], [], .default⟩)]).1 :=
    ⟨play_step (by decide), by decide⟩
  have hdone : (play exec (play exec reconciling [.byAdmin 20 (.syncBundle 2 ⟨[], [], .default⟩)]).1
      [.byAdmin 30 (.markFresh 2 (freshAt 2))]).2.map (·.result) = [.ok (.completed true)] := by
    decide
  exact ⟨hdone, no_false_clear hclaim rfl rfl ((Run.start _).snoc hsync) (play_step hdone) rfl rfl⟩

/-- The source changes while the dependent is retired: once it is restored, the old token completes. -/
theorem false_clear_while_retired :
    let restored := (play exec reconciling
      [.byAdmin 20 (.retireBundle 2), .byAdmin 30 (.syncBundle 1 ⟨[], [], .default⟩),
        .byAdmin 40 (.unretireBundle 2)]).1
    (play exec dependentBundles [.byAdmin 10 (.markReconciling 2 none)]).2.map (·.result) =
        [.ok (.token (freshAt 3).claimedInvalidationEpoch)] ∧
      (play exec restored [.byAdmin 50 (.markFresh 2 (freshAt 3))]).2.map (·.result) =
        [.ok (.completed true)] ∧
      restored.freshness.raised 2 = reconciling.freshness.raised 2 + 1 := by
  decide

end Pgokf.Catalog
