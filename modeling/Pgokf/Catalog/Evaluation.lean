import Pgokf.Catalog.Dependencies
import Pgokf.Catalog.Transitive

/-! # What the evaluation of dependencies does to the row of a bundle

Its parts raise invalidations and move the epoch of a row that is not retired by their number. -/

namespace Pgokf.Catalog

open Lib

variable {bundles : BundleTable} {now : Instant} {f f' f'' : Freshness} {a b : BundleId}
  {row row' : FreshnessRow}

structure EvaluatedRow (n : Nat) (row row' : FreshnessRow) : Prop where
  retired : row.state = .retired → row' = row
  live : row.state ≠ .retired → row'.state ≠ .retired ∧
    row'.dependencyInvalidationEpoch = row.dependencyInvalidationEpoch + n
  coverage : row'.relationshipCoverageMissingSince = row.relationshipCoverageMissingSince

structure Evaluates (b : BundleId) (f f' : Freshness) : Prop where
  raised_le : f.raised b ≤ f'.raised b
  row : ∀ row, f.rows b = some row →
    ∃ row', f'.rows b = some row' ∧ EvaluatedRow (f'.raised b - f.raised b) row row'

theorem EvaluatedRow.refl (row : FreshnessRow) : EvaluatedRow 0 row row :=
  ⟨fun _ => rfl, fun h => ⟨h, by simp⟩, rfl⟩

theorem EvaluatedRow.trans {row'' : FreshnessRow} {n m : Nat} (h₁ : EvaluatedRow n row row')
    (h₂ : EvaluatedRow m row' row'') : EvaluatedRow (n + m) row row'' where
  retired := by
    intro h
    obtain rfl := h₁.retired h
    exact h₂.retired h
  live := by
    intro h
    obtain ⟨hlive, hepoch⟩ := h₁.live h
    obtain ⟨hlive', hepoch'⟩ := h₂.live hlive
    exact ⟨hlive', by rw [hepoch', hepoch]; push_cast; omega⟩
  coverage := h₂.coverage.trans h₁.coverage

theorem Evaluates.of_eq (hrow : f'.rows b = f.rows b) (hraised : f'.raised b = f.raised b) :
    Evaluates b f f' := by
  refine ⟨hraised ▸ le_rfl, fun row h => ⟨row, hrow.trans h, ?_⟩⟩
  rw [hraised, Nat.sub_self]
  exact .refl row

theorem Evaluates.refl (b : BundleId) (f : Freshness) : Evaluates b f f := .of_eq rfl rfl

theorem Evaluates.trans (h₁ : Evaluates b f f') (h₂ : Evaluates b f' f'') : Evaluates b f f'' where
  raised_le := h₁.raised_le.trans h₂.raised_le
  row := by
    intro row hrow
    obtain ⟨row', hrow', hmove⟩ := h₁.row row hrow
    obtain ⟨row'', hrow'', hmove'⟩ := h₂.row row' hrow'
    have hsum := Nat.sub_add_sub_cancel h₂.raised_le h₁.raised_le
    refine ⟨row'', hrow'', ?_⟩
    rw [← hsum, Nat.add_comm]
    exact hmove.trans hmove'

theorem foldl_evaluates {σ α : Type} (g : σ → Freshness) {step : σ → α → σ}
    (hstep : ∀ s x, Evaluates b (g s) (g (step s x))) (l : List α) (s : σ) :
    Evaluates b (g s) (g (l.foldl step s)) := by
  induction l generalizing s with
  | nil => exact .refl b (g s)
  | cons x l ih => exact (hstep s x).trans (ih (step s x))

variable {rows : FreshnessRows}

theorem updateRow_cases (a : BundleId) (p : FreshnessRow → Bool) (g : FreshnessRow → FreshnessRow)
    (hrow : rows b = some row) : ∃ row',
      updateRow rows a p g b = some row' ∧ (row' = row ∨ b = a ∧ p row = true ∧ row' = g row) := by
  by_cases hab : b = a
  · subst hab
    refine ⟨_, by rw [updateRow_self, hrow, Option.map_some], ?_⟩
    split
    · rename_i hp
      exact .inr ⟨rfl, hp, rfl⟩
    · exact .inl rfl
  · exact ⟨row, by rw [updateRow_other _ _ _ hab, hrow], .inl rfl⟩

theorem setBundleState_cases (bundles : BundleTable) (now : Instant) (a : BundleId)
    (state : FreshnessState)
    (reasons : List Text) (producer observed : Option Text) (hrow : rows b = some row) : ∃ row',
      setBundleState bundles now rows a state reasons producer observed b = some row' ∧
        (row' = row ∨
          b = a ∧ row.state ≠ .retired ∧ row' = row.entered now state reasons producer observed) := by
  by_cases hab : b = a
  · subst hab
    cases hb : bundles b with
    | none => exact ⟨row, by simp [setBundleState, hb, hrow], .inl rfl⟩
    | some bundle =>
      rw [setBundleState_self (by simp [hb]) hrow]
      refine ⟨_, rfl, ?_⟩
      split
      · rename_i hlive
        exact .inr ⟨rfl, by simpa [FreshnessRow.notRetired] using hlive, rfl⟩
      · exact .inl rfl
  · exact ⟨row, by rw [setBundleState_other _ _ _ _ _ _ _ hab, hrow], .inl rfl⟩

theorem setBundleState_evaluated (bundles : BundleTable) (now : Instant) (a : BundleId)
    {state : FreshnessState}
    (hstate : state ≠ .retired) (reasons : List Text) (producer observed : Option Text)
    (hrow : rows b = some row) :
    ∃ row',
      setBundleState bundles now rows a state reasons producer observed b = some row' ∧
        EvaluatedRow 0 row row' := by
  obtain ⟨row', hrow', rfl | ⟨-, hlive, rfl⟩⟩ :=
    setBundleState_cases bundles now a state reasons producer observed hrow
  · exact ⟨row', hrow', .refl row'⟩
  · refine ⟨_, hrow', fun h => absurd h hlive, fun _ => ⟨hstate, ?_⟩, rfl⟩
    simp [FreshnessRow.entered]

theorem invalidate_evaluates (bundles : BundleTable) (now : Instant) (f : Freshness) (a : BundleId) :
    Evaluates b f (invalidateDependentBundle bundles now f a) := by
  by_cases hab : b = a
  · subst hab
    have hraised : (invalidateDependentBundle bundles now f b).raised b = f.raised b + 1 := by
      simp [invalidateDependentBundle]
    refine ⟨by omega, fun row hrow => ?_⟩
    have hstale : FreshnessState.stale ≠ .retired := by decide
    obtain ⟨row₁, hrow₁, hmove⟩ :=
      setBundleState_evaluated bundles now b hstale [reasonSourceChanged] none none hrow
    refine ⟨if row₁.notRetired then
      { row₁ with dependencyInvalidationEpoch := row₁.dependencyInvalidationEpoch + 1 }
        else row₁, ?_, ?_⟩
    · simp only [invalidateDependentBundle, updateRow_self, hrow₁, Option.map_some]
    · rw [hraised, Nat.add_sub_cancel_left]
      refine (Nat.zero_add 1 ▸ hmove.trans ?_ : EvaluatedRow 1 row _)
      by_cases hlive : row₁.state = .retired
      · rw [if_neg (by simp [FreshnessRow.notRetired, hlive])]
        exact ⟨fun _ => rfl, fun h => absurd hlive h, rfl⟩
      · rw [if_pos (by simp [FreshnessRow.notRetired, hlive])]
        exact ⟨fun h => absurd h hlive, fun _ => ⟨hlive, rfl⟩, rfl⟩
  · refine .of_eq (invalidate_other _ _ _ hab) ?_
    simp [invalidateDependentBundle, hab]

theorem escalate_evaluates (now : Instant) (visited : Finset BundleId) (f : Freshness) :
    Evaluates b f (escalateBlanketInvalidation now visited f) := by
  by_cases htarget : b ∉ visited ∧ isBundleTarget f.dependencies.rows b = true
  · have hraised : (escalateBlanketInvalidation now visited f).raised b = f.raised b + 1 := by
      simp only [escalateBlanketInvalidation, if_pos htarget]
    refine ⟨by omega, fun row hrow => ?_⟩
    simp only [escalateBlanketInvalidation, hrow, Option.map_some, if_pos htarget,
      Nat.add_sub_cancel_left]
    refine ⟨_, rfl, ?_⟩
    by_cases hlive : row.state = .retired
    · simp only [FreshnessRow.notRetired, hlive, bne_self_eq_false, Bool.false_and]
      exact ⟨fun _ => rfl, fun h => absurd hlive h, rfl⟩
    · have hnot : row.notRetired = true := by simpa [FreshnessRow.notRetired] using hlive
      simp only [hnot, decide_eq_true htarget.1, htarget.2, Bool.and_true, if_true]
      exact ⟨fun h => absurd h hlive, fun _ => ⟨by simp, rfl⟩, rfl⟩
  · refine .of_eq ?_ ?_
    · have hnone : (decide (b ∉ visited) && isBundleTarget f.dependencies.rows b) = false := by
        simpa [Classical.not_and_iff_not_or_not] using htarget
      simp only [escalateBlanketInvalidation, Bool.and_assoc, hnone, Bool.and_false]
      exact Option.map_id'
    · simp only [escalateBlanketInvalidation, if_neg htarget]

theorem propagate_evaluates (bundles : BundleTable) (now : Instant) (roots : List BundleId)
    (causationKey : Option Text) (f : Freshness) :
    Evaluates b f (propagateTransitive bundles now roots causationKey f) := by
  obtain ⟨found, -, hstore, -⟩ :=
    WalkSpec.run_found (transitiveWalk bundles now f.dependencies.rows causationKey) roots f
  have hwalk : Evaluates b f
      ((transitiveWalk bundles now f.dependencies.rows causationKey).run roots f).store := by
    rw [hstore]
    exact foldl_evaluates id (invalidate_evaluates bundles now) found f
  unfold propagateTransitive
  dsimp only
  split
  · exact hwalk.trans (escalate_evaluates _ _ _)
  · exact hwalk

theorem invalidateTarget_evaluates (bundles : BundleTable) (now : Instant) (f : Freshness)
    (d : Dependency) : Evaluates b f (invalidateRegisteredTarget bundles now f d).1 := by
  unfold invalidateRegisteredTarget
  split
  · exact invalidate_evaluates _ _ _ _
  · exact .of_eq rfl rfl

theorem evaluateDependency_evaluates (bundles : BundleTable) (now : Instant) (event : EvaluatedEvent)
    (acc : Freshness × List BundleId) (d : Dependency) :
    Evaluates b acc.1 (evaluateDependency bundles now event acc d).1 := by
  have hstale : FreshnessState.stale ≠ .retired := by decide
  unfold evaluateDependency
  dsimp only
  split
  · exact .of_eq rfl rfl
  · split
    · refine Evaluates.trans ?_ (invalidateTarget_evaluates bundles now _ d)
      refine ⟨le_rfl, fun row hrow => ?_⟩
      obtain ⟨row', hrow', hmove⟩ := setBundleState_evaluated bundles now event.sourceBundleId hstale
        [reasonScopeUnknown] none none hrow
      exact ⟨row', hrow', by simpa using hmove⟩
    · split
      · refine Evaluates.trans ?_ (invalidateTarget_evaluates bundles now _ d)
        exact .of_eq rfl rfl
      · exact .of_eq rfl rfl

theorem evaluateDependencies_evaluates (bundles : BundleTable) (now : Instant)
    (event : EvaluatedEvent) (f : Freshness) :
    Evaluates b f (evaluateDependencies bundles now event f) := by
  refine Evaluates.trans ?_ (propagate_evaluates _ _ _ _ _)
  exact foldl_evaluates Prod.fst (evaluateDependency_evaluates bundles now event) _ (f, [])

theorem invalidateDeparting_evaluates (bundles : BundleTable) (now : Instant)
    (dependents : List Dependency) (f : Freshness) :
    Evaluates b f (invalidateDepartingDependents bundles now dependents f) := by
  refine Evaluates.trans ?_ (propagate_evaluates _ _ _ _ _)
  exact foldl_evaluates id (invalidateTarget_evaluates bundles now) dependents f

theorem invalidateTarget_dependencies (bundles : BundleTable) (now : Instant) (f : Freshness)
    (d : Dependency) : (invalidateRegisteredTarget bundles now f d).1.dependencies = f.dependencies := by
  unfold invalidateRegisteredTarget
  split <;> rfl

def isBundleSource (dependencies : List Dependency) (a : BundleId) : Bool :=
  dependencies.any fun d => d.bundleEdge && d.sourceBundleId == a

theorem foldl_invalidate_raised (bundles : BundleTable) (now : Instant) (f : Freshness)
    {found : List BundleId} (h : b ∉ found) :
    (found.foldl (invalidateDependentBundle bundles now) f).raised b = f.raised b := by
  induction found generalizing f with
  | nil => rfl
  | cons a found ih =>
    obtain ⟨ha, hrest⟩ := List.ne_and_not_mem_of_not_mem_cons h
    rw [List.foldl_cons, ih _ hrest]
    simp [invalidateDependentBundle, ha]

/-- The walk starts nowhere without roots, and reaches only targets of bundle-scope dependencies. -/
theorem propagate_raised {roots : List BundleId} {causationKey : Option Text}
    (h : (propagateTransitive bundles now roots causationKey f).raised b ≠ f.raised b) :
    roots ≠ [] ∧ isBundleTarget f.dependencies.rows b = true := by
  set W := transitiveWalk bundles now f.dependencies.rows causationKey with hW
  have hunfold : propagateTransitive bundles now roots causationKey f =
      if (W.run roots f).truncated then
        escalateBlanketInvalidation now (W.run roots f).visited (W.run roots f).store
      else (W.run roots f).store := rfl
  constructor
  · rintro rfl
    have hstart : W.run [] f = Walk.start [] f := WalkSpec.iterate_of_not_running rfl _
    rw [hunfold, hstart] at h
    exact h rfl
  · obtain ⟨found, -, hstore, -, hfound⟩ := WalkSpec.run_found W roots f
    have hdependencies : (W.run roots f).store.dependencies = f.dependencies := by
      rw [hstore]
      exact foldl_invalidate_dependencies bundles now f found
    by_cases hmem : b ∈ found
    · obtain ⟨hroot, hreach⟩ := hfound b hmem
      have hreach' : InvalidationReaches f.dependencies.rows causationKey roots b := by
        simpa only [WalkSpec.Reached, InvalidationReaches, hW, transitiveWalk_edge] using hreach
      obtain ⟨d, hd, hedge, htarget⟩ := reached_isBundleTarget hreach' hroot
      exact List.any_eq_true.mpr ⟨d, hd, by simp [hedge, htarget]⟩
    · have hwalk : (W.run roots f).store.raised b = f.raised b := by
        rw [hstore]
        exact foldl_invalidate_raised bundles now f hmem
      rw [hunfold] at h
      by_contra hnot
      split at h
      · simp [escalateBlanketInvalidation, hdependencies, hnot, hwalk] at h
      · exact h hwalk

structure CausedBy (ds : List Dependency) (b : BundleId) (s s' : Freshness × List BundleId) : Prop where
  roots : s'.2 = s.2 ∨ ∃ d ∈ ds, d.target = .bundle
  raised : s'.1.raised b = s.1.raised b ∨ ∃ d ∈ ds, d.target = .bundle ∧ d.targetBundleId = b
  target : isBundleTarget s'.1.dependencies.rows b = isBundleTarget s.1.dependencies.rows b

theorem advanceWatermark_target (event : EvaluatedEvent) (id : Int) (dependencies : DependencyTable) :
    isBundleTarget (advanceWatermark event id dependencies).rows b =
      isBundleTarget dependencies.rows b := by
  simp only [isBundleTarget, advanceWatermark, SerialTable.updateWhere_rows, List.any_map]
  congr 1
  funext d
  simp only [Function.comp_apply]
  split <;> rfl

theorem evaluateDependency_causedBy (bundles : BundleTable) (now : Instant) (event : EvaluatedEvent)
    (s : Freshness × List BundleId) (d : Dependency) :
    CausedBy [d] b s (evaluateDependency bundles now event s d) := by
  have hskip : ∀ f : Freshness, f.raised = s.1.raised →
      f.dependencies = advanceWatermark event d.id s.1.dependencies → CausedBy [d] b s (f, s.2) := by
    intro f hraised hdependencies
    refine ⟨.inl rfl, .inl (by rw [hraised]), ?_⟩
    rw [hdependencies, advanceWatermark_target]
  have htake : ∀ f : Freshness, f.raised = s.1.raised →
      f.dependencies = advanceWatermark event d.id s.1.dependencies → CausedBy [d] b s
        ((invalidateRegisteredTarget bundles now f d).1,
          if (invalidateRegisteredTarget bundles now f d).2 then s.2 ++
            [d.targetBundleId] else s.2) := by
    intro f hraised hdependencies
    cases htarget : d.target with
    | bundle =>
      simp only [invalidateRegisteredTarget, htarget]
      refine ⟨.inr ⟨d, by simp, htarget⟩, ?_, ?_⟩
      · by_cases hb : d.targetBundleId = b
        · exact .inr ⟨d, by simp, htarget, hb⟩
        · refine .inl ?_
          simp [invalidateDependentBundle, Ne.symm hb, hraised]
      · simp only [invalidate_dependencies]
        rw [hdependencies, advanceWatermark_target]
    | scope kind key =>
      simp only [invalidateRegisteredTarget, htarget]
      exact hskip _ hraised hdependencies
  unfold evaluateDependency
  dsimp only
  split
  · exact hskip _ rfl rfl
  · split
    · exact htake _ rfl rfl
    · split
      · exact htake _ rfl rfl
      · exact hskip _ rfl rfl

theorem foldl_causedBy (bundles : BundleTable) (now : Instant) (event : EvaluatedEvent)
    (ds : List Dependency) (s : Freshness × List BundleId) :
    CausedBy ds b s (ds.foldl (evaluateDependency bundles now event) s) := by
  induction ds generalizing s with
  | nil => exact ⟨.inl rfl, .inl rfl, rfl⟩
  | cons d ds ih =>
    have hhead : CausedBy [d] b s (evaluateDependency bundles now event s d) :=
      evaluateDependency_causedBy bundles now event s d
    have hrest := ih (evaluateDependency bundles now event s d)
    rw [List.foldl_cons]
    refine ⟨?_, ?_, hrest.target.trans hhead.target⟩
    · obtain h | ⟨d', hd', h⟩ := hrest.roots
      · exact (hhead.roots.imp h.trans) fun ⟨d', hd', h⟩ => ⟨d', by simp_all, h⟩
      · exact .inr ⟨d', List.mem_cons_of_mem _ hd', h⟩
    · obtain h | ⟨d', hd', h⟩ := hrest.raised
      · exact (hhead.raised.imp h.trans) fun ⟨d', hd', h⟩ => ⟨d', by simp_all, h⟩
      · exact .inr ⟨d', List.mem_cons_of_mem _ hd', h⟩

theorem evaluateDependencies_raised {event : EvaluatedEvent}
    (h : (evaluateDependencies bundles now event f).raised b ≠ f.raised b) :
    isBundleSource f.dependencies.rows event.sourceBundleId = true ∧
      isBundleTarget f.dependencies.rows b = true := by
  set selected := f.dependencies.rows.filter event.selects with hselected
  have hedge : ∀ d ∈ selected, d.target = .bundle → d ∈ f.dependencies.rows ∧ d.bundleEdge = true ∧
      d.sourceBundleId = event.sourceBundleId := by
    intro d hd htarget
    obtain ⟨hmem, hsel⟩ := List.mem_filter.mp hd
    simp only [EvaluatedEvent.selects, Bool.and_eq_true, beq_iff_eq] at hsel
    exact ⟨hmem, by simp [Dependency.bundleEdge, htarget, hsel.1.2], hsel.1.1⟩
  have hcause : CausedBy selected b (f, []) _ := foldl_causedBy bundles now event selected (f, [])
  set evaluated := selected.foldl (evaluateDependency bundles now event) (f, [])
  have hsource : (∃ d ∈ selected, d.target = .bundle) →
      isBundleSource f.dependencies.rows event.sourceBundleId = true := by
    rintro ⟨d, hd, htarget⟩
    obtain ⟨hmem, hbundle, hsrc⟩ := hedge d hd htarget
    exact List.any_eq_true.mpr ⟨d, hmem, by simp [hbundle, hsrc]⟩
  -- either the loop itself raised the invalidation, or the walk from its roots did
  obtain hraised | ⟨d, hd, htarget, rfl⟩ := hcause.raised
  · have hwalk : (propagateTransitive bundles now evaluated.2 event.causationKey evaluated.1).raised b ≠
        evaluated.1.raised b := hraised ▸ h
    obtain ⟨hroots, htarget⟩ := propagate_raised hwalk
    exact ⟨hsource (hcause.roots.resolve_left hroots), hcause.target ▸ htarget⟩
  · obtain ⟨hmem, hbundle, -⟩ := hedge d hd htarget
    exact ⟨hsource ⟨d, hd, htarget⟩, List.any_eq_true.mpr ⟨d, hmem, by simp [hbundle]⟩⟩

theorem foldl_invalidateTarget_causedBy (bundles : BundleTable) (now : Instant) (f : Freshness)
    (ds : List Dependency) :
    let f' := ds.foldl (fun f d => (invalidateRegisteredTarget bundles now f d).1) f
    f'.dependencies = f.dependencies ∧
      (f'.raised b = f.raised b ∨ ∃ d ∈ ds, d.target = .bundle ∧ d.targetBundleId = b) := by
  induction ds generalizing f with
  | nil => exact ⟨rfl, .inl rfl⟩
  | cons d ds ih =>
    obtain ⟨hdependencies, hraised⟩ := ih (invalidateRegisteredTarget bundles now f d).1
    refine ⟨hdependencies.trans (invalidateTarget_dependencies bundles now f d), ?_⟩
    obtain hraised | ⟨d', hd', htarget⟩ := hraised
    · by_cases hb : d.target = .bundle ∧ d.targetBundleId = b
      · exact .inr ⟨d, List.mem_cons_self, hb⟩
      · refine .inl (hraised.trans ?_)
        unfold invalidateRegisteredTarget
        split
        · have hne : b ≠ d.targetBundleId := fun h => hb ⟨‹_›, h.symm⟩
          simp [invalidateDependentBundle, hne]
        · rfl
    · exact .inr ⟨d', List.mem_cons_of_mem _ hd', htarget⟩

theorem invalidateDeparting_raised
    (h : (invalidateDepartingDependents bundles now (departingDependents f.dependencies.rows a)
      (f.dropBundle a)).raised b ≠ f.raised b) :
    isBundleSource f.dependencies.rows a = true ∧ isBundleTarget f.dependencies.rows b = true := by
  set dependents := departingDependents f.dependencies.rows a
  have hedge : ∀ d ∈ dependents, d.target = .bundle →
      d ∈ f.dependencies.rows ∧ d.bundleEdge = true ∧ d.sourceBundleId = a := by
    intro d hd htarget
    obtain ⟨hmem, hsel⟩ := List.mem_filter.mp hd
    simp only [Bool.and_eq_true, beq_iff_eq] at hsel
    exact ⟨hmem, by simp [Dependency.bundleEdge, htarget, hsel.2], hsel.1⟩
  have hsource : ∀ d ∈ dependents, d.target = .bundle → isBundleSource f.dependencies.rows a = true := by
    intro d hd htarget
    obtain ⟨hmem, hbundle, hsrc⟩ := hedge d hd htarget
    exact List.any_eq_true.mpr ⟨d, hmem, by simp [hbundle, hsrc]⟩
  obtain ⟨hdependencies, hraised | ⟨d, hd, htarget, rfl⟩⟩ :=
    foldl_invalidateTarget_causedBy (b := b) bundles now (f.dropBundle a) dependents
  · obtain ⟨hroots, htarget⟩ := propagate_raised (fun heq => h (heq.trans hraised))
    constructor
    · obtain ⟨b', hb'⟩ := List.exists_mem_of_ne_nil _ hroots
      obtain ⟨d, hd, -⟩ := List.mem_map.mp hb'
      obtain ⟨hd, htarget⟩ := List.mem_filter.mp hd
      exact hsource d hd (by simpa using htarget)
    · rw [hdependencies] at htarget
      obtain ⟨d, hd, hmatch⟩ := List.any_eq_true.mp htarget
      exact List.any_eq_true.mpr ⟨d, (List.mem_filter.mp hd).1, hmatch⟩
  · obtain ⟨hmem, hbundle, -⟩ := hedge d hd htarget
    exact ⟨hsource d hd htarget, List.any_eq_true.mpr ⟨d, hmem, by simp [hbundle]⟩⟩

end Pgokf.Catalog
