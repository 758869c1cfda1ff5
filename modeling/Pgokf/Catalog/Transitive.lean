import Pgokf.Catalog.Freshness

/-! # Transitive invalidation reaches every dependent exactly once -/

namespace Pgokf.Catalog

open Lib

variable {bundles : BundleTable} {now : Instant} {f : Freshness} {a b : BundleId} {row : FreshnessRow}
  {roots : List BundleId} {causationKey : Option Text}

theorem updateRow_self (rows : FreshnessRows) (b : BundleId) (p : FreshnessRow → Bool)
    (g : FreshnessRow → FreshnessRow) :
    updateRow rows b p g b = (rows b).map fun row => if p row then g row else row := by
  simp [updateRow]

theorem updateRow_other (rows : FreshnessRows) (p : FreshnessRow → Bool)
    (g : FreshnessRow → FreshnessRow) (h : a ≠ b) : updateRow rows b p g a = rows a := by
  simp [updateRow, h]

theorem setBundleState_other (bundles : BundleTable) (now : Instant) (rows : FreshnessRows)
    (state : FreshnessState) (reasons : List Text) (producer observed : Option Text) (h : a ≠ b) :
    setBundleState bundles now rows b state reasons producer observed a = rows a := by
  cases hb : bundles b with
  | none => simp [setBundleState, hb]
  | some bundle =>
    cases hrow : rows b with
    | none => simp [setBundleState, hb, hrow, h]
    | some row =>
      simp only [setBundleState, hb, hrow]
      exact updateRow_other _ _ _ h

theorem setBundleState_self {rows : FreshnessRows} (hb : (bundles b).isSome) (hrow : rows b = some row)
    (now : Instant) (state : FreshnessState) (reasons : List Text) (producer observed : Option Text) :
    setBundleState bundles now rows b state reasons producer observed b =
      some (if row.notRetired then row.entered now state reasons producer observed else row) := by
  obtain ⟨bundle, hbundle⟩ := Option.isSome_iff_exists.mp hb
  simp only [setBundleState, hbundle, hrow, updateRow_self, Option.map_some]

theorem invalidate_other (bundles : BundleTable) (now : Instant) (f : Freshness) (h : a ≠ b) :
    (invalidateDependentBundle bundles now f b).rows a = f.rows a := by
  simp only [invalidateDependentBundle]
  rw [updateRow_other _ _ _ h, setBundleState_other _ _ _ _ _ _ _ h]

theorem invalidate_self (hb : (bundles b).isSome) (hrow : f.rows b = some row)
    (hlive : row.state ≠ .retired) : ∃ row',
      (invalidateDependentBundle bundles now f b).rows b = some row' ∧ row'.state = .stale ∧
        row'.dependencyInvalidationEpoch = row.dependencyInvalidationEpoch + 1 := by
  have hnot : row.notRetired = true := by simpa [FreshnessRow.notRetired] using hlive
  refine ⟨{ row.entered now .stale [reasonSourceChanged] none none with
    dependencyInvalidationEpoch := row.dependencyInvalidationEpoch + 1 }, ?_, rfl, rfl⟩
  simp only [invalidateDependentBundle, updateRow_self, setBundleState_self hb hrow, hnot]
  rfl

@[simp] theorem invalidate_dependencies (bundles : BundleTable) (now : Instant) (f : Freshness)
    (b : BundleId) : (invalidateDependentBundle bundles now f b).dependencies = f.dependencies := rfl

theorem foldl_invalidate_dependencies (bundles : BundleTable) (now : Instant) (f : Freshness)
    (found : List BundleId) :
    (found.foldl (invalidateDependentBundle bundles now) f).dependencies = f.dependencies := by
  induction found generalizing f with
  | nil => rfl
  | cons c found ih => rw [List.foldl_cons, ih, invalidate_dependencies]

variable {found : List BundleId}

theorem foldl_invalidate_other (bundles : BundleTable) (now : Instant) (f : Freshness) (h : b ∉ found) :
    (found.foldl (invalidateDependentBundle bundles now) f).rows b = f.rows b := by
  induction found generalizing f with
  | nil => rfl
  | cons c found ih =>
    obtain ⟨hc, hrest⟩ := List.ne_and_not_mem_of_not_mem_cons h
    rw [List.foldl_cons, ih _ hrest, invalidate_other _ _ _ hc]

theorem foldl_invalidate_self (hnodup : found.Nodup) (hmem : b ∈ found) (hb : (bundles b).isSome)
    (hrow : f.rows b = some row) (hlive : row.state ≠ .retired) : ∃ row',
      (found.foldl (invalidateDependentBundle bundles now) f).rows b = some row' ∧
        row'.state = .stale ∧
        row'.dependencyInvalidationEpoch = row.dependencyInvalidationEpoch + 1 := by
  obtain ⟨before, after, rfl⟩ := List.append_of_mem hmem
  obtain ⟨-, htail, hsep⟩ := List.nodup_append.mp hnodup
  have hbefore : b ∉ before := fun h => hsep b h b List.mem_cons_self rfl
  have hafter : b ∉ after := (List.nodup_cons.mp htail).1
  rw [List.foldl_append, List.foldl_cons, foldl_invalidate_other _ _ _ hafter]
  exact invalidate_self hb ((foldl_invalidate_other bundles now f hbefore).trans hrow) hlive

/- One bundle depends on another through an enabled bundle-scope edge the key does not silence. -/
def InvalidationEdge (dependencies : List Dependency) (causationKey : Option Text)
    (a b : BundleId) : Prop :=
  ∃ d ∈ dependencies, d.sourceBundleId = a ∧ d.targetBundleId = b ∧ d.bundleEdge = true ∧
    d.suppressed causationKey = false

def InvalidationReaches (dependencies : List Dependency) (causationKey : Option Text)
    (roots : List BundleId) (b : BundleId) : Prop :=
  ∃ r ∈ roots, Relation.ReflTransGen (InvalidationEdge dependencies causationKey) r b

theorem transitiveWalk_edge (bundles : BundleTable) (now : Instant) (dependencies : List Dependency)
    (causationKey : Option Text) :
    (transitiveWalk bundles now dependencies causationKey).Edge =
      InvalidationEdge dependencies causationKey := by
  funext a b
  simp only [WalkSpec.Edge, transitiveWalk, InvalidationEdge, List.mem_filter, Bool.and_eq_true,
    beq_iff_eq, Bool.not_eq_true', eq_iff_iff]
  constructor
  · rintro ⟨d, ⟨hd, hsource, hedge⟩, hfollow, rfl⟩
    exact ⟨d, hd, hsource, rfl, hedge, hfollow⟩
  · rintro ⟨d, hd, hsource, rfl, hedge, hfollow⟩
    exact ⟨d, ⟨hd, hsource, hedge⟩, hfollow, rfl⟩

theorem reached_isBundleTarget {dependencies : List Dependency}
    (h : InvalidationReaches dependencies causationKey roots b) (hb : b ∉ roots) :
    ∃ d ∈ dependencies, d.bundleEdge = true ∧ d.targetBundleId = b := by
  obtain ⟨r, hr, hpath⟩ := h
  obtain rfl | ⟨c, -, d, hd, -, htarget, hedge, -⟩ := Relation.ReflTransGen.cases_tail hpath
  · exact absurd hr hb
  · exact ⟨d, hd, hedge, htarget⟩

variable {visited : Finset BundleId}

theorem escalate_visited (h : b ∈ visited) (now : Instant) (f : Freshness) :
    (escalateBlanketInvalidation now visited f).rows b = f.rows b := by
  simp [escalateBlanketInvalidation, h]

theorem escalate_target (h : b ∉ visited) (htarget : isBundleTarget f.dependencies.rows b = true)
    (hrow : f.rows b = some row) (hlive : row.state ≠ .retired) : ∃ row',
      (escalateBlanketInvalidation now visited f).rows b = some row' ∧ row'.state = .stale ∧
        row'.dependencyInvalidationEpoch = row.dependencyInvalidationEpoch + 1 := by
  have hnot : row.notRetired = true := by simpa [FreshnessRow.notRetired] using hlive
  simp [escalateBlanketInvalidation, hrow, hnot, h, htarget]

/-- The loop of `propagate_transitive` stops, and every bundle it has to reach that is not retired
is stale with the next epoch, by the walk or by the escalation. The first hypothesis is the foreign
key of `pgokf.freshness_dependency`. -/
theorem propagateTransitive_complete (bundles : BundleTable) (now : Instant) (f : Freshness)
    (roots : List BundleId) (causationKey : Option Text)
    (hforeign : ∀ d ∈ f.dependencies.rows, (bundles d.targetBundleId).isSome)
    (hrows : ∀ b, (bundles b).isSome → (f.rows b).isSome) :
    (∃ n, let walk := fun m => (transitiveWalk bundles now f.dependencies.rows causationKey).iterate m
            (Walk.start roots f)
      (walk n).running = false ∧ (∀ m, n ≤ m → walk m = walk n) ∧
        propagateTransitive bundles now roots causationKey f =
          if (walk n).truncated then
            escalateBlanketInvalidation now (walk n).visited (walk n).store
          else (walk n).store) ∧
    ∀ b, b ∉ roots → InvalidationReaches f.dependencies.rows causationKey roots b →
      ∃ row, f.rows b = some row ∧ (row.state ≠ .retired →
        ∃ row', (propagateTransitive bundles now roots causationKey f).rows b = some row' ∧
          row'.state = .stale ∧
          row'.dependencyInvalidationEpoch = row.dependencyInvalidationEpoch + 1) := by
  set W := transitiveWalk bundles now f.dependencies.rows causationKey with hW
  refine ⟨⟨roots.length + W.cap, WalkSpec.run_stops W roots f, ?_, rfl⟩, ?_⟩
  · exact fun m hm => WalkSpec.iterate_stable (WalkSpec.run_stops W roots f) hm
  intro b hb hreach
  obtain ⟨d, hd, hedge, htarget⟩ := reached_isBundleTarget hreach hb
  have hregistered : (bundles b).isSome := htarget ▸ hforeign d hd
  obtain ⟨row, hrow⟩ := Option.isSome_iff_exists.mp (hrows b hregistered)
  refine ⟨row, hrow, fun hlive => ?_⟩
  obtain ⟨found, hnodup, hstore, hvisited, hfound⟩ := WalkSpec.run_found W roots f
  have hfound_iff : b ∈ (W.run roots f).visited ↔ b ∈ found := by simp [hvisited, hb]
  have hvisit : W.visit = invalidateDependentBundle bundles now := rfl
  rw [hvisit] at hstore
  have hreach' : W.Reached roots b := by
    simpa only [WalkSpec.Reached, InvalidationReaches, hW, transitiveWalk_edge] using hreach
  unfold propagateTransitive
  rw [← hW]
  by_cases htr : (W.run roots f).truncated = true
  · rw [if_pos htr]
    by_cases hmem : b ∈ found
    · rw [escalate_visited (hfound_iff.mpr hmem), hstore]
      exact foldl_invalidate_self hnodup hmem hregistered hrow hlive
    · -- The walk stopped before it met `b`, so its row is still the one before the call.
      refine escalate_target (fun h => hmem (hfound_iff.mp h)) ?_ ?_ hlive
      · rw [hstore, foldl_invalidate_dependencies]
        exact List.any_eq_true.mpr ⟨d, hd, by simp [hedge, htarget]⟩
      · rw [hstore, foldl_invalidate_other _ _ _ hmem, hrow]
  · rw [if_neg htr, hstore]
    have hmem := hfound_iff.mp (WalkSpec.run_complete (by simpa using htr) hreach')
    exact foldl_invalidate_self hnodup hmem hregistered hrow hlive

def cyclicGraph : Freshness :=
  let edge (id source target : Int) : Dependency :=
    ⟨id, [], ['p'], true, none, source, .bundle, [], 0, none, target, .bundle⟩
  { rows := fun b =>
      if 1 ≤ b ∧ b ≤ 3 then some (.inserted 0 .fresh [] none none) else none
    scopes := fun _ => none
    dependencies :=
      ⟨[edge 1 1 2, edge 2 2 2, edge 3 2 3, edge 4 3 1], 5, by decide, by decide⟩
    raised := fun _ => 0 }

theorem propagateTransitive_complete_cyclic :
    ∃ row', (propagateTransitive (fun b => if 1 ≤ b ∧ b ≤ 3 then some ⟨[], true, none, 1⟩ else none)
        10 [1] none cyclicGraph).rows 3 = some row' ∧
      row'.state = .stale ∧ row'.dependencyInvalidationEpoch = 1 := by
  have hreach : InvalidationReaches cyclicGraph.dependencies.rows none [1] 3 := by
    refine ⟨1, by simp, Relation.ReflTransGen.head (b := 2) ?_ (.single ?_)⟩
    · exact ⟨_, List.mem_cons_self, by decide⟩
    · exact ⟨_, List.mem_cons_of_mem _ (List.mem_cons_of_mem _ List.mem_cons_self), by decide⟩
  obtain ⟨row, hrow, hlive⟩ := (propagateTransitive_complete
    (fun b => if 1 ≤ b ∧ b ≤ 3 then some ⟨[], true, none, 1⟩ else none) 10 cyclicGraph [1] none
    (by decide) (fun b h => by by_cases hb : 1 ≤ b ∧ b ≤ 3 <;> simp_all [cyclicGraph])).2
    3 (by decide) hreach
  obtain rfl : FreshnessRow.inserted 0 .fresh [] none none = row := Option.some.inj hrow
  exact hlive (by decide)

end Pgokf.Catalog
