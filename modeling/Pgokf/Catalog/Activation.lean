import Pgokf.Catalog.CoverageGate
import Pgokf.Catalog.PublicationRetry

/-! # How a publication comes to be staged or active

A row that is not superseded stood there before the call, was activated by a sync, or is new. -/

namespace Pgokf.Catalog

open Lib

variable {now : Instant} {b : BundleId} {t : PublicationTable} {p p' : Publication} {generation : Int}
  {key : FenceKey} {c c' : State} {txn : Txn} {op : Op} {reply : Reply}

/-! ### Activation -/

theorem mem_supersede {q : Publication → Bool}
    {hq : ∀ p : Publication, (p.superseded now).publicationId = p.publicationId}
    (h : p ∈ (t.updateWhere q (·.superseded now) hq).rows) (hlive : p.state ≠ .superseded) :
    p ∈ t.rows ∧ q p = false := by
  rcases SerialTable.mem_updateWhere.mp h with h | ⟨r, -, -, rfl⟩
  · exact h
  · exact absurd rfl hlive

theorem mem_supersedeOutdated (h : p ∈ (supersedeOutdated now b generation t).rows)
    (hlive : p.state ≠ .superseded) : p ∈ t.rows ∧ (p.sourceBundleId = some b →
      p.state = .staged ∧ generation ≤ p.expectedCatalogGeneration) := by
  obtain ⟨h, houtdated⟩ := mem_supersede h hlive
  obtain ⟨h, hactive⟩ := mem_supersede h hlive
  refine ⟨h, fun hb => ?_⟩
  simp only [Publication.isOf, hb, beq_self_eq_true, Bool.true_and, beq_eq_false_iff_ne,
    Bool.and_eq_false_iff,
    decide_eq_false_iff_not, Int.not_lt] at hactive houtdated
  cases hstate : p.state with
  | staged => exact ⟨rfl, houtdated.resolve_left fun hne => hne hstate⟩
  | active => exact absurd hstate hactive
  | superseded => exact absurd hstate hlive

structure Newest (t : PublicationTable) (b : BundleId) (generation : Int) (p : Publication) : Prop where
  mem : p ∈ t.rows
  bundle : p.sourceBundleId = some b
  staged : p.state = .staged
  expected : p.expectedCatalogGeneration = generation
  newest : ∀ q ∈ t.rows, q.attempts b generation = true → q.tenantId = p.tenantId →
    q.producer = p.producer → q.publicationGeneration ≤ p.publicationGeneration

theorem attempts_iff : p.attempts b generation = true ↔
    p.sourceBundleId = some b ∧ p.state = .staged ∧ p.expectedCatalogGeneration = generation := by
  simp [Publication.attempts, Publication.isOf, and_assoc]

theorem mem_outdated_of_attempts (hp : p ∈ t.rows) (h : p.attempts b generation = true) :
    p ∈ (supersedeOutdated now b generation t).rows := by
  obtain ⟨-, hstaged, hexpected⟩ := attempts_iff.mp h
  refine SerialTable.mem_updateWhere_of_not (SerialTable.mem_updateWhere_of_not hp ?_) ?_
  · simp [Publication.isOf, hstaged]
  · simp [hexpected]

theorem Newest.attempts (h : Newest t b generation p) :
    p.attempts b generation = true := attempts_iff.mpr ⟨h.bundle, h.staged, h.expected⟩

theorem Newest.generation_eq {q : Publication} (h : Newest t b generation p)
    (h' : Newest t b generation q)
    (hp : p.isAt key) (hq : q.isAt key) : p.publicationGeneration = q.publicationGeneration :=
  le_antisymm (h'.newest p h.mem h.attempts (hp.1.trans hq.1.symm) (hp.2.1.trans hq.2.1.symm))
    (h.newest q h'.mem h'.attempts (hq.1.trans hp.1.symm) (hq.2.1.trans hp.2.1.symm))

theorem activateStaged_live (h : p' ∈ (activateStaged now b generation t).publications.rows)
    (hlive : p'.state ≠ .superseded) (hb : p'.sourceBundleId = some b) :
    (p' ∈ t.rows ∧ p'.state = .staged ∧ generation < p'.expectedCatalogGeneration) ∨
      ∃ p, Newest t b generation p ∧ p' = p.activated now generation := by
  rcases SerialTable.mem_updateWhere.mp
    (List.mem_filter.mp h).1 with ⟨h, hother⟩ | ⟨q, hq, hattempt, rfl⟩
  · obtain ⟨hmem, hstaged⟩ := mem_supersedeOutdated h hlive
    obtain ⟨hstate, hle⟩ := hstaged hb
    refine .inl ⟨hmem, hstate, lt_of_le_of_ne hle ?_⟩
    rintro rfl
    rw [attempts_iff.mpr ⟨hb, hstate, rfl⟩] at hother
    cases hother
  · by_cases hwins : q.wins
      ((supersedeOutdated now b generation t).rows.filter (·.attempts b generation)) = true
    · rw [if_pos hwins]
      refine .inr ⟨q, ?_, rfl⟩
      obtain ⟨hbundle, hstaged, hexpected⟩ := attempts_iff.mp hattempt
      obtain ⟨hmem, -⟩ := mem_supersedeOutdated hq (by rw [hstaged]; decide)
      refine ⟨hmem, hbundle, hstaged, hexpected, fun r hr hrattempt htenant hproducer => ?_⟩
      have hr' := List.all_eq_true.mp hwins r
        (List.mem_filter.mpr ⟨mem_outdated_of_attempts hr hrattempt, hrattempt⟩)
      simpa [htenant, hproducer] using hr'
    · rw [if_neg hwins] at hlive
      exact absurd rfl hlive

theorem activateStaged_other (h : p ∈ (activateStaged now b generation t).publications.rows)
    (hb : p.sourceBundleId ≠ some b) : p ∈ t.rows := by
  rcases SerialTable.mem_updateWhere.mp (List.mem_filter.mp h).1 with ⟨h, -⟩ | ⟨q, -, hattempt, rfl⟩
  · rcases SerialTable.mem_updateWhere.mp h with ⟨h, -⟩ | ⟨q, -, hstaged, rfl⟩
    · rcases SerialTable.mem_updateWhere.mp h with ⟨h, -⟩ | ⟨q, -, hactive, rfl⟩
      · exact h
      · simp only [Publication.isOf, Bool.and_eq_true, beq_iff_eq] at hactive
        exact absurd hactive.1 hb
    · simp only [Publication.isOf, Bool.and_eq_true, beq_iff_eq] at hstaged
      exact absurd hstaged.1.1 hb
  · obtain ⟨hbundle, -⟩ := attempts_iff.mp hattempt
    split at hb <;> exact absurd hbundle hb

variable {write : RelationshipWrite} {fence : Fence} {set : CanonicalSet} {activate : Bool}

theorem publish_live {rows : FreshnessRows}
    (h : p ∈ (publish now key write fence set activate t rows).publications.rows)
    (hlive : p.state ≠ .superseded) :
    p = newPublication now key write fence set activate t.next ∨
      p ∈ t.rows ∧ (activate = true → p.isAt key → p.state ≠ .active) := by
  cases activate with
  | false =>
    rcases List.mem_append.mp h with h | h
    · exact .inr ⟨h, fun hfalse => absurd hfalse Bool.false_ne_true⟩
    · exact .inl (List.mem_singleton.mp h)
  | true =>
    rcases List.mem_append.mp (List.mem_filter.mp h).1 with h | h
    · change p ∈ (supersedeActive now key t).rows at h
      obtain ⟨h, hother⟩ := mem_supersede h hlive
      refine .inr ⟨h, fun _ hat hactive => ?_⟩
      simp [Publication.isOf, hat.1, hat.2.1, hat.2.2, hactive] at hother
    · exact .inl (List.mem_singleton.mp h)

variable {expected current : Int}

theorem activationMode_eq_true (h : activationMode expected current = .ok true) :
    expected = current := by
  unfold activationMode at h
  split at h
  · assumption
  · split at h <;> cases h

theorem activationMode_eq_false (h : activationMode expected current = .ok false) :
    expected = current + 1 := by
  unfold activationMode at h
  split at h
  · cases h
  · split at h
    · assumption
    · cases h

theorem newPublication_state {id : Int} :
    (newPublication now key write fence set activate id).state =
      (if activate then .active else .staged) := by
  cases activate <;> rfl

inductive LedgerStep (c : State) (txn : Txn) (op : Op) (t : PublicationTable) : Prop where
  | same : (∀ b, op.syncs b c = false) → t = c.publications → LedgerStep c txn op t
  | sync {b : BundleId} : (∀ a, op.syncs a c = true ↔ a = b) →
      t = (activateStaged txn.now b (nextGeneration c b) c.publications).publications →
        LedgerStep c txn op t
  | depart {b : BundleId} : op = .unregisterBundle b →
      t = pruneAgedDetachedSuperseded txn.now (detachPublications b c.publications) →
        LedgerStep c txn op t
  | write {write : RelationshipWrite} {checked : CheckedWrite} : op = .replaceRelationships write →
      checkedWrite txn c.bundles.rows c.fences write = .ok checked →
      existingPublication c.publications checked.key write.publicationGeneration = none →
      t = (publish txn.now checked.key write checked.fence checked.set checked.activate c.publications
        c.freshness.rows).publications → LedgerStep c txn op t

theorem next_unregistered (c : State) : c.bundles.rows c.bundles.next = none := by
  by_contra hne
  exact lt_irrefl _ (c.bundles.allocated _ (Option.isSome_iff_ne_none.mpr hne))

theorem Does.ledgerStep (h : Does c txn op c' reply) : LedgerStep c txn op c'.publications := by
  cases h with
  | registerBundle h =>
    obtain ⟨row, hrow, h⟩ := registerBundle_ok h
    obtain ⟨bundle, recorded, hbundle, -, rfl, -, -, hpublications, -⟩ := syncTail_ok h
    refine .sync (b := c.bundles.next) (fun a => beq_iff_eq.trans eq_comm) ?_
    obtain rfl : row = bundle := by simpa [BundleRegistry.add] using hbundle
    rw [hpublications, nextGeneration, next_unregistered, hrow]
    rfl
  | syncBundle h =>
    obtain ⟨bundle, recorded, hbundle, -, rfl, -, -, hpublications, -⟩ := syncTail_ok (syncBundle_ok h)
    refine .sync (fun a => beq_iff_eq.trans eq_comm) ?_
    rw [hpublications, nextGeneration, hbundle]
    rfl
  | setBundleEnabled h | retireBundle h | unretireBundle h =>
    obtain ⟨bundle, recorded, -, -, -, -, hpublications, -⟩ := changeBundle_ok h
    exact .same (fun b => rfl) hpublications
  | unregisterBundle h =>
    obtain ⟨bundle, recorded, -, -, rfl⟩ := unregisterBundle_ok h
    exact .depart rfl rfl
  | replaceRelationships h =>
    obtain ⟨checked, hchecked, h⟩ := bind_eq_ok.mp h
    rcases answerWrite_ok h with ⟨existing, -, -, rfl⟩ | ⟨hnone, rfl⟩
    · exact .same (fun b => rfl) rfl
    · exact .write rfl hchecked hnone rfl
  | _ => exact .same (fun b => rfl) rfl

inductive Live (key : FenceKey) (c : State) (txn : Txn) (op : Op) (c' : State) : Publication → Prop where
  | kept {p : Publication} : p ∈ c.publications.rows →
      (op.syncs key.bundleId c = true →
        p.state = .staged ∧ nextGeneration c key.bundleId < p.expectedCatalogGeneration) →
      (p.state = .active → ∀ q ∈ c'.publications.rows, q.isAt key → q.state = .active →
        q ∈ c.publications.rows) → Live key c txn op c' p
  | won {p : Publication} : op.syncs key.bundleId c = true →
      Newest c.publications key.bundleId (nextGeneration c key.bundleId) p →
      Live key c txn op c' (p.activated txn.now (nextGeneration c key.bundleId))
  | written {write : RelationshipWrite} {checked : CheckedWrite} : op = .replaceRelationships write →
      checkedWrite txn c.bundles.rows c.fences write = .ok checked → checked.key = key →
      existingPublication c.publications key write.publicationGeneration = none →
      Live key c txn op c' (newPublication txn.now key write checked.fence checked.set checked.activate
        c.publications.next)

/-- Where no live row of the key is new and the key's bundle is not synced. -/
theorem Live.of_old
    (hold : ∀ q ∈ c'.publications.rows, q.isAt key → q.state ≠ .superseded → q ∈ c.publications.rows)
    (hsync : op.syncs key.bundleId c ≠ true) (hp : p ∈ c'.publications.rows) (hat : p.isAt key)
    (hlive : p.state ≠ .superseded) : Live key c txn op c' p :=
  .kept (hold p hp hat hlive) (fun h => absurd h hsync) fun _ q hq hqat hqactive =>
    hold q hq hqat (by rw [hqactive]; decide)

theorem Does.live_at (h : Does c txn op c' reply) (hp : p ∈ c'.publications.rows) (hat : p.isAt key)
    (hlive : p.state ≠ .superseded) : Live key c txn op c' p := by
  cases h.ledgerStep with
  | same hsyncs hsame =>
    refine .of_old (fun q hq _ _ => hsame ▸ hq) ?_ hp hat hlive
    rw [hsyncs]
    decide
  | sync hsyncs hstep =>
    rename_i b
    by_cases hb : key.bundleId = b
    · subst hb
      rw [hstep] at hp
      have hsync : op.syncs key.bundleId c = true := (hsyncs _).mpr rfl
      rcases activateStaged_live hp hlive hat.2.2 with ⟨hp, hstaged, hlater⟩ | ⟨q, hq, rfl⟩
      · refine .kept hp (fun _ => ⟨hstaged, hlater⟩) fun hactive => ?_
        rw [hstaged] at hactive
        cases hactive
      · exact .won hsync hq
    · refine .of_old (fun q hq hqat _ => ?_) (fun hsync => hb ((hsyncs _).mp hsync)) hp hat hlive
      rw [hstep] at hq
      refine activateStaged_other hq fun hqb => hb ?_
      exact Option.some.inj (hqat.2.2.symm.trans hqb)
  | depart hop hstep =>
    refine .of_old (fun q hq hqat _ => ?_) (by rw [hop]; exact Bool.false_ne_true) hp hat hlive
    rw [hstep] at hq
    rcases SerialTable.mem_updateWhere.mp (List.mem_filter.mp hq).1 with ⟨hq, -⟩ | ⟨r, -, -, rfl⟩
    · exact hq
    · cases hqat.2.2
  | write hop hchecked hnone hstep =>
    rename_i write checked
    have hsync : op.syncs key.bundleId c ≠ true := by
      rw [hop]
      exact Bool.false_ne_true
    by_cases hkey : checked.key = key
    · subst hkey
      rw [hstep] at hp
      rcases publish_live hp hlive with rfl | ⟨hp, hquiet⟩
      · exact .written hop hchecked rfl hnone
      refine .kept hp (fun h => absurd h hsync) fun hactive q hq hqat hqactive => ?_
      rw [hstep] at hq
      rcases publish_live hq (by rw [hqactive]; decide) with rfl | ⟨hq, -⟩
      · -- The new row is active, so the write has superseded the one that was.
        cases hactivate : checked.activate with
        | true => exact absurd hactive (hquiet hactivate hat)
        | false =>
          rw [newPublication, hactivate] at hqactive
          cases hqactive
      · exact hq
    · refine .of_old (fun q hq hqat hqlive => ?_) hsync hp hat hlive
      rw [hstep] at hq
      rcases publish_live hq hqlive with rfl | ⟨hq, -⟩
      · exact absurd (isAt_unique ⟨rfl, rfl, rfl⟩ hqat) hkey
      · exact hq

def Op.movesLifecycle : Op → Bool
  | .setBundleEnabled _ _ | .retireBundle _ | .unretireBundle _ => true
  | _ => false

structure GenerationStep (b : BundleId) (c : State) (op : Op) (bundle bundle' : BundleRow) : Prop where
  tenant : bundle'.tenantId = bundle.tenantId
  le : bundle.catalogGeneration ≤ bundle'.catalogGeneration
  synced : op.syncs b c = true → bundle'.catalogGeneration = bundle.catalogGeneration + 1
  same : op.syncs b c = false → op.movesLifecycle = false → bundle' = bundle

variable {bundle : BundleRow}

theorem GenerationStep.refl (h : op.syncs b c = false) :
    GenerationStep b c op bundle bundle := by
  refine ⟨rfl, le_refl _, fun hsync => ?_, fun _ _ => rfl⟩
  rw [h] at hsync
  cases hsync

theorem changeBundle_generationStep {a : BundleId} {change : BundleRow → BundleRow}
    {transition : Option BundleTransition} {operation : ChangeOperation}
    (h : changeBundle txn c a change transition operation = .ok c')
    (hchange : ∀ row, (change row).tenantId = row.tenantId) (hop : ∀ b, op.syncs b c = false)
    (hmoves : op.movesLifecycle = true) (hbundle : c.bundles.rows b = some bundle) :
    ∃ bundle', c'.bundles.rows b = some bundle' ∧ GenerationStep b c op bundle bundle' := by
  obtain ⟨row, recorded, hrow, -, hbundles, -⟩ := changeBundle_ok h
  rw [hbundles, modify_rows]
  split
  next hba =>
    subst hba
    obtain rfl := Option.some.inj (hrow.symm.trans hbundle)
    refine ⟨{ change row with catalogGeneration := row.catalogGeneration + 1 }, by rw [hrow]; rfl,
      hchange row, Int.le_of_lt (Int.lt_succ _), fun hsync => ?_, fun _ hstill => ?_⟩
    · rw [hop] at hsync
    · rw [hmoves] at hstill
      cases hstill
  next => exact ⟨bundle, hbundle, .refl (hop b)⟩

theorem Does.generationStep (h : Does c txn op c' reply) (hop : op ≠ .unregisterBundle b)
    (hbundle : c.bundles.rows b = some bundle) :
    ∃ bundle', c'.bundles.rows b = some bundle' ∧ GenerationStep b c op bundle bundle' := by
  cases h with
  | registerBundle h =>
    obtain ⟨row, -, h⟩ := registerBundle_ok h
    obtain ⟨_, recorded, -, -, -, hbundles, -⟩ := syncTail_ok h
    have hne : b ≠ c.bundles.next := by
      rintro rfl
      rw [next_unregistered] at hbundle
      cases hbundle
    refine ⟨bundle, ?_, .refl (beq_eq_false_iff_ne.mpr hne.symm)⟩
    rw [hbundles, modify_rows, if_neg hne]
    simpa [BundleRegistry.add, hne] using hbundle
  | syncBundle h =>
    obtain ⟨row, recorded, hrow, -, -, hbundles, -⟩ := syncTail_ok (syncBundle_ok h)
    rw [hbundles, modify_rows]
    split
    next hba =>
      subst hba
      obtain rfl := Option.some.inj (hrow.symm.trans hbundle)
      refine ⟨{ row with catalogGeneration := row.catalogGeneration + 1 }, by rw [hrow]; rfl, rfl,
        Int.le_of_lt (Int.lt_succ _), fun _ => rfl, fun hother => ?_⟩
      simp [Op.syncs] at hother
    next hba => exact ⟨bundle, hbundle, .refl (beq_eq_false_iff_ne.mpr (Ne.symm hba))⟩
  | setBundleEnabled h | retireBundle h | unretireBundle h =>
    exact changeBundle_generationStep h (fun _ => rfl) (fun _ => rfl) rfl hbundle
  | unregisterBundle h =>
    obtain ⟨_, recorded, -, -, rfl⟩ := unregisterBundle_ok h
    rename_i a _
    have hne : b ≠ a := by
      rintro rfl
      exact hop rfl
    exact ⟨bundle, by simp [BundleRegistry.drop, hne, hbundle], .refl rfl⟩
  | _ => exact ⟨bundle, hbundle, .refl rfl⟩

theorem Does.registered_at (h : Does c txn op c' reply) (hp : p ∈ c'.publications.rows)
    (hat : p.isAt key) :
    (∃ q ∈ c.publications.rows, q.isAt key) ∨
      (c.bundles.rows key.bundleId).isSome ∧ op ≠ .unregisterBundle key.bundleId := by
  rcases h.publications with hrenews | ⟨write, checked, published, rfl, hchecked, -, rfl, hrows, -⟩
  · obtain ⟨q, hq, hd⟩ := hrenews.back p hp
    exact .inl ⟨q, hq, hd.isAt hat⟩
  · rw [hrows] at hp
    rcases (publish_adds rfl).back p hp with hd | ⟨q, hq, hd⟩
    · obtain ⟨bundle, hbundle, hcheckedKey, -⟩ := checkedWrite_ok hchecked
      have hsource : some checked.key.bundleId = some key.bundleId := (hd.isAt hat).2.2
      rw [hcheckedKey] at hsource
      refine .inr ⟨?_, by rintro ⟨⟩⟩
      rw [← Option.some.inj hsource]
      simp [hbundle]
    · exact .inl ⟨q, hq, hd.isAt hat⟩

theorem Does.registered (h : Does c txn op c' reply)
    (hbefore : ∀ p ∈ c.publications.rows, p.isAt key → (c.bundles.rows key.bundleId).isSome) :
    ∀ p ∈ c'.publications.rows, p.isAt key → (c'.bundles.rows key.bundleId).isSome := by
  intro p hp hat
  have hop : op ≠ .unregisterBundle key.bundleId := by
    rintro rfl
    exact (not_isAt_of_unregistered h).1 p hp hat
  have hstood : (c.bundles.rows key.bundleId).isSome := by
    rcases h.registered_at hp hat with ⟨q, hq, hqat⟩ | ⟨hstood, -⟩
    · exact hbefore q hq hqat
    · exact hstood
  obtain ⟨bundle, hbundle⟩ := Option.isSome_iff_exists.mp hstood
  obtain ⟨bundle', hbundle', -⟩ := h.generationStep hop hbundle
  simp [hbundle']

end Pgokf.Catalog
