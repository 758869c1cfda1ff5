import Pgokf.Catalog.Steps
import Pgokf.Catalog.RelationshipSet

/-! # What becomes of a publication

It keeps its identity and set hash, and leaves the ledger of its key when its bundle is unregistered
or when it has been superseded for more than 30 days. -/

namespace Pgokf.Catalog

open Lib

variable {now : Instant} {gone : Option BundleId} {t t' t'' : PublicationTable} {p p' p'' : Publication}
  {key : FenceKey}

/-- One row of the ledger at two instants; `gone` is the bundle that leaves the catalog, if one
does. -/
structure Descends (now : Instant) (gone : Option BundleId) (p p' : Publication) : Prop where
  publicationId : p'.publicationId = p.publicationId
  tenantId : p'.tenantId = p.tenantId
  producer : p'.producer = p.producer
  generation : p'.publicationGeneration = p.publicationGeneration
  setHash : p'.relationshipSetHash = p.relationshipSetHash
  bundle : p'.sourceBundleId = p.sourceBundleId ∨ gone.isSome ∧ p.sourceBundleId = gone ∧
    p'.sourceBundleId = none
  updatedAt : p'.updatedAt = p.updatedAt ∨ p'.updatedAt = now

theorem Descends.refl (now : Instant) (gone : Option BundleId) (p : Publication) :
    Descends now gone p p :=
  ⟨rfl, rfl, rfl, rfl, rfl, .inl rfl, .inl rfl⟩

theorem Descends.trans (h : Descends now gone p p') (h' : Descends now gone p' p'') :
    Descends now gone p p'' where
  publicationId := h'.publicationId.trans h.publicationId
  tenantId := h'.tenantId.trans h.tenantId
  producer := h'.producer.trans h.producer
  generation := h'.generation.trans h.generation
  setHash := h'.setHash.trans h.setHash
  bundle := by
    rcases h.bundle with hsame | ⟨hsome, hgone, hnone⟩
    · rw [← hsame]
      exact h'.bundle
    · rcases h'.bundle with hsame' | ⟨-, -, hnone'⟩
      · exact .inr ⟨hsome, hgone, hsame'.trans hnone⟩
      · exact .inr ⟨hsome, hgone, hnone'⟩
  updatedAt := by
    rcases h'.updatedAt with hsame | hnow
    · rw [hsame]
      exact h.updatedAt
    · exact .inr hnow

theorem Descends.aged (h : Descends now gone p p') (haged : p'.updatedAt < now - days 30) :
    p.updatedAt < now - days 30 := by
  rcases h.updatedAt with hsame | hnow
  · exact hsame ▸ haged
  · rw [hnow] at haged
    exact absurd haged (Int.not_lt.mpr (Int.sub_le_self now (by decide)))

/-- Every row of the later table is one of the earlier, and only aged rows are lost. -/
structure Renews (now : Instant) (gone : Option BundleId) (t t' : PublicationTable) : Prop where
  back : ∀ p' ∈ t'.rows, ∃ p ∈ t.rows, Descends now gone p p'
  forth : ∀ p ∈ t.rows, p.updatedAt < now - days 30 ∨ ∃ p' ∈ t'.rows, Descends now gone p p'

theorem Renews.refl (now : Instant) (gone : Option BundleId) (t : PublicationTable) :
    Renews now gone t t :=
  ⟨fun p hp => ⟨p, hp, .refl now gone p⟩, fun p hp => .inr ⟨p, hp, .refl now gone p⟩⟩

theorem Renews.trans (h : Renews now gone t t') (h' : Renews now gone t' t'') :
    Renews now gone t t'' where
  back p'' hp'' := by
    obtain ⟨p', hp', hd'⟩ := h'.back p'' hp''
    obtain ⟨p, hp, hd⟩ := h.back p' hp'
    exact ⟨p, hp, hd.trans hd'⟩
  forth p hp := by
    rcases h.forth p hp with haged | ⟨p', hp', hd⟩
    · exact .inl haged
    · rcases h'.forth p' hp' with haged | ⟨p'', hp'', hd'⟩
      · exact .inl (hd.aged haged)
      · exact .inr ⟨p'', hp'', hd.trans hd'⟩

variable {q : Publication → Bool}

theorem Renews.updateWhere {f : Publication → Publication}
    (hkey : ∀ p, (f p).publicationId = p.publicationId)
    (hf : ∀ p, q p = true → Descends now gone p (f p)) : Renews now gone t (t.updateWhere q f hkey) := by
  have hrow : ∀ p, Descends now gone p (if q p then f p else p) := by
    intro p
    split
    · exact hf p ‹_›
    · exact .refl now gone p
  constructor
  · intro p' hp'
    obtain ⟨p, hp, rfl⟩ := List.mem_map.mp hp'
    exact ⟨p, hp, hrow p⟩
  · intro p hp
    exact .inr ⟨_, List.mem_map_of_mem hp, hrow p⟩

theorem Renews.retain (hq : ∀ p, q p = false → p.updatedAt < now - days 30) :
    Renews now gone t (t.retain q) := by
  constructor
  · intro p hp
    exact ⟨p, (List.mem_filter.mp hp).1, .refl now gone p⟩
  · intro p hp
    cases hkeep : q p with
    | false => exact .inl (hq p hkeep)
    | true => exact .inr ⟨p, List.mem_filter.mpr ⟨hp, hkeep⟩, .refl now gone p⟩

theorem superseded_descends (p : Publication) : Descends now gone p (p.superseded now) :=
  ⟨rfl, rfl, rfl, rfl, rfl, .inl rfl, .inr rfl⟩

theorem activated_descends (p : Publication) (generation : Int) :
    Descends now gone p (p.activated now generation) :=
  ⟨rfl, rfl, rfl, rfl, rfl, .inl rfl, .inr rfl⟩

theorem pruneAgedSuperseded_renews (b : BundleId) : Renews now gone t (pruneAgedSuperseded now b t) := by
  refine .retain fun p hp => ?_
  simp only [Bool.not_eq_false', Bool.and_eq_true, decide_eq_true_eq] at hp
  exact hp.2

theorem activateStaged_renews (b : BundleId) (generation : Int) :
    Renews now gone t (activateStaged now b generation t).publications := by
  have houtdated : Renews now gone t (supersedeOutdated now b generation t) :=
    (Renews.updateWhere _ fun p _ => superseded_descends p).trans
      (.updateWhere _ fun p _ => superseded_descends p)
  refine (houtdated.trans (.updateWhere _ fun p _ => ?_)).trans (pruneAgedSuperseded_renews b)
  split
  · exact activated_descends p generation
  · exact superseded_descends p

theorem detachPublications_renews (b : BundleId) : Renews now (some b) t
    (pruneAgedDetachedSuperseded now (detachPublications b t)) := by
  refine (Renews.updateWhere _ fun p hp => ?_).trans (.retain fun p hp => ?_)
  · exact ⟨rfl, rfl, rfl, rfl, rfl, .inr ⟨rfl, by simpa using hp, rfl⟩, .inl rfl⟩
  · simp only [Bool.not_eq_false', Bool.and_eq_true, decide_eq_true_eq] at hp
    exact hp.2

theorem supersedeActive_renews (key : FenceKey) : Renews now gone t (supersedeActive now key t) :=
  .updateWhere _ fun p _ => superseded_descends p

structure Adds (now : Instant) (new : Publication) (t t' : PublicationTable) : Prop where
  new_mem : ∃ p' ∈ t'.rows, Descends now none new p'
  back : ∀ p' ∈ t'.rows, Descends now none new p' ∨ ∃ p ∈ t.rows, Descends now none p p'
  forth : ∀ p ∈ t.rows, p.updatedAt < now - days 30 ∨ ∃ p' ∈ t'.rows, Descends now none p p'

theorem publish_adds {write : RelationshipWrite} {fence : Fence} {set : CanonicalSet}
    {activate : Bool} {rows : FreshnessRows} {published : Published}
    (h : publish now key write fence set activate t rows = published) :
    Adds now published.publication t published.publications := by
  subst h
  let room := if activate then supersedeActive now key t else t
  let written := room.insert (newPublication now key write fence set activate) fun _ => rfl
  have hroom : Renews now none t room := by
    unfold room
    split
    · exact supersedeActive_renews key
    · exact .refl now none t
  have hpruned : Renews now none written
    (publish now key write fence set activate t rows).publications := by
    change Renews now none written
      (if activate then pruneAgedSuperseded now key.bundleId written else written)
    split
    · exact pruneAgedSuperseded_renews key.bundleId
    · exact .refl now none written
  have hwritten : ∀ p', p' ∈ written.rows ↔
      p' ∈ room.rows ∨ p' = newPublication now key write fence set activate room.next := by
    intro p'
    have hrows : written.rows = room.rows ++
      [newPublication now key write fence set activate room.next] :=
      rfl
    rw [hrows, List.mem_append, List.mem_singleton]
  constructor
  · rcases hpruned.forth _ ((hwritten _).mpr (.inr rfl)) with haged | hkept
    · exact absurd haged (Int.not_lt.mpr (Int.sub_le_self now (by decide)))
    · exact hkept
  · intro p'' hp''
    obtain ⟨p', hp', hd'⟩ := hpruned.back p'' hp''
    rcases (hwritten p').mp hp' with hold | rfl
    · obtain ⟨p, hp, hd⟩ := hroom.back p' hold
      exact .inr ⟨p, hp, hd.trans hd'⟩
    · exact .inl hd'
  · intro p hp
    rcases hroom.forth p hp with haged | ⟨p', hp', hd⟩
    · exact .inl haged
    · rcases hpruned.forth p' ((hwritten p').mpr (.inl hp')) with haged | ⟨p'', hp'', hd'⟩
      · exact .inl (hd.aged haged)
      · exact .inr ⟨p'', hp'', hd.trans hd'⟩

def Op.departing : Op → Option BundleId
  | .unregisterBundle b => some b
  | _ => none

variable {c c' : State} {txn : Txn} {op : Op} {reply : Reply}

/-- A call renews the ledger, or it is a write that adds a publication under a free key. -/
theorem Does.publications (h : Does c txn op c' reply) :
    Renews txn.now op.departing c.publications c'.publications ∨
      ∃ write checked published, op = .replaceRelationships write ∧
        checkedWrite txn c.bundles.rows c.fences write = .ok checked ∧
        existingPublication c.publications checked.key write.publicationGeneration = none ∧
        publish txn.now checked.key write checked.fence checked.set checked.activate c.publications
          c.freshness.rows = published ∧
        c'.publications = published.publications ∧
          reply = .published published.publication published.activated := by
  have hsync : ∀ {c : State} {a input activation}, syncTail txn c a input = .ok (c', activation) →
      Renews txn.now none c.publications c'.publications := by
    intro c a input activation h
    obtain ⟨bundle, recorded, -, -, rfl, -, -, hpublications, -⟩ := syncTail_ok h
    rw [hpublications]
    exact activateStaged_renews _ _
  have hchange : ∀ {a change transition operation},
      changeBundle txn c a change transition operation = .ok c' →
      Renews txn.now none c.publications c'.publications := by
    intro a change transition operation h
    obtain ⟨bundle, recorded, -, -, -, -, hpublications, -⟩ := changeBundle_ok h
    rw [hpublications]
    exact .refl _ _ _
  cases h with
  | registerBundle h =>
    obtain ⟨row, -, h⟩ := registerBundle_ok h
    have hrenews := hsync h
    exact .inl hrenews
  | syncBundle h => exact .inl (hsync (syncBundle_ok h))
  | setBundleEnabled h | retireBundle h | unretireBundle h => exact .inl (hchange h)
  | unregisterBundle h =>
    obtain ⟨bundle, recorded, -, -, rfl⟩ := unregisterBundle_ok h
    exact .inl (detachPublications_renews _)
  | replaceRelationships h =>
    rename_i write published
    obtain ⟨checked, hchecked, h⟩ := bind_eq_ok.mp h
    rcases answerWrite_ok h with ⟨existing, -, -, rfl⟩ | ⟨hnone, hpublished⟩
    · exact .inl (.refl _ _ _)
    · exact .inr ⟨write, checked, published, rfl, hchecked, hnone, hpublished.symm, rfl, rfl⟩
  | _ => exact .inl (.refl _ _ _)

end Pgokf.Catalog
