import Pgokf.Catalog.PublicationLedger

/-! # Presenting a relationship write again

A producer repeats a `replace_relationships` call while its fence is live. Whether the retry is
taken for the first call depends on the set hash, and so on the bundles the writer sees. -/

namespace Pgokf.Catalog

open Lib

variable {c c' : State} {txn : Txn} {op : Op} {reply : Reply} {key : FenceKey} {es : Journal}
  {e : Entry Request CatalogError Reply}

inductive FenceChange (now : Instant) : Option Fence → Option Fence → Prop where
  | same (slot : Option Fence) : FenceChange now slot slot
  | issue {slot : Option Fence} {fence : Fence} : fence.issuedAt = now → fence.expiresAt ≤ now + days 1 →
      (∀ old, slot = some old → old.fencingToken < fence.fencingToken ∧
        old.targetGeneration < fence.targetGeneration) → FenceChange now slot (some fence)
  | release (fence : Fence) : FenceChange now (some fence) (some { fence with state := .released })

variable {b : BundleId} {bundles : BundleTable} {fences : FenceTable}

theorem issueFence_lease {producer : Text} {target expected lease : Int} {manifest : Option Text}
    {fences' : FenceTable}
    {fence : Fence} (h : issueFence txn bundles fences b producer target expected manifest lease =
      .ok (fences', fence)) :
    fence.issuedAt = txn.now ∧ fence.expiresAt ≤ txn.now + days 1 := by
  simp only [issueFence, bind_eq_ok, pure_eq_ok, upsertFence, Prod.mk.injEq, validateLease, ensure_eq_ok,
    Bool.and_eq_true, decide_eq_true_eq] at h
  obtain ⟨-, -, -, -, -, -, -, ⟨-, hlease⟩, -, -, bundle, -, -, -, -, -, -, rfl⟩ := h
  refine ⟨rfl, Int.add_le_add_left ?_ _⟩
  change lease * 1000000 ≤ 1 * 86400000000
  omega

theorem Does.fence_at (h : Does c txn op c' reply) (hop : op ≠ .unregisterBundle key.bundleId) :
    FenceChange txn.now (c.fences key) (c'.fences key) := by
  cases hwrites : op.writesFences with
  | false =>
    rw [h.fences_eq hwrites]
    exact .same _
  | true =>
    cases h with
    | issueFence h =>
      obtain ⟨bundle, -, rfl, -, hadvance⟩ := issueFence_ok h
      obtain ⟨hissued, hexpires⟩ := issueFence_lease h
      simp only [Function.update_apply]
      split
      · rename_i hkey
        refine .issue hissued hexpires fun old hold => hadvance old ?_
        rw [← hold, hkey]
      · exact .same _
    | releaseFence h =>
      obtain ⟨bundle, slot, -, hslot, -, -, -, rfl⟩ := releaseFence_ok h
      simp only [Function.update_apply]
      split
      · rename_i hkey
        rw [hkey, hslot]
        exact .release slot
      · exact .same _
    | unregisterBundle h =>
      obtain ⟨bundle, recorded, -, -, rfl⟩ := unregisterBundle_ok h
      rename_i b
      have hne : key.bundleId ≠ b := fun heq => hop (heq ▸ rfl)
      simp only [hne, if_false]
      exact .same _
    | _ => simp [Op.writesFences] at hwrites

/-! ### What the ledger keeps under a key -/

def Publication.isAt (p : Publication) (key : FenceKey) : Prop :=
  p.tenantId = key.tenantId ∧ p.producer = key.producer ∧ p.sourceBundleId = some key.bundleId

variable {publications : PublicationTable} {generation : Int} {p : Publication}

theorem existingPublication_eq_some (h : existingPublication publications key generation = some p) :
    p ∈ publications.rows ∧ p.isAt key ∧ p.publicationGeneration = generation := by
  refine ⟨List.mem_of_find?_eq_some h, ?_⟩
  have hmatch := List.find?_some h
  simp only [Bool.and_eq_true, beq_iff_eq] at hmatch
  exact ⟨⟨hmatch.1.1.1, hmatch.1.1.2, hmatch.1.2⟩, hmatch.2⟩

theorem existingPublication_eq_none (h : existingPublication publications key generation = none)
    (hp : p ∈ publications.rows) (hat : p.isAt key) : p.publicationGeneration ≠ generation := by
  intro hgeneration
  have hno := List.find?_eq_none.mp h p hp
  simp [hat.1, hat.2.1, hat.2.2, hgeneration] at hno

/- No call starts 14 days before one that was committed earlier. -/
def Paced (instants : List Instant) : Prop := instants.Pairwise fun i j => i ≤ j + days 14

instance (instants : List Instant) : Decidable (Paced instants) :=
  inferInstanceAs (Decidable (List.Pairwise _ _))

def Journal.instants (es : Journal) : List Instant := es.map (·.call.txn.now)

structure KeyInv (key : FenceKey) (es : Journal) (c : State) : Prop where
  fence : ∀ f, c.fences key = some f → f.expiresAt ≤ f.issuedAt + days 1 ∧
    f.issuedAt ∈ Journal.instants es
  written : ∀ p ∈ c.publications.rows, p.isAt key → ∃ f, c.fences key = some f ∧
    p.publicationGeneration ≤ f.targetGeneration ∧
    (p.publicationGeneration = f.targetGeneration → f.issuedAt ≤ p.updatedAt + days 14)
  unique : ∀ p ∈ c.publications.rows, ∀ q ∈ c.publications.rows, p.isAt key → q.isAt key →
    p.publicationGeneration = q.publicationGeneration → p = q

variable {now : Instant} {gone : Option BundleId} {p' : Publication}

theorem isAt_unique {key' : FenceKey} (h : p.isAt key) (h' : p.isAt key') : key = key' := by
  obtain ⟨tenant, producer, b⟩ := key
  obtain ⟨tenant', producer', b'⟩ := key'
  obtain ⟨rfl, rfl, hb⟩ := h
  obtain ⟨rfl, rfl, hb'⟩ := h'
  obtain rfl := Option.some.inj (hb.symm.trans hb')
  rfl

theorem Descends.isAt (h : Descends now gone p p') (hat : p'.isAt key) : p.isAt key := by
  refine ⟨h.tenantId ▸ hat.1, h.producer ▸ hat.2.1, ?_⟩
  rcases h.bundle with hsame | ⟨-, -, hnone⟩
  · rw [← hsame]
    exact hat.2.2
  · rw [hat.2.2] at hnone
    cases hnone

/-- Only the departure of the bundle itself clears the reference. -/
theorem Descends.stays_at (h : Descends now op.departing p p')
    (hop : op ≠ .unregisterBundle key.bundleId) (hat : p.isAt key) : p'.isAt key := by
  refine ⟨h.tenantId.trans hat.1, h.producer.trans hat.2.1, ?_⟩
  rcases h.bundle with hsame | ⟨hsome, hgone, -⟩
  · exact hsame.trans hat.2.2
  · rw [hat.2.2] at hgone
    cases op <;> simp_all [Op.departing]

theorem Does.forth (h : Does c txn op c' reply) (hp : p ∈ c.publications.rows) :
    p.updatedAt < txn.now - days 30 ∨
      ∃ p' ∈ c'.publications.rows, Descends txn.now op.departing p p' := by
  rcases h.publications with hrenews | ⟨write, checked, published, rfl, -, -, hpublish, hrows, -⟩
  · exact hrenews.forth p hp
  · rw [hrows]
    exact (publish_adds hpublish).forth p hp

theorem Does.publication_at (h : Does c txn op c' reply) (hp' : p' ∈ c'.publications.rows)
    (hat : p'.isAt key) :
    (∃ p ∈ c.publications.rows, p.isAt key ∧ Descends txn.now op.departing p p') ∨
      (c'.fences = c.fences ∧ ∃ f, c.fences key = some f ∧
        p'.publicationGeneration = f.targetGeneration ∧
        p'.updatedAt = txn.now ∧
        (∀ q ∈ c.publications.rows, q.isAt key → q.publicationGeneration ≠ p'.publicationGeneration) ∧
        ∃ new activated, reply = .published new activated ∧ p'.publicationId = new.publicationId) := by
  rcases h.publications with hrenews | ⟨write, checked, published, rfl, hchecked, hnone, hpublish, hrows,
    hreply⟩
  · obtain ⟨p, hp, hd⟩ := hrenews.back p' hp'
    exact .inl ⟨p, hp, hd.isAt hat, hd⟩
  · have hadds := publish_adds hpublish
    rw [hrows] at hp'
    rcases hadds.back p' hp' with hd | ⟨p, hp, hd⟩
    · refine .inr ⟨h.fences_eq rfl, ?_⟩
      obtain ⟨bundle, -, -, hfence, -, -, -, htarget, -⟩ := checkedWrite_ok hchecked
      subst hpublish
      -- The new row stands under the key of its write.
      obtain rfl : key = checked.key := isAt_unique (hd.isAt hat) ⟨rfl, rfl, rfl⟩
      have hgeneration : p'.publicationGeneration = write.publicationGeneration := hd.generation
      refine ⟨checked.fence, hfence, hgeneration.trans htarget.symm, ?_, ?_, _, _, hreply,
        hd.publicationId⟩
      · rcases hd.updatedAt with hsame | hnow
        · exact hsame
        · exact hnow
      · intro q hq hqat
        rw [hgeneration]
        exact existingPublication_eq_none hnone hq hqat
    · exact .inl ⟨p, hp, hd.isAt hat, hd⟩

theorem not_isAt_of_unregistered (h : Does c txn (.unregisterBundle key.bundleId) c' reply) :
    (∀ p ∈ c'.publications.rows, ¬ p.isAt key) ∧ c'.fences key = none := by
  cases h with
  | unregisterBundle h =>
    obtain ⟨bundle, recorded, -, -, rfl⟩ := unregisterBundle_ok h
    refine ⟨fun p hp hat => ?_, if_pos rfl⟩
    obtain ⟨q, -, rfl⟩ := List.mem_map.mp (List.mem_filter.mp hp).1
    have hbundle := hat.2.2
    split at hbundle
    · cases hbundle
    · rename_i hne
      exact hne (by simpa using hbundle)

theorem gone_of_unregistered (h : Does c txn (.unregisterBundle b) c' reply) :
    c'.bundles.rows b = none ∧ b < c'.bundles.next := by
  cases h with
  | unregisterBundle h =>
    obtain ⟨bundle, recorded, hbundle, -, rfl⟩ := unregisterBundle_ok h
    exact ⟨by simp [BundleRegistry.drop], c.bundles.allocated b (by simp [hbundle])⟩

variable {issuedAt : Instant}

theorem Descends.dated (h : Descends txn.now gone p p') (hold : issuedAt ≤ p.updatedAt + days 14)
    (hnow : issuedAt ≤ txn.now + days 14) : issuedAt ≤ p'.updatedAt + days 14 := by
  rcases h.updatedAt with hsame | htouched
  · rw [hsame]
    exact hold
  · rw [htouched]
    exact hnow

theorem Does.distinct_at (hdoes : Does c txn op c' reply)
    (hunique : ∀ p ∈ c.publications.rows, ∀ q ∈ c.publications.rows, p.isAt key → q.isAt key →
      p.publicationGeneration = q.publicationGeneration → p = q) :
    ∀ p' ∈ c'.publications.rows, ∀ q' ∈ c'.publications.rows, p'.isAt key → q'.isAt key →
      p'.publicationGeneration = q'.publicationGeneration → p' = q' := by
  intro p' hp' q' hq' hpat hqat hgeneration
  apply c'.publications.eq_of_key hp' hq'
  rcases hdoes.publication_at hp' hpat with ⟨p, hp, hpat₀, hd⟩
    | ⟨-, -, -, -, -, hfree, new, _, hreply, hid⟩
  · rcases hdoes.publication_at hq' hqat with ⟨q, hq, hqat₀, hd'⟩ | ⟨-, -, -, -, -, hfree, -⟩
    · have hsame : p = q := hunique p hp q hq hpat₀ hqat₀
        (hd.generation.symm.trans (hgeneration.trans hd'.generation))
      rw [hd.publicationId, hd'.publicationId, hsame]
    · exact absurd (hd.generation.symm.trans hgeneration) (hfree p hp hpat₀)
  · rcases hdoes.publication_at hq' hqat with ⟨q, hq, hqat₀, hd'⟩
      | ⟨-, -, -, -, -, -, new', _, hreply', hid'⟩
    · exact absurd (hd'.generation.symm.trans hgeneration.symm) (hfree q hq hqat₀)
    · obtain ⟨rfl, -⟩ := Reply.published.inj (hreply.symm.trans hreply')
      exact hid.trans hid'.symm

theorem keyInv_does (h : KeyInv key es c) (hdoes : Does c e.call.txn e.call.op c' reply)
    (hlater : ∀ i ∈ Journal.instants es, i ≤ e.call.txn.now + days 14) : KeyInv key (es ++ [e]) c' := by
  have hinstants : ∀ i ∈ Journal.instants es, i ∈ Journal.instants (es ++ [e]) := by
    intro i hi
    simp only [Journal.instants, List.map_append, List.mem_append]
    exact .inl hi
  have hlast : e.call.txn.now ∈ Journal.instants (es ++ [e]) := by simp [Journal.instants]
  have hunique := hdoes.distinct_at h.unique
  by_cases hop : e.call.op = .unregisterBundle key.bundleId
  · rw [hop] at hdoes
    obtain ⟨hnone, hfence⟩ := not_isAt_of_unregistered hdoes
    exact ⟨by simp [hfence], fun p hp hat => absurd hat (hnone p hp), hunique⟩
  have hchange := hdoes.fence_at hop
  refine ⟨fun f hf => ?_, fun p' hp' hat => ?_, hunique⟩
  · rw [hf] at hchange
    cases hslot : c.fences key with
    | none =>
      rw [hslot] at hchange
      cases hchange with
      | issue hissued hexpires _ => exact ⟨hissued ▸ hexpires, hissued ▸ hlast⟩
    | some f₀ =>
      rw [hslot] at hchange
      obtain ⟨hexpires₀, hissued₀⟩ := h.fence f₀ hslot
      cases hchange with
      | same => exact ⟨hexpires₀, hinstants _ hissued₀⟩
      | issue hissued hexpires _ => exact ⟨hissued ▸ hexpires, hissued ▸ hlast⟩
      | release => exact ⟨hexpires₀, hinstants _ hissued₀⟩
  · rcases hdoes.publication_at hp' hat with ⟨p, hp, hpat, hd⟩ | ⟨hfences, f, hf, htarget, hupdated, -⟩
    · obtain ⟨f, hf, hle, hdated⟩ := h.written p hp hpat
      have hnow := hlater _ (h.fence f hf).2
      generalize hslot' : c'.fences key = slot' at hchange
      rw [hf] at hchange
      cases hchange with
      | same =>
        exact ⟨f, rfl, hd.generation ▸ hle, fun heq => hd.dated (hdated (hd.generation ▸ heq)) hnow⟩
      | issue _ _ hadvance =>
        rename_i fence _ _
        have hlt := lt_of_le_of_lt hle (hadvance f rfl).2
        rw [← hd.generation] at hlt
        exact ⟨fence, rfl, le_of_lt hlt, fun heq => absurd heq (ne_of_lt hlt)⟩
      | release =>
        exact ⟨_, rfl, hd.generation ▸ hle, fun heq => hd.dated (hdated (hd.generation ▸ heq)) hnow⟩
    · refine ⟨f, by rw [hfences]; exact hf, le_of_eq htarget, fun _ => ?_⟩
      rw [hupdated]
      exact hlater _ (h.fence f hf).2

theorem keyInv_step (h : KeyInv key es c) (hs : Step exec c e c')
    (hpaced : Paced (Journal.instants (es ++ [e]))) : KeyInv key (es ++ [e]) c' := by
  have hinstants : Journal.instants (es ++ [e]) = Journal.instants es ++ [e.call.txn.now] := by
    simp [Journal.instants]
  have hlater : ∀ i ∈ Journal.instants es, i ≤ e.call.txn.now + days 14 := by
    intro i hi
    rw [Paced, hinstants, List.pairwise_append] at hpaced
    exact hpaced.2.2 i hi _ (by simp)
  rcases step_does hs with ⟨reply, -, hdoes⟩ | ⟨-, rfl⟩
  · exact keyInv_does h hdoes hlater
  · exact ⟨fun f hf => ⟨(h.fence f hf).1, by simp [hinstants, (h.fence f hf).2]⟩, h.written, h.unique⟩

theorem keyInv_run (h : CatalogRun .empty es c) (hpaced : Paced (Journal.instants es)) :
    KeyInv key es c := by
  generalize hempty : State.empty = c₀ at h
  induction h with
  | start =>
    subst hempty
    exact ⟨by simp [State.empty], by simp [State.empty, SerialTable.empty],
      by simp [State.empty, SerialTable.empty]⟩
  | snoc hrun hs ih =>
    refine keyInv_step (ih ?_) hs hpaced
    rw [Paced, Journal.instants, List.map_append, List.pairwise_append] at hpaced
    exact hpaced.1

/-! ### From the first call to the retry -/

structure Stands (key : FenceKey) (p : Publication) (issuedAt : Instant) (c : State) (p' : Publication) :
    Prop where
  mem : p' ∈ c.publications.rows
  isAt : p'.isAt key
  publicationId : p'.publicationId = p.publicationId
  generation : p'.publicationGeneration = p.publicationGeneration
  setHash : p'.relationshipSetHash = p.relationshipSetHash
  dated : issuedAt ≤ p'.updatedAt + days 14

def SlotSince (f : Fence) (slot : Option Fence) : Prop :=
  ∃ f', slot = some f' ∧ (f.fencingToken < f'.fencingToken ∨
    f'.fencingToken = f.fencingToken ∧ f'.targetGeneration = f.targetGeneration ∧
      f'.expiresAt = f.expiresAt)

variable {f : Fence}

theorem SlotSince.change {slot slot' : Option Fence} (h : SlotSince f slot)
    (hchange : FenceChange now slot slot') :
    SlotSince f slot' := by
  obtain ⟨f', rfl, hf'⟩ := h
  cases hchange with
  | same => exact ⟨f', rfl, hf'⟩
  | issue _ _ hadvance =>
    refine ⟨_, rfl, .inl ?_⟩
    obtain ⟨htoken, -⟩ := hadvance f' rfl
    rcases hf' with hlt | ⟨heq, -⟩
    · exact lt_trans hlt htoken
    · rw [← heq]
      exact htoken
  | release => exact ⟨_, rfl, hf'⟩

theorem not_aged {issuedAt updatedAt now : Int} (hdated : issuedAt ≤ updatedAt + days 14)
    (hyoung : now < issuedAt + days 16) : ¬ updatedAt < now - days 30 := by
  simp only [days] at *
  omega

theorem stands_step (h : Stands key p issuedAt c p') (hdoes : Does c txn op c' reply)
    (hop : op ≠ .unregisterBundle key.bundleId) (hafter : issuedAt ≤ txn.now + days 14)
    (hyoung : txn.now < issuedAt + days 16) :
    ∃ p'', Stands key p issuedAt c' p'' := by
  rcases hdoes.forth h.mem with haged | ⟨p'', hp'', hd⟩
  · exact absurd haged (not_aged h.dated hyoung)
  · exact ⟨p'', hp'', hd.stays_at hop h.isAt, hd.publicationId.trans h.publicationId,
      hd.generation.trans h.generation, hd.setHash.trans h.setHash, hd.dated h.dated hafter⟩

variable {c₁ c₂ : State}

/-- A bundle that is registered at the end of a run was so all along, since no id is used again. -/
theorem run_keeps {P : State → Prop} (hrun : CatalogRun c₁ es c₂)
    (hregistered : (c₂.bundles.rows b).isSome) (h₁ : P c₁)
    (hstep : ∀ e ∈ es, ∀ c c' reply, P c → Does c e.call.txn e.call.op c' reply →
      e.call.op ≠ .unregisterBundle b → P c') : P c₂ := by
  suffices h : P c₂ ∨ c₂.bundles.rows b = none ∧ b < c₂.bundles.next by
    rcases h with h | ⟨hgone, -⟩
    · exact h
    · simp [hgone] at hregistered
  clear hregistered
  induction hrun with
  | start => exact .inl h₁
  | snoc hrun hs ih =>
    rename_i c c' es e
    rcases step_does hs with ⟨reply, -, hdoes⟩ | ⟨-, rfl⟩
    · rcases ih (fun e he => hstep e (by simp [he])) with h | ⟨hgone, hlt⟩
      · by_cases hop : e.call.op = .unregisterBundle b
        · rw [hop] at hdoes
          exact .inr (gone_of_unregistered hdoes)
        · exact .inl (hstep e (by simp) c c' reply h hdoes hop)
      · exact .inr (hdoes.stays_gone hgone hlt)
    · exact ih fun e he => hstep e (by simp [he])

theorem slotSince_run (hrun : CatalogRun c₁ es c₂) (hregistered : (c₂.bundles.rows key.bundleId).isSome)
    (hslot : SlotSince f (c₁.fences key)) :
    SlotSince f (c₂.fences key) ∧ KeepsTenant key.bundleId c₁.bundles c₂.bundles := by
  refine run_keeps (P := fun c => SlotSince f (c.fences key) ∧
    KeepsTenant key.bundleId c₁.bundles c.bundles)
    hrun hregistered ⟨hslot, .refl _ _⟩ fun e _ c c' reply h hdoes hop => ?_
  exact ⟨h.1.change (hdoes.fence_at hop), h.2.trans (hdoes.keepsTenant hop)⟩

theorem stands_run (hrun : CatalogRun c₁ es c₂) (hregistered : (c₂.bundles.rows key.bundleId).isSome)
    (hafter : ∀ now ∈ Journal.instants es, issuedAt ≤ now + days 14)
    (hyoung : ∀ now ∈ Journal.instants es, now < issuedAt + days 16)
    (hstands : Stands key p issuedAt c₁ p') :
    ∃ p'', Stands key p issuedAt c₂ p'' := by
  refine run_keeps (P := fun c => ∃ p'', Stands key p issuedAt c p'') hrun hregistered ⟨p', hstands⟩
    fun e he c c' reply h hdoes hop => ?_
  obtain ⟨p'', hp''⟩ := h
  have hnow : e.call.txn.now ∈ Journal.instants es := List.mem_map_of_mem he
  exact stands_step hp'' hdoes hop (hafter _ hnow) (hyoung _ hnow)

theorem existing_of_stands (hinv : KeyInv key es c) (h : Stands key p issuedAt c p') :
    existingPublication c.publications key p.publicationGeneration = some p' := by
  cases hfind : existingPublication c.publications key p.publicationGeneration with
  | none => exact absurd h.generation (existingPublication_eq_none hfind h.mem h.isAt)
  | some q =>
    obtain ⟨hmem, hat, hgeneration⟩ := existingPublication_eq_some hfind
    rw [hinv.unique q hmem p' h.mem hat h.isAt (hgeneration.trans h.generation.symm)]

section Hash

variable {F : Type} {digest : Text → Text} {serde : Serde F} {maxRows : Nat} {e₁ e₂ : Endpoints}
  {activate activate' : Bool} {rows : Jsonb F} {declared : List (RelationshipRow F)}
  {stored stored' : List (RelationshipRow F × Text) × Text}

variable {row : RelationshipRow F}

theorem mem_storedRows {list : List (RelationshipRow F)} :
    row ∈ storedRows (canonicalize digest serde list) ↔ ∃ r ∈ list, r.wire = row := by
  have hrows : storedRows (canonicalize digest serde list) =
      ((canonicalize digest serde list).1.map (·.1)).map (·.wire) := by
    simp [storedRows, Function.comp_def]
  rw [hrows, canonicalize_rows, List.mem_map]
  simp only [List.mem_insertionSort]

theorem target_eq_some {b : BundleId} {concept : Text} :
    row.target e₁ = some (b, concept) ↔ row.targetConceptId = some concept ∧
      row.targetBundleId.getD e₁.sourceBundleId = b ∧ e₁.visible b = true := by
  simp only [RelationshipRow.target, Option.bind_eq_some_iff, Option.ite_none_right_eq_some,
    Option.some.injEq, Prod.mk.injEq]
  constructor
  · rintro ⟨c, hc, hvisible, rfl, rfl⟩
    exact ⟨hc, rfl, hvisible⟩
  · rintro ⟨hc, rfl, hvisible⟩
    exact ⟨concept, hc, hvisible, rfl, rfl⟩

theorem canonicalSet_declared (hdeclared : declaredRows serde maxRows rows = .ok declared)
    (h : canonicalSet digest serde maxRows e₁ activate rows = .ok stored) :
    stored = canonicalize digest serde (declared.map (·.resolve e₁ activate)) := by
  obtain ⟨list, hlist, -, rfl⟩ := canonicalSet_ok.mp h
  obtain rfl : declared = list := by simpa using hdeclared.symm.trans hlist
  rfl

theorem visible_of_setHash_eq (hserde : serde.Lawful) (hdigest : Function.Injective digest)
    (hhex : ∀ t, '\n' ∉ digest t) (hdeclared : declaredRows serde maxRows rows = .ok declared)
    (h : canonicalSet digest serde maxRows e₁ activate rows = .ok stored)
    (h' : canonicalSet digest serde maxRows e₂ activate' rows = .ok stored')
    (hhash : stored.2 = stored'.2) (hrow : row ∈ declared) (hconcept : row.targetConceptId.isSome)
    (hvisible : e₁.visible (row.targetBundleId.getD e₁.sourceBundleId) = true) :
    e₂.visible (row.targetBundleId.getD e₁.sourceBundleId) = true := by
  have hmasked := masked_eq_of_setHash_eq hserde hdigest hhex h h' hhash
  have hshape := declaredRows_shape hdeclared
  obtain rfl := canonicalSet_declared hdeclared h
  obtain rfl := canonicalSet_declared hdeclared h'
  obtain ⟨concept, hconcept⟩ := Option.isSome_iff_exists.mp hconcept
  have htarget : row.target e₁ = some (row.targetBundleId.getD e₁.sourceBundleId, concept) :=
    target_eq_some.mpr ⟨hconcept, rfl, hvisible⟩
  have hmem : (row.resolve e₁ activate).wire.masked ∈
      (storedRows (canonicalize digest serde (declared.map (·.resolve e₁ activate)))).map (·.masked) :=
    List.mem_map_of_mem (mem_storedRows.mpr ⟨_, List.mem_map_of_mem hrow, rfl⟩)
  rw [hmasked] at hmem
  obtain ⟨other, hother, hsame⟩ := List.mem_map.mp hmem
  obtain ⟨_, hresolved, rfl⟩ := mem_storedRows.mp hother
  obtain ⟨row', hrow', rfl⟩ := List.mem_map.mp hresolved
  have hbundle := congrArg RelationshipRow.targetBundleId hsame
  rw [resolve_wire e₁ activate (hshape row hrow).1,
    resolve_wire e₂ activate' (hshape row' hrow').1] at hbundle
  simp only [RelationshipRow.masked, htarget, Option.map_some] at hbundle
  obtain ⟨⟨b, c⟩, htarget', rfl⟩ := Option.map_eq_some_iff.mp hbundle
  exact (target_eq_some.mp htarget').2.2

theorem setHash_eq_of_visible (hsource : e₁.sourceBundleId = e₂.sourceBundleId)
    (hdeclared : declaredRows serde maxRows rows = .ok declared)
    (h : canonicalSet digest serde maxRows e₁ activate rows = .ok stored)
    (h' : canonicalSet digest serde maxRows e₂ activate' rows = .ok stored')
    (hvisible : ∀ row ∈ declared, row.targetConceptId.isSome →
      e₁.visible (row.targetBundleId.getD e₁.sourceBundleId) =
        e₂.visible (row.targetBundleId.getD e₁.sourceBundleId)) : stored.2 = stored'.2 := by
  have hshape := declaredRows_shape hdeclared
  obtain rfl := canonicalSet_declared hdeclared h
  obtain rfl := canonicalSet_declared hdeclared h'
  -- The set hash is a function of the wire rows.
  have hwire : ∀ list : List (RelationshipRow F), (canonicalize digest serde list).2 =
      (canonicalize digest serde (list.map (·.wire))).2 := by
    intro list
    have hsort := List.map_insertionSort (f := fun row : RelationshipRow F => row.wire)
      (r := fun a b => canonicalIdentity a ≤ canonicalIdentity b)
      (s := fun a b => canonicalIdentity a ≤ canonicalIdentity b) (l := list)
      fun a _ b _ => Iff.rfl
    simp only [canonicalize, ← hsort, List.map_map]
    rfl
  have hrows : (declared.map (·.resolve e₁ activate)).map (·.wire) =
      (declared.map (·.resolve e₂ activate')).map (·.wire) := by
    rw [List.map_map, List.map_map]
    refine List.map_congr_left fun row hrow => ?_
    have hwell := (hshape row hrow).1
    have htarget : row.target e₁ = row.target e₂ := by
      cases hconcept : row.targetConceptId with
      | none => simp [RelationshipRow.target, hconcept]
      | some concept =>
        have hsame := hvisible row hrow (by simp [hconcept])
        simp [RelationshipRow.target, hconcept, ← hsource, hsame]
    simp only [Function.comp_apply, resolve_wire e₁ activate hwell, resolve_wire e₂ activate' hwell,
      htarget]
  rw [hwire, hrows, ← hwire]

end Hash

def visibleActive (txn : Txn) (bundles : BundleTable) (b : BundleId) : Bool :=
  match bundles b with
  | some row => row.enabled && row.retiredAt.isNone &&
      tenantPredicate txn.session txn.requireTenant row.tenantId
  | none => false

structure RelationshipArguments (F : Type) where
  producer : Text
  sourceBundleId : BundleId
  publicationGeneration : Int
  expectedCatalogGeneration : Int
  fencingToken : Int
  rows : Jsonb F

section Calls

variable {F : Type}

/- The write that the arguments make in a transaction, which reads the bundles and the concepts
there. -/
def RelationshipArguments.write (digest : Text → Text) (serde : Serde F) (maxRows : Nat)
    (args : RelationshipArguments F) (txn : Txn) (bundles : BundleTable)
    (concepts : BundleId → Text → Bool) : RelationshipWrite where
  producer := args.producer
  sourceBundleId := args.sourceBundleId
  publicationGeneration := args.publicationGeneration
  expectedCatalogGeneration := args.expectedCatalogGeneration
  fencingToken := args.fencingToken
  submission := submission digest serde maxRows
    { sourceBundleId := args.sourceBundleId, visible := visibleActive txn bundles, concepts } args.rows

theorem replaced_publication {request : Request} {write : RelationshipWrite} {p : Publication}
    {activated : Bool} (hop : request.op = .replaceRelationships write)
    (h : exec c request = .ok (c', .published p activated)) :
    ∃ checked, checkedWrite request.txn c.bundles.rows c.fences write = .ok checked ∧
      c'.bundles = c.bundles ∧ c'.fences = c.fences ∧ p.isAt checked.key ∧
      p.publicationGeneration = write.publicationGeneration ∧
      p.relationshipSetHash = checked.set.setHash ∧
      ∃ p' ∈ c'.publications.rows, Descends request.txn.now none p p' := by
  have hdoes := exec_does h
  rw [hop] at hdoes
  clear h
  cases hdoes with
  | replaceRelationships h =>
    obtain ⟨checked, hchecked, h⟩ := bind_eq_ok.mp h
    refine ⟨checked, hchecked, rfl, rfl, ?_⟩
    rcases answerWrite_ok h with ⟨existing, hexisting, hhash, rfl⟩ | ⟨-, rfl⟩
    · obtain ⟨hmem, hat, hgeneration⟩ := existingPublication_eq_some hexisting
      exact ⟨hat, hgeneration, hhash, existing, hmem, .refl _ _ _⟩
    · exact ⟨⟨rfl, rfl, rfl⟩, rfl, rfl, (publish_adds rfl).new_mem⟩

section Again

variable {digest : Text → Text} {serde : Serde F} {maxRows : Nat} {args : RelationshipArguments F}
  {txn₁ txn₂ : Txn} {bundles₁ bundles₂ : BundleTable} {fences₁ fences₂ : FenceTable}
  {concepts₁ concepts₂ : BundleId → Text → Bool} {checked : CheckedWrite} {bundle : BundleRow}
  {fence : Fence} {activate : Bool}

theorem checkedWrite_again
    (h : checkedWrite txn₁ bundles₁ fences₁ (args.write digest serde maxRows txn₁ bundles₁ concepts₁) =
      .ok checked)
    (hsession : txn₂.session = txn₁.session) (hpolicy : txn₂.requireTenant = txn₁.requireTenant)
    (hbundle : bundles₂ args.sourceBundleId = some bundle)
    (htenant : bundle.tenantId = checked.key.tenantId)
    (hfence : fences₂ checked.key = some fence) (hissued : fence.state = .issued)
    (hlive : txn₂.now < fence.expiresAt) (htoken : fence.fencingToken = args.fencingToken)
    (htarget : fence.targetGeneration = args.publicationGeneration)
    (hmode : activationMode args.expectedCatalogGeneration bundle.catalogGeneration = .ok activate)
    {set : CanonicalSet}
    (hset : (args.write digest serde maxRows txn₂ bundles₂ concepts₂).submission.resolved activate =
      .ok set) :
    checkedWrite txn₂ bundles₂ fences₂ (args.write digest serde maxRows txn₂ bundles₂ concepts₂) =
      .ok { key := checked.key, fence, activate, set } := by
  simp only [checkedWrite, registeredBundle, bind_eq_ok, orRefuse_eq_ok, pure_eq_ok] at h ⊢
  obtain ⟨_, hauthorized, _, hproducer, _, hgeneration, _, hexpected, _, henforced, _, hparsed, bundle₁,
    hbundle₁, _, -, _, -, _, -, rfl⟩ := h
  have hrow₁ : bundles₁ args.sourceBundleId = some bundle₁ := hbundle₁
  have htenant : bundle.tenantId = bundle₁.tenantId := htenant
  have henforced₂ : enforceBundleTenant txn₂ bundles₂ args.sourceBundleId =
      enforceBundleTenant txn₁ bundles₁ args.sourceBundleId := by
    simp only [enforceBundleTenant, hsession, hpolicy, hbundle, hrow₁, Option.map_some, htenant]
  have hchecked : checkedFence txn₂.now fences₂ ⟨bundle₁.tenantId, args.producer, args.sourceBundleId⟩
      args.publicationGeneration args.fencingToken = .ok fence := by
    have hslot : fences₂ ⟨bundle₁.tenantId, args.producer, args.sourceBundleId⟩ = some fence := hfence
    simp only [checkedFence, bind_eq_ok, orRefuse_eq_ok, ensure_eq_ok, pure_eq_ok, Bool.and_eq_true,
      beq_iff_eq, Fence.live, decide_eq_true_eq]
    exact ⟨fence, hslot, (), ⟨⟨hissued, hlive⟩, htoken⟩, (), htarget, rfl⟩
  rw [← hsession, ← hpolicy] at hauthorized
  have hkey : (⟨bundle.tenantId, args.producer, args.sourceBundleId⟩ : FenceKey) =
      ⟨bundle₁.tenantId, args.producer, args.sourceBundleId⟩ := by rw [htenant]
  rw [← hkey] at hchecked
  refine ⟨_, hauthorized, _, hproducer, _, hgeneration, _, hexpected, _, henforced₂.trans henforced, _,
    hparsed, bundle, hbundle, fence, hchecked, activate, hmode, set, hset, ?_⟩
  change CheckedWrite.mk ⟨bundle.tenantId, args.producer, args.sourceBundleId⟩ fence activate set =
    ⟨⟨bundle₁.tenantId, args.producer, args.sourceBundleId⟩, fence, activate, set⟩
  rw [hkey]

end Again

section Stands

variable {digest : Text → Text} {serde : Serde F} {maxRows : Nat} {es₁ es₂ : Journal}
  {c₀ c₁ c₂ : State} {first retry : Request} {args : RelationshipArguments F}
  {concepts₁ concepts₂ : BundleId → Text → Bool} {p : Publication} {activated : Bool}
  {bundle : BundleRow} {fence : Fence} {checked : CheckedWrite}

theorem retry_slot (hop₁ : first.op = .replaceRelationships
      (args.write digest serde maxRows first.txn c₀.bundles.rows concepts₁))
    (hfirst : exec c₀ first = .ok (c₁, .published p activated)) (hbetween : CatalogRun c₁ es₂ c₂)
    (hchecked : checkedWrite first.txn c₀.bundles.rows c₀.fences
      (args.write digest serde maxRows first.txn c₀.bundles.rows concepts₁) = .ok checked)
    (hbundle : c₂.bundles.rows args.sourceBundleId = some bundle)
    (hfence : c₂.fences ⟨bundle.tenantId, args.producer, args.sourceBundleId⟩ = some fence)
    (htoken : fence.fencingToken = args.fencingToken) :
    bundle.tenantId = checked.key.tenantId ∧ c₂.fences checked.key = some fence ∧
      fence.targetGeneration = args.publicationGeneration ∧
        fence.expiresAt = checked.fence.expiresAt := by
  obtain ⟨_, _, hbundles, hfences, -⟩ := replaced_publication hop₁ hfirst
  obtain ⟨bundle₁, hbundle₁, hkey, hslot₁, -, -, htoken₁, htarget₁, -, -⟩ := checkedWrite_ok hchecked
  have hkeyBundle : checked.key.bundleId = args.sourceBundleId := by rw [hkey]; rfl
  have hregistered : (c₂.bundles.rows checked.key.bundleId).isSome := by
    rw [hkeyBundle, hbundle]
    rfl
  have hslot : SlotSince checked.fence (c₁.fences checked.key) := by
    rw [hfences]
    exact ⟨_, hslot₁, .inr ⟨rfl, rfl, rfl⟩⟩
  obtain ⟨⟨fence', hfence', hsince⟩, -, hkeeps⟩ := slotSince_run hbetween hregistered hslot
  have htenant : bundle.tenantId = checked.key.tenantId := by
    obtain ⟨row, hrow, htenant⟩ := hkeeps bundle₁ (by rw [hkeyBundle, hbundles]; exact hbundle₁)
    rw [hkeyBundle, hbundle] at hrow
    rw [Option.some.inj hrow, htenant, hkey]
  have hkey' : (⟨bundle.tenantId, args.producer, args.sourceBundleId⟩ : FenceKey) = checked.key := by
    rw [htenant, hkey]
    rfl
  rw [hkey'] at hfence
  obtain rfl : fence = fence' := Option.some.inj (hfence.symm.trans hfence')
  rcases hsince with hlt | ⟨-, htarget, hexpires⟩
  · exact absurd (htoken.trans htoken₁.symm) (ne_of_gt hlt)
  · exact ⟨htenant, hfence, htarget.trans htarget₁, hexpires⟩

theorem young_of_live {issuedAt expiresAt live now : Int} (hexpires : expiresAt ≤ issuedAt + days 1)
    (hlive : live < expiresAt) (hnow : now ≤ live + days 14) : now < issuedAt + days 16 := by
  simp only [days] at *
  omega

theorem retry_finds (hbefore : CatalogRun .empty es₁ c₀)
    (hop₁ : first.op = .replaceRelationships
      (args.write digest serde maxRows first.txn c₀.bundles.rows concepts₁))
    (hfirst : exec c₀ first = .ok (c₁, .published p activated)) (hbetween : CatalogRun c₁ es₂ c₂)
    (hchecked : checkedWrite first.txn c₀.bundles.rows c₀.fences
      (args.write digest serde maxRows first.txn c₀.bundles.rows concepts₁) = .ok checked)
    (hpaced : Paced (Journal.instants es₁ ++
      (first.txn.now :: (Journal.instants es₂ ++ [retry.txn.now]))))
    (hregistered : (c₂.bundles.rows args.sourceBundleId).isSome)
    (hlive : retry.txn.now < checked.fence.expiresAt) :
    ∃ p₂, existingPublication c₂.publications checked.key args.publicationGeneration = some p₂ ∧
      p₂.publicationId = p.publicationId ∧ p₂.relationshipSetHash = p.relationshipSetHash := by
  obtain ⟨checked', hchecked', -, hfences, hat, hgeneration, -, p₁, hp₁, hd₁⟩ :=
    replaced_publication hop₁ hfirst
  obtain rfl : checked = checked' := Except.ok.inj (hchecked.symm.trans hchecked')
  obtain ⟨bundle₁, -, hkey, hslot₁, -, -, -, htarget₁, -, -⟩ := checkedWrite_ok hchecked
  have hjournal : CatalogRun .empty (es₁ ++ [⟨first, .ok (.published p activated)⟩]) c₁ :=
    hbefore.snoc (.commit hfirst)
  have hinstants : Journal.instants ((es₁ ++ [⟨first, .ok (.published p activated)⟩]) ++ es₂) ++
      [retry.txn.now] = Journal.instants es₁ ++
        (first.txn.now :: (Journal.instants es₂ ++ [retry.txn.now])) := by
    simp [Journal.instants]
  rw [← hinstants] at hpaced
  obtain ⟨hpaced, -, hbeforeRetry⟩ := List.pairwise_append.mp hpaced
  have hinv₂ : KeyInv checked.key _ c₂ := keyInv_run (Run.append_iff.mpr ⟨c₁, hjournal, hbetween⟩) hpaced
  rw [Journal.instants, List.map_append] at hpaced
  obtain ⟨hpaced₁, -, hcross⟩ := List.pairwise_append.mp hpaced
  have hinv₁ : KeyInv checked.key _ c₁ := keyInv_run hjournal hpaced₁
  have hslot : c₁.fences checked.key = some checked.fence := by
    rw [hfences]
    exact hslot₁
  obtain ⟨hexpires, hissued⟩ := hinv₁.fence _ hslot
  have hat₁ : p₁.isAt checked.key := by
    refine ⟨hd₁.tenantId.trans hat.1, hd₁.producer.trans hat.2.1, ?_⟩
    rcases hd₁.bundle with hsame | ⟨hnone, -⟩
    · exact hsame.trans hat.2.2
    · simp at hnone
  have hstands : Stands checked.key p checked.fence.issuedAt c₁ p₁ := by
    refine ⟨hp₁, hat₁, hd₁.publicationId, hd₁.generation, hd₁.setHash, ?_⟩
    obtain ⟨f, hf, -, hdated⟩ := hinv₁.written p₁ hp₁ hat₁
    obtain rfl : checked.fence = f := Option.some.inj (hslot.symm.trans hf)
    exact hdated ((hd₁.generation.trans hgeneration).trans htarget₁.symm)
  have hregistered' : (c₂.bundles.rows checked.key.bundleId).isSome := by
    rw [hkey]
    exact hregistered
  obtain ⟨p₂, hp₂⟩ := stands_run hbetween hregistered'
    (fun now hnow => hcross _ hissued now hnow)
    (fun now hnow => young_of_live hexpires hlive (hbeforeRetry now (by
      rw [Journal.instants, List.map_append]
      exact List.mem_append_right _ hnow) _ (by simp))) hstands
  have hexisting := existing_of_stands hinv₂ hp₂
  rw [hgeneration] at hexisting
  exact ⟨p₂, hexisting, hp₂.publicationId, hp₂.setHash⟩

end Stands

/-- An accepted call, repeated while its fence is live and its generation expected, returns the same
publication exactly when the writer sees the same target bundles and, where the retry activates at
once, the source concepts are there. -/
theorem retry_repeats_publication {digest : Text → Text} {serde : Serde F} {maxRows : Nat}
    (hserde : serde.Lawful) (hdigest : Function.Injective digest) (hhex : ∀ t, '\n' ∉ digest t)
    {es₁ es₂ : Journal} {c₀ c₁ c₂ : State} {first retry : Request} {args : RelationshipArguments F}
    {concepts₁ concepts₂ : BundleId → Text → Bool} {declared : List (RelationshipRow F)}
    {p : Publication} {activated : Bool} {bundle : BundleRow} {fence : Fence}
    (hbefore : CatalogRun .empty es₁ c₀)
    (hop₁ : first.op = .replaceRelationships
      (args.write digest serde maxRows first.txn c₀.bundles.rows concepts₁))
    (hfirst : exec c₀ first = .ok (c₁, .published p activated)) (hbetween : CatalogRun c₁ es₂ c₂)
    (hop₂ : retry.op = .replaceRelationships
      (args.write digest serde maxRows retry.txn c₂.bundles.rows concepts₂))
    (hsession : retry.txn.session = first.txn.session)
    (hpolicy : retry.txn.requireTenant = first.txn.requireTenant)
    (hpaced : Paced (Journal.instants es₁ ++
      (first.txn.now :: (Journal.instants es₂ ++ [retry.txn.now]))))
    (hbundle : c₂.bundles.rows args.sourceBundleId = some bundle)
    (hexpected : args.expectedCatalogGeneration = bundle.catalogGeneration ∨
      args.expectedCatalogGeneration = bundle.catalogGeneration + 1)
    (hfence : c₂.fences ⟨bundle.tenantId, args.producer, args.sourceBundleId⟩ = some fence)
    (hissued : fence.state = .issued) (htoken : fence.fencingToken = args.fencingToken)
    (hlive : retry.txn.now < fence.expiresAt)
    (hdeclared : declaredRows serde maxRows args.rows = .ok declared) :
    (∃ p', exec c₂ retry = .ok (c₂, .published p' false) ∧ p'.publicationId = p.publicationId) ↔
      (∀ row ∈ declared, row.targetConceptId.isSome →
        visibleActive first.txn c₀.bundles.rows (row.targetBundleId.getD args.sourceBundleId) =
          visibleActive retry.txn c₂.bundles.rows (row.targetBundleId.getD args.sourceBundleId)) ∧
      (args.expectedCatalogGeneration = bundle.catalogGeneration →
        ∀ row ∈ declared, concepts₂ args.sourceBundleId row.sourceConceptId = true) := by
  obtain ⟨checked₁, hchecked₁, -, -, -, -, hhash₁, -⟩ := replaced_publication hop₁ hfirst
  obtain ⟨htenant, hslot, htarget, hexpires⟩ :=
    retry_slot hop₁ hfirst hbetween hchecked₁ hbundle hfence htoken
  obtain ⟨p₂, hp₂, hid, hhash₂⟩ := retry_finds hbefore hop₁ hfirst hbetween hchecked₁ hpaced
    (by simp [hbundle]) (hexpires ▸ hlive)
  obtain ⟨stored₁, hstored₁, hset₁⟩ := checkedWrite_set rfl hchecked₁
  constructor
  · rintro ⟨p', haccepted, hid'⟩
    obtain ⟨checked₂, hchecked₂, -, -, -, -, hhash', q, hq, hd⟩ := replaced_publication hop₂ haccepted
    obtain ⟨stored₂, hstored₂, hset₂⟩ := checkedWrite_set rfl hchecked₂
    have hsame : stored₁.2 = stored₂.2 := by
      -- Publications are told apart by their ids, so the one returned is the one found.
      have hq₂ : q = p₂ := c₂.publications.eq_of_key hq (existingPublication_eq_some hp₂).1
        (hd.publicationId.trans (hid'.trans hid.symm))
      rw [← hset₁, ← hset₂, ← hhash₁, ← hhash', ← hhash₂, ← hd.setHash, hq₂]
    refine ⟨fun row hrow hconcept => ?_, fun hcurrent row hrow => ?_⟩
    · rw [Bool.eq_iff_iff]
      exact ⟨visible_of_setHash_eq hserde hdigest hhex hdeclared hstored₁ hstored₂ hsame hrow hconcept,
        visible_of_setHash_eq hserde hdigest hhex hdeclared hstored₂ hstored₁ hsame.symm hrow hconcept⟩
    · obtain ⟨bundle₂, hbundle₂, -, -, -, -, -, -, hmode, -⟩ := checkedWrite_ok hchecked₂
      obtain rfl : bundle = bundle₂ := Option.some.inj (hbundle.symm.trans hbundle₂)
      have hactivate : checked₂.activate = true := by
        have hmode : activationMode args.expectedCatalogGeneration bundle.catalogGeneration =
          .ok checked₂.activate := hmode
        simpa [activationMode, hcurrent] using hmode.symm
      obtain ⟨declared₂, hdeclared₂, hsources, -⟩ := canonicalSet_ok.mp hstored₂
      obtain rfl : declared = declared₂ := by simpa using hdeclared.symm.trans hdeclared₂
      exact hsources row hrow hactivate
  · rintro ⟨hvisible, hsources⟩
    obtain ⟨activate, hmode, hactivate⟩ : ∃ activate,
        activationMode args.expectedCatalogGeneration bundle.catalogGeneration = .ok activate ∧
          (activate = true → args.expectedCatalogGeneration = bundle.catalogGeneration) := by
      rcases hexpected with hcurrent | hnext
      · exact ⟨true, by simp [activationMode, hcurrent], fun _ => hcurrent⟩
      · refine ⟨false, ?_, by simp⟩
        have hne : ¬ bundle.catalogGeneration + 1 = bundle.catalogGeneration := by omega
        simp [activationMode, hnext, hne]
    have hstored₂ : canonicalSet digest serde maxRows
        ⟨args.sourceBundleId, visibleActive retry.txn c₂.bundles.rows, concepts₂⟩ activate args.rows
          = .ok _ :=
      canonicalSet_ok.mpr ⟨declared, hdeclared, fun row hrow hactive =>
        hsources (hactivate hactive) row hrow,
        rfl⟩
    have hchecked₂ := checkedWrite_again hchecked₁ hsession hpolicy hbundle htenant hslot hissued
      hlive htoken
      htarget hmode (submission_resolved_ok.mpr ⟨_, hstored₂, rfl⟩)
    have hsame : p₂.relationshipSetHash = _ :=
      (hhash₂.trans (hhash₁.trans hset₁)).trans
        (setHash_eq_of_visible (by rfl) hdeclared hstored₁ hstored₂ hvisible)
    have htaken : replaceRelationships retry.txn c₂.bundles.rows c₂.fences c₂.publications
        c₂.freshness.rows _ = _ := replaceRelationships_taken hchecked₂ hp₂
    rw [if_pos hsame] at htaken
    refine ⟨p₂, ?_, hid⟩
    simp only [exec, hop₂, htaken]
    rfl

end Calls

def sampleArguments (expected : Int) (rows : Jsonb Nat) : RelationshipArguments Nat where
  producer := "p"
  sourceBundleId := 1
  publicationGeneration := 5
  expectedCatalogGeneration := expected
  fencingToken := 1
  rows := rows

def crossBundle : RelationshipArguments Nat := sampleArguments 1 ⟨.array [targetRow 2 "x" 0], by decide⟩

def crossWrite (now : Instant) (c : State) : RelationshipWrite :=
  crossBundle.write sampleTextDigest sampleSerde 50 { writerTxn with now } c.bundles.rows fun _ _ => true

def crossCall (now : Instant) (c : State) : Request :=
    .byAdmin now (.replaceRelationships (crossWrite now c))

def fencedCalls : List Request :=
  [.byAdmin 0 (.registerBundle ⟨[], [], .default⟩), .byAdmin 1 (.registerBundle ⟨[], [], .default⟩),
    .byAdmin 10 (.issueFence 1 "p" 5 1 none 60)]

def fenced : State := (play exec .empty fencedCalls).1

def crossPublished : State := (play exec fenced [crossCall 20 fenced]).1

def targetSynced : State := (play exec crossPublished [.byAdmin 30 (.syncBundle 2 ⟨[], [], .default⟩)]).1

def targetRetired : State := (play exec crossPublished [.byAdmin 30 (.retireBundle 2)]).1

theorem crossPublished_first :
    ∃ p, exec fenced (crossCall 20 fenced) = .ok (crossPublished, .published p true) ∧
      p.publicationId = 1 :=
  ⟨_, rfl, rfl⟩

/-- A sync of the target bundle in between: the retry returns the publication. -/
theorem retry_repeats_publication_synced :
    ∃ p p', exec fenced (crossCall 20 fenced) = .ok (crossPublished, .published p true) ∧
      exec targetSynced (crossCall 40 targetSynced) = .ok (targetSynced, .published p' false) ∧
      p'.publicationId = p.publicationId := by
  obtain ⟨p, hfirst, -⟩ := crossPublished_first
  have hbundle : targetSynced.bundles.rows 1 = some ⟨"default", true, none, 1⟩ := by decide
  have hfence : targetSynced.fences ⟨"default", "p", 1⟩ = some _ := rfl
  have hdeclared : declaredRows sampleSerde 50 crossBundle.rows = .ok _ := rfl
  have hretry := retry_repeats_publication sampleSerde_lawful sampleTextDigest_injective
    sampleTextDigest_line (play_run exec .empty fencedCalls) rfl hfirst
    (play_run exec crossPublished [.byAdmin 30 (.syncBundle 2 ⟨[], [], .default⟩)])
    (show (crossCall 40 targetSynced).op = _ from rfl) rfl rfl (by decide) hbundle (.inl rfl) hfence rfl
    rfl (by decide) hdeclared
  obtain ⟨p', haccepted, hid⟩ := hretry.mpr ⟨by decide, by decide⟩
  exact ⟨p, p', hfirst, haccepted, hid⟩

/-- The target bundle is retired in between: the same call conflicts with its own publication. -/
theorem retry_conflicts_retired :
    (∃ p, exec fenced (crossCall 20 fenced) = .ok (crossPublished, .published p true)) ∧
      (∃ fence, targetRetired.fences ⟨"default", "p", 1⟩ = some fence ∧
        fence.state = .issued ∧ fence.fencingToken = 1 ∧ 40 < fence.expiresAt) ∧
      (targetRetired.bundles.rows 1).map (·.catalogGeneration) = some 1 ∧
      (play exec targetRetired [crossCall 40 targetRetired]).2.map (·.result) =
        [.error (conflictingSet (crossWrite 40 targetRetired))] := by
  refine ⟨⟨_, rfl⟩, ⟨_, rfl, rfl, rfl, by decide⟩, by decide, by decide +kernel⟩

end Pgokf.Catalog
