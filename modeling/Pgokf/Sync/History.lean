import Pgokf.Catalog.ChangeEvent
import Pgokf.Sync.Tables

/-! # Version history of concepts (`catalog/history.rs`)

Rows stand in the order in which they were inserted. -/

namespace Pgokf.Sync

open Lib
open Catalog (ChangeKind)

structure ConceptVersion where
  conceptId : Text
  version : Nat
  validFrom : Int
  validTo : Option Int
  changeKind : ChangeKind
  fileHash : Option Text
  deriving DecidableEq

abbrev History := List ConceptVersion

def closeOpenVersions (now : Int) (conceptIds : List Text) (h : History) : History :=
  h.map fun v =>
    if v.conceptId ∈ conceptIds && v.validTo.isNone then { v with validTo := some now } else v

def maxVersion (h : History) (conceptId : Text) : Nat :=
  ((h.filter fun v => v.conceptId = conceptId).map (·.version)).foldr max 0

/- Insertion under `concept_history_pkey`. -/
def insertVersions (what : String) (h : History) (rows : List ConceptVersion) :
    Except CatalogError History := do
  let key (v : ConceptVersion) := (v.conceptId, v.version)
  ensure (decide (rows.map key).Nodup && rows.all fun v => key v ∉ h.map key)
    (.internal ("failed to record concept-history " ++ what ++
      ": duplicate key value violates unique constraint concept_history_pkey"))
  .ok (h ++ rows)

structure VersionRecord where
  conceptId : Text
  changeKind : ChangeKind
  fileHash : Option Text

def recordBatch (what : String) (now : Int) (validTo : Option Int) (h : History)
    (batch : List VersionRecord) : Except CatalogError History :=
  let closed := closeOpenVersions now (batch.map (·.conceptId)) h
  insertVersions what closed (batch.map fun r =>
    { conceptId := r.conceptId, version := maxVersion closed r.conceptId + 1, validFrom := now, validTo,
      changeKind := r.changeKind, fileHash := r.fileHash })

def stagedRecord (stored : TextMap) (s : StagedConcept) : VersionRecord where
  conceptId := s.id
  changeKind := if s.path ∈ stored then .updated else .added
  fileHash := some s.fileHash

def tombstone (conceptId : Text) : VersionRecord := ⟨conceptId, .removed, none⟩

def recordStagedVersions (now : Int) (stored : TextMap) (staged : List StagedConcept) (h : History) :
    Except CatalogError History :=
  (chunks batchSize staged).foldlM (fun h chunk =>
    recordBatch "versions" now none h (chunk.map (stagedRecord stored))) h

/-- `record_removed_tombstones`: a removal is a version without width. -/
def recordRemovedTombstones (now : Int) (removedIds : List Text) (h : History) :
    Except CatalogError History :=
  (chunks batchSize removedIds).foldlM (fun h chunk =>
    recordBatch "removals" now (some now) h (chunk.map tombstone)) h

/-- `history::project`: one instant stamps the whole sync. -/
def projectHistory (now : Int) (stored : TextMap) (staged : List StagedConcept)
    (removedIds : List Text) (h : History) : Except CatalogError History :=
  if staged.isEmpty && removedIds.isEmpty then .ok h
  else do
    let h ← recordStagedVersions now stored staged h
    recordRemovedTombstones now removedIds h

/- `history::prune`, with instants in microseconds. -/
def pruneHistory (retentionDays : Int) (now : Int) (h : History) : History :=
  if retentionDays ≤ 0 then h
  else h.filter fun v => v.validTo.all fun t => decide (now - retentionDays * 86400000000 ≤ t)

/-! ### The law of a history -/

def Succeeds (a b : ConceptVersion) : Prop :=
  a.conceptId = b.conceptId → a.version < b.version ∧ ∃ t, a.validTo = some t ∧ t ≤ b.validFrom

def Open (h : History) (i : Text) : Prop := ∃ v ∈ h, v.conceptId = i ∧ v.validTo = none

structure Recorded (now : Int) (h : History) : Prop where
  chain : h.Pairwise Succeeds
  begun : ∀ v ∈ h, v.validFrom ≤ now
  ended : ∀ v ∈ h, ∀ t, v.validTo = some t → t ≤ now

section Law

variable {h h' : History} {now now' : Int} {ids : List Text} {i : Text} {v : ConceptVersion}

theorem Recorded.nil : Recorded now [] := ⟨.nil, by simp, by simp⟩

theorem Recorded.mono (hrec : Recorded now h) (hle : now ≤ now') : Recorded now' h where
  chain := hrec.chain
  begun v hv := (hrec.begun v hv).trans hle
  ended v hv t ht := (hrec.ended v hv t ht).trans hle

theorem Recorded.sublist (hrec : Recorded now h) (hsub : h'.Sublist h) : Recorded now h' where
  chain := hrec.chain.sublist hsub
  begun v hv := hrec.begun v (hsub.subset hv)
  ended v hv := hrec.ended v (hsub.subset hv)

theorem closeOpenVersions_recorded (hrec : Recorded now h) :
    Recorded now (closeOpenVersions now ids h) := by
  unfold closeOpenVersions
  refine ⟨?_, ?_, ?_⟩
  · rw [List.pairwise_map]
    refine hrec.chain.imp fun {a b} hab => ?_
    intro hid
    have hid' : a.conceptId = b.conceptId := by
      split at hid <;> split at hid <;> exact hid
    obtain ⟨hver, t, ht, hle⟩ := hab hid'
    have ha : ¬ (a.conceptId ∈ ids && a.validTo.isNone) = true := by simp [ht]
    rw [if_neg ha]
    split
    · exact ⟨hver, t, ht, hle⟩
    · exact ⟨hver, t, ht, hle⟩
  · intro v hv
    obtain ⟨w, hw, rfl⟩ := List.mem_map.mp hv
    have := hrec.begun w hw
    split
    · exact this
    · exact this
  · intro v hv t ht
    obtain ⟨w, hw, rfl⟩ := List.mem_map.mp hv
    split at ht
    · exact (Option.some.inj ht).symm ▸ le_rfl
    · exact hrec.ended w hw t ht

theorem closeOpenVersions_open : Open (closeOpenVersions now ids h) i ↔ Open h i ∧ i ∉ ids := by
  unfold Open closeOpenVersions
  constructor
  · rintro ⟨v, hv, hid, hopen⟩
    obtain ⟨w, hw, rfl⟩ := List.mem_map.mp hv
    split at hid
    · rename_i hc
      rw [if_pos hc] at hopen
      cases hopen
    · rename_i hc
      rw [if_neg hc] at hopen
      refine ⟨⟨w, hw, hid, hopen⟩, fun hmem => hc ?_⟩
      simp [hid, hmem, hopen]
  · rintro ⟨⟨v, hv, hid, hopen⟩, hnot⟩
    refine ⟨v, List.mem_map.mpr ⟨v, hv, ?_⟩, hid, hopen⟩
    rw [if_neg]
    simp [hid, hnot]

theorem version_le_maxVersion (hv : v ∈ h) : v.version ≤ maxVersion h v.conceptId := by
  have hmem : v.version ∈ (h.filter fun w => w.conceptId = v.conceptId).map (·.version) :=
    List.mem_map_of_mem (List.mem_filter.mpr ⟨hv, by simp⟩)
  unfold maxVersion
  generalize (h.filter fun w => w.conceptId = v.conceptId).map (·.version) = l at hmem
  induction l with
  | nil => simp at hmem
  | cons n l ih =>
    rcases List.mem_cons.mp hmem with rfl | hmem
    · exact le_max_left ..
    · exact (ih hmem).trans (le_max_right ..)

def batchRows (now : Int) (validTo : Option Int) (closed : History) (batch : List VersionRecord) :
    List ConceptVersion :=
  batch.map fun r =>
    { conceptId := r.conceptId, version := maxVersion closed r.conceptId + 1, validFrom := now, validTo,
      changeKind := r.changeKind, fileHash := r.fileHash }

theorem mem_batchRows {validTo : Option Int} {batch : List VersionRecord}
    (hv : v ∈ batchRows now validTo h batch) :
    v.conceptId ∈ batch.map (·.conceptId) ∧ v.version = maxVersion h v.conceptId + 1 ∧
      v.validFrom = now ∧ v.validTo = validTo := by
  obtain ⟨r, hr, rfl⟩ := List.mem_map.mp hv
  exact ⟨List.mem_map_of_mem hr, rfl, rfl, rfl⟩

section Batch

variable {what : String} {validTo : Option Int} {batch : List VersionRecord}

theorem recordBatch_eq_ok : recordBatch what now validTo h batch = .ok h' ↔
    ((batchRows now validTo (closeOpenVersions now (batch.map (·.conceptId)) h) batch).map
      fun v => (v.conceptId, v.version)).Nodup ∧
    h' = closeOpenVersions now (batch.map (·.conceptId)) h ++
      batchRows now validTo (closeOpenVersions now (batch.map (·.conceptId)) h) batch := by
  -- A version above all others is no duplicate of a stored one.
  have hfresh : ∀ closed : History, ∀ v ∈ batchRows now validTo closed batch,
      (v.conceptId, v.version) ∉ closed.map fun w => (w.conceptId, w.version) := by
    intro closed v hv hmem
    obtain ⟨w, hw, heq⟩ := List.mem_map.mp hmem
    have hver := (mem_batchRows hv).2.1
    obtain ⟨hid, hsame⟩ := Prod.mk.inj heq
    have hle := version_le_maxVersion hw
    rw [hid] at hle
    omega
  have hall := List.all_eq_true.mpr fun v hv =>
    decide_eq_true (hfresh (closeOpenVersions now (batch.map (·.conceptId)) h) v hv)
  unfold batchRows at hall ⊢
  simp only [recordBatch, insertVersions, bind_eq_ok, ensure_eq_ok, hall, Bool.and_true,
    decide_eq_true_eq,
    Except.ok.injEq]
  constructor
  · rintro ⟨-, hnodup, rfl⟩
    exact ⟨hnodup, rfl⟩
  · rintro ⟨hnodup, rfl⟩
    exact ⟨(), hnodup, rfl⟩

theorem recordBatch_total (hids : (batch.map (·.conceptId)).Nodup) :
    ∃ h', recordBatch what now validTo h batch = .ok h' := by
  refine ⟨_, recordBatch_eq_ok.mpr ⟨List.Nodup.of_map Prod.fst ?_, rfl⟩⟩
  rw [batchRows, List.map_map, List.map_map]
  exact hids

/-- A batch keeps the law. Its concepts are open afterwards if it leaves its rows open, and the
others as before. -/
theorem recordBatch_recorded (hrec : Recorded now h) (hto : ∀ t, validTo = some t → t = now)
    (hok : recordBatch what now validTo h batch = .ok h') : Recorded now h' := by
  obtain ⟨hnodup, rfl⟩ := recordBatch_eq_ok.mp hok
  have hclosed : Recorded now (closeOpenVersions now (batch.map (·.conceptId)) h) :=
    closeOpenVersions_recorded hrec
  have hnot : ∀ i ∈ batch.map (·.conceptId),
      ¬ Open (closeOpenVersions now (batch.map (·.conceptId)) h) i :=
    fun i hi hopen => (closeOpenVersions_open.mp hopen).2 hi
  generalize closeOpenVersions now (batch.map (·.conceptId)) h = closed at *
  refine ⟨List.pairwise_append.mpr ⟨hclosed.chain, ?_, ?_⟩, ?_, ?_⟩
  · -- Two rows of one batch are about different concepts.
    refine (List.pairwise_map.mp hnodup).imp_of_mem fun {a b} ha hb hne hid => ?_
    have hver := (mem_batchRows ha).2.1
    have hver' := (mem_batchRows hb).2.1
    exact absurd (by rw [hver, hver', hid]) hne
  · intro a ha b hb hid
    obtain ⟨hmem, hver, hfrom, -⟩ := mem_batchRows hb
    have hle := version_le_maxVersion ha
    rw [hid] at hle
    refine ⟨by omega, ?_⟩
    cases hend : a.validTo with
    | none => exact absurd ⟨a, ha, hid, hend⟩ (hnot _ hmem)
    | some t => exact ⟨t, rfl, hfrom ▸ hclosed.ended a ha t hend⟩
  · intro v hv
    rcases List.mem_append.mp hv with hv | hv
    · exact hclosed.begun v hv
    · exact (mem_batchRows hv).2.2.1.le
  · intro v hv t ht
    rcases List.mem_append.mp hv with hv | hv
    · exact hclosed.ended v hv t ht
    · rw [(mem_batchRows hv).2.2.2] at ht
      exact (hto t ht).le

theorem recordBatch_open (hok : recordBatch what now validTo h batch = .ok h') (i : Text) :
    Open h' i ↔ validTo = none ∧ i ∈ batch.map (·.conceptId) ∨
      Open h i ∧ i ∉ batch.map (·.conceptId) := by
  obtain ⟨-, rfl⟩ := recordBatch_eq_ok.mp hok
  have hclosed : Open (closeOpenVersions now (batch.map (·.conceptId)) h) i ↔
      Open h i ∧ i ∉ batch.map (·.conceptId) := closeOpenVersions_open
  rw [← hclosed]
  generalize closeOpenVersions now (batch.map (·.conceptId)) h = closed at *
  constructor
  · rintro ⟨v, hv, rfl, hopen⟩
    rcases List.mem_append.mp hv with hv | hv
    · exact .inr ⟨v, hv, rfl, hopen⟩
    · obtain ⟨hmem, -, -, hto⟩ := mem_batchRows hv
      exact .inl ⟨hto.symm.trans hopen, hmem⟩
  · rintro (⟨hto, hmem⟩ | ⟨v, hv, hid, hopen⟩)
    · obtain ⟨r, hr, rfl⟩ := List.mem_map.mp hmem
      exact ⟨_, List.mem_append_right _ (List.mem_map_of_mem hr), rfl, hto⟩
    · exact ⟨v, List.mem_append_left _ hv, hid, hopen⟩

end Batch

section Project

variable {stored : TextMap} {staged : List StagedConcept} {removedIds : List Text}

theorem map_stagedRecord (chunk : List StagedConcept) :
    (chunk.map (stagedRecord stored)).map (·.conceptId) = chunk.map (·.id) := by
  rw [List.map_map]
  rfl

theorem map_tombstone (chunk : List Text) : (chunk.map tombstone).map (·.conceptId) = chunk := by
  rw [List.map_map]
  exact List.map_id chunk

theorem recordStagedVersions_ok (hrec : Recorded now h)
    (hok : recordStagedVersions now stored staged h = .ok h') :
    Recorded now h' ∧ ∀ i, Open h' i ↔ Open h i ∨ i ∈ staged.map (·.id) := by
  have hfold := foldlM_invariant (P := fun done h' => Recorded now h' ∧ ∀ i, Open h' i ↔
    Open h i ∨ i ∈ done.flatten.map (·.id)) hok ⟨hrec, by simp⟩ (by
      intro done chunk rest h₁ h₂ _ ⟨hrec₁, hopen₁⟩ hstep
      refine ⟨recordBatch_recorded hrec₁ (by simp) hstep, fun i => ?_⟩
      rw [recordBatch_open hstep i, map_stagedRecord, hopen₁ i]
      simp only [List.flatten_append, List.flatten_cons, List.flatten_nil, List.append_nil,
        List.map_append, List.mem_append, true_and]
      by_cases hmem : i ∈ chunk.map (·.id)
      · simp [hmem]
      · simp [hmem])
  rwa [flatten_chunks batchSize_pos] at hfold

theorem recordRemovedTombstones_ok (hrec : Recorded now h)
    (hok : recordRemovedTombstones now removedIds h = .ok h') :
    Recorded now h' ∧ ∀ i, Open h' i ↔ Open h i ∧ i ∉ removedIds := by
  have hfold := foldlM_invariant (P := fun done h' => Recorded now h' ∧ ∀ i, Open h' i ↔
    Open h i ∧ i ∉ done.flatten) hok ⟨hrec, by simp⟩ (by
      intro done chunk rest h₁ h₂ _ ⟨hrec₁, hopen₁⟩ hstep
      refine ⟨recordBatch_recorded hrec₁ (by simp) hstep, fun i => ?_⟩
      rw [recordBatch_open hstep i, map_tombstone, hopen₁ i]
      simp [and_assoc])
  rwa [flatten_chunks batchSize_pos] at hfold

theorem projectHistory_ok (hrec : Recorded now h)
    (hok : projectHistory now stored staged removedIds h = .ok h') :
    Recorded now h' ∧ ∀ i, Open h' i ↔ (Open h i ∨ i ∈ staged.map (·.id)) ∧ i ∉ removedIds := by
  unfold projectHistory at hok
  split at hok
  · rename_i hnothing
    cases hok
    obtain ⟨hstaged, hremoved⟩ : staged = [] ∧ removedIds = [] := by simpa using hnothing
    simp [hrec, hstaged, hremoved]
  · rw [bind_eq_ok] at hok
    obtain ⟨h₁, hstaged, hremoved⟩ := hok
    obtain ⟨hrec₁, hopen₁⟩ := recordStagedVersions_ok hrec hstaged
    obtain ⟨hrec', hopen'⟩ := recordRemovedTombstones_ok hrec₁ hremoved
    exact ⟨hrec', fun i => by rw [hopen' i, hopen₁ i]⟩

theorem recordBatches_total {what : String} {validTo : Option Int} {batches : List (List VersionRecord)}
    (hids : ∀ batch ∈ batches, (batch.map (·.conceptId)).Nodup) :
    ∃ h', batches.foldlM (recordBatch what now validTo) h = .ok h' := by
  obtain ⟨h', hok, -⟩ := foldlM_total (l := batches) (s := h) (f := recordBatch what now validTo)
    (P := fun _ _ => True) trivial (by
      intro done batch rest h hl _
      obtain ⟨h', hok⟩ := recordBatch_total (hids batch (hl ▸ by simp))
      exact ⟨h', hok, trivial⟩)
  exact ⟨h', hok⟩

theorem projectHistory_total (hstaged : (staged.map (·.id)).Nodup) (hremoved : removedIds.Nodup) :
    ∃ h', projectHistory now stored staged removedIds h = .ok h' := by
  unfold projectHistory recordStagedVersions recordRemovedTombstones
  simp only [← List.foldlM_map]
  split
  · exact ⟨h, rfl⟩
  · have hfirst : ∃ h₁, ((chunks batchSize staged).map (·.map (stagedRecord stored))).foldlM
        (recordBatch "versions" now none) h = .ok h₁ := by
      refine recordBatches_total fun batch hbatch => ?_
      obtain ⟨chunk, hchunk, rfl⟩ := List.mem_map.mp hbatch
      rw [map_stagedRecord]
      exact hstaged.sublist ((chunks_sublist batchSize_pos hchunk).map _)
    obtain ⟨h₁, hok₁⟩ := hfirst
    have hsecond : ∃ h₂, ((chunks batchSize removedIds).map (·.map tombstone)).foldlM
        (recordBatch "removals" now (some now)) h₁ = .ok h₂ := by
      refine recordBatches_total fun batch hbatch => ?_
      obtain ⟨chunk, hchunk, rfl⟩ := List.mem_map.mp hbatch
      rw [map_tombstone]
      exact hremoved.sublist (chunks_sublist batchSize_pos hchunk)
    obtain ⟨h₂, hok₂⟩ := hsecond
    exact ⟨h₂, bind_eq_ok.mpr ⟨h₁, hok₁, hok₂⟩⟩

end Project

theorem pruneHistory_sublist (days at' : Int) (h : History) : (pruneHistory days at' h).Sublist h := by
  unfold pruneHistory
  split
  · exact .refl h
  · exact List.filter_sublist

theorem pruneHistory_open (days at' : Int) : Open (pruneHistory days at' h) i ↔ Open h i := by
  constructor
  · rintro ⟨v, hv, hrest⟩
    exact ⟨v, (pruneHistory_sublist days at' h).subset hv, hrest⟩
  · rintro ⟨v, hv, hid, hopen⟩
    refine ⟨v, ?_, hid, hopen⟩
    unfold pruneHistory
    split
    · exact hv
    · exact List.mem_filter.mpr ⟨hv, by simp [hopen]⟩

def versionsOf (h : History) (i : Text) : List ConceptVersion := h.filter fun v => v.conceptId = i

def openVersions (h : History) (i : Text) : List ConceptVersion :=
  (versionsOf h i).filter fun v => v.validTo.isNone

def ConceptVersion.Covers (v : ConceptVersion) (x : Int) : Prop :=
  v.validFrom ≤ x ∧ ∃ t, v.validTo = some t ∧ x < t

theorem Recorded.versionsOf (hrec : Recorded now h) (i : Text) :
    (versionsOf h i).Pairwise fun a b =>
      a.version < b.version ∧ ∃ t, a.validTo = some t ∧ t ≤ b.validFrom := by
  refine (hrec.chain.sublist List.filter_sublist).imp_of_mem fun {a b} ha hb hab => hab ?_
  rw [of_decide_eq_true (List.mem_filter.mp ha).2, of_decide_eq_true (List.mem_filter.mp hb).2]

theorem openVersions_eq_nil : openVersions h i = [] ↔ ¬ Open h i := by
  simp only [openVersions, Sync.versionsOf, Open, List.filter_eq_nil_iff, List.mem_filter,
    decide_eq_true_eq, Option.isNone_iff_eq_none, not_exists, not_and, and_imp]

theorem Recorded.openVersions_length (hrec : Recorded now h) (hopen : Open h i) :
    (openVersions h i).length = 1 := by
  have hpair := (hrec.versionsOf i).sublist (List.filter_sublist (p := fun v => v.validTo.isNone))
  have hnone : ∀ v ∈ openVersions h i, v.validTo = none := fun v hv => by
    simpa using (List.mem_filter.mp hv).2
  have hne : openVersions h i ≠ [] := fun hnil => openVersions_eq_nil.mp hnil hopen
  unfold openVersions at *
  match hl : (Sync.versionsOf h i).filter fun v => v.validTo.isNone with
  | [] => exact absurd hl hne
  | [v] =>
    rw [hl]
    rfl
  | v :: w :: rest =>
    rw [hl] at hpair hnone
    obtain ⟨-, t, ht, -⟩ := List.rel_of_pairwise_cons hpair List.mem_cons_self
    rw [hnone v List.mem_cons_self] at ht
    cases ht

theorem Recorded.versions_increase (hrec : Recorded now h) (i : Text) :
    ((Sync.versionsOf h i).map (·.version)).Pairwise (· < ·) :=
  List.pairwise_map.mpr ((hrec.versionsOf i).imp fun hab => hab.1)

theorem Recorded.intervals_disjoint (hrec : Recorded now h) (i : Text) :
    (Sync.versionsOf h i).Pairwise fun a b => ∀ x, ¬ (a.Covers x ∧ b.Covers x) := by
  refine (hrec.versionsOf i).imp fun {a b} hab x hx => ?_
  obtain ⟨-, t, ht, hle⟩ := hab
  obtain ⟨⟨-, t', ht', hlt⟩, hfrom, -⟩ := hx
  rw [ht] at ht'
  obtain rfl := Option.some.inj ht'
  omega

end Law

end Pgokf.Sync
