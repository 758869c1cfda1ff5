import Pgokf.Sync.Staging

/-! # The stored rows of one bundle (`schema.rs`, `sync.rs`, `packages.rs` of `catalog/`) -/

namespace Pgokf.Sync

open Lib

def batchSize : Nat := 1000

theorem batchSize_pos : 0 < batchSize := by decide

/-! ### Concepts -/

structure ConceptRow where
  id : Text
  path : Text
  fileHash : Text
  deriving DecidableEq

/- `pgokf.concepts` of one bundle, under `concepts_pkey` and `concepts_bundle_path_key`. -/
structure ConceptTable where
  rows : List ConceptRow
  ids_nodup : (rows.map (·.id)).Nodup
  paths_nodup : (rows.map (·.path)).Nodup

namespace ConceptTable

variable {t u : ConceptTable} {r r' row : ConceptRow} {i p : Text}

def empty : ConceptTable := ⟨[], List.nodup_nil, List.nodup_nil⟩

def Has (t : ConceptTable) (i : Text) : Prop := ∃ r ∈ t.rows, r.id = i

theorem eq_of_id (hr : r ∈ t.rows) (hr' : r' ∈ t.rows) (h : r.id = r'.id) : r = r' :=
  List.inj_on_of_nodup_map t.ids_nodup hr hr' h

theorem eq_of_path (hr : r ∈ t.rows) (hr' : r' ∈ t.rows) (h : r.path = r'.path) : r = r' :=
  List.inj_on_of_nodup_map t.paths_nodup hr hr' h

def deleteWhere (t : ConceptTable) (gone : ConceptRow → Bool) : ConceptTable where
  rows := t.rows.filter fun r => !gone r
  ids_nodup := t.ids_nodup.sublist (List.filter_sublist.map _)
  paths_nodup := t.paths_nodup.sublist (List.filter_sublist.map _)

@[simp] theorem mem_deleteWhere {gone : ConceptRow → Bool} :
    r ∈ (t.deleteWhere gone).rows ↔ r ∈ t.rows ∧ gone r = false := by
  simp [deleteWhere]

theorem replace_ids_nodup (t : ConceptTable) (row : ConceptRow) :
    (((t.rows.filter fun r => r.id ≠ row.id) ++ [row]).map (·.id)).Nodup := by
  rw [List.map_append, List.nodup_append]
  refine ⟨t.ids_nodup.sublist (List.filter_sublist.map _), by simp, ?_⟩
  rintro i hi j hj rfl
  obtain ⟨r, hr, rfl⟩ := List.mem_map.mp hi
  have hid : r.id = row.id := by simpa using hj
  simp [hid] at hr

theorem replace_paths_nodup (t : ConceptTable) (row : ConceptRow)
    (h : ∀ r ∈ t.rows, r.path = row.path → r.id = row.id) :
    (((t.rows.filter fun r => r.id ≠ row.id) ++ [row]).map (·.path)).Nodup := by
  rw [List.map_append, List.nodup_append]
  refine ⟨t.paths_nodup.sublist (List.filter_sublist.map _), by simp, ?_⟩
  rintro p hp q hq rfl
  obtain ⟨r, hr, rfl⟩ := List.mem_map.mp hp
  have hpath : r.path = row.path := by simpa using hq
  have hid := h r (List.mem_of_mem_filter hr) hpath
  simp [hid] at hr

/-- `INSERT … ON CONFLICT (bundle_id, id) DO UPDATE` of one row. The path of another row is refused. -/
def upsert (t : ConceptTable) (row : ConceptRow) : Except CatalogError ConceptTable :=
  if h : ∀ r ∈ t.rows, r.path = row.path → r.id = row.id then
    .ok ⟨(t.rows.filter fun r => r.id ≠ row.id) ++ [row], t.replace_ids_nodup row,
      t.replace_paths_nodup row h⟩
  else
    .error (.internal ("failed to upsert concepts: duplicate key value violates unique constraint " ++
      "concepts_bundle_path_key"))

theorem upsert_ok (h : t.upsert row = .ok u) :
    ∀ r, r ∈ u.rows ↔ r = row ∨ r ∈ t.rows ∧ r.id ≠ row.id := by
  unfold upsert at h
  split at h
  · cases h
    intro r
    simp [or_comm]
  · cases h

theorem upsert_total (h : ∀ r ∈ t.rows, r.path = row.path → r.id = row.id) :
    ∃ u, t.upsert row = .ok u := by
  unfold upsert
  rw [dif_pos h]
  exact ⟨_, rfl⟩

end ConceptTable

def StagedConcept.row (concept : StagedConcept) : ConceptRow :=
  ⟨concept.id, concept.path, concept.fileHash⟩

/-- One statement may not write a row twice. -/
def ensureDistinct (what : String) (ids : List Text) : Except CatalogError Unit :=
  ensure (decide ids.Nodup)
    (.internal ("failed to upsert " ++ what ++
      ": ON CONFLICT DO UPDATE command cannot affect row a second time"))

def upsertConcepts (t : ConceptTable) (staged : List StagedConcept) :
    Except CatalogError ConceptTable :=
  (chunks batchSize staged).foldlM (fun t chunk => do
    ensureDistinct "concepts" (chunk.map (·.id))
    chunk.foldlM (fun t concept => t.upsert concept.row) t) t

section Upsert

variable {t u : ConceptTable} {staged : List StagedConcept} {i : Text}

theorem upsertConcepts_fold (h : upsertConcepts t staged = .ok u) :
    staged.foldlM (fun t concept => t.upsert concept.row) t = .ok u := by
  have hbatches := (foldlM_batches.mp h).2
  rwa [flatten_chunks batchSize_pos] at hbatches

theorem upsertConcepts_has (h : upsertConcepts t staged = .ok u) (i : Text) :
    u.Has i ↔ t.Has i ∨ ∃ s ∈ staged, s.id = i := by
  refine foldlM_invariant (P := fun done u => u.Has i ↔ t.Has i ∨ ∃ s ∈ done, s.id = i)
    (upsertConcepts_fold h) (by simp) ?_
  intro done s rest u v _ hu hv
  have hrows := ConceptTable.upsert_ok hv
  have hmem : (∃ c ∈ done ++ [s], c.id = i) ↔ (∃ c ∈ done, c.id = i) ∨ s.id = i := by
    simp [or_and_right, exists_or]
  rw [hmem, ← or_assoc, ← hu]
  constructor
  · rintro ⟨r, hr, rfl⟩
    rcases (hrows r).mp hr with rfl | ⟨hold, -⟩
    · exact .inr rfl
    · exact .inl ⟨r, hold, rfl⟩
  · intro hor
    by_cases hid : s.id = i
    · exact ⟨s.row, (hrows s.row).mpr (.inl rfl), hid⟩
    · obtain ⟨r, hr, hri⟩ := hor.resolve_right hid
      exact ⟨r, (hrows r).mpr (.inr ⟨hr, fun h => hid (h.symm.trans hri)⟩), hri⟩

theorem upsertConcepts_rows (hids : (staged.map (·.id)).Nodup) (h : upsertConcepts t staged = .ok u)
    (r : ConceptRow) : r ∈ u.rows ↔
      r ∈ staged.map (·.row) ∨ r ∈ t.rows ∧ r.id ∉ staged.map (·.id) := by
  refine foldlM_invariant (P := fun done u => r ∈ u.rows ↔
    r ∈ done.map (·.row) ∨ r ∈ t.rows ∧ r.id ∉ done.map (·.id)) (upsertConcepts_fold h) (by simp) ?_
  intro done s rest u v hl hu hv
  rw [ConceptTable.upsert_ok hv r, hu]
  have hnew : s.id ∉ done.map (·.id) := by
    rw [hl, List.map_append, List.map_cons, List.nodup_append] at hids
    exact fun hmem => hids.2.2 _ hmem _ List.mem_cons_self rfl
  simp only [List.map_append, List.map_cons, List.map_nil, List.mem_append, List.mem_singleton, not_or]
  constructor
  · rintro (rfl | ⟨hdone | ⟨ht, hid⟩, hne⟩)
    · exact .inl (.inr rfl)
    · exact .inl (.inl hdone)
    · exact .inr ⟨ht, hid, hne⟩
  · rintro ((hdone | rfl) | ⟨ht, hid, hne⟩)
    · -- A row staged before has another id.
      refine .inr ⟨.inl hdone, fun h => hnew ?_⟩
      obtain ⟨c, hc, rfl⟩ := List.mem_map.mp hdone
      exact List.mem_map.mpr ⟨c, hc, h⟩
    · exact .inl rfl
    · exact .inr ⟨.inr ⟨ht, hid⟩, hne⟩

theorem upsertConcepts_origin (h : upsertConcepts t staged = .ok u) {r : ConceptRow} (hr : r ∈ u.rows) :
    (∃ s ∈ staged, r = s.row) ∨ r ∈ t.rows ∧ ∀ s ∈ staged, s.id ≠ r.id := by
  refine foldlM_invariant (P := fun done u => ∀ r ∈ u.rows,
    (∃ s ∈ done, r = s.row) ∨ r ∈ t.rows ∧ ∀ s ∈ done, s.id ≠ r.id) (upsertConcepts_fold h) ?_ ?_ r hr
  · intro r hr
    exact .inr ⟨hr, by simp⟩
  · intro done s rest u v _ hu hv r hr
    rcases (ConceptTable.upsert_ok hv r).mp hr with rfl | ⟨hr, hne⟩
    · exact .inl ⟨s, by simp, rfl⟩
    · rcases hu r hr with ⟨c, hc, rfl⟩ | ⟨ht, hall⟩
      · exact .inl ⟨c, List.mem_append_left [s] hc, rfl⟩
      · refine .inr ⟨ht, fun c hc => ?_⟩
        rcases List.mem_append.mp hc with hc | hc
        · exact hall c hc
        · rw [List.mem_singleton.mp hc]
          exact fun hid => hne hid.symm

theorem ensureDistinct_ok {what : String} {ids : List Text} (h : ids.Nodup) :
    ensureDistinct what ids = .ok () := by
  simp [ensureDistinct, h]

theorem upsertConcepts_total (hids : (staged.map (·.id)).Nodup)
    (hrows : ∀ r ∈ t.rows, ∀ s ∈ staged, r.path = s.path → r.id = s.id)
    (hstaged : ∀ s ∈ staged, ∀ s' ∈ staged, s.path = s'.path → s.id = s'.id) :
    ∃ u, upsertConcepts t staged = .ok u := by
  obtain ⟨u, hu, -⟩ := foldlM_total (l := staged) (s := t)
    (f := fun t concept => t.upsert concept.row)
    (P := fun _ u => ∀ r ∈ u.rows, ∀ s ∈ staged, r.path = s.path → r.id = s.id) hrows (by
      intro done s rest t hl ht
      have hs : s ∈ staged := hl ▸ List.mem_append_right done List.mem_cons_self
      have hfit : ∀ r ∈ t.rows, r.path = s.row.path → r.id = s.row.id := fun r hr => ht r hr s hs
      obtain ⟨u, hu⟩ := ConceptTable.upsert_total hfit
      refine ⟨u, hu, fun r hr s' hs' => ?_⟩
      rcases (ConceptTable.upsert_ok hu r).mp hr with rfl | ⟨hr, -⟩
      · exact hstaged s hs s' hs'
      · exact ht r hr s' hs')
  refine ⟨u, foldlM_batches.mpr ⟨fun chunk hchunk => ensureDistinct_ok ?_, ?_⟩⟩
  · exact hids.sublist ((chunks_sublist batchSize_pos hchunk).map _)
  · rwa [flatten_chunks batchSize_pos]

end Upsert

/-- The rows of one bundle: of a skill its package hash, of a script or reference document its
owner. -/
structure Tables where
  concepts : ConceptTable
  skills : Text → Option Text
  scripts : Text → Option Text
  referenceDocuments : Text → Option Text

def Tables.empty : Tables := ⟨.empty, fun _ => none, fun _ => none, fun _ => none⟩

/-- `ON DELETE CASCADE`: a typed row goes with its concept. -/
def cascade (concepts : ConceptTable) (table : Text → Option Text) (i : Text) : Option Text :=
  if concepts.rows.any (·.id = i) then table i else none

def Tables.deleteConcepts (t : Tables) (gone : ConceptRow → Bool) : Tables :=
  let concepts := t.concepts.deleteWhere gone
  { concepts, skills := cascade concepts t.skills, scripts := cascade concepts t.scripts,
    referenceDocuments := cascade concepts t.referenceDocuments }

def upsertTyped (what : String) (table : Text → Option Text) (rows : List (Text × Text)) :
    Except CatalogError (Text → Option Text) :=
  (chunks batchSize rows).foldlM (fun table chunk => do
    ensureDistinct what (chunk.map Prod.fst)
    chunk.foldlM (fun table row => pure (Function.update table row.1 (some row.2))) table) table

def StagedConcept.packageHash (s : StagedConcept) : Option Text :=
  match s.typed with
  | some (.skill packageHash) => some packageHash
  | _ => none

def StagedConcept.scriptOwner (s : StagedConcept) : Option Text :=
  match s.typed with
  | some (.script packageConceptId) => some packageConceptId
  | _ => none

def StagedConcept.referenceOwner (s : StagedConcept) : Option Text :=
  match s.typed with
  | some (.reference packageConceptId) => some packageConceptId
  | _ => none

def columns (payload : StagedConcept → Option Text) (staged : List StagedConcept) : List (Text × Text) :=
  staged.filterMap fun s => (payload s).map fun value => (s.id, value)

/-- `packages::project`: rows of another kind that the concept has stay. -/
def projectPackages (t : Tables) (staged : List StagedConcept) : Except CatalogError Tables := do
  let skills ← upsertTyped "skills" t.skills (columns (·.packageHash) staged)
  let scripts ← upsertTyped "scripts" t.scripts (columns (·.scriptOwner) staged)
  let referenceDocuments ←
    upsertTyped "reference documents" t.referenceDocuments (columns (·.referenceOwner) staged)
  .ok { t with skills, scripts, referenceDocuments }

/-! ### Loading the projection -/

/- The order in which the database returns the rows of a query that does not ask for one. -/
structure RowOrder where
  order : List (Text × Text) → List (Text × Text)
  perm : ∀ rows, (order rows).Perm rows

/-- The join of `load_stored_owners`: scripts, then reference documents. -/
def Tables.ownerRows (t : Tables) : List (Text × Text) :=
  (t.concepts.rows.filterMap fun r => (t.scripts r.id).map fun owner => (r.path, owner)) ++
    t.concepts.rows.filterMap fun r => (t.referenceDocuments r.id).map fun owner => (r.path, owner)

def loadStoredProjection (t : Tables) (scan : RowOrder) : StoredProjection where
  hashes := collect (t.concepts.rows.map fun r => (r.path, r.fileHash))
  ids := collect (t.concepts.rows.map fun r => (r.path, r.id))
  owners := collect (scan.order t.ownerRows)
  skills := (t.concepts.rows.filter fun r => (t.skills r.id).isSome).map (·.path)

section Typed

variable {t u : Tables} {staged : List StagedConcept} {i v : Text}

variable {what : String} {rows : List (Text × Text)}

theorem upsertTyped_ok {table table' : Text → Option Text}
    (h : upsertTyped what table rows = .ok table') :
    table' = overlay table rows := by
  have hbatches := (foldlM_batches.mp h).2
  rw [flatten_chunks batchSize_pos, List.foldlM_pure, pure_eq_ok] at hbatches
  exact hbatches.symm

theorem upsertTyped_total (h : (rows.map Prod.fst).Nodup) (table : Text → Option Text) :
    upsertTyped what table rows = .ok (overlay table rows) := by
  refine foldlM_batches.mpr ⟨fun chunk hchunk => ensureDistinct_ok ?_, ?_⟩
  · exact h.sublist ((chunks_sublist batchSize_pos hchunk).map _)
  · rw [flatten_chunks batchSize_pos, List.foldlM_pure]
    rfl

theorem mem_columns {payload : StagedConcept → Option Text} :
    (i, v) ∈ columns payload staged ↔ ∃ s ∈ staged, s.id = i ∧ payload s = some v := by
  simp only [columns, List.mem_filterMap, Option.map_eq_some_iff, Prod.mk.injEq]
  constructor
  · rintro ⟨s, hs, w, hw, rfl, rfl⟩
    exact ⟨s, hs, rfl, hw⟩
  · rintro ⟨s, hs, rfl, hv⟩
    exact ⟨s, hs, v, hv, rfl, rfl⟩

theorem columns_sublist (payload : StagedConcept → Option Text) (staged : List StagedConcept) :
    ((columns payload staged).map Prod.fst).Sublist (staged.map (·.id)) := by
  unfold columns
  induction staged with
  | nil => exact .slnil
  | cons s staged ih =>
    cases hs : payload s with
    | none => simpa [hs] using ih.cons s.id
    | some v => simpa [hs] using ih.cons_cons s.id

theorem projectPackages_ok (h : projectPackages t staged = .ok u) :
    u = { t with
      skills := overlay t.skills (columns (·.packageHash) staged)
      scripts := overlay t.scripts (columns (·.scriptOwner) staged)
      referenceDocuments := overlay t.referenceDocuments (columns (·.referenceOwner) staged) } := by
  simp only [projectPackages, bind_eq_ok] at h
  obtain ⟨skills, hskills, scripts, hscripts, references, hreferences, h⟩ := h
  cases h
  rw [upsertTyped_ok hskills, upsertTyped_ok hscripts, upsertTyped_ok hreferences]

theorem projectPackages_total (hids : (staged.map (·.id)).Nodup) (t : Tables) :
    ∃ u, projectPackages t staged = .ok u := by
  have hnodup : ∀ payload, ((columns payload staged).map Prod.fst).Nodup :=
    fun payload => hids.sublist (columns_sublist payload staged)
  simp only [projectPackages, bind_eq_ok, upsertTyped_total (hnodup _)]
  exact ⟨_, _, rfl, _, rfl, _, rfl, rfl⟩

end Typed

section Load

variable {t : Tables} {scan : RowOrder} {p i h o : Text}

theorem collect_lookup {α : Type} {v : α} (f : ConceptRow → α) :
    (collect (t.concepts.rows.map fun r => (r.path, f r))).lookup p = some v ↔
      ∃ r ∈ t.concepts.rows, r.path = p ∧ f r = v := by
  rw [lookup_collect]
  · simp
  · simp only [List.mem_map, Prod.mk.injEq]
    rintro v v' ⟨r, hr, hp, rfl⟩ ⟨r', hr', hp', rfl⟩
    rw [ConceptTable.eq_of_path hr hr' (hp.trans hp'.symm)]

theorem ids_lookup : (loadStoredProjection t scan).ids.lookup p = some i ↔
    ∃ r ∈ t.concepts.rows, r.path = p ∧ r.id = i := collect_lookup _

theorem hashes_lookup : (loadStoredProjection t scan).hashes.lookup p = some h ↔
    ∃ r ∈ t.concepts.rows, r.path = p ∧ r.fileHash = h := collect_lookup _

theorem mem_hashes : p ∈ (loadStoredProjection t scan).hashes ↔ ∃ r ∈ t.concepts.rows, r.path = p := by
  simp [loadStoredProjection, mem_collect]

theorem mem_skills : p ∈ (loadStoredProjection t scan).skills ↔
    ∃ r ∈ t.concepts.rows, r.path = p ∧ (t.skills r.id).isSome := by
  simp only [loadStoredProjection, List.mem_map, List.mem_filter]
  constructor
  · rintro ⟨r, ⟨hr, hskill⟩, hp⟩
    exact ⟨r, hr, hp, hskill⟩
  · rintro ⟨r, hr, hp, hskill⟩
    exact ⟨r, ⟨hr, hskill⟩, hp⟩

theorem mem_ownerRows : (p, o) ∈ t.ownerRows ↔ ∃ r ∈ t.concepts.rows, r.path = p ∧
    (t.scripts r.id = some o ∨ t.referenceDocuments r.id = some o) := by
  simp only [Tables.ownerRows, List.mem_append, List.mem_filterMap, Option.map_eq_some_iff,
    Prod.mk.injEq]
  constructor
  · rintro (⟨r, hr, o', ho, rfl, rfl⟩ | ⟨r, hr, o', ho, rfl, rfl⟩)
    · exact ⟨r, hr, rfl, .inl ho⟩
    · exact ⟨r, hr, rfl, .inr ho⟩
  · rintro ⟨r, hr, rfl, ho | ho⟩
    · exact .inl ⟨r, hr, o, ho, rfl, rfl⟩
    · exact .inr ⟨r, hr, o, ho, rfl, rfl⟩

theorem owners_lookup_mem (h : (loadStoredProjection t scan).owners.lookup p = some o) :
    (p, o) ∈ t.ownerRows :=
  (scan.perm t.ownerRows).mem_iff.mp (mem_of_lookup_collect h)

theorem owners_lookup_isSome (h : (p, o) ∈ t.ownerRows) :
    ((loadStoredProjection t scan).owners.lookup p).isSome :=
  lookup_collect_isSome ((scan.perm t.ownerRows).mem_iff.mpr h)

/-- Whichever row it is, some order of the scan ends with it. -/
theorem exists_scan_owner (h : (p, o) ∈ t.ownerRows) :
    ∃ scan, (loadStoredProjection t scan).owners.lookup p = some o := by
  classical
  -- The order that moves this row to the end of every list that holds it.
  let scan : RowOrder :=
    { order := fun rows => if (p, o) ∈ rows then rows.erase (p, o) ++ [(p, o)] else rows
      perm := fun rows => by
        split
        · rename_i hmem
          exact (List.perm_append_comm.trans (List.perm_cons_erase hmem).symm)
        · exact .refl rows }
  refine ⟨scan, ?_⟩
  have horder : scan.order t.ownerRows = t.ownerRows.erase (p, o) ++ [(p, o)] := if_pos h
  simp only [loadStoredProjection, horder]
  exact lookup_collect_last (by simp)

end Load

end Pgokf.Sync
