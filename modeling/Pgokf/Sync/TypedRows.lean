import Pgokf.Sync.Convergence

/-! # The typed rows of a bundle over its syncs

A script or reference document has a row with the skill that owns it. A sync deletes rows only with
their concept. -/

namespace Pgokf.Sync

open Lib

section Typed

variable {parsers : Parsers} {b b' : BundleState} {call : SyncCall} {out : SyncOutcome}
  {payload : StagedConcept → Option Text} {table table' : Text → Option Text} {v i o : Text}
  {e e' : FileMetadata} {c : ConceptTable}

theorem Synced.entry_eq (h : Synced parsers b call b' out) (hd : call.source.snapshot.Distinct)
    (he : e ∈ call.source.snapshot.concepts) {s : StagedConcept} (hs : s ∈ out.staged)
    (hid : s.id = e.conceptId) :
    e ∈ out.toParse ∧
      s = e.staged parsers call.source.snapshot.index call.source.snapshot.entries := by
  obtain ⟨e', hparse, he', rfl⟩ := h.entry hs
  have hpath := Snapshot.path_eq_of_conceptId (Snapshot.concepts_subset he')
    (Snapshot.concepts_subset he) hid
  obtain rfl := hd.eq (Snapshot.concepts_subset he') (Snapshot.concepts_subset he) hpath
  exact ⟨hparse, rfl⟩

theorem Synced.typed_staged (h : Synced parsers b call b' out) (hstrict : call.defaults.strict = true)
    (hd : call.source.snapshot.Distinct) (he : e ∈ call.source.snapshot.concepts)
    (hparse : e ∈ out.toParse)
    (hv : payload (e.staged parsers call.source.snapshot.index call.source.snapshot.entries) = some v) :
    overlay table (columns payload out.staged) e.conceptId = some v := by
  refine overlay_of_unique (fun w w' hw hw' => ?_)
    (mem_columns.mpr ⟨_, h.staged_of_strict hstrict hparse, rfl, hv⟩)
  obtain ⟨s, hs, hid, hp⟩ := mem_columns.mp hw
  obtain ⟨s', hs', hid', hp'⟩ := mem_columns.mp hw'
  rw [(h.entry_eq hd he hs hid).2] at hp
  rw [(h.entry_eq hd he hs' hid').2, hp] at hp'
  exact Option.some.inj hp'

theorem Synced.typed_other (h : Synced parsers b call b' out) (hd : call.source.snapshot.Distinct)
    (he : e ∈ call.source.snapshot.concepts)
    (hnone : e ∈ out.toParse →
      payload (e.staged parsers call.source.snapshot.index call.source.snapshot.entries) = none) :
    overlay table (columns payload out.staged) e.conceptId = table e.conceptId := by
  refine overlay_of_not_mem fun w hw => ?_
  obtain ⟨s, hs, hid, hp⟩ := mem_columns.mp hw
  obtain ⟨hparse, rfl⟩ := h.entry_eq hd he hs hid
  rw [hnone hparse] at hp
  cases hp

theorem cascade_of_has (h : c.Has i) (table : Text → Option Text) : cascade c table i = table i := by
  obtain ⟨r, hr, hid⟩ := h
  exact if_pos (List.any_eq_true.mpr ⟨r, hr, by simpa using hid⟩)

/-- Each typed row belongs to a concept stored under its path, and names the skill of a root that
takes the path for such a resource. -/
def TypedFrom (t : Tables) (table : Text → Option Text) (Q : FileClass → Prop) : Prop :=
  ∀ i o, table i = some o → (∃ r ∈ t.concepts.rows, r.id = i ∧ r.path = i) ∧
    ∃ root cls, o = skillConceptIdOf root ∧ resourceClass root i = some cls ∧ Q cls

theorem Synced.typedFrom {Q : FileClass → Prop} (h : Synced parsers b call b' out)
    (hstrict : call.defaults.strict = true) (hd : call.source.snapshot.Distinct)
    (hold : TypedFrom b.tables table Q)
    (hpayload : ∀ (e : FileMetadata) o,
      payload (e.staged parsers call.source.snapshot.index call.source.snapshot.entries) = some o →
      e.cls.isResource = true ∧ Q e.cls ∧
        o = skillConceptIdOf ((call.source.snapshot.index.ownerOf e.path).getD [])) :
    TypedFrom b'.tables (overlay (cascade (deletedRows b.tables (call.plan b.tables).removedPaths
      out.staged).concepts table) (columns payload out.staged)) Q := by
  have hconv := h.converged hstrict hd
  intro i o hi
  by_cases hcol : ∃ v, (i, v) ∈ columns payload out.staged
  · -- written by this sync
    obtain ⟨w, hw⟩ := hcol
    obtain ⟨v, hv, heq⟩ := overlay_of_mem (f := cascade (deletedRows b.tables
      (call.plan b.tables).removedPaths out.staged).concepts table) hw
    obtain rfl := Option.some.inj (heq.symm.trans hi)
    obtain ⟨s, hs, rfl, hp⟩ := mem_columns.mp hv
    obtain ⟨e, -, he, rfl⟩ := h.entry hs
    obtain ⟨hres, hQ, rfl⟩ := hpayload e v hp
    obtain ⟨root, x, -, hown, hcls, -⟩ :=
      Snapshot.resource_owned (Snapshot.concepts_subset he) hres
    have hid : e.conceptId = e.path := conceptId_resource hres
    refine ⟨⟨⟨e.conceptId, e.path, e.hash⟩, (hconv _).mpr (mem_rows.mpr ⟨e, he, rfl, rfl, rfl⟩), rfl,
      hid.symm⟩, root, e.cls, by rw [hown, Option.getD_some], ?_, hQ⟩
    change resourceClass root e.conceptId = some e.cls
    rw [hid, hcls]
  · -- kept with its concept
    rw [overlay_of_not_mem fun v hv => hcol ⟨v, hv⟩, cascade_eq_some] at hi
    obtain ⟨⟨r, hr, hid⟩, htable⟩ := hi
    obtain ⟨⟨r', hr', hid', hp'⟩, hroot⟩ := hold i o htable
    refine ⟨?_, hroot⟩
    obtain rfl := ConceptTable.eq_of_id (mem_deletedRows.mp hr).1 hr' (hid.trans hid'.symm)
    obtain ⟨e, he, hp, hide, -⟩ := h.surviving_row hstrict hr
    exact ⟨⟨e.conceptId, e.path, e.hash⟩, (hconv _).mpr (mem_rows.mpr ⟨e, he, rfl, rfl, rfl⟩),
      hide.trans hid, hp.trans hp'⟩

structure TypedRows (t : Tables) : Prop where
  scripts : TypedFrom t t.scripts (· = .skillScript)
  referenceDocuments : TypedFrom t t.referenceDocuments (· ≠ .skillScript)

section Payload

variable {index : PackageIndex} {current : List FileMetadata}

theorem scriptOwner_staged : (e.staged parsers index current).scriptOwner = some o ↔
    e.cls = .skillScript ∧ o = skillConceptIdOf ((index.ownerOf e.path).getD []) := by
  cases hcls : e.cls <;> simp [StagedConcept.scriptOwner, FileMetadata.staged, hcls, eq_comm]

theorem referenceOwner_staged : (e.staged parsers index current).referenceOwner = some o ↔
    e.cls.isResource = true ∧ e.cls ≠ .skillScript ∧
      o = skillConceptIdOf ((index.ownerOf e.path).getD []) := by
  cases hcls : e.cls <;>
    simp [StagedConcept.referenceOwner, FileMetadata.staged, hcls, FileClass.isResource, eq_comm]

theorem packageHash_staged : (e.staged parsers index current).packageHash = some o ↔
    e.cls = .skillManifest ∧ o = packageHash parsers e.hash
      (packageMembers ((manifestDirectory e.path).getD []) index current) := by
  cases hcls : e.cls <;> simp [StagedConcept.packageHash, FileMetadata.staged, hcls, eq_comm]

end Payload

theorem TypedRows.step (hold : TypedRows b.tables) (h : Synced parsers b call b' out)
    (hstrict : call.defaults.strict = true) (hd : call.source.snapshot.Distinct) :
    TypedRows b'.tables := by
  constructor
  · rw [h.scripts, deletedRows_cascaded.scripts]
    refine h.typedFrom hstrict hd hold.scripts fun e o ho => ?_
    obtain ⟨hcls, howner⟩ := scriptOwner_staged.mp ho
    exact ⟨by rw [hcls]; rfl, hcls, howner⟩
  · rw [h.referenceDocuments, deletedRows_cascaded.referenceDocuments]
    exact h.typedFrom hstrict hd hold.referenceDocuments fun e o ho => referenceOwner_staged.mp ho

theorem typedRows_of_run {calls : List SyncCall} (hrun : Run (StrictSync parsers) .empty calls b) :
    TypedRows b.tables := by
  refine Run.invariant (P := fun b => TypedRows b.tables) hrun ⟨?_, ?_⟩ ?_
  · intro i o hi
    cases hi
  · intro i o hi
    cases hi
  · rintro b call b' hold ⟨hstrict, hd, out, hok⟩
    exact hold.step (runBundleSync_synced hok) hstrict hd

/- The rows of the two tables that hold owners, the one a resource belongs in first. -/
def ownTable (t : Tables) (cls : FileClass) : Text → Option Text :=
  if cls = .skillScript then t.scripts else t.referenceDocuments

def otherTable (t : Tables) (cls : FileClass) : Text → Option Text :=
  if cls = .skillScript then t.referenceDocuments else t.scripts

variable {t : Tables}

theorem mem_ownerRows_iff {p : Text} (cls : FileClass) : (p, o) ∈ t.ownerRows ↔
    ∃ r ∈ t.concepts.rows, r.path = p ∧
      (ownTable t cls r.id = some o ∨ otherTable t cls r.id = some o) := by
  rw [mem_ownerRows]
  refine exists_congr fun r => and_congr_right fun _ => and_congr_right fun _ => ?_
  unfold ownTable otherTable
  by_cases hcls : cls = .skillScript
  · simp [hcls]
  · simp [hcls, or_comm]

theorem Cascaded.ownRow {u : Tables} (h : Cascaded t u) (cls : FileClass) :
    ownTable u cls = cascade u.concepts (ownTable t cls) := by
  unfold ownTable
  split
  · exact h.scripts
  · exact h.referenceDocuments

theorem Cascaded.otherRow {u : Tables} (h : Cascaded t u) (cls : FileClass) :
    otherTable u cls = cascade u.concepts (otherTable t cls) := by
  unfold otherTable
  split
  · exact h.referenceDocuments
  · exact h.scripts

theorem isUnchanged_owner {scan : RowOrder} {index : PackageIndex}
    (h : isUnchanged (loadStoredProjection t scan) index e = true) (hres : e.cls.isResource = true) :
    ∃ root, index.ownerOf e.path = some root ∧
      (loadStoredProjection t scan).owners.lookup e.path = some (skillConceptIdOf root) := by
  simp only [isUnchanged, sameIdentity, sameOwner, hres, Bool.not_true, Bool.false_or, Bool.and_eq_true,
    Option.any_eq_true, decide_eq_true_eq] at h
  obtain ⟨-, ⟨-, owner, howner, root, hroot, rfl⟩, -⟩ := h
  exact ⟨root, hroot, howner⟩

theorem Synced.unchanged (h : Synced parsers b call b' out) (he : e ∈ call.source.snapshot.concepts)
    (hnot : e ∉ out.toParse) :
    isUnchanged (loadStoredProjection b.tables call.scan) call.source.snapshot.index e = true := by
  rcases mem_toParse_or_unchanged he with hmem | hun
  · exact absurd (h.toParse ▸ hmem) hnot
  · exact hun

/-- After a sync a resource has the row of its own kind, with its owner. -/
theorem Synced.ownRow (h : Synced parsers b call b' out) (hstrict : call.defaults.strict = true)
    (hd : call.source.snapshot.Distinct) (he : e ∈ call.source.snapshot.concepts)
    (hres : e.cls.isResource = true) (hkept : otherTable b.tables e.cls e.conceptId = none) :
    ownTable b'.tables e.cls e.conceptId =
      some (skillConceptIdOf ((call.source.snapshot.index.ownerOf e.path).getD [])) := by
  by_cases hparse : e ∈ out.toParse
  · unfold ownTable
    by_cases hcls : e.cls = .skillScript
    · rw [if_pos hcls, h.scripts]
      exact h.typed_staged hstrict hd he hparse (scriptOwner_staged.mpr ⟨hcls, rfl⟩)
    · rw [if_neg hcls, h.referenceDocuments]
      exact h.typed_staged hstrict hd he hparse (referenceOwner_staged.mpr ⟨hres, hcls, rfl⟩)
  · -- The row that gave the stored owner is of this kind, and stays.
    obtain ⟨root, hroot, howner⟩ := isUnchanged_owner (h.unchanged he hparse) hres
    obtain ⟨r, hr, hp, hrow⟩ := (mem_ownerRows_iff e.cls).mp (owners_lookup_mem howner)
    obtain ⟨r', hr', hp', -, hid, -⟩ := h.unchanged_row hd he hparse
    obtain rfl := ConceptTable.eq_of_path (mem_deletedRows.mp hr').1 hr (hp'.trans hp.symm)
    rw [hid] at hrow
    have hown : ownTable b.tables e.cls e.conceptId = some (skillConceptIdOf root) := by
      refine hrow.resolve_right fun hother => ?_
      rw [hkept] at hother
      cases hother
    have hsame : ownTable b'.tables e.cls e.conceptId = ownTable (deletedRows b.tables
        (call.plan b.tables).removedPaths out.staged) e.cls e.conceptId := by
      unfold ownTable
      split
      · rw [h.scripts]
        exact h.typed_other hd he fun hmem => absurd hmem hparse
      · rw [h.referenceDocuments]
        exact h.typed_other hd he fun hmem => absurd hmem hparse
    rw [hsame, deletedRows_cascaded.ownRow, cascade_of_has ⟨_, hr', hid⟩, hown, hroot,
      Option.getD_some]

/-- The row of the other kind stays while the concept does. -/
theorem Synced.otherRow (h : Synced parsers b call b' out)
    (hd : call.source.snapshot.Distinct) (he : e ∈ call.source.snapshot.concepts) :
    otherTable b'.tables e.cls e.conceptId = cascade (deletedRows b.tables
      (call.plan b.tables).removedPaths out.staged).concepts (otherTable b.tables e.cls)
      e.conceptId := by
  rw [← deletedRows_cascaded.otherRow]
  unfold otherTable
  by_cases hcls : e.cls = .skillScript
  · rw [if_pos hcls, if_pos hcls, h.referenceDocuments]
    refine h.typed_other hd he fun _ => ?_
    by_contra hne
    obtain ⟨o, ho⟩ := Option.ne_none_iff_exists'.mp hne
    exact (referenceOwner_staged.mp ho).2.1 hcls
  · rw [if_neg hcls, if_neg hcls, h.scripts]
    refine h.typed_other hd he fun _ => ?_
    by_contra hne
    obtain ⟨o, ho⟩ := Option.ne_none_iff_exists'.mp hne
    exact hcls (scriptOwner_staged.mp ho).1

theorem Synced.skill_isSome (h : Synced parsers b call b' out) (hstrict : call.defaults.strict = true)
    (hd : call.source.snapshot.Distinct) (he : e ∈ call.source.snapshot.concepts)
    (hcls : e.cls = .skillManifest) : (b'.tables.skills e.conceptId).isSome = true := by
  rw [h.skills]
  by_cases hparse : e ∈ out.toParse
  · rw [h.typed_staged hstrict hd he hparse (packageHash_staged.mpr ⟨hcls, rfl⟩)]
    rfl
  · obtain ⟨r, hr, hp, -, hid, -⟩ := h.unchanged_row hd he hparse
    have hun := h.unchanged he hparse
    simp only [isUnchanged, sameIdentity, hcls, Bool.and_eq_true, ne_eq, not_true_eq_false, decide_false,
      Bool.false_or, decide_eq_true_eq] at hun
    obtain ⟨r', hr', hp', hskill⟩ := mem_skills.mp hun.2.2
    obtain rfl := ConceptTable.eq_of_path hr' (mem_deletedRows.mp hr).1 (hp'.trans hp.symm)
    rw [h.typed_other hd he fun hmem => absurd hmem hparse, deletedRows_cascaded.skills,
      cascade_of_has ⟨_, hr, hid⟩, ← hid]
    exact hskill

theorem TypedRows.otherRow {cls : FileClass} (h : TypedRows t) (ho : otherTable t cls i = some o) :
    (∃ r ∈ t.concepts.rows, r.id = i ∧ r.path = i) ∧
      ∃ root cls', o = skillConceptIdOf root ∧ resourceClass root i = some cls' ∧ cls' ≠ cls := by
  unfold otherTable at ho
  split at ho
  · rename_i hcls
    obtain ⟨hr, root, cls', hroot, hres, hne⟩ := h.referenceDocuments i o ho
    exact ⟨hr, root, cls', hroot, hres, fun heq => hne (heq.trans hcls)⟩
  · rename_i hcls
    obtain ⟨hr, root, cls', hroot, hres, hscript⟩ := h.scripts i o ho
    exact ⟨hr, root, cls', hroot, hres, fun heq => hcls (heq ▸ hscript)⟩

end Typed

end Pgokf.Sync
