import Pgokf.Sync.Pipeline

/-! # Ids that change hands in one sync

An id that one path gives up and another takes in the same sync is both staged and removed. -/

namespace Pgokf.Sync

open Lib

/- No concept of the snapshot takes an id that is stored under another path. -/
def NoHandover (t : Tables) (snap : Snapshot) : Prop :=
  ∀ e ∈ snap.concepts, ∀ r ∈ t.concepts.rows, r.id = e.conceptId → r.path = e.path

section Facts

variable {parsers : Parsers} {b b' : BundleState} {call : SyncCall} {out : SyncOutcome} {i : Text}
  {s : StagedConcept} {e : FileMetadata}

theorem Synced.entry (h : Synced parsers b call b' out) (hs : s ∈ out.staged) :
    ∃ e ∈ out.toParse, e ∈ call.source.snapshot.concepts ∧
      s = e.staged parsers call.source.snapshot.index call.source.snapshot.entries := by
  obtain ⟨l, hsub, hl, -⟩ := h.staged
  rw [hl] at hs
  obtain ⟨e, he, rfl⟩ := List.mem_map.mp hs
  have hparse : e ∈ out.toParse := (stagingOrder_perm out.toParse).mem_iff.mp (hsub.subset he)
  exact ⟨e, hparse, mem_concepts_of_toParse (h.toParse ▸ hparse), rfl⟩

theorem Synced.staged_of_strict (h : Synced parsers b call b' out)
    (hstrict : call.defaults.strict = true) (he : e ∈ out.toParse) :
    e.staged parsers call.source.snapshot.index call.source.snapshot.entries ∈ out.staged := by
  obtain ⟨l, -, hl, hall⟩ := h.staged
  rw [hl, hall hstrict]
  exact List.mem_map_of_mem ((stagingOrder_perm out.toParse).mem_iff.mpr he)

theorem Synced.staged_id (h : Synced parsers b call b' out) {s' : StagedConcept} (hs : s ∈ out.staged)
    (hs' : s' ∈ out.staged) (hp : s.path = s'.path) : s.id = s'.id := by
  obtain ⟨e, -, he, rfl⟩ := h.entry hs
  obtain ⟨e', -, he', rfl⟩ := h.entry hs'
  have hpath : e.path = e'.path := hp
  have hcls := Snapshot.cls_eq (Snapshot.mem_concepts.mp he).1 (Snapshot.mem_concepts.mp he').1 hpath
  change e.cls.conceptId e.path = e'.cls.conceptId e'.path
  rw [hcls, hpath]

theorem Synced.mem_removedIds (h : Synced parsers b call b' out) : i ∈ out.removedIds ↔
    ∃ r ∈ b.tables.concepts.rows, r.id = i ∧
      (r.path ∈ (call.plan b.tables).removedPaths ∨ ∃ s ∈ out.staged, s.path = r.path ∧
        r.id ≠ s.id) := by
  have hlookup : ∀ s : StagedConcept, reclassifiedId (call.plan b.tables).projection.ids s = some i ↔
      ∃ r ∈ b.tables.concepts.rows, r.path = s.path ∧ r.id = i ∧ r.id ≠ s.id := by
    intro s
    simp only [reclassifiedId, Option.filter_eq_some_iff, decide_eq_true_eq]
    have hids : (call.plan b.tables).projection.ids.lookup s.path = some i ↔
        ∃ r ∈ b.tables.concepts.rows, r.path = s.path ∧ r.id = i := ids_lookup
    rw [hids]
    constructor
    · rintro ⟨⟨r, hr, hp, rfl⟩, hne⟩
      exact ⟨r, hr, hp, rfl, hne⟩
    · rintro ⟨r, hr, hp, rfl, hne⟩
      exact ⟨⟨r, hr, hp, rfl⟩, hne⟩
  rw [h.removedIds, List.mem_append, List.mem_filterMap]
  simp only [hlookup, loadRemovedConceptIds, List.mem_map, List.mem_filter, decide_eq_true_eq]
  constructor
  · rintro (⟨r, ⟨hr, hp⟩, rfl⟩ | ⟨s, hs, r, hr, hp, rfl, hne⟩)
    · exact ⟨r, hr, rfl, .inl hp⟩
    · exact ⟨r, hr, rfl, .inr ⟨s, hs, hp.symm, hne⟩⟩
  · rintro ⟨r, hr, rfl, hp | ⟨s, hs, hp, hne⟩⟩
    · exact .inl ⟨r, ⟨hr, hp⟩, rfl⟩
    · exact .inr ⟨s, hs, r, hr, hp.symm, rfl, hne⟩

theorem Synced.has_iff (h : Synced parsers b call b' out) :
    b'.tables.concepts.Has i ↔
      b.tables.concepts.Has i ∧ i ∉ out.removedIds ∨ i ∈ out.staged.map (·.id) := by
  rw [upsertConcepts_has h.concepts i, List.mem_map]
  refine or_congr ?_ Iff.rfl
  rw [h.mem_removedIds]
  constructor
  · rintro ⟨r, hr, rfl⟩
    obtain ⟨hr, hkept, hsame⟩ := mem_deletedRows.mp hr
    refine ⟨⟨r, hr, rfl⟩, ?_⟩
    rintro ⟨r', hr', hid, hgone⟩
    rw [ConceptTable.eq_of_id hr' hr hid] at hgone
    rcases hgone with hgone | ⟨s, hs, hp, hne⟩
    · exact hkept hgone
    · exact hne (hsame s hs hp.symm)
  · rintro ⟨⟨r, hr, rfl⟩, hnot⟩
    refine ⟨r, mem_deletedRows.mpr ⟨hr, fun hp => hnot ⟨r, hr, rfl, .inl hp⟩, fun s hs hp => ?_⟩, rfl⟩
    by_contra hne
    exact hnot ⟨r, hr, rfl, .inr ⟨s, hs, hp.symm, hne⟩⟩

theorem Synced.staged_not_removed (h : Synced parsers b call b' out)
    (hno : NoHandover b.tables call.source.snapshot) (hi : i ∈ out.staged.map (·.id)) :
    i ∉ out.removedIds := by
  obtain ⟨s, hs, rfl⟩ := List.mem_map.mp hi
  rw [h.mem_removedIds]
  rintro ⟨r, hr, hid, hgone⟩
  obtain ⟨e, -, he, rfl⟩ := h.entry hs
  have hpath : r.path = e.path := hno e he r hr hid
  rcases hgone with hgone | ⟨s', hs', hp, hne⟩
  · exact (mem_planned_removedPaths.mp hgone).2 e he hpath.symm
  · exact hne (hid.trans (h.staged_id hs hs' (hpath.symm.trans hp.symm)))

end Facts

def TrackedSync (parsers : Parsers) (b : BundleState) (call : SyncCall) (b' : BundleState) : Prop :=
  call.defaults.trackHistory = true ∧ NoHandover b.tables call.source.snapshot ∧
    ∃ out, runBundleSync parsers b call = .ok (b', out)

/-- The history lies in the past of `now`, and exactly the stored concepts have an open version. -/
structure Tracked (now : Int) (b : BundleState) : Prop where
  recorded : Recorded now b.history
  current : ∀ i, Open b.history i ↔ b.tables.concepts.Has i

section Run

variable {parsers : Parsers} {b b' : BundleState} {call : SyncCall}

theorem Tracked.step {now : Int} (h : Tracked now b) (hle : now ≤ call.instant)
    (hstep : TrackedSync parsers b call b') : Tracked call.instant b' := by
  obtain ⟨htrack, hno, out, hok⟩ := hstep
  have hsync := runBundleSync_synced hok
  have hhistory := hsync.history
  rw [writeHistory, if_pos htrack, bind_eq_ok] at hhistory
  obtain ⟨h₁, hproject, hprune⟩ := hhistory
  obtain ⟨hrec, hopen⟩ := projectHistory_ok (h.recorded.mono hle) hproject
  rw [Except.ok.injEq] at hprune
  constructor
  · rw [← hprune]
    exact hrec.sublist (pruneHistory_sublist _ _ _)
  · intro i
    rw [← hprune, pruneHistory_open, hopen i, h.current i, hsync.has_iff]
    have hdisjoint : i ∈ out.staged.map (·.id) → i ∉ out.removedIds := hsync.staged_not_removed hno
    constructor
    · rintro ⟨hlive | hstaged, hnot⟩
      · exact .inl ⟨hlive, hnot⟩
      · exact .inr hstaged
    · rintro (⟨hlive, hnot⟩ | hstaged)
      · exact ⟨.inl hlive, hnot⟩
      · exact ⟨.inr hstaged, hdisjoint hstaged⟩

/-- In every run of tracked syncs under a clock that does not go back, each stored concept has
exactly one open version and no other has one; versions increase and are disjoint. -/
theorem history_law {calls : List SyncCall} (hrun : Run (TrackedSync parsers) .empty calls b)
    (hclock : (calls.map (·.instant)).Pairwise (· ≤ ·)) :
    (∀ i, b.tables.concepts.Has i → (openVersions b.history i).length = 1) ∧
    (∀ i, ¬ b.tables.concepts.Has i → openVersions b.history i = []) ∧
    (∀ i, ((versionsOf b.history i).map (·.version)).Pairwise (· < ·)) ∧
    (∀ i, (versionsOf b.history i).Pairwise fun v w => ∀ x, ¬ (v.Covers x ∧ w.Covers x)) := by
  -- The history is tracked at every instant that no call is later than.
  have htracked : (calls.map (·.instant)).Pairwise (· ≤ ·) →
      ∀ now, (∀ call ∈ calls, call.instant ≤ now) → Tracked now b := by
    refine Run.history_invariant (P := fun calls b => (calls.map (·.instant)).Pairwise (· ≤ ·) →
      ∀ now, (∀ call ∈ calls, call.instant ≤ now) → Tracked now b) hrun ?_ ?_
    · intro _ now _
      exact ⟨.nil, fun i => by simp [Open, BundleState.empty, Tables.empty, ConceptTable.Has,
        ConceptTable.empty]⟩
    · intro calls b call b' ih hstep hclock now hpast
      rw [List.map_append, List.pairwise_append] at hclock
      obtain ⟨hbefore, -, hlast⟩ := hclock
      have hle : ∀ c ∈ calls, c.instant ≤ call.instant := fun c hc =>
        hlast _ (List.mem_map_of_mem hc) _ (by simp)
      have hnext := (ih hbefore call.instant hle).step le_rfl hstep
      exact ⟨hnext.recorded.mono (hpast call (by simp)), hnext.current⟩
  obtain ⟨now, hnow⟩ : ∃ now, ∀ call ∈ calls, call.instant ≤ now := by
    obtain rfl | ⟨before, last, rfl⟩ := calls.eq_nil_or_concat'
    · exact ⟨0, by simp⟩
    · rw [List.map_append, List.pairwise_append] at hclock
      refine ⟨last.instant, fun call hcall => ?_⟩
      rcases List.mem_append.mp hcall with hcall | hcall
      · exact hclock.2.2 _ (List.mem_map_of_mem hcall) _ (by simp)
      · rw [List.mem_singleton.mp hcall]
  obtain ⟨hrec, hcurrent⟩ := htracked hclock now hnow
  refine ⟨fun i hi => hrec.openVersions_length ((hcurrent i).mpr hi), fun i hi => ?_,
    hrec.versions_increase, hrec.intervals_disjoint⟩
  exact openVersions_eq_nil.mpr fun hopen => hi ((hcurrent i).mp hopen)

end Run

instance {t : Tables} {snap : Snapshot} : Decidable (NoHandover t snap) :=
  inferInstanceAs (Decidable (∀ e ∈ snap.concepts, ∀ r ∈ t.concepts.rows, _ → _))

instance {t : ConceptTable} {i : Text} : Decidable (t.Has i) :=
  inferInstanceAs (Decidable (∃ r ∈ t.rows, r.id = i))

/- A strict sync with history, whose scan returns scripts before reference documents. -/
def sampleCall (snapshot : Snapshot) (instant : Int) : SyncCall where
  source := sampleSource snapshot
  defaults := ⟨true, true, 0, "warn"⟩
  scan := ⟨id, fun _ => .refl _⟩
  instant := instant
  transactionTime := instant

def runDocument : Snapshot where
  entries := [⟨"docs/scripts/run.md", "h1", .okfDocument⟩]
  classified := by decide

def runPackage : Snapshot where
  entries :=
    [⟨"docs/SKILL.md", "h2", .skillManifest⟩,
      ⟨"docs/scripts/run", "h3", .skillScript⟩]
  classified := by decide

def runBoth : Snapshot where
  entries :=
    [⟨"docs/SKILL.md", "h2", .skillManifest⟩,
      ⟨"docs/scripts/run.md", "h1", .skillScript⟩]
  classified := by decide

def documentStored : BundleState := BundleState.empty.sync sampleParsers (sampleCall runDocument 1)

theorem trackedSync_of_accepts {parsers : Parsers} {b : BundleState} {call : SyncCall}
    (htrack : call.defaults.trackHistory = true) (hno : NoHandover b.tables call.source.snapshot)
    (hok : b.accepts parsers call = true) : TrackedSync parsers b call (b.sync parsers call) :=
  ⟨htrack, hno, BundleState.sync_of_accepts hok⟩

theorem history_law_reclassified :
    let b₂ := documentStored.sync sampleParsers (sampleCall runBoth 2)
    b₂.tables.concepts.Has "docs/scripts/run.md" ∧
      (openVersions b₂.history "docs/scripts/run.md").length = 1 := by
  intro b₂
  have hrun : Run (TrackedSync sampleParsers) .empty
      ([sampleCall runDocument 1] ++ [sampleCall runBoth 2]) b₂ :=
    .snoc (.snoc (.start _) (trackedSync_of_accepts rfl (by decide) (by decide)))
      (trackedSync_of_accepts rfl (by decide) (by decide))
  have hlive : b₂.tables.concepts.Has "docs/scripts/run.md" := by decide
  exact ⟨hlive, (history_law hrun (by decide)).1 _ hlive⟩

/-- The script takes the id of the removed document, whose tombstone closes its new version. -/
theorem handover_closes_live_version :
    let b₂ := documentStored.sync sampleParsers (sampleCall runPackage 2)
    BundleState.empty.accepts sampleParsers (sampleCall runDocument 1) = true ∧
    documentStored.accepts sampleParsers (sampleCall runPackage 2) = true ∧
    b₂.tables.concepts.Has "docs/scripts/run" ∧
    openVersions b₂.history "docs/scripts/run" = [] := by
  decide

end Pgokf.Sync
