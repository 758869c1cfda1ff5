import Pgokf.Sync.TypedRows

/-! # Stored package hashes follow the members of their packages

No root stands below a directory of resources. So as long as a root stays, a member changes only
with its file, and the file touches the root. -/

namespace Pgokf.Sync

open Lib

def PlainResources (snap : Snapshot) : Prop :=
  ∀ e ∈ snap.entries, e.cls.isResource = true → isReservedPath e.path = false

def PlainSync (parsers : Parsers) (b : BundleState) (call : SyncCall) (b' : BundleState) : Prop :=
  StrictSync parsers b call b' ∧ PlainResources call.source.snapshot

def memberAt (root path hash : Text) : Option PackageMember :=
  (resourceClass root path).bind fun cls =>
    (relative '/' root path).map fun packagePath =>
      { cls, path, packagePath, conceptId := cls.conceptId path, fileHash := hash }

section Members

variable {snap : Snapshot} {t : Tables} {root : Text} {e : FileMetadata} {m : PackageMember}

theorem packageMember_eq (he : e ∈ snap.entries) (hroot : root ∈ snap.index.roots) :
    packageMember root snap.index e = memberAt root e.path e.hash := by
  unfold packageMember memberAt
  cases hcls : resourceClass root e.path with
  | some cls =>
    obtain ⟨hown, hclassify⟩ := snap.settled.classify hroot hcls
    obtain rfl : e.cls = cls := Option.some.inj ((Snapshot.classify he).symm.trans hclassify)
    have hres : e.cls.isResource = true := resourceClass_isResource hcls
    obtain ⟨x, hx⟩ := relative_isSome (resourceClass_encloses hcls)
    have hrel : snap.index.packageRelative e.path = some x := by
      simp [PackageIndex.packageRelative, hown, hcls, hx]
    simp [hres, hown, hrel, hx, FileMetadata.conceptId]
  | none =>
    rw [if_neg]
    · rfl
    · intro h
      simp only [Bool.and_eq_true, decide_eq_true_eq] at h
      obtain ⟨r, -, hown, hcls'⟩ := classify_resource (Snapshot.classify he) h.1
      rw [Option.some.inj (hown.symm.trans h.2), hcls] at hcls'
      cases hcls'

theorem memberAt_path {p h : Text} (hm : memberAt root p h = some m) : m.path = p := by
  obtain ⟨cls, -, hm⟩ := Option.bind_eq_some_iff.mp hm
  obtain ⟨x, -, rfl⟩ := Option.map_eq_some_iff.mp hm
  rfl

theorem memberAt_resource {p h : Text} (hm : memberAt root p h = some m) :
    ∃ cls, resourceClass root p = some cls := by
  obtain ⟨cls, hcls, -⟩ := Option.bind_eq_some_iff.mp hm
  exact ⟨cls, hcls⟩

theorem mem_members (hconv : Converged t snap) (hplain : PlainResources snap)
    (hroot : root ∈ snap.index.roots) :
    m ∈ snap.entries.filterMap (packageMember root snap.index) ↔
      ∃ r ∈ t.concepts.rows, memberAt root r.path r.fileHash = some m := by
  rw [List.mem_filterMap]
  constructor
  · rintro ⟨e, he, hm⟩
    rw [packageMember_eq he hroot] at hm
    obtain ⟨cls, hcls⟩ := memberAt_resource hm
    have hclassify := (snap.settled.classify hroot hcls).2
    have hsame : e.cls = cls := Option.some.inj ((Snapshot.classify he).symm.trans hclassify)
    have hname := hplain e he (hsame ▸ resourceClass_isResource hcls)
    have hmem : e ∈ snap.concepts := Snapshot.mem_concepts.mpr ⟨he, hname⟩
    exact ⟨⟨e.conceptId, e.path, e.hash⟩, (hconv _).mpr (mem_rows.mpr ⟨e, hmem, rfl, rfl, rfl⟩), hm⟩
  · rintro ⟨r, hr, hm⟩
    obtain ⟨e, he, -, hp, hh⟩ := mem_rows.mp ((hconv r).mp hr)
    have hmem := Snapshot.concepts_subset he
    exact ⟨e, hmem, by rw [packageMember_eq hmem hroot, ← hp, ← hh, hm]⟩

theorem members_nodup (hd : snap.Distinct) (hroot : root ∈ snap.index.roots) :
    ((snap.entries.filterMap (packageMember root snap.index)).map (·.path)).Nodup := by
  rw [List.Nodup, List.pairwise_map, List.pairwise_filterMap]
  have hpaths := List.pairwise_map.mp hd
  refine hpaths.imp_of_mem fun {e e'} he he' hne m hm m' hm' => ?_
  rw [packageMember_eq he hroot] at hm
  rw [packageMember_eq he' hroot] at hm'
  rw [memberAt_path hm, memberAt_path hm']
  exact hne

end Members

section Fresh

variable {parsers : Parsers} {b b' : BundleState} {call : SyncCall} {out : SyncOutcome} {old : Snapshot}
  {root p : Text} {e : FileMetadata}

theorem Snapshot.manifest_root {snap : Snapshot} (he : e ∈ snap.entries)
    (hcls : e.cls = .skillManifest) :
    ∃ root, manifestDirectory e.path = some root ∧ root ∈ snap.index.roots := by
  have hclassify : snap.index.classify e.path = some .skillManifest := hcls ▸ Snapshot.classify he
  obtain ⟨root, hdir⟩ := manifestDirectory_of_classify hclassify
  exact ⟨root, hdir, (classify_manifest_iff (List.mem_map_of_mem he) hdir).mp hclassify⟩

theorem Synced.untouched (h : Synced parsers b call b' out) (hd : call.source.snapshot.Distinct)
    (he : e ∈ call.source.snapshot.entries) (hcls : e.cls = .skillManifest)
    (hdir : manifestDirectory e.path = some root) (hroot : root ∈ call.source.snapshot.index.roots)
    (hnot : e ∉ out.toParse) {cls : FileClass} (hres : resourceClass root p = some cls) :
    (∀ e' ∈ call.source.snapshot.concepts, e'.path = p → isUnchanged
      (loadStoredProjection b.tables call.scan) call.source.snapshot.index e' = true) ∧
    p ∉ (call.plan b.tables).removedPaths := by
  obtain ⟨hown, hclassify⟩ := call.source.snapshot.settled.classify hroot hres
  have hplan : e ∉ (call.plan b.tables).toParse := h.toParse ▸ hnot
  rw [SyncCall.plan, planSync_eq] at hplan ⊢
  -- Otherwise the path touches the root, and its manifest is appended.
  have hfree : p ∉ (storedDelta b.tables call.scan call.source.snapshot).toParse.map (·.path) ++
      (storedDelta b.tables call.scan call.source.snapshot).removedPaths := by
    intro hmem
    refine hplan (mem_invalidatePackages.mpr ?_)
    by_cases hsched : e.path ∈
        (storedDelta b.tables call.scan call.source.snapshot).toParse.map (·.path)
    · obtain ⟨e', he', hp⟩ := List.mem_map.mp hsched
      exact .inl (hd.eq (mem_toParse.mp he').1 he hp ▸ he')
    · refine .inr ⟨he, hcls, hsched, root, hdir, p, hmem, ?_⟩
      rw [Snapshot.manifestIndex_eq]
      exact mem_touchedRoots hclassify (resourceClass_isResource hres) hown
  rw [List.mem_append, not_or] at hfree
  refine ⟨fun e' he' hp => ?_, hfree.2⟩
  by_contra hun
  obtain ⟨hentry, hname⟩ := Snapshot.mem_concepts.mp he'
  have hsched : e' ∈ (storedDelta b.tables call.scan call.source.snapshot).toParse :=
    mem_toParse.mpr ⟨hentry, hname, by simpa using hun⟩
  exact hfree.1 (hp ▸ List.mem_map_of_mem hsched)

theorem Synced.member_rows (h : Synced parsers b call b' out) (hstrict : call.defaults.strict = true)
    (hd : call.source.snapshot.Distinct)
    (he : e ∈ call.source.snapshot.entries) (hcls : e.cls = .skillManifest)
    (hdir : manifestDirectory e.path = some root) (hroot : root ∈ call.source.snapshot.index.roots)
    (hnot : e ∉ out.toParse) {m : PackageMember} :
    (∃ r ∈ b.tables.concepts.rows, memberAt root r.path r.fileHash = some m) ↔
      ∃ r ∈ b'.tables.concepts.rows, memberAt root r.path r.fileHash = some m := by
  have hconv := h.converged hstrict hd
  constructor
  · rintro ⟨r, hr, hm⟩
    obtain ⟨cls, hres⟩ := memberAt_resource hm
    obtain ⟨hsame, hkept⟩ := h.untouched hd he hcls hdir hroot hnot hres
    have hstays : ∃ e' ∈ call.source.snapshot.concepts, e'.path = r.path := by
      by_contra hnone
      exact hkept (mem_planned_removedPaths.mpr ⟨⟨r, hr, rfl⟩, fun e' he' hp => hnone ⟨e', he', hp⟩⟩)
    obtain ⟨e', he', hp⟩ := hstays
    obtain ⟨r', hr', hp', hh, hid⟩ := isUnchanged_row (hsame e' he' hp)
    obtain rfl := ConceptTable.eq_of_path hr' hr (hp'.trans hp)
    exact ⟨r', (hconv r').mpr (mem_rows.mpr ⟨e', he', hid, hp', hh⟩), hm⟩
  · rintro ⟨r, hr, hm⟩
    obtain ⟨cls, hres⟩ := memberAt_resource hm
    obtain ⟨e', he', -, hp, hh⟩ := mem_rows.mp ((hconv r).mp hr)
    obtain ⟨hsame, -⟩ := h.untouched hd he hcls hdir hroot hnot hres
    obtain ⟨r', hr', hp', hh', -⟩ := isUnchanged_row (hsame e' he' hp.symm)
    exact ⟨r', hr', by rw [hp', hh', ← hp, ← hh, hm]⟩

theorem Synced.manifest_before (h : Synced parsers b call b' out) (hconv : Converged b.tables old)
    (he : e ∈ call.source.snapshot.entries) (hcls : e.cls = .skillManifest)
    (hdir : manifestDirectory e.path = some root) (hnot : e ∉ out.toParse) :
    root ∈ old.index.roots ∧ ∃ e₀ ∈ old.entries, e₀.cls = .skillManifest ∧ e₀.path = e.path ∧
      e₀.hash = e.hash ∧ e₀.conceptId = e.conceptId := by
  have hun := h.unchanged (Snapshot.manifest_mem_concepts he hcls) hnot
  obtain ⟨r, hr, hp, hh, hid⟩ := isUnchanged_row hun
  obtain ⟨e₀, he₀, hid₀, hp₀, hh₀⟩ := mem_rows.mp ((hconv r).mp hr)
  have hpath : e₀.path = e.path := hp₀.symm.trans hp
  have hentry := Snapshot.concepts_subset he₀
  have hroot : root ∈ old.index.roots := by
    rcases root_or_resource (List.mem_map_of_mem hentry) (hpath ▸ hdir) with hroot | ⟨cls, hcls₀, hres⟩
    · exact hroot
    · -- A resource has its path for an id, a manifest its path without the extension.
      obtain rfl := Option.some.inj (hcls₀.symm.trans (Snapshot.classify hentry))
      have hlong : e₀.conceptId = e₀.path := conceptId_resource hres
      have hshort := conceptId_append (Snapshot.classify he) (by rw [hcls]; rfl)
      have hlen := congrArg List.length hshort
      have hsame : e.cls.conceptId e.path = e.path :=
        (hid.symm.trans hid₀).trans (hlong.trans hpath)
      simp [hsame] at hlen
  have hmanifest : old.index.classify e₀.path = some .skillManifest :=
    classify_manifest_of_root (hpath ▸ hdir) hroot
  exact ⟨hroot, e₀, hentry, Option.some.inj ((Snapshot.classify hentry).symm.trans hmanifest), hpath,
    hh₀.symm.trans hh, hid₀.symm.trans hid⟩

theorem Synced.members_eq (h : Synced parsers b call b' out) (hstrict : call.defaults.strict = true)
    (hd : call.source.snapshot.Distinct) (hplain : PlainResources call.source.snapshot)
    (hd₀ : old.Distinct) (hplain₀ : PlainResources old) (hconv : Converged b.tables old)
    (he : e ∈ call.source.snapshot.entries) (hcls : e.cls = .skillManifest)
    (hdir : manifestDirectory e.path = some root) (hroot : root ∈ call.source.snapshot.index.roots)
    (hnot : e ∉ out.toParse) :
    packageMembers root old.index old.entries =
      packageMembers root call.source.snapshot.index call.source.snapshot.entries := by
  obtain ⟨hroot₀, -⟩ := h.manifest_before hconv he hcls hdir hnot
  refine insertionSort_key_eq (f := fun m : PackageMember => m.path) (r := fun p q : Text => p ≤ q)
    (members_nodup hd₀ hroot₀) (members_nodup hd hroot) fun m => ?_
  rw [mem_members hconv hplain₀ hroot₀, mem_members (h.converged hstrict hd) hplain hroot]
  exact h.member_rows hstrict hd he hcls hdir hroot hnot

def Snapshot.packageHash (parsers : Parsers) (snap : Snapshot) (e : FileMetadata) : Text :=
  Sync.packageHash parsers e.hash
    (packageMembers ((manifestDirectory e.path).getD []) snap.index snap.entries)

structure Fresh (parsers : Parsers) (t : Tables) (snap : Snapshot) : Prop where
  distinct : snap.Distinct
  plain : PlainResources snap
  converged : Converged t snap
  hashes : ∀ e ∈ snap.entries, e.cls = .skillManifest →
    t.skills e.conceptId = some (snap.packageHash parsers e)

theorem Fresh.step (hold : Fresh parsers b.tables old) (h : Synced parsers b call b' out)
    (hstrict : call.defaults.strict = true) (hd : call.source.snapshot.Distinct)
    (hplain : PlainResources call.source.snapshot) : Fresh parsers b'.tables call.source.snapshot where
  distinct := hd
  plain := hplain
  converged := h.converged hstrict hd
  hashes := fun e he hcls => by
    have hmem := Snapshot.manifest_mem_concepts he hcls
    rw [h.skills]
    by_cases hparse : e ∈ out.toParse
    · exact h.typed_staged hstrict hd hmem hparse (packageHash_staged.mpr ⟨hcls, rfl⟩)
    · obtain ⟨r, hr, -, -, hid, -⟩ := h.unchanged_row hd hmem hparse
      obtain ⟨root, hdir, hroot⟩ := Snapshot.manifest_root he hcls
      obtain ⟨-, e₀, he₀, hcls₀, hp₀, hh₀, hid₀⟩ :=
        h.manifest_before hold.converged he hcls hdir hparse
      have hmembers := h.members_eq hstrict hd hplain hold.distinct hold.plain hold.converged he hcls
        hdir hroot hparse
      rw [h.typed_other hd hmem fun hmem => absurd hmem hparse, deletedRows_cascaded.skills,
        cascade_of_has ⟨r, hr, hid⟩, ← hid₀, hold.hashes e₀ he₀ hcls₀]
      simp only [Snapshot.packageHash, hp₀, hh₀, hdir, Option.getD_some, hmembers]

theorem fresh_of_run {calls : List SyncCall} (hrun : Run (PlainSync parsers) .empty calls b) :
    ∃ snap, Fresh parsers b.tables snap := by
  refine Run.invariant (P := fun b => ∃ snap, Fresh parsers b.tables snap) hrun ?_ ?_
  · refine ⟨⟨[], by simp⟩, by simp [Snapshot.Distinct, Snapshot.paths], ?_, fun r => ?_, ?_⟩
    · intro e he
      cases he
    · simp [BundleState.empty, Tables.empty, ConceptTable.empty, Snapshot.rows, Snapshot.concepts]
    · intro e he
      cases he
  · rintro b call b' ⟨old, hold⟩ ⟨⟨hstrict, hd, out, hok⟩, hplain⟩
    exact ⟨_, hold.step (runBundleSync_synced hok) hstrict hd hplain⟩

/-- After a strict sync each manifest is stored with the hash of its package; one whose members have
changed is staged. -/
theorem package_hash_fresh {calls : List SyncCall} (hrun : Run (PlainSync parsers) .empty calls b)
    (hok : runBundleSync parsers b call = .ok (b', out)) (hstrict : call.defaults.strict = true)
    (hd : call.source.snapshot.Distinct) (hplain : PlainResources call.source.snapshot) :
    ∀ e ∈ call.source.snapshot.entries, e.cls = .skillManifest →
      ∃ root, manifestDirectory e.path = some root ∧
        b'.tables.skills e.conceptId = some (packageHash parsers e.hash
          (packageMembers root call.source.snapshot.index call.source.snapshot.entries)) ∧
        ∀ old : Snapshot, old.Distinct → PlainResources old → Converged b.tables old →
          packageMembers root old.index old.entries ≠
            packageMembers root call.source.snapshot.index call.source.snapshot.entries →
          e ∈ out.toParse := by
  intro e he hcls
  have hsync := runBundleSync_synced hok
  obtain ⟨before, hold⟩ := fresh_of_run hrun
  obtain ⟨root, hdir, hroot⟩ := Snapshot.manifest_root he hcls
  have hhash := (hold.step hsync hstrict hd hplain).hashes e he hcls
  rw [Snapshot.packageHash, hdir, Option.getD_some] at hhash
  refine ⟨root, hdir, hhash, fun old hd₀ hplain₀ hconv hne => ?_⟩
  by_contra hnot
  exact hne (hsync.members_eq hstrict hd hplain hd₀ hplain₀ hconv he hcls hdir hroot hnot)

end Fresh

instance {snap : Snapshot} : Decidable (PlainResources snap) :=
  inferInstanceAs (Decidable (∀ e ∈ snap.entries, _ → _))

def runManifest : Snapshot where
  entries := [⟨"docs/SKILL.md", "h2", .skillManifest⟩]
  classified := by decide

def packageStored : BundleState := BundleState.empty.sync sampleParsers (sampleCall runPackage 1)

theorem package_hash_fresh_script_removed : ∃ b₂ out,
    runBundleSync sampleParsers packageStored (sampleCall runManifest 2) = .ok (b₂, out) ∧
      b₂.tables.skills "docs/SKILL" = some (packageHash sampleParsers "h2" []) := by
  have hstored : BundleState.empty.accepts sampleParsers (sampleCall runPackage 1) = true := by decide
  have haccepts : packageStored.accepts sampleParsers (sampleCall runManifest 2) = true := by decide
  have hstrict : StrictSync sampleParsers .empty (sampleCall runPackage 1) packageStored :=
    ⟨rfl, by decide, BundleState.sync_of_accepts hstored⟩
  have hrun : Run (PlainSync sampleParsers) .empty ([] ++ [sampleCall runPackage 1]) packageStored :=
    .snoc (.start _) ⟨hstrict, by decide⟩
  obtain ⟨out, hok⟩ := BundleState.sync_of_accepts haccepts
  obtain ⟨root, hdir, hhash, -⟩ := package_hash_fresh hrun hok rfl (by decide) (by decide)
    ⟨"docs/SKILL.md", "h2", .skillManifest⟩ (by decide) rfl
  obtain rfl : "docs" = root := Option.some.inj (by rw [← hdir]; decide)
  exact ⟨_, out, hok, hhash⟩

end Pgokf.Sync
