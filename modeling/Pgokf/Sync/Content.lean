import Pgokf.Sync.Convergence
import Pgokf.Sync.Normalize

/-! # Content handed over by the caller (`catalog/content.rs`, `ContentSource` of `catalog/sync.rs`)

The paths and the bytes arrive in two arrays. Nothing compares two of the paths. -/

namespace Pgokf.Sync

open Lib

structure Ceilings where
  maxBundleFiles : Nat
  maxFileBytes : Nat

def validateContentPath (path : Text) : Except CatalogError Unit := do
  ensure (path ≠ []) (.invalidParameter "content path must not be empty")
  ensure ('\x00' ∉ path) (.invalidParameter "content path must not contain NUL bytes")
  let leaves := (components path).any fun component => component = .parentDir || component = .rootDir
  let unnormalized := (path.splitOn '/').any fun segment => segment = [] || segment = "."
  ensure (!(leaves || unnormalized))
    { kind := .invalidParameter
      message := "content path is not a safe, normalized bundle-relative path: " ++ String.ofList path
      bundlePath := path }

def validateContent (limits : Ceilings) (path : Text) (content : Bytes) : Except CatalogError Unit := do
  validateContentPath path
  ensure (content.length ≤ limits.maxFileBytes)
    { kind := .invalidParameter
      message := "content for " ++ String.ofList path ++ " is " ++ toString content.length ++
        " bytes, exceeding the pgokf.max_file_bytes ceiling of " ++ toString limits.maxFileBytes
      bundlePath := path }

def validateArrays (limits : Ceilings) (paths : List Text) (contents : List Bytes) :
    Except CatalogError Unit := do
  ensure (paths.length = contents.length)
    (.invalidParameter ("paths and contents must have the same length (got " ++ toString paths.length ++
      " paths, " ++ toString contents.length ++ " contents)"))
  ensure (paths.length ≤ limits.maxBundleFiles)
    (.invalidParameter ("content bundle has " ++ toString paths.length ++
      " files, exceeding the pgokf.max_bundle_files ceiling of " ++ toString limits.maxBundleFiles))
  (paths.zip contents).forM fun (path, content) => validateContent limits path content

theorem validateArrays_length {limits : Ceilings} {paths : List Text} {contents : List Bytes}
    (h : validateArrays limits paths contents = .ok ()) : paths.length = contents.length := by
  simp only [validateArrays, bind_eq_ok, ensure_eq_ok, decide_eq_true_eq] at h
  obtain ⟨-, hlen, -⟩ := h
  exact hlen

/-! ### `ContentSource` -/

/- The snapshot and the bytes by path. Two validated paths are one key of the map exactly when they
are the same text. -/
structure ContentSource where
  snapshot : Snapshot
  contents : AList fun _ : Text => Bytes

section New

variable (digest : Bytes → Text) (index : PackageIndex)

def contentEntry (file : Text × Bytes) : Except CatalogError FileMetadata :=
  match index.classify file.1 with
  | some cls => .ok { path := file.1, hash := digest file.2, cls }
  | none =>
    .error
      { kind := .invalidParameter
        message := "content path " ++ String.ofList file.1 ++
          " is not catalog content: only Markdown " ++
          "documents, SKILL.md manifests, and files below a provided package's scripts/, " ++
          "references/, or assets/ can be stored"
        bundlePath := file.1 }

/-- Paths are compared component by component. -/
def pathOrder (a b : FileMetadata) : Prop := a.path.splitOn '/' ≤ b.path.splitOn '/'

instance : DecidableRel pathOrder := fun a b =>
  inferInstanceAs (Decidable (a.path.splitOn '/' ≤ b.path.splitOn '/'))

theorem contentEntry_ok {digest : Bytes → Text} {index : PackageIndex} {file : Text × Bytes}
    {e : FileMetadata} (h : contentEntry digest index file = .ok e) :
    e.path = file.1 ∧ e.hash = digest file.2 ∧ index.classify e.path = some e.cls := by
  unfold contentEntry at h
  split at h
  · rename_i cls hcls
    obtain rfl := Except.ok.inj h
    exact ⟨rfl, rfl, hcls⟩
  · cases h

theorem contentEntries_paths {digest : Bytes → Text} {index : PackageIndex}
    {files : List (Text × Bytes)} {entries : List FileMetadata}
    (h : files.mapM (contentEntry digest index) = .ok entries) :
    entries.map (·.path) = files.map Prod.fst := by
  have hall := forall₂_of_mapM h
  clear h
  induction hall with
  | nil => rfl
  | cons he _ ih => rw [List.map_cons, List.map_cons, ih, (contentEntry_ok he).1]

theorem contentEntries_mem {digest : Bytes → Text} {index : PackageIndex}
    {files : List (Text × Bytes)} {entries : List FileMetadata} {e : FileMetadata}
    (h : files.mapM (contentEntry digest index) = .ok entries) (he : e ∈ entries) :
    ∃ file ∈ files, contentEntry digest index file = .ok e := by
  have hall := forall₂_of_mapM h
  clear h
  induction hall with
  | nil => simp at he
  | cons hfile _ ih =>
    rcases List.mem_cons.mp he with rfl | he
    · exact ⟨_, by simp, hfile⟩
    · obtain ⟨file, hmem, hfile⟩ := ih he
      exact ⟨file, by simp [hmem], hfile⟩

/-- The index of all paths handed over is the index of the entries. -/
theorem contentEntries_classified {digest : Bytes → Text} {paths : List Text} {contents : List Bytes}
    {entries : List FileMetadata} (hlen : paths.length = contents.length)
    (h : (paths.zip contents).mapM (contentEntry digest (.fromPaths paths)) = .ok entries) :
    ∀ e ∈ entries.insertionSort pathOrder,
      (PackageIndex.fromPaths ((entries.insertionSort pathOrder).map (·.path))).classify e.path =
        some e.cls := by
  intro e he
  have hpaths : entries.map (·.path) = paths := by
    rw [contentEntries_paths h, List.map_fst_zip hlen.le]
  have hindex : PackageIndex.fromPaths ((entries.insertionSort pathOrder).map (·.path)) =
      PackageIndex.fromPaths paths := by
    refine fromPaths_congr fun p => ?_
    rw [← hpaths]
    exact ((List.perm_insertionSort pathOrder entries).map _).mem_iff
  obtain ⟨file, -, hfile⟩ := contentEntries_mem h ((List.mem_insertionSort _).mp he)
  rw [hindex]
  exact (contentEntry_ok hfile).2.2

/-- `ContentSource::new`, for arrays of one length. -/
def ContentSource.new (paths : List Text) (contents : List Bytes)
    (hlen : paths.length = contents.length) : Except CatalogError ContentSource :=
  match h : (paths.zip contents).mapM (contentEntry digest (.fromPaths paths)) with
  | .error e => .error e
  | .ok entries =>
    .ok
      { snapshot := ⟨entries.insertionSort pathOrder, contentEntries_classified hlen h⟩
        contents := collect (paths.zip contents) }

end New

def ContentSource.readBytes (source : ContentSource) (path : Text) : Except CatalogError Bytes :=
  match source.contents.lookup path with
  | some content => .ok content
  | none =>
    .error
      { kind := .internal, message := "no content was provided for path " ++ String.ofList path
        bundlePath := path }

/- The source a sync reads; the version stands in the `index.md` of the root. -/
def ContentSource.toSource (source : ContentSource) (indexOkfVersion : Bytes → Option Text) :
    Source where
  snapshot := source.snapshot
  readBytes := source.readBytes
  rootOkfVersion := (source.contents.lookup "index.md".toList).bind indexOkfVersion

/-- One entry for each path, hashed as it will be read, and one id for each staged concept. -/
structure ContentSource.WellFormed (digest : Bytes → Text) (source : ContentSource) : Prop where
  distinct : source.snapshot.Distinct
  hashed : ∀ e ∈ source.snapshot.entries, ∃ bytes, source.readBytes e.path = .ok bytes ∧
    e.hash = digest bytes
  staged : ∀ parsers indexOkfVersion t scan strict staging,
    stageChangedConcepts parsers (source.toSource indexOkfVersion) source.snapshot.entries strict
      (planSync t scan source.snapshot.entries).toParse = .ok staging → (staging.staged.map (·.id)).Nodup

section WellFormed

variable {digest : Bytes → Text} {limits : Ceilings} {paths : List Text} {contents : List Bytes}
  {hlen : paths.length = contents.length} {source : ContentSource}

theorem ContentSource.new_ok (h : ContentSource.new digest paths contents hlen = .ok source) :
    ∃ entries, (paths.zip contents).mapM (contentEntry digest (.fromPaths paths)) = .ok entries ∧
      source.snapshot.entries = entries.insertionSort pathOrder ∧
      source.contents = collect (paths.zip contents) := by
  unfold ContentSource.new at h
  split at h
  · cases h
  · rename_i entries hentries
    obtain rfl := Except.ok.inj h
    exact ⟨entries, hentries, rfl, rfl⟩

theorem ContentSource.new_paths (h : ContentSource.new digest paths contents hlen = .ok source) :
    source.snapshot.paths.Perm paths := by
  obtain ⟨entries, hentries, hsnap, -⟩ := ContentSource.new_ok h
  have hpaths : entries.map (·.path) = paths := by
    rw [contentEntries_paths hentries, List.map_fst_zip hlen.le]
  rw [Snapshot.paths, hsnap, ← hpaths]
  exact (List.perm_insertionSort pathOrder entries).map _

theorem ContentSource.new_hashed (hpaths : paths.Nodup)
    (h : ContentSource.new digest paths contents hlen = .ok source) {e : FileMetadata}
    (he : e ∈ source.snapshot.entries) :
    ∃ bytes, source.readBytes e.path = .ok bytes ∧ e.hash = digest bytes := by
  obtain ⟨entries, hentries, hsnap, hcontents⟩ := ContentSource.new_ok h
  rw [hsnap, List.mem_insertionSort] at he
  obtain ⟨⟨path, content⟩, hmem, hfile⟩ := contentEntries_mem hentries he
  obtain ⟨hpath, hhash, -⟩ := contentEntry_ok hfile
  -- no other pair of the two arrays has this path
  have huniq : ∀ v v', (path, v) ∈ paths.zip contents → (path, v') ∈ paths.zip contents → v = v' := by
    intro v v' hv hv'
    have hkeys : ((paths.zip contents).map Prod.fst).Nodup := by
      rwa [List.map_fst_zip hlen.le]
    exact congrArg Prod.snd (List.inj_on_of_nodup_map hkeys hv hv' rfl)
  refine ⟨content, ?_, hhash⟩
  rw [ContentSource.readBytes, hcontents, hpath, (lookup_collect huniq).mpr hmem]

theorem Snapshot.Distinct.staged_ids_nodup {parsers : Parsers} {src : Source} {t : Tables}
    {scan : RowOrder} {snap : Snapshot} {strict : Bool} {staging : Staging} (hd : snap.Distinct)
    (h : stageChangedConcepts parsers src snap.entries strict (planSync t scan snap.entries).toParse =
      .ok staging) : (staging.staged.map (·.id)).Nodup := by
  have hplain : ∀ e ∈ (planSync t scan snap.entries).toParse, e.cls ≠ .reserved :=
    fun e he => Snapshot.cls_ne_reserved (mem_concepts_of_toParse he)
  obtain ⟨l, hsub, hl, -⟩ := stageChangedConcepts_ok hplain h
  rw [hl]
  exact (staged_nodup (toParse_paths_nodup hd) fun e he => mem_concepts_of_toParse he).2.sublist
    ((hsub.map _).map _)

/-- Validated arrays make a well-formed source exactly when no path stands in them twice. -/
theorem content_wellFormed_iff (hvalid : validateArrays limits paths contents = .ok ())
    (h : ContentSource.new digest paths contents (validateArrays_length hvalid) = .ok source) :
    source.WellFormed digest ↔ paths.Nodup := by
  have hperm := ContentSource.new_paths h
  constructor
  · intro hwf
    exact hperm.nodup_iff.mp hwf.distinct
  · intro hpaths
    have hd : source.snapshot.Distinct := hperm.nodup_iff.mpr hpaths
    exact
      { distinct := hd
        hashed := fun e he => ContentSource.new_hashed hpaths h he
        staged := fun parsers version t scan strict staging hstage => hd.staged_ids_nodup hstage }

end WellFormed

def sampleDigest (bytes : Bytes) : Text := bytes.map fun b => Char.ofNat b.toNat

theorem content_wellFormed_distinct :
    ∃ source, ContentSource.new sampleDigest ["a.md", "b.md"] [[1], [2]] rfl = .ok source ∧
      source.WellFormed sampleDigest := by
  refine ⟨_, rfl, ?_⟩
  have hvalid : validateArrays ⟨10, 10⟩ ["a.md", "b.md"] [[1], [2]] = .ok () := rfl
  exact (content_wellFormed_iff hvalid rfl).mpr (by decide)

/-- Two contents for one path are accepted: one entry has the hash of bytes that are never read, and
the upsert refuses two concepts with one id. -/
theorem content_path_twice :
    validateArrays ⟨10, 10⟩ ["a.md".toList, "a.md".toList] [[1], [2]] = .ok () ∧
    ∃ source, ContentSource.new sampleDigest ["a.md".toList, "a.md".toList] [[1], [2]] rfl = .ok source ∧
      ¬ source.snapshot.Distinct ∧
      (∃ e ∈ source.snapshot.entries, source.readBytes e.path = .ok [2] ∧ e.hash ≠ sampleDigest [2]) ∧
      (∃ staging, stageChangedConcepts sampleParsers (source.toSource fun _ => none)
          source.snapshot.entries true
          (planSync .empty ⟨id, fun rows => .refl rows⟩ source.snapshot.entries).toParse = .ok staging ∧
        staging.staged.map (·.id) = ["a".toList, "a".toList] ∧
        upsertConcepts .empty staging.staged = .error (.internal
          ("failed to upsert concepts: ON CONFLICT DO UPDATE command cannot affect row a second time"))) := by
  refine ⟨rfl, _, rfl, by decide, ?_, _, rfl, rfl, rfl⟩
  exact ⟨⟨"a.md".toList, "\x01".toList, .okfDocument⟩, by decide, rfl, by decide⟩

end Pgokf.Sync
