import Pgokf.Mcp.Write

/-! # Whether a write puts the rest of the bundle back -/

namespace Pgokf.Mcp

open Lib Sync
open Web (Change Files Site)

variable {F : Type} {cat : Catalog F} {session : WriterSession} {b b' : ContentBundle}

variable {f : Text × Bytes}

theorem mem_files_of_write {w : Write} (h : cat.write session b w = .ok b') (hf : f.1 ∉ w.touched) :
    f ∈ b'.files ↔ b.Holds f := by
  obtain ⟨files, change, registered, hread, htouched, hperm, hregister⟩ := write_rewrites h
  rw [registerBundleContent_files hregister, hperm.mem_iff, mem_apply, hread.mem_iff]
  · exact fun hp => hf (htouched _ (.inl hp))
  · exact fun hp => hf (htouched _ (.inr hp))

variable {b₀ : ContentBundle} {files : List (Text × Bytes)}

theorem registerBundleContent_ok (h : cat.registerBundleContent session b₀ files = .ok b) :
    ∃ source out, ContentSource.new cat.digest (files.map Prod.fst) (files.map Prod.snd) (by simp) =
        .ok source ∧
      Synced cat.parsers b₀.source.bundle (cat.syncCall session source) b.source.bundle out := by
  simp only [Catalog.registerBundleContent, bind_eq_ok, pure_eq_ok] at h
  obtain ⟨-, -, source, hsource, s, hexec, rfl⟩ := h
  obtain ⟨out, hsync, -⟩ := exec_sync_ok hexec
  exact ⟨source, out, hsource, runBundleSync_synced hsync⟩

variable {source : ContentSource}

theorem entry_of_file
    (h : ContentSource.new cat.digest (files.map Prod.fst) (files.map Prod.snd) (by simp) =
      .ok source) (hf : f ∈ files) :
    ∃ e ∈ source.snapshot.entries, e.path = f.1 ∧ e.hash = cat.digest f.2 := by
  obtain ⟨entries, hentries, hsnap, -⟩ := ContentSource.new_ok h
  have hfile : f ∈ (files.map Prod.fst).zip (files.map Prod.snd) := by
    rw [List.zip_map']
    exact List.mem_map.mpr ⟨f, hf, rfl⟩
  obtain ⟨e, he, hentry⟩ := exists_of_forall₂_right (forall₂_of_mapM hentries).flip hfile
  obtain ⟨hpath, hhash, -⟩ := contentEntry_ok hentry
  exact ⟨e, by rw [hsnap, List.mem_insertionSort]; exact he, hpath, hhash⟩

theorem distinct_of_nodup
    (h : ContentSource.new cat.digest (files.map Prod.fst) (files.map Prod.snd) (by simp) = .ok source)
    (hnodup : (files.map Prod.fst).Nodup) : source.snapshot.Distinct :=
  (ContentSource.new_paths h).nodup_iff.mpr hnodup

variable {session₀ : WriterSession}

/-- After a strict registration the catalog holds every file without a reserved name whose stored
bytes are current. -/
theorem holds_of_strict (h : cat.registerBundleContent session₀ b₀ b.files = .ok b)
    (hstrict : session₀.defaults.strict = true) (hnodup : (b.files.map Prod.fst).Nodup)
    (hinj : Function.Injective cat.digest) (hcurrent : b.source.Current cat.digest)
    (hheld : ∀ r ∈ b.rows, ∃ bytes, b.source.heldBytes r.id = some bytes) (hf : f ∈ b.files)
    (hname : isReservedPath f.1 = false) : b.Holds f := by
  obtain ⟨source, out, hsource, hsynced⟩ := registerBundleContent_ok h
  have hconverged := hsynced.converged hstrict (distinct_of_nodup hsource hnodup)
  obtain ⟨e, he, hpath, hhash⟩ := entry_of_file hsource hf
  have hconcept : e ∈ source.snapshot.concepts :=
    Snapshot.mem_concepts.mpr ⟨he, by rw [hpath]; exact hname⟩
  have hrow : ⟨e.conceptId, e.path, e.hash⟩ ∈ b.rows :=
    (hconverged _).mpr (mem_rows.mpr ⟨e, hconcept, rfl, rfl, rfl⟩)
  obtain ⟨bytes, hbytes⟩ := hheld _ hrow
  obtain ⟨r, hr, hid, hdigest⟩ := hcurrent.heldBytes hbytes
  obtain rfl := ConceptTable.eq_of_id hr hrow hid
  obtain rfl : bytes = f.2 := hinj (hdigest.trans hhash)
  exact ⟨_, hrow, hpath, hbytes⟩

theorem registered_current (h : cat.registerBundleContent session₀ b₀ files = .ok b)
    (hcurrent : b₀.source.Current cat.digest) (hnodup : (files.map Prod.fst).Nodup)
    (hrenews : ∀ source, b₀.source.Renews (.sync (cat.syncCall session₀ source))) :
    b.source.Current cat.digest := by
  simp only [Catalog.registerBundleContent, bind_eq_ok, pure_eq_ok] at h
  obtain ⟨-, -, source, hsource, s, hexec, rfl⟩ := h
  refine SourceState.Current.sync hcurrent hexec ?_ (hrenews source)
  intro e he bytes hread
  obtain ⟨bytes', hread', hhash⟩ := ContentSource.new_hashed hnodup hsource he
  obtain rfl := Except.ok.inj (hread.symm.trans hread')
  exact hhash.symm

/-- An accepted write registers every other file of the last snapshot as it was exactly when the
catalog holds each; a strict registration of distinct paths, none named `index.md` or `log.md`, with
current bytes, sees to that. -/
theorem write_keeps_files {w : Write} (h : cat.write session b w = .ok b') :
    ((∀ f ∈ b.files, f.1 ∉ w.touched → f ∈ b'.files) ↔
      ∀ f ∈ b.files, f.1 ∉ w.touched → b.Holds f) ∧
    ∀ session₀ b₀, cat.registerBundleContent session₀ b₀ b.files = .ok b →
      session₀.defaults.strict = true → (b.files.map Prod.fst).Nodup → Function.Injective cat.digest →
      b.source.Current cat.digest →
      (∀ f ∈ b.files, f.1 ∉ w.touched → isReservedPath f.1 = false) →
      ∀ f ∈ b.files, f.1 ∉ w.touched → f ∈ b'.files := by
  refine ⟨forall_congr' fun f => ⟨fun hf hmem hnot => ?_, fun hf hmem hnot => ?_⟩, ?_⟩
  · exact (mem_files_of_write h hnot).mp (hf hmem hnot)
  · exact (mem_files_of_write h hnot).mpr (hf hmem hnot)
  · intro session₀ b₀ hregister hstrict hnodup hinj hcurrent hname f hf hnot
    obtain ⟨files, change, registered, hread, -⟩ := write_rewrites h
    exact (mem_files_of_write h hnot).mpr (holds_of_strict hregister hstrict hnodup hinj hcurrent
      (fun r hr => hread.held hr) hf (hname f hf hnot))

def sampleDocuments : Site Unit Bytes where
  name := "docs"
  kind := .content
  eq _ _ := false
  parse _ := .ok ⟨[], []⟩
  render _ := [7]
  validate _ _ := .ok ()

def sampleCatalog : Catalog Unit where
  parsers := sampleParsers
  digest := sampleDigest
  indexOkfVersion _ := none
  limits := ⟨10, 10⟩
  documents := sampleDocuments

def sampleSession : WriterSession where
  defaults := ⟨true, false, 0, "warn"⟩
  scan := (sampleCall runDocument 1).scan
  instant := 1
  transactionTime := 1
  named := [1]

def emptyBundle : ContentBundle :=
  ⟨1, "docs", { SourceState.empty with storeSource := true }, none, false, []⟩

def putSample : Write := .putDocument "b.md" [1] "agent:scribe" "t"

def twoFiles : List (Text × Bytes) := [("a.md", [1]), ("kit/c.md", [2])]

theorem write_keeps_files_put :
    ∃ b b', sampleCatalog.registerBundleContent sampleSession emptyBundle twoFiles = .ok b ∧
      sampleCatalog.write sampleSession b putSample = .ok b' ∧
      ∀ f ∈ twoFiles, f.1 ∉ putSample.touched → f ∈ b'.files := by
  have hwrites : ∃ b b', sampleCatalog.registerBundleContent sampleSession emptyBundle twoFiles = .ok b ∧
      sampleCatalog.write sampleSession b putSample = .ok b' ∧ b.files = twoFiles :=
    ⟨_, _, rfl, rfl, rfl⟩
  obtain ⟨b, b', hregister, hwrite, hfiles⟩ := hwrites
  have hcurrent : b.source.Current sampleDigest := by
    refine registered_current hregister ?_ (by decide) ?_
    · intro column i bytes hi
      cases hi
    · intro source e he r hr
      cases hr
  refine ⟨b, b', hregister, hwrite, ?_⟩
  have hkeeps := (write_keeps_files hwrite).2 sampleSession emptyBundle
  rw [hfiles] at hkeeps
  exact hkeeps hregister rfl (by decide) sampleDigest_injective hcurrent (by decide)

/-- An `index.md` below the root leaves no trace in the columns the write looks at, and is gone
after it. -/
theorem nested_index_dropped :
    ∃ b b', sampleCatalog.registerBundleContent sampleSession emptyBundle
        [("a.md".toList, [1]), ("docs/index.md".toList, [2])] = .ok b ∧
      sampleCatalog.write sampleSession b putSample = .ok b' ∧
      b'.files = [("a.md".toList, [1]), ("b.md".toList, [7])] := by
  exact ⟨_, _, rfl, rfl, rfl⟩

end Pgokf.Mcp
