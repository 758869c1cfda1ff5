import Pgokf.Sync.TypedRows
import Pgokf.Web.Workflow

/-! # Document writes into a content bundle (`pgokf-mcp/src/write.rs`, `pgokf-web/src/store.rs`)

A write reads the bundle back from the catalog, changes it and registers all of it again. -/

namespace Pgokf.Mcp

open Lib Sync
open Web (Change Files Site)

structure Catalog (F : Type) where
  parsers : Parsers
  digest : Bytes → Text
  indexOkfVersion : Bytes → Option Text
  limits : Ceilings
  documents : Site F Bytes

/- One call of `register_bundle_content`: settings, order of rows, clocks, and the ids of the
content bundles of that name. -/
structure WriterSession where
  defaults : SyncDefaults
  scan : RowOrder
  instant : Int
  transactionTime : Int
  named : List Int

structure ContentBundle where
  id : Int
  name : Text
  source : SourceState
  okfVersion : Option Text
  retired : Bool
  /-- The files it was last registered with. -/
  files : List (Text × Bytes)

variable {F : Type}

def Catalog.syncCall (cat : Catalog F) (session : WriterSession) (source : ContentSource) :
    SyncCall where
  source := source.toSource cat.indexOkfVersion
  defaults := session.defaults
  scan := session.scan
  instant := session.instant
  transactionTime := session.transactionTime

def Catalog.registerBundleContent (cat : Catalog F) (session : WriterSession) (b : ContentBundle)
    (files : List (Text × Bytes)) : Except CatalogError ContentBundle := do
  validateArrays cat.limits (files.map Prod.fst) (files.map Prod.snd)
  let source ← ContentSource.new cat.digest (files.map Prod.fst) (files.map Prod.snd) (by simp)
  let call := cat.syncCall session source
  let s ← b.source.exec cat.parsers (.sync call)
  pure { b with source := s, okfVersion := call.source.rootOkfVersion, files }

namespace ContentBundle

variable (b : ContentBundle)

def rows : List ConceptRow := b.source.bundle.tables.concepts.rows

def rowsByPath : List ConceptRow := b.rows.insertionSort fun r r' => r.path ≤ r'.path

/-- `bundle_files` of the web interface, without the ceilings of the tools. -/
def bundleFiles : Except String (Files Bytes) :=
  b.rowsByPath.mapM fun r =>
    match b.source.heldBytes r.id with
    | some bytes => .ok (r.path, bytes)
    | none => .error ("the catalog holds no source for " ++ String.ofList r.path ++
        "; the bundle cannot be rebuilt (store_source was off when it was ingested)")

/-- What the bundle carries whose bytes the catalog does not keep, as far as its columns tell. -/
def carries : Option String :=
  match b.okfVersion.isSome, b.source.bundle.bundleLog.any fun log => !log.2.isEmpty with
  | false, false => none
  | true, true => some "an index.md and a log.md"
  | true, false => some "an index.md"
  | false, true => some "a log.md"

/-- `package_root` of the rows of `pgokf.skills`: the directories of their manifests. -/
def packageRoots : List Text :=
  (b.rows.filter fun r => (b.source.bundle.tables.skills r.id).isSome).map fun r =>
    parentDirectory r.path

end ContentBundle

def maxSnapshotFiles : Nat := 5000

def named (b : ContentBundle) : String := toString b.id ++ " (" ++ echo b.name ++ ")"

def requirePath (arg : Text) : Except String Text :=
  if trim arg = [] then .error "missing required string argument 'path'" else .ok (trim arg)

def sameBundle (session : WriterSession) (b : ContentBundle) : Except String Unit :=
  ensure (session.named = [b.id])
    ("this server cannot write bundle " ++ toString b.id ++ ": a write addresses a content bundle by " ++
      "name, and in this server's own tenant '" ++ echo b.name ++ "' is not that bundle alone (" ++
      toString session.named.length ++
        " match). A bundle belonging to another tenant is written by a " ++
      "server started with that --tenant")

def ensureNothingLost (b : ContentBundle) : Except String Unit :=
  match b.carries with
  | none => .ok ()
  | some carries =>
    .error ("bundle " ++ named b ++ " carries " ++ carries ++ ". Those are the bundle's own " ++
      "bookkeeping, not documents, so the catalog keeps no bytes of them - and writing one document " ++
      "rewrites the whole bundle from what it does keep, which would drop them. The write is refused " ++
      "rather than made at that cost. A bundle an ingestion companion streams in is changed at its " ++
      "source and re-synced; one built here can be re-created without those files")

def writable (session : WriterSession) (b : ContentBundle) : Except String Unit := do
  ensureSources b.source.storeSource
  sameBundle session b
  ensure (!b.retired) ("bundle " ++ named b ++ " is retired: it is out of the catalog until it is " ++
    "brought back, which set_bundle_state does")
  ensureNothingLost b
  ensure (b.rows.length ≤ maxSnapshotFiles) ("bundle " ++ toString b.id ++ " holds " ++
    toString b.rows.length ++
      " files; writing one document rewrites the whole bundle, and this server " ++
    "rewrites at most " ++ toString maxSnapshotFiles)

def isManifestPath (path : Text) : Bool :=
  path = skillManifest || ('/' :: skillManifest).isSuffixOf path

def ensureNotAPackage (b : ContentBundle) (path : Text) : Except String Unit := do
  ensure (!isManifestPath path) (echo path ++ " would be a skill package's manifest. A package is " ++
    "served to agents whole, scripts included, so it is not written through this API")
  match b.packageRoots.find? fun root => !root.isEmpty && (root ++ ['/']).isPrefixOf path with
  | some root =>
    .error (echo path ++ " is inside the skill package " ++ String.ofList root ++ ", which is served " ++
      "to agents whole; it is not written through this API")
  | none => .ok ()

def told {α : Type} (x : Except Text α) : Except String α := x.mapError String.ofList

def written (x : Except CatalogError ContentBundle) : Except String ContentBundle :=
  x.mapError fun e => "writing the bundle: " ++ e.message

def byPath (a b : Text × Bytes) : Prop := a.1 ≤ b.1

instance : DecidableRel byPath := fun a b => inferInstanceAs (Decidable (a.1 ≤ b.1))

inductive Write where
  | putDocument (path : Text) (text : Bytes) (actor time : Text)
  | deleteDocument (path : Text)
  -- `DocumentStore::apply` of the web interface.
  | apply (change : Change Bytes)

namespace Catalog

variable (cat : Catalog F)

def putDocument (session : WriterSession) (b : ContentBundle) (arg : Text) (text : Bytes)
    (actor time : Text) : Except String ContentBundle := do
  let path ← requirePath arg
  writable session b
  ensureNotAPackage b path
  let files ← b.source.snapshotFiles b.id b.rowsByPath
  let change ← told (cat.documents.putDocument files path text actor time)
  written (cat.registerBundleContent session b ((Files.apply files change).insertionSort byPath))

def deleteDocument (session : WriterSession) (b : ContentBundle) (arg : Text) :
    Except String ContentBundle := do
  let path ← requirePath arg
  writable session b
  ensureNotAPackage b path
  let files ← b.source.snapshotFiles b.id b.rowsByPath
  let change ← told (cat.documents.deleteDocument files path)
  written (cat.registerBundleContent session b (Files.apply files change))

def applyChange (session : WriterSession) (b : ContentBundle) (change : Change Bytes) :
    Except String ContentBundle := do
  ensure b.source.storeSource ("The catalog does not keep document sources (its store_source setting " ++
    "is off), so a document cannot be rebuilt after a change. An admin turns it on with " ++
    "pgokf.set_config('store_source', 'true') and refreshes the bundles.")
  ensure (session.named = [b.id]) ("This site cannot change " ++ String.ofList b.name ++ ": a change " ++
    "addresses a content bundle by name, and in this site's own tenant that name is not this bundle " ++
    "alone. A bundle belonging to another tenant is changed from a site serving that tenant (OKF_TENANT).")
  match b.carries with
  | some carries =>
    .error ("This bundle carries " ++ carries ++ ". Those are the bundle's own bookkeeping, not " ++
      "documents, so the catalog keeps no bytes of them - and changing one document rewrites the whole " ++
      "bundle from what it does keep, which would drop them. The change is refused rather than made at " ++
      "that cost. A bundle streamed in by an ingestion companion is changed at its source and re-synced; " ++
      "one built here can be re-created without those files.")
  | none => do
    let files ← b.bundleFiles
    written (cat.registerBundleContent session b (Files.apply files change))

def write (session : WriterSession) (b : ContentBundle) : Write → Except String ContentBundle
  | .putDocument path text actor time => cat.putDocument session b path text actor time
  | .deleteDocument path => cat.deleteDocument session b path
  | .apply change => cat.applyChange session b change

end Catalog

theorem told_eq_ok {α : Type} {x : Except Text α} {a : α} : told x = .ok a ↔ x = .ok a := by
  cases x <;> simp [told, Except.mapError]

variable {b : ContentBundle}

theorem written_eq_ok {x : Except CatalogError ContentBundle} :
    written x = .ok b ↔ x = .ok b := by
  cases x <;> simp [written, Except.mapError]

def Write.touched : Write → List Text
  | .putDocument path .. => [trim path]
  | .deleteDocument path => [trim path]
  | .apply change => change.puts.map Prod.fst ++ change.removals

variable {files : Files Bytes} {f : Text × Bytes}

theorem mem_apply {change : Change Bytes} (hputs : f.1 ∉ change.puts.map Prod.fst)
    (hremovals : f.1 ∉ change.removals) :
    f ∈ files.apply change ↔ f ∈ files := by
  rw [Files.apply, OrderedMap.mem_foldl_remove _ hremovals, OrderedMap.mem_foldl_insert _ hputs]

def ContentBundle.Holds (b : ContentBundle) (f : Text × Bytes) : Prop :=
  ∃ r ∈ b.rows, r.path = f.1 ∧ b.source.heldBytes r.id = some f.2

variable {r : ConceptRow}

theorem ContentBundle.mem_rowsByPath :
    r ∈ b.rowsByPath ↔ r ∈ b.rows :=
  List.mem_insertionSort _

def ContentBundle.ReadBack (b : ContentBundle) (files : Files Bytes) : Prop :=
  List.Forall₂ (fun r (f : Text × Bytes) => f.1 = r.path ∧ b.source.heldBytes r.id = some f.2)
    b.rowsByPath files

theorem ContentBundle.ReadBack.mem_iff (h : b.ReadBack files) : f ∈ files ↔ b.Holds f := by
  constructor
  · intro hf
    obtain ⟨r, hr, hpath, hheld⟩ := exists_of_forall₂_right h hf
    exact ⟨r, mem_rowsByPath.mp hr, hpath.symm, hheld⟩
  · rintro ⟨r, hr, hpath, hheld⟩
    obtain ⟨f', hf', hpath', hheld'⟩ := exists_of_forall₂_right h.flip (mem_rowsByPath.mpr hr)
    have hbytes : f'.2 = f.2 := Option.some.inj (hheld'.symm.trans hheld)
    rwa [show f = f' from Prod.ext (hpath.symm.trans hpath'.symm) hbytes.symm]

theorem ContentBundle.ReadBack.held (h : b.ReadBack files) (hr : r ∈ b.rows) :
    ∃ bytes, b.source.heldBytes r.id = some bytes := by
  obtain ⟨f, -, -, hheld⟩ := exists_of_forall₂_right h.flip (mem_rowsByPath.mpr hr)
  exact ⟨f.2, hheld⟩

theorem ContentBundle.bundleFiles_ok (h : b.bundleFiles = .ok files) : b.ReadBack files := by
  refine (forall₂_of_mapM h).imp fun r f hr => ?_
  split at hr
  next bytes hbytes =>
    obtain rfl := Except.ok.inj hr
    exact ⟨rfl, hbytes⟩
  next => cases hr

section Written

variable {cat : Catalog F} {session : WriterSession} {b b' : ContentBundle}

theorem registerBundleContent_files {files : List (Text × Bytes)}
    (h : cat.registerBundleContent session b files = .ok b') : b'.files = files := by
  simp only [Catalog.registerBundleContent, bind_eq_ok, pure_eq_ok] at h
  obtain ⟨-, -, source, -, s, -, rfl⟩ := h
  rfl

variable {files : Files Bytes} {path : Text} {change : Change Bytes}

theorem putDocument_change {text : Bytes} {actor time : Text}
    (h : cat.documents.putDocument files path text actor time = .ok change) :
    ∃ bytes, change = ⟨[(path, bytes)], []⟩ := by
  obtain ⟨d, -, h⟩ := bind_eq_ok.mp (Web.explain_eq_ok.mp h)
  split at h
  · exact ⟨_, cat.documents.put_eq_ok h⟩
  · obtain ⟨r, -, h⟩ := bind_eq_ok.mp h
    exact ⟨_, cat.documents.put_eq_ok h⟩

theorem deleteDocument_change (h : cat.documents.deleteDocument files path = .ok change) :
    change = ⟨[], [path]⟩ := by
  obtain ⟨_, -, h⟩ := bind_eq_ok.mp h
  exact (pure_eq_ok.mp h).symm

theorem requirePath_ok {arg : Text} (h : requirePath arg = .ok path) : path = trim arg := by
  rw [requirePath] at h
  split at h
  · cases h
  · exact (Except.ok.inj h).symm

/-- An accepted write reads the bundle back, changes what it touches and registers the result. -/
theorem write_rewrites {w : Write} (h : cat.write session b w = .ok b') :
    ∃ files change registered, b.ReadBack files ∧
      (∀ p, p ∈ change.puts.map Prod.fst ∨ p ∈ change.removals → p ∈ w.touched) ∧
      registered.Perm (Files.apply files change) ∧
      cat.registerBundleContent session b registered = .ok b' := by
  cases w with
  | putDocument arg text actor time =>
    obtain ⟨path, hpath, h⟩ := bind_eq_ok.mp h
    obtain ⟨-, -, h⟩ := bind_eq_ok.mp h
    obtain ⟨-, -, h⟩ := bind_eq_ok.mp h
    obtain ⟨files, hfiles, h⟩ := bind_eq_ok.mp h
    obtain ⟨change, hchange, h⟩ := bind_eq_ok.mp h
    obtain ⟨bytes, rfl⟩ := putDocument_change (told_eq_ok.mp hchange)
    obtain rfl := requirePath_ok hpath
    exact ⟨files, _, _, snapshotFiles_ok hfiles, by simp [Write.touched],
      List.perm_insertionSort _ _, written_eq_ok.mp h⟩
  | deleteDocument arg =>
    obtain ⟨path, hpath, h⟩ := bind_eq_ok.mp h
    obtain ⟨-, -, h⟩ := bind_eq_ok.mp h
    obtain ⟨-, -, h⟩ := bind_eq_ok.mp h
    obtain ⟨files, hfiles, h⟩ := bind_eq_ok.mp h
    obtain ⟨change, hchange, h⟩ := bind_eq_ok.mp h
    obtain rfl := deleteDocument_change (told_eq_ok.mp hchange)
    obtain rfl := requirePath_ok hpath
    exact ⟨files, _, _, snapshotFiles_ok hfiles, by simp [Write.touched], .refl _, written_eq_ok.mp h⟩
  | apply change =>
    obtain ⟨-, -, h⟩ := bind_eq_ok.mp h
    obtain ⟨-, -, h⟩ := bind_eq_ok.mp h
    split at h
    · cases h
    · obtain ⟨files, hfiles, h⟩ := bind_eq_ok.mp h
      exact ⟨files, change, _, ContentBundle.bundleFiles_ok hfiles, by simp [Write.touched], .refl _,
        written_eq_ok.mp h⟩

end Written

end Pgokf.Mcp
