import Pgokf.Lib.FileTree
import Pgokf.Lib.Keyset
import Pgokf.Sync.Normalize

/-! # Writing the stored sources of a bundle back to disk (`catalog/source.rs`, `export_sources`)

Rows are read in pages by concept id. Each is checked against its hash and its file written before
the next row. -/

namespace Pgokf.Sync

open Lib FileTree

abbrev Disk := FileTree Text Bytes

def Component.name? : Component → Option Text
  | .normal name => some name
  | _ => none

/- The names along a path that holds no `..`. -/
def normalNames (path : Text) : List Text := (components path).filterMap Component.name?

/-- Whether the last piece of the text is a name: an open that would create `a/` or `a/.` is
refused. -/
def endsInName (path : Text) : Bool :=
  ((path.splitOn '/').getLast?.bind segmentComponent).isSome

def displayPath (names : List Text) : String := String.ofList (names.flatMap ('/' :: ·))

/-! ### The call -/

/- The machine, the digest, the words for errors, the name of the probe file, the roots, and the
audit trail's answer. -/
structure ExportEnv where
  host : Host Text Bytes
  hashBytes : Bytes → Text
  describe : Errno → String
  probe : Text
  allowedRoots : List Text
  recordAccess : Except CatalogError Unit

/- The order of concept ids is that of the database's collation. -/
structure SourceRow (κ : Type) where
  conceptId : κ
  path : Text
  content : Bytes
  fileHash : Text

structure StoredSources (κ : Type) where
  rows : List (SourceRow κ)
  distinct : (rows.map (·.conceptId)).Nodup

def raise {α : Type} (e : CatalogError) : EStateM CatalogError Disk α := fun t => .error e t

def ofExcept {α : Type} (x : Except CatalogError α) : EStateM CatalogError Disk α := fun t =>
  match x with
  | .ok a => .ok a t
  | .error e => .error e t

def attempt {α : Type} (x : Disk → EStateM.Result Errno Disk α) (report : Errno → CatalogError) :
    EStateM CatalogError Disk α := fun t =>
  match x t with
  | .ok a t => .ok a t
  | .error e t => .error (report e) t

def ignoring {α : Type} (x : Disk → EStateM.Result Errno Disk α) : EStateM CatalogError Disk Unit :=
    fun t =>
  .ok () (stateAfter (x t))

section Checks

variable (env : ExportEnv)

def ensureBundleRelative (path : Text) : Except CatalogError Unit :=
  ensure (!path.isEmpty && (components path).all fun c => c ≠ .parentDir && c ≠ .rootDir)
    (.invalidParameter ("stored concept path is not a safe bundle-relative path: " ++
      String.ofList path))

def verifyHash {κ : Type} (row : SourceRow κ) : Except CatalogError Unit :=
  ensure (env.hashBytes row.content = row.fileHash)
    { CatalogError.internal ("stored source for " ++ String.ofList row.path ++
        " does not match its recorded file hash (expected " ++ String.ofList row.fileHash ++
          ", computed " ++
        String.ofList (env.hashBytes row.content) ++ ")") with bundlePath := row.path }

/-- `validate_path_syntax`; a text of the database holds no NUL. -/
def validatePathSyntax (path : Text) : Except CatalogError Unit := do
  ensure (path.head? = some '/')
    (.invalidParameter ("path must be absolute: " ++ String.ofList path))
  ensure (!(components path).contains .parentDir)
    (.invalidParameter ("path traversal is not allowed: " ++ String.ofList path))

/- The file named in an error is the one that is being written, if there is one. -/
def canonicalRoot (file : Text) (t : Disk) (root : List Text) : Except CatalogError (Loc Text) :=
  match canonicalize env.host t (root.map .name) with
  | .error e => .error
      { CatalogError.invalidParameter
        ("failed to canonicalize allowed root " ++ displayPath root ++ ": " ++ env.describe e)
        with bundlePath := file }
  | .ok canonical =>
    ensure (t.isDirAt canonical)
      { CatalogError.invalidParameter
        ("allowed root is not a directory: " ++ displayPath root) with bundlePath := file } >>=
      fun _ => .ok canonical

def validateAllowedRoots (t : Disk) : Except CatalogError (List (Loc Text)) :=
  env.allowedRoots.mapM fun root => do
    validatePathSyntax root
    canonicalRoot env [] t (normalNames root)

/- `canonicalize_contained_path` once the roots are resolved. -/
def containedPath (file : Text) (t : Disk) (path : List Text) (roots : List (Loc Text)) :
    Except CatalogError (Loc Text) :=
  match canonicalize env.host t (path.map .name) with
  | .error e => .error
      { CatalogError.invalidParameter
        ("failed to canonicalize path " ++ displayPath path ++ ": " ++ env.describe e)
        with bundlePath := file }
  | .ok canonical =>
    if roots.any (·.isPrefixOf canonical) then .ok canonical
    else .error
      { CatalogError.invalidParameter
        ("resolved path " ++ displayPath canonical ++ " is outside allowed_roots")
        with bundlePath := file }

end Checks

section Export

variable (env : ExportEnv) {κ : Type}

def ensureWritable (dir : Loc Text) : EStateM CatalogError Disk Unit := do
  let probe := dir.map PathPart.name ++ [.name env.probe]
  let _ ← attempt (openNoFollow env.host [] probe) fun e =>
    .insufficientPrivilege
      ("dest_dir is not writable: " ++ displayPath dir ++ " (" ++ env.describe e ++ ")")
  ignoring (removeFile env.host probe)

def canonicalDest (t : Disk) (destDir : Text) : Except CatalogError (Loc Text) :=
  if env.allowedRoots.isEmpty then
    match canonicalize env.host t ((normalNames destDir).map .name) with
    | .error e => .error (.invalidParameter
        ("failed to canonicalize dest_dir " ++ String.ofList destDir ++ ": " ++ env.describe e))
    | .ok canonical => .ok canonical
  else do
    let roots ← validateAllowedRoots env t
    containedPath env [] t (normalNames destDir) roots

def validateDestDir (destDir : Text) : EStateM CatalogError Disk (Loc Text) := do
  ofExcept (validatePathSyntax destDir)
  let t ← get
  let canonical ← ofExcept (canonicalDest env t destDir)
  ofExcept (ensure (t.isDirAt canonical)
    (.invalidParameter ("dest_dir is not a directory: " ++ displayPath canonical)))
  ensureWritable env canonical
  pure canonical

/-- `create_export_file`. -/
def createExportFile (target : List Text) (path : Text) :
    EStateM CatalogError Disk (Loc Text × Text) :=
  if endsInName path then
    attempt (openNoFollow env.host [] (target.map .name)) fun e =>
      if e = .tooManyLinks then
        .invalidParameter ("refusing to write export file through a symbolic link: " ++
          displayPath target)
      else .internal ("failed to create export file " ++ displayPath target ++ ": " ++
        env.describe e)
  else raise (.internal
    ("failed to create export file " ++ displayPath target ++ ": " ++ env.describe .isDirectory))

/- The directory a file goes to, as a path from the root of the tree. -/
def parentPath (dir : Loc Text) (path : Text) : List (PathPart Text) :=
    (dir ++ normalNames path).dropLast.map .name

/-- The directories on the way are made before it is known where they lead. -/
def prepareParent (dir : Loc Text) (path : Text) : EStateM CatalogError Disk Unit :=
  let target := dir ++ normalNames path
  if target.isEmpty then pure ()
  else do
    attempt (createDirAll env.host (parentPath dir path)) fun e =>
      { CatalogError.internal ("failed to create export directory " ++
        displayPath target.dropLast ++ ": " ++ env.describe e)
        with bundlePath := path }
    let t ← get
    let root ← ofExcept (canonicalRoot env path t dir)
    let _ ← ofExcept (containedPath env path t target.dropLast [root])
    pure ()

def reconstructFile (dir : Loc Text) (row : SourceRow κ) : EStateM CatalogError Disk Nat := do
  ofExcept (ensureBundleRelative row.path)
  ofExcept (verifyHash env row)
  prepareParent env dir row.path
  let target := dir ++ normalNames row.path
  let handle ← createExportFile env target row.path
  attempt (writeAll env.host handle row.content) fun e =>
    { CatalogError.internal
      ("failed to write export file " ++ displayPath target ++ ": " ++ env.describe e)
      with bundlePath := row.path }
  pure row.content.length

/- Files and bytes so far. -/
def exportRow (dir : Loc Text) (total : Nat × Nat) (row : SourceRow κ) :
    EStateM CatalogError Disk (Nat × Nat) := do
  let bytes ← reconstructFile env dir row
  pure (total.1 + 1, total.2 + bytes)

def sourceExportBatchRows : Nat := 256

structure SourceExportSummary where
  bundleId : Int
  destDir : String
  filesWritten : Nat
  bytesWritten : Nat

/- The checks that need no disk: role, tenant and the row of the bundle. -/
structure ExportCall where
  session : Session
  tenantRequired : Bool
  bundleId : Int
  -- The owner the bundle's row names, if there is a row.
  bundle : Option (Option Text)
  destDir : Text

def ExportCall.admitted (call : ExportCall) : Except CatalogError Unit := do
  authorizeCurrentUser .register call.session call.tenantRequired
  enforceBundleTenant call.session call.tenantRequired call.bundleId call.bundle.join
  ensure call.bundle.isSome (unknownBundleError call.bundleId)

variable [LinearOrder κ]

def exportSources (call : ExportCall) (sources : StoredSources κ) :
    EStateM CatalogError Disk (Option SourceExportSummary) := do
  ofExcept call.admitted
  let dir ← validateDestDir env call.destDir
  let total ← foldPages (·.conceptId) (exportRow env dir) sourceExportBatchRows sources.rows
    (sources.rows.length + 1) none (0, 0)
  ofExcept env.recordAccess
  pure (total.map fun total => ⟨call.bundleId, displayPath dir, total.1, total.2⟩)

end Export

section Row

variable {env : ExportEnv} {κ : Type} {dest : Loc Text} {row : SourceRow κ} {t t' : Disk}

variable {α : Type} {x : Disk → EStateM.Result Errno Disk α} {report : Errno → CatalogError} {a : α}

theorem attempt_ok (h : x t = .ok a t') : attempt x report t = .ok a t' := by
  rw [attempt, h]

theorem attempt_error {e : Errno} (h : x t = .error e t') :
    attempt x report t = .error (report e) t' := by
  rw [attempt, h]

theorem ofExcept_ok {x : Except CatalogError α} (h : x = .ok a) : ofExcept x t = .ok a t := by
  subst h
  rfl

theorem ofExcept_error {x : Except CatalogError α} {e : CatalogError} (h : x = .error e) :
    ofExcept x t = .error e t := by
  subst h
  rfl

theorem canonicalRoot_dest (file : Text) (h : t.node dest = some .dir) :
    canonicalRoot env file t dest = .ok dest := by
  rw [canonicalRoot, canonicalize, walk_location h]
  simp [ensure, isDirAt_iff.mpr h, bind, Except.bind]

theorem containedPath_ok {file : Text} {path c : List Text}
    (h : containedPath env file t path [dest] = .ok c) :
    t.walk env.host.links [] (path.map .name) = .ok c ∧ dest <+: c := by
  rw [containedPath, canonicalize] at h
  cases hwalk : t.walk env.host.links [] (path.map .name) with
  | error e =>
    rw [hwalk] at h
    cases h
  | ok canonical =>
    rw [hwalk] at h
    dsimp only at h
    split at h
    next hinside =>
      obtain rfl := Except.ok.inj h
      simp only [List.any_cons, List.any_nil, Bool.or_false, List.isPrefixOf_iff_prefix] at hinside
      exact ⟨rfl, hinside⟩
    · cases h

theorem createDirAll_extends (path : List (PathPart Text)) :
    t.Extends (stateAfter (createDirAll env.host path t)) :=
  createDirAllRev_extends

theorem prepareParent_cases (path : Text) (hdest : t.node dest = some .dir) :
    (∃ e, prepareParent env dest path t = .error e
      (stateAfter (createDirAll env.host (parentPath dest path) t))) ∨
    ∃ t', prepareParent env dest path t = .ok () t' ∧
      createDirAll env.host (parentPath dest path) t = .ok () t' ∧
      (dest ++ normalNames path ≠ [] →
        ∃ c, t'.walk env.host.links [] (parentPath dest path) = .ok c ∧ dest <+: c) := by
  rw [prepareParent]
  by_cases hempty : dest ++ normalNames path = []
  · right
    refine ⟨t, ?_, ?_, fun h => absurd hempty h⟩
    · simp [hempty, pure, EStateM.pure]
    · simp [parentPath, hempty, createDirAll, createDirAllRev]
  · rw [if_neg (by simpa using hempty)]
    have hext : t.Extends (stateAfter (createDirAll env.host (parentPath dest path) t)) :=
      createDirAll_extends _
    cases hmade : createDirAll env.host (parentPath dest path) t with
    | error e t' => exact .inl ⟨_, bind_of_error (attempt_error hmade)⟩
    | ok u t' =>
      rw [hmade] at hext
      have hdest' : t'.node dest = some .dir := by
        have hsame := hext dest (by rw [hdest]; rfl)
        rwa [hdest] at hsame
      rw [bind_of_ok (attempt_ok hmade)]
      have hget : (get : EStateM CatalogError Disk Disk) t' = .ok t' t' := rfl
      rw [bind_of_ok hget, bind_of_ok (ofExcept_ok (canonicalRoot_dest path hdest'))]
      cases hcontained : containedPath env path t' (dest ++ normalNames path).dropLast [dest] with
      | error e => exact .inl ⟨e, bind_of_error (ofExcept_error rfl)⟩
      | ok c =>
        right
        refine ⟨t', ?_, rfl, fun _ => ⟨c, containedPath_ok hcontained⟩⟩
        rw [bind_of_ok (ofExcept_ok rfl)]
        rfl

def Checked (env : ExportEnv) (row : SourceRow κ) : Prop :=
  ensureBundleRelative row.path = .ok () ∧ verifyHash env row = .ok ()

/- A row that comes to its open: checked, its directories made, its parent found inside the
destination. -/
structure OpensAt (env : ExportEnv) (dest : Loc Text) (row : SourceRow κ) (t t' : Disk)
    (c : Loc Text) (n : Text) : Prop where
  checked : Checked env row
  made : createDirAll env.host (parentPath dest row.path) t = .ok () t'
  named : endsInName row.path = true
  opens : Opens env.host t' ((dest ++ normalNames row.path).map .name) c n
  inside : dest <+: c

theorem createExportFile_cases (target : List Text) (path : Text) (t : Disk) :
    (∃ e, createExportFile env target path t = .error e t) ∨
    ∃ c n, endsInName path = true ∧ Opens env.host t (target.map .name) c n ∧
      createExportFile env target path t = .ok (c, n) (t.put c n (some (.file []))) := by
  rw [createExportFile]
  cases hnamed : endsInName path with
  | false => exact .inl ⟨_, rfl⟩
  | true =>
    rw [if_pos rfl]
    rcases openNoFollow_cases env.host [] (target.map .name) t with ⟨e, he⟩ | ⟨c, n, hopens, hok⟩
    · exact .inl ⟨_, attempt_error he⟩
    · exact .inr ⟨c, n, rfl, hopens, attempt_ok hok⟩

variable {c : Loc Text} {n : Text}

theorem writeAll_fileAt {path : List (PathPart Text)} (hopens : Opens env.host t path c n)
    (content : Bytes) :
    FileAt (c ++ [n]) t
      (stateAfter (writeAll env.host (c, n) content (t.put c n (some (.file []))))) := by
  have hput : FileAt (c ++ [n]) t (t.put c n (some (.file []))) := .put hopens.dir hopens.leaf_ne
  refine hput.writeAll ?_ content
  rw [hput.same c (by simp), hopens.dir]

theorem writeRow_fileAt {path : List (PathPart Text)} (hopens : Opens env.host t path c n)
    (content : Bytes) (report : Errno → CatalogError) (size : Nat) :
    FileAt (c ++ [n]) t (stateAfter ((attempt (writeAll env.host (c, n) content) report >>=
      fun _ => pure size : EStateM CatalogError Disk Nat) (t.put c n (some (.file []))))) := by
  have hwritten := writeAll_fileAt hopens content
  cases hw : writeAll env.host (c, n) content (t.put c n (some (.file []))) with
  | error e t' =>
    rw [bind_of_error (attempt_error hw)]
    rw [hw] at hwritten
    exact hwritten
  | ok u t' =>
    rw [bind_of_ok (attempt_ok hw)]
    rw [hw] at hwritten
    exact hwritten

theorem reconstructFile_cases (row : SourceRow κ) (hdest : t.node dest = some .dir) :
    (¬Checked env row ∧ ∃ e, reconstructFile env dest row t = .error e t) ∨
    (Checked env row ∧
      ((∃ e, reconstructFile env dest row t = .error e
        (stateAfter (createDirAll env.host (parentPath dest row.path) t))) ∨
        ∃ t' c n, OpensAt env dest row t t' c n ∧
          FileAt (c ++ [n]) t' (stateAfter (reconstructFile env dest row t)))) := by
  rw [reconstructFile]
  cases hrelative : ensureBundleRelative row.path with
  | error e =>
    refine .inl ⟨fun h => ?_, e, bind_of_error (ofExcept_error rfl)⟩
    rw [Checked, hrelative] at h
    cases h.1
  | ok u =>
    rw [bind_of_ok (ofExcept_ok rfl)]
    cases hverified : verifyHash env row with
    | error e =>
      refine .inl ⟨fun h => ?_, e, bind_of_error (ofExcept_error rfl)⟩
      rw [Checked, hverified] at h
      cases h.2
    | ok u =>
      right
      refine ⟨⟨hrelative, hverified⟩, ?_⟩
      rw [bind_of_ok (ofExcept_ok rfl)]
      rcases prepareParent_cases row.path hdest with ⟨e, he⟩ | ⟨t', hok, hmade, hparent⟩
      · exact .inl ⟨e, bind_of_error he⟩
      · rw [bind_of_ok hok, hmade]
        rcases createExportFile_cases (dest ++ normalNames row.path) row.path t' with ⟨e, he⟩
          | ⟨c, n, hnamed, hopens, hcreated⟩
        · exact .inl ⟨e, bind_of_error he⟩
        · right
          have htarget : dest ++ normalNames row.path ≠ [] := by
            intro hnil
            have hlast := hopens.last
            rw [hnil] at hlast
            cases hlast
          obtain ⟨c', hwalk, hinside⟩ := hparent htarget
          obtain rfl : c = c' := by
            have hwalked := hopens.walked
            rw [← List.map_dropLast] at hwalked
            exact Except.ok.inj (hwalked.symm.trans hwalk)
          refine ⟨t', c, n, ⟨⟨hrelative, hverified⟩, hmade, hnamed, hopens, hinside⟩, ?_⟩
          rw [bind_of_ok hcreated]
          exact writeRow_fileAt hopens row.content _ _

theorem prepareParent_ok {path : Text} (hdest : t'.node dest = some .dir)
    (hmade : createDirAll env.host (parentPath dest path) t = .ok () t')
    (hwalk : t'.walk env.host.links [] (parentPath dest path) = .ok c) (hinside : dest <+: c) :
    prepareParent env dest path t = .ok () t' := by
  have hcontained : containedPath env path t' (dest ++ normalNames path).dropLast [dest] =
    .ok c := by
    have hwalk' : t'.walk env.host.links [] ((dest ++ normalNames path).dropLast.map .name) =
      .ok c := hwalk
    rw [containedPath, canonicalize, hwalk']
    simp [hinside]
  rw [prepareParent]
  split
  next hempty =>
    rw [parentPath, List.isEmpty_iff.mp hempty, createDirAll, List.dropLast_nil, List.map_nil,
      List.reverse_nil,
      createDirAllRev] at hmade
    obtain rfl : t = t' := by
      injection hmade
    rfl
  next =>
    have hget : (get : EStateM CatalogError Disk Disk) t' = .ok t' t' := rfl
    rw [bind_of_ok (attempt_ok hmade), bind_of_ok hget,
      bind_of_ok (ofExcept_ok (canonicalRoot_dest path hdest)),
      bind_of_ok (ofExcept_ok hcontained)]
    rfl

theorem OpensAt.stays (h : OpensAt env dest row t t' c n) (hdest : t.node dest = some .dir) :
    t'.node dest = some .dir := by
  have hext : t.Extends (stateAfter (createDirAll env.host (parentPath dest row.path) t)) :=
    createDirAll_extends _
  rw [h.made] at hext
  exact (hext dest (by rw [hdest]; rfl)).trans hdest

theorem OpensAt.walked (h : OpensAt env dest row t t' c n) :
    t'.walk env.host.links [] (parentPath dest row.path) = .ok c := by
  have hwalked := h.opens.walked
  rwa [← List.map_dropLast] at hwalked

theorem OpensAt.creates (h : OpensAt env dest row t t' c n) (hdest : t.node dest = some .dir)
    (hnone : t'.node (c ++ [n]) = none) (hmay : env.host.mayCreate (c ++ [n]) = true) :
    FileAt (c ++ [n]) t' (stateAfter (reconstructFile env dest row t)) := by
  rw [reconstructFile, bind_of_ok (ofExcept_ok h.checked.1), bind_of_ok (ofExcept_ok h.checked.2),
    bind_of_ok (prepareParent_ok (h.stays hdest) h.made h.walked h.inside)]
  have hcreated : createExportFile env (dest ++ normalNames row.path) row.path t' =
      .ok (c, n) (t'.put c n (some (.file []))) := by
    rw [createExportFile, if_pos h.named]
    exact attempt_ok (openNoFollow_create h.opens hnone hmay)
  rw [bind_of_ok hcreated]
  exact writeRow_fileAt h.opens row.content _ _

/-- A file that is there is in a directory that is there: on the way to it nothing is made. -/
theorem OpensAt.unchanged {content : Bytes} (h : OpensAt env dest row t t' c n)
    (hfile : t'.node (c ++ [n]) = some (.file content)) : t' = t := by
  have hmade := h.made
  rw [createDirAll] at hmade
  cases hfirst : firstMissing env.host t (parentPath dest row.path).reverse with
  | none =>
    have hstate := createDirAllRev_unchanged hfirst
    rw [hmade] at hstate
    exact hstate
  | some l =>
    obtain ⟨hgrows, hwalk⟩ := createDirAllRev_grows hfirst
    obtain ⟨w, hw, hl⟩ := hwalk t' hmade
    rw [List.reverse_reverse, h.walked] at hw
    obtain rfl := Except.ok.inj hw
    rw [hmade] at hgrows
    rcases hgrows.dirs (c ++ [n]) (hl.trans (List.prefix_append _ _)) with hnone | hdir
    · exact absurd (hfile.symm.trans hnone) (by simp)
    · exact absurd (hfile.symm.trans hdir) (by simp)

theorem OpensAt.kinds {u : Disk} (h : OpensAt env dest row t t' c n) (hkinds : SameKinds t u) :
    ∃ u', OpensAt env dest row u u' c n ∧ SameKinds t' u' := by
  obtain ⟨u', hmade, hkinds'⟩ := createDirAllRev_kinds hkinds h.made
  exact ⟨u', ⟨h.checked, hmade, h.named, h.opens.kinds hkinds', h.inside⟩, hkinds'⟩

end Row

/-! ### Where the changes are -/

section Frame

variable {env : ExportEnv} {κ : Type} {dest : Loc Text} {row : SourceRow κ} {t t' : Disk}

def SameOutside (dest : Loc Text) (t t' : Disk) : Prop := ∀ x, ¬dest <+: x → t'.node x = t.node x

/- What a row keeps in any case: the destination, what is outside of it, and that a file is a file. -/
structure RowKeeps (dest : Loc Text) (t t' : Disk) : Prop where
  stays : t'.node dest = some .dir
  outside : ∀ x, ¬dest <+: x → (t.node x).isSome = true → t'.node x = t.node x
  files : ∀ x content, t.node x = some (.file content) →
    ∃ content', t'.node x = some (.file content')

variable {c : Loc Text} {n : Text}

theorem ne_of_inside (h : dest <+: c) : dest ≠ c ++ [n] := by
  intro heq
  have hle := h.length_le
  have hlength := congrArg List.length heq
  rw [List.length_append, List.length_singleton] at hlength
  omega

theorem rowKeeps_of_extends (hdest : t.node dest = some .dir) (h : t.Extends t') :
    RowKeeps dest t t' where
  stays := by
    rw [h dest (by rw [hdest]; rfl), hdest]
  outside x _ hx := h x hx
  files x content hx := ⟨content, by rw [h x (by rw [hx]; rfl), hx]⟩

theorem rowKeeps_of_fileAt {u : Disk} (h : RowKeeps dest t t') (hc : dest <+: c)
    (hfile : FileAt (c ++ [n]) t' u) :
    RowKeeps dest t u where
  stays := by
    rw [hfile.same dest (ne_of_inside hc), h.stays]
  outside x hx hsome := by
    rw [hfile.same x fun heq => hx (heq ▸ hc.trans (List.prefix_append _ _)), h.outside x hx hsome]
  files x content hx := by
    by_cases heq : x = c ++ [n]
    · subst heq
      exact hfile.here
    · rw [hfile.same x heq]
      exact h.files x content hx

theorem reconstructFile_keeps (row : SourceRow κ) (hdest : t.node dest = some .dir) :
    RowKeeps dest t (stateAfter (reconstructFile env dest row t)) := by
  rcases reconstructFile_cases row hdest with ⟨-, e, he⟩ | ⟨-, ⟨e, he⟩ | ⟨t', c, n, hopens, hfile⟩⟩
  · rw [he]
    exact rowKeeps_of_extends hdest fun _ _ => rfl
  · rw [he]
    exact rowKeeps_of_extends hdest (createDirAll_extends _)
  · have hext : t.Extends (stateAfter (createDirAll env.host (parentPath dest row.path) t)) :=
      createDirAll_extends _
    rw [hopens.made] at hext
    exact rowKeeps_of_fileAt (rowKeeps_of_extends hdest hext) hopens.inside hfile

theorem exportRow_state (total : Nat × Nat) (row : SourceRow κ) (t : Disk) :
    stateAfter (exportRow env dest total row t) = stateAfter (reconstructFile env dest row t) := by
  rw [exportRow]
  cases h : reconstructFile env dest row t with
  | error e t' =>
    rw [bind_of_error h]
    rfl
  | ok bytes t' =>
    rw [bind_of_ok h]
    rfl

/- As a relation of states that can be followed through a run. -/
def RunKeeps (dest : Loc Text) (t t' : Disk) : Prop := t.node dest = some .dir → RowKeeps dest t t'

theorem RunKeeps.refl (t : Disk) : RunKeeps dest t t := fun h =>
    rowKeeps_of_extends h fun _ _ => rfl

theorem RunKeeps.trans (t u v : Disk) (h₁ : RunKeeps dest t u) (h₂ : RunKeeps dest u v) :
    RunKeeps dest t v := by
  intro hdest
  have h₁ := h₁ hdest
  have h₂ := h₂ h₁.stays
  refine ⟨h₂.stays, fun x hx hsome => ?_, fun x content hx => ?_⟩
  · have hu := h₁.outside x hx hsome
    rw [h₂.outside x hx (by rw [hu]; exact hsome), hu]
  · obtain ⟨content', hx'⟩ := h₁.files x content hx
    exact h₂.files x content' hx'

theorem exportRow_keeps (total : Nat × Nat) (row : SourceRow κ) :
    Keeps (RunKeeps dest) (exportRow env dest total row) := by
  intro t hdest
  rw [exportRow_state]
  exact reconstructFile_keeps row hdest

/- The row is checked, a directory on the way to its file is missing, and the first one made is
outside. -/
def Escapes (env : ExportEnv) (dest : Loc Text) (row : SourceRow κ) (t : Disk) : Prop :=
  Checked env row ∧ ∃ l, firstMissing env.host t (parentPath dest row.path).reverse = some l ∧
    ¬dest <+: l

theorem reconstructFile_sameOutside (hdest : t.node dest = some .dir)
    (h : ¬Escapes env dest row t) :
    SameOutside dest t (stateAfter (reconstructFile env dest row t)) := by
  have hmade (hchecked : Checked env row) :
      SameOutside dest t (stateAfter (createDirAll env.host (parentPath dest row.path) t)) := by
    intro x hx
    cases hfirst : firstMissing env.host t (parentPath dest row.path).reverse with
    | none => rw [createDirAll, createDirAllRev_unchanged hfirst]
    | some l =>
      have hl : dest <+: l := by
        by_contra hout
        exact h ⟨hchecked, l, hfirst, hout⟩
      exact (createDirAllRev_grows hfirst).1.same x fun hlx => hx (hl.trans hlx)
  rcases reconstructFile_cases row hdest with ⟨-, e, he⟩
    | ⟨hchecked, ⟨e, he⟩ | ⟨t', c, n, hopens, hfile⟩⟩
  · rw [he]
    exact fun _ _ => rfl
  · rw [he]
    exact hmade hchecked
  · intro x hx
    have hsame := hmade hchecked x hx
    rw [hopens.made] at hsame
    rw [hfile.same x fun heq => hx (heq ▸ hopens.inside.trans (List.prefix_append _ _))]
    exact hsame

/-- The directory outside is there afterwards, and was not before. -/
theorem reconstructFile_escapes {l : Loc Text} (hdest : t.node dest = some .dir)
    (hchecked : Checked env row)
    (hfirst : firstMissing env.host t (parentPath dest row.path).reverse = some l)
    (hout : ¬dest <+: l) :
    t.node l = none ∧ (stateAfter (reconstructFile env dest row t)).node l = some .dir := by
  have hgrows : Grows l t (stateAfter (createDirAll env.host (parentPath dest row.path) t)) :=
    (createDirAllRev_grows hfirst).1
  refine ⟨hgrows.fresh l List.prefix_rfl, ?_⟩
  rcases reconstructFile_cases row hdest with ⟨hnot, -⟩ | ⟨-, ⟨e, he⟩ | ⟨t', c, n, hopens, hfile⟩⟩
  · exact absurd hchecked hnot
  · rw [he]
    exact hgrows.made
  · rw [hopens.made] at hgrows
    rw [hfile.same l fun heq => hout (heq ▸ hopens.inside.trans (List.prefix_append _ _))]
    exact hgrows.made

/- The probe file is gone, and nothing else has changed. -/
structure Probed (env : ExportEnv) (dest : Loc Text) (t t' : Disk) : Prop where
  gone : t'.node (dest ++ [env.probe]) = none
  same : ∀ x, x ≠ dest ++ [env.probe] → t'.node x = t.node x

theorem ensureWritable_cases (hdest : t.node dest = some .dir) :
    (∃ e, ensureWritable env dest t = .error e t) ∨ ∃ t', ensureWritable env dest t = .ok () t' ∧
      Probed env dest t t' := by
  rw [ensureWritable]
  rcases openNoFollow_cases env.host []
    (dest.map .name ++ [.name env.probe]) t with ⟨e, he⟩ | ⟨c, n, hopens, hok⟩
  · exact .inl ⟨_, bind_of_error (attempt_error he)⟩
  · right
    obtain ⟨rfl, rfl⟩ : dest = c ∧ env.probe = n := by
      have hwalked := hopens.walked
      have hlast := hopens.last
      rw [List.dropLast_concat, walk_location hdest] at hwalked
      rw [List.getLast?_concat, Option.some.injEq, PathPart.name.injEq] at hlast
      exact ⟨Except.ok.inj hwalked, hlast⟩
    have hput : FileAt (dest ++ [env.probe]) t (t.put dest env.probe (some (.file []))) :=
      .put hdest hopens.leaf_ne
    obtain ⟨content, hcontent⟩ := hput.here
    have hdir : (t.put dest env.probe (some (.file []))).node dest = some .dir := by
      rw [hput.same dest (by simp), hdest]
    have hremoved : removeFile env.host (dest.map .name ++ [.name env.probe])
      (t.put dest env.probe (some (.file []))) =
        .ok () ((t.put dest env.probe (some (.file []))).put dest env.probe none) := by
      rw [removeFile, resolveEntry_snoc (walk_location hdir) hdir]
      dsimp only
      rw [hcontent]
    refine ⟨(t.put dest env.probe (some (.file []))).put dest env.probe none, ?_, ?_,
      fun x hx => ?_⟩
    · rw [bind_of_ok (attempt_ok hok), ignoring, hremoved]
      rfl
    · exact put_node_self hdir (by rw [hcontent]; simp)
    · rw [put_node_of_ne hx, hput.same x hx]

theorem validateDestDir_cases (env : ExportEnv) (destDir : Text) (t : Disk) :
    (∃ e, validateDestDir env destDir t = .error e t) ∨
    ∃ dest t', validateDestDir env destDir t = .ok dest t' ∧
      canonicalDest env t destDir = .ok dest ∧
      t.node dest = some .dir ∧ Probed env dest t t' := by
  rw [validateDestDir]
  cases hsyntax : validatePathSyntax destDir with
  | error e => exact .inl ⟨e, bind_of_error (ofExcept_error rfl)⟩
  | ok u =>
    have hget : (get : EStateM CatalogError Disk Disk) t = .ok t t := rfl
    rw [bind_of_ok (ofExcept_ok rfl), bind_of_ok hget]
    cases hcanonical : canonicalDest env t destDir with
    | error e => exact .inl ⟨e, bind_of_error (ofExcept_error rfl)⟩
    | ok dest =>
      rw [bind_of_ok (ofExcept_ok rfl)]
      cases hdir : t.isDirAt dest with
      | false => exact .inl ⟨_, bind_of_error (ofExcept_error rfl)⟩
      | true =>
        have hchecked : ensure true
          (.invalidParameter ("dest_dir is not a directory: " ++ displayPath dest)) =
            (.ok () : Except CatalogError Unit) := rfl
        rw [bind_of_ok (ofExcept_ok hchecked)]
        rcases ensureWritable_cases (isDirAt_iff.mp hdir) with ⟨e, he⟩ | ⟨t', hok, hprobed⟩
        · exact .inl ⟨e, bind_of_error he⟩
        · refine .inr ⟨dest, t', ?_, rfl, isDirAt_iff.mp hdir, hprobed⟩
          rw [bind_of_ok hok]
          rfl

end Frame

theorem validateDestDir_ok {env : ExportEnv} {destDir : Text} {dest : Loc Text} {t t' : Disk}
    (h : validateDestDir env destDir t = .ok dest t') :
    t.node dest = some .dir ∧ Probed env dest t t' := by
  rcases validateDestDir_cases env destDir t with ⟨e, he⟩ | ⟨d, u, hok, -, hdir, hprobed⟩
  · rw [h] at he
    cases he
  · rw [h] at hok
    injection hok with hd hu
    subst hd hu
    exact ⟨hdir, hprobed⟩

section Whole

variable {env : ExportEnv} {κ : Type} [LinearOrder κ] {dest : Loc Text} {call : ExportCall}
  {sources : StoredSources κ} {row : SourceRow κ} {t t' : Disk}

def StoredSources.inOrder (sources : StoredSources κ) : List (SourceRow κ) :=
    ordered (·.conceptId) sources.rows

/- The export comes to a row, in some state of the disk. -/
def Reaches (env : ExportEnv) (call : ExportCall) (sources : StoredSources κ) (dest : Loc Text)
    (t : Disk) (row : SourceRow κ) (t' : Disk) : Prop :=
  call.admitted = .ok () ∧
    ∃ start before after total, validateDestDir env call.destDir t = .ok dest start ∧
    sources.inOrder = before ++ row :: after ∧
      before.foldlM (exportRow env dest) (0, 0) start = .ok total t'

variable {e : CatalogError}

theorem exportSources_refused (h : call.admitted = .error e) :
    exportSources env call sources t = .error e t := bind_of_error (ofExcept_error h)

theorem exportSources_invalid (hadmitted : call.admitted = .ok ())
    (h : validateDestDir env call.destDir t = .error e t') :
      exportSources env call sources t = .error e t' := by
  rw [exportSources, bind_of_ok (ofExcept_ok hadmitted), bind_of_error h]

theorem exportSources_eq {start : Disk} (hadmitted : call.admitted = .ok ())
    (h : validateDestDir env call.destDir t = .ok dest start) :
    exportSources env call sources t =
      (sources.inOrder.foldlM (exportRow env dest) (0, 0) >>= fun total =>
        ofExcept env.recordAccess >>= fun _ =>
        pure (some ⟨call.bundleId, displayPath dest, total.1, total.2⟩) :
          EStateM CatalogError Disk (Option SourceExportSummary)) start := by
  have hpages : foldPages (·.conceptId) (exportRow env dest) sourceExportBatchRows sources.rows
      (sources.rows.length + 1) none (0, 0) = some <$> sources.inOrder.foldlM (exportRow env dest)
        (0, 0) := by
    rw [foldPages_eq sources.distinct (by decide) (by rw [remaining_none]; omega), remaining_none]
    rfl
  rw [exportSources, bind_of_ok (ofExcept_ok hadmitted), bind_of_ok h, hpages, bind_map_left]
  rfl

theorem exportSources_state {start : Disk} (hadmitted : call.admitted = .ok ())
    (h : validateDestDir env call.destDir t = .ok dest start) :
    stateAfter (exportSources env call sources t) =
      stateAfter (sources.inOrder.foldlM (exportRow env dest) (0, 0) start) := by
  rw [exportSources_eq hadmitted h]
  cases hrun : sources.inOrder.foldlM (exportRow env dest) (0, 0) start with
  | error e t' =>
    rw [bind_of_error hrun]
    rfl
  | ok total t' =>
    rw [bind_of_ok hrun]
    cases hrecord : env.recordAccess with
    | error e =>
      rw [bind_of_error (ofExcept_error rfl)]
      rfl
    | ok u =>
      rw [bind_of_ok (ofExcept_ok rfl)]
      rfl

theorem Probed.sameOutside (h : Probed env dest t t') : SameOutside dest t t' :=
  fun x hx => h.same x fun heq => hx (heq ▸ List.prefix_append _ _)

/-- The tree the loop starts on is the one before, but for the probe. -/
theorem Reaches.start (h : Reaches env call sources dest t row t') :
    ∃ start, validateDestDir env call.destDir t = .ok dest start ∧ start.node dest = some .dir ∧
      Probed env dest t start ∧ RunKeeps dest start t' ∧
      RunKeeps dest (stateAfter (reconstructFile env dest row t'))
        (stateAfter (exportSources env call sources t)) := by
  obtain ⟨hadmitted, start, before, after, total, hvalid, hsplit, hrun⟩ := h
  obtain ⟨hdest, hprobed⟩ := validateDestDir_ok hvalid
  have hdir : start.node dest = some .dir := by
    rw [hprobed.same dest (by simp), hdest]
  refine ⟨start, hvalid, hdir, hprobed, ?_, ?_⟩
  · have hkeeps := foldlM_keeps RunKeeps.refl RunKeeps.trans (l := before) (f := exportRow env dest)
      (b := (0, 0)) (s := start)
      fun _ x _ b u _ _ => exportRow_keeps b x u
    rw [hrun] at hkeeps
    exact hkeeps
  · rw [exportSources_state hadmitted hvalid, hsplit, ← exportRow_state total row t']
    exact foldlM_keeps_after RunKeeps.refl RunKeeps.trans exportRow_keeps hrun

/-- Nothing outside the destination changes, exactly if no row is reached for which a directory is
made outside. -/
theorem export_inside_iff (hdest : canonicalDest env t call.destDir = .ok dest) :
    SameOutside dest t (stateAfter (exportSources env call sources t)) ↔
      ∀ row t', Reaches env call sources dest t row t' → ¬Escapes env dest row t' := by
  constructor
  · rintro hsame row t' hreach ⟨hchecked, l, hfirst, hout⟩
    obtain ⟨start, -, hdir, hprobed, hto, hfrom⟩ := hreach.start
    have hbefore := hto hdir
    obtain ⟨hnone, hmade⟩ := reconstructFile_escapes hbefore.stays hchecked hfirst hout
    have hafter := hfrom (reconstructFile_keeps row hbefore.stays).stays
    have hend := hafter.outside l hout (by rw [hmade]; rfl)
    rw [hsame l hout, hmade] at hend
    have hthere := hbefore.outside l hout (by rw [hprobed.sameOutside l hout, hend]; rfl)
    rw [hnone, hprobed.sameOutside l hout, hend] at hthere
    cases hthere
  · intro hrows
    cases hadmitted : call.admitted with
    | error e =>
      rw [exportSources_refused hadmitted]
      exact fun _ _ => rfl
    | ok u =>
      rcases validateDestDir_cases env call.destDir t with ⟨e, he⟩
        | ⟨d, start, hok, hcanonical, hdir, hprobed⟩
      · rw [exportSources_invalid hadmitted he]
        exact fun _ _ => rfl
      · rw [hdest] at hcanonical
        obtain rfl := Except.ok.inj hcanonical
        rw [exportSources_state hadmitted hok]
        have hstart : start.node dest = some .dir := by
          rw [hprobed.same dest (by simp), hdir]
        have hrun := foldlM_keeps (R := fun t t' => t.node dest = some .dir →
          t'.node dest = some .dir ∧ SameOutside dest t t')
          (l := sources.inOrder) (f := exportRow env dest) (b := (0, 0)) (s := start)
          (fun _ h => ⟨h, fun _ _ => rfl⟩)
          (fun _ _ _ h₁ h₂ h =>
            ⟨(h₂ (h₁ h).1).1, fun x hx => ((h₂ (h₁ h).1).2 x hx).trans ((h₁ h).2 x hx)⟩)
          (fun before a after total u hsplit hbefore hu => by
            have hreach : Reaches env call sources dest t a u :=
              ⟨hadmitted, start, before, after, total, hok, hsplit, hbefore⟩
            rw [exportRow_state]
            exact ⟨(reconstructFile_keeps a hu).stays,
              reconstructFile_sameOutside hu (hrows a u hreach)⟩)
        intro x hx
        rw [(hrun hstart).2 x hx, hprobed.sameOutside x hx]

/- The row comes to its open, and nothing is where its file goes. -/
def CreatesAt (env : ExportEnv) (dest : Loc Text) (row : SourceRow κ) (t : Disk)
    (x : Loc Text) : Prop :=
  ∃ t' c n, OpensAt env dest row t t' c n ∧ t'.node (c ++ [n]) = none ∧
    env.host.mayCreate (c ++ [n]) = true ∧ x = c ++ [n]

section Kinds

omit [LinearOrder κ]

variable {origin : Disk}

theorem Checked.verified (h : Checked env row) : env.hashBytes row.content = row.fileHash := by
  have hverified := h.2
  rwa [verifyHash, ensure_eq_ok, decide_eq_true_iff] at hverified

theorem CreatesAt.kinds {x : Loc Text} (h : CreatesAt env dest row t x) (hkinds : SameKinds t t') :
    CreatesAt env dest row t' x := by
  obtain ⟨u, c, n, hopens, hnone, hmay, rfl⟩ := h
  obtain ⟨u', hopens', hkinds'⟩ := hopens.kinds hkinds
  exact ⟨u', c, n, hopens', (hkinds'.isNone _).mpr hnone, hmay, rfl⟩

theorem CreatesAt.free {x : Loc Text} (h : CreatesAt env dest row t x) : t.node x = none := by
  obtain ⟨u, c, n, hopens, hnone, -, rfl⟩ := h
  have hext : t.Extends (stateAfter (createDirAll env.host (parentPath dest row.path) t)) :=
    createDirAll_extends _
  rw [hopens.made] at hext
  by_contra hsome
  have hsame : u.node (c ++ [n]) = t.node (c ++ [n]) := hext _ (Option.isSome_iff_ne_none.mpr hsome)
  exact hsome (hsame.symm.trans hnone)

end Kinds

end Whole

def bareDisk : Disk where
  node l := if l = [] then some .dir else none
  root := rfl
  inDir := by simp

def emptyDest : Disk := bareDisk.put [] "dest" (some .dir)

/- A directory of the destination is a link out of it. -/
def plantedLink : Disk :=
  (emptyDest.put [] "outside" (some .dir)).put ["dest"] "nested"
    (some (.link ⟨true, [.name "outside"]⟩))

/- Everything is permitted, and the digest of bytes is how many there are. -/
def permissive : ExportEnv where
  host := ⟨40, fun _ => true, fun _ => true, fun _ => true, fun _ content => (content, true)⟩
  hashBytes bytes := (toString bytes.length).toList
  describe _ := "error"
  probe := ".probe"
  allowedRoots := []
  recordAccess := .ok ()

def exportToDest : ExportCall where
  session := ⟨fun _ => true, none⟩
  tenantRequired := false
  bundleId := 1
  bundle := some none
  destDir := "/dest"

def singleSource (path : Text) (fileHash : Text) : StoredSources Nat :=
    ⟨[⟨1, path, [7], fileHash⟩], by simp⟩

theorem singleSource_reached {path fileHash : Text} {dest : Loc Text} {t t' : Disk}
    {row : SourceRow Nat}
    (h : Reaches permissive exportToDest (singleSource path fileHash) dest t row t') :
      row = ⟨1, path, [7], fileHash⟩ := by
  obtain ⟨-, start, before, after, total, -, hsplit, -⟩ := h
  have hmem : row ∈ (singleSource path fileHash).inOrder := by
    rw [hsplit]
    exact List.mem_append_right _ List.mem_cons_self
  exact List.mem_singleton.mp (mem_ordered.mp hmem)

theorem export_inside_plain :
    canonicalDest permissive plantedLink exportToDest.destDir = .ok ["dest".toList] ∧
      SameOutside ["dest".toList] plantedLink
        (stateAfter (exportSources permissive exportToDest
          (singleSource "a.md".toList "1".toList) plantedLink)) := by
  have hdest : canonicalDest permissive plantedLink exportToDest.destDir =
    .ok ["dest".toList] := by rfl
  refine ⟨hdest, (export_inside_iff hdest).mpr ?_⟩
  rintro row t' hreach ⟨-, l, hfirst, -⟩
  obtain ⟨start, -, hdir, -, hto, -⟩ := hreach.start
  obtain rfl := singleSource_reached hreach
  have hpath : (parentPath ["dest".toList] "a.md".toList).reverse = [.name "dest".toList] :=
    by decide
  have hentry : resolveEntry permissive.host t' ([] ++ [.name "dest".toList]) = .ok
    ([], "dest".toList) :=
    resolveEntry_snoc rfl t'.root
  rw [hpath, firstMissing, List.reverse_nil, hentry] at hfirst
  have hthere : t'.node ([] ++ ["dest".toList]) = some .dir := (hto hdir).stays
  simp only [hthere, Option.isNone_some, Bool.false_and, Bool.false_eq_true, if_false] at hfirst
  cases hfirst

/-- The directory is made in the place the link leads to, and then the export is refused. -/
theorem directory_made_outside :
    canonicalDest permissive plantedLink exportToDest.destDir = .ok ["dest".toList] ∧
      ¬["dest".toList] <+: ["outside".toList, "sub".toList] ∧
      plantedLink.node ["outside".toList, "sub".toList] = none ∧
      (stateAfter (exportSources permissive exportToDest
        (singleSource "nested/sub/a.md".toList "1".toList)
        plantedLink)).node ["outside".toList, "sub".toList] = some .dir :=
  ⟨by rfl, by decide, by decide +kernel, by decide +kernel⟩

end Pgokf.Sync
