import Pgokf.Lib.FileTree
import Pgokf.Workspace.Assembly

/-! # Writing a tree into a directory (`pgokf-workspace`, `archive.rs`)

Every path is checked, then every file is written under a temporary name, and last each is renamed
into place. -/

namespace Pgokf.Workspace

open Lib FileTree Catalog Sync

/- What a file holds, and whether it is executable. -/
abbrev Stored := Bytes × Bool
abbrev WorkTree := FileTree Text Stored
abbrev FilePath := List (PathPart Text)

/- The contexts of an error, outermost first. -/
abbrev DeliveryError := List String

structure DeliveryEnv where
  host : Host Text Stored
  describe : Errno → String

def PathPart.display : PathPart Text → String
  | .up => ".."
  | .name n => String.ofList n

def display (path : FilePath) : String := "/".intercalate (path.map PathPart.display)

def stagingPrefix : Text := ".okf-tmp-"

/-- A segment as Windows sees it, without its trailing spaces and dots. -/
def squared (segment : Text) : Text := trimEndMatches (fun c => c == ' ' || c == '.') segment

def writableSegment (segment : Text) : Bool :=
  !(segment.isEmpty || (squared segment).isEmpty || segment == "." || squared segment == ".." ||
    segment.contains ':' || stagingPrefix.isPrefixOf segment)

def safeRelative (path : Text) : Except DeliveryError (List Text) := do
  ensure (!(path.isEmpty || path.any (fun c => c == '\\' || isControl c) || path.head? == some '/'))
    ["refusing to write outside the workspace: " ++ debugText path]
  ensure ((path.splitOn '/').all writableSegment)
    ["refusing to write outside the workspace: " ++ debugText path]
  pure (path.splitOn '/')

/-- Beside the destination, so that the rename is on one filesystem. -/
def stagingPath (target : FilePath) : FilePath :=
  target.dropLast ++ [.name (stagingPrefix ++
    match target.getLast? with
    | some (.name n) => n
    | _ => [])]

section Write

variable (env : DeliveryEnv)

def refuseSymlinks (t : WorkTree) : FilePath → List Text → Except DeliveryError Unit
  | _, [] => .ok ()
  | current, segment :: rest =>
    match lstat env.host t (current ++ [.name segment]) with
    | .ok (.link _) => .error
        [display (current ++ [.name segment]) ++
          " is a symbolic link; refusing to write beneath it"]
    | _ => refuseSymlinks t (current ++ [.name segment]) rest

def checkTarget (t : WorkTree) (overwrite : Bool) (target : FilePath) : Except DeliveryError Unit :=
  match lstat env.host t target with
  | .ok (.link _) => .error [display target ++ " is a symbolic link; refusing to write through it"]
  | .ok .dir => .error [display target ++ " is a directory"]
  | .ok (.file _) => ensure overwrite [display target ++ " exists; pass overwrite to replace it"]
  | .error _ => .ok ()

def validateFile (t : WorkTree) (dir : FilePath) (overwrite : Bool) (file : PluginFile) :
    Except DeliveryError FilePath := do
  let relative ← safeRelative file.path
  refuseSymlinks env t dir relative
  let target := dir ++ relative.map .name
  checkTarget env t overwrite target
  pure target

def validateFiles (t : WorkTree) (dir : FilePath) (overwrite : Bool) (files : List PluginFile) :
    Except DeliveryError (List FilePath) :=
  files.mapM (validateFile env t dir overwrite)

def finishFile (temp : FilePath) (file : PluginFile) (handle : Loc Text × Text) :
    EStateM DeliveryError WorkTree Unit := do
  reporting (writeAll env.host handle (file.bytes, false)) fun e =>
    ["writing " ++ display temp, env.describe e]
  if file.executable then
    reporting (setMode env.host (fun stored => (stored.1, true)) temp) fun e =>
      ["marking " ++ display temp ++ " executable", env.describe e]

def writeOne (temp : FilePath) (file : PluginFile) : EStateM DeliveryError WorkTree Unit := do
  reporting (createDirAll env.host temp.dropLast) fun e =>
    ["creating " ++ display temp.dropLast, env.describe e]
  let handle ← reporting (openNew env.host ([], false) temp) fun e =>
    ["opening " ++ display temp, env.describe e]
  finishFile env temp file handle

/-- The removals are attempted; whether they succeed is not asked. -/
def cleanup (temps : List FilePath) (t : WorkTree) : WorkTree :=
  temps.foldl (fun t temp => stateAfter (removeFile env.host temp t)) t

/-- The files staged so far are taken along: they are what a failure removes. -/
def stageFiles : List (PluginFile × FilePath) → List (FilePath × FilePath) →
    EStateM DeliveryError WorkTree (List (FilePath × FilePath))
  | [], staged => pure staged
  | (file, target) :: rest, staged => fun t =>
    match writeOne env (stagingPath target) file t with
    | .ok _ t => stageFiles rest (staged ++ [(stagingPath target, target)]) t
    | .error e t => .error ("no file of the tree was written" :: e)
      (cleanup env (staged.map (·.1)) t)

/-- All that happens before the first rename. -/
def prepareWrite (files : List PluginFile) (dir : FilePath) (overwrite : Bool) :
    EStateM DeliveryError WorkTree (List (FilePath × FilePath)) := fun t =>
  match validateFiles env t dir overwrite files with
  | .error e => .error e t
  | .ok targets => stageFiles env (files.zip targets) [] t

def renameFiles (total : Nat) : List (FilePath × FilePath) → List FilePath →
    EStateM DeliveryError WorkTree (List FilePath)
  | [], written => pure written
  | (temp, target) :: rest, written => fun t =>
    match rename env.host temp target t with
    | .ok _ t => renameFiles total rest (written ++ [target]) t
    | .error e t => .error
        ["renaming " ++ display target ++ " into place: " ++ env.describe e ++ " (after " ++
          toString written.length ++
          " of " ++ toString total ++ " files)"]
        (cleanup env ((temp, target) :: rest |>.map (·.1)) t)

def writeToDir (files : List PluginFile) (dir : FilePath) (overwrite : Bool) :
    EStateM DeliveryError WorkTree (List FilePath) := do
  let staged ← prepareWrite env files dir overwrite
  renameFiles env files.length staged []

end Write

section WriteOne

variable {env : DeliveryEnv} {temp : FilePath} {t s : WorkTree} {entry : Loc Text × Text}

def creates (env : DeliveryEnv) (temp : FilePath) (t : WorkTree) :
    Option ((Loc Text × Text) × WorkTree) :=
  match createDirAll env.host temp.dropLast t with
  | .error _ _ => none
  | .ok _ s =>
    match openNew env.host ([], false) temp s with
    | .error _ _ => none
    | .ok entry s => some (entry, s)

/-- The machine takes all the bytes of a file, and lets it be marked if it is to be. -/
def Finishes (env : DeliveryEnv) (file : PluginFile) (entry : Loc Text × Text) : Prop :=
  (env.host.write (entry.1 ++ [entry.2]) (file.bytes, false)).2 = true ∧
    (file.executable = true → env.host.mayMark (entry.1 ++ [entry.2]) = true)

structure Added (env : DeliveryEnv) (temp : FilePath) (entry : Loc Text × Text) (t s : WorkTree) :
    Prop where
  resolves : resolveEntry env.host s temp = .ok entry
  fresh : t.node (entry.1 ++ [entry.2]) = none
  here : ∃ stored, s.node (entry.1 ++ [entry.2]) = some (.file stored)
  rest : ∀ x, x ≠ entry.1 ++ [entry.2] → s.node x = t.node x ∨ t.node x = none ∧
    s.node x = some .dir

theorem Added.extends (h : Added env temp entry t s) : t.Extends s := by
  intro x hx
  have hne : x ≠ entry.1 ++ [entry.2] := by
    rintro rfl
    rw [h.fresh] at hx
    cases hx
  rcases h.rest x hne with hsame | ⟨hnone, -⟩
  · exact hsame
  · rw [hnone] at hx
    cases hx

/-- Nothing but directories is made where the staging file cannot be created. -/
theorem writeOne_of_creates_none (file : PluginFile) (h : creates env temp t = none) :
    ∃ e s, writeOne env temp file t = .error e s ∧ NewDirs t s := by
  have hdirs := createDirAll_newDirs env.host temp.dropLast t
  unfold creates at h
  cases hmade : createDirAll env.host temp.dropLast t with
  | error e s =>
    rw [hmade] at hdirs
    exact ⟨_, s, bind_of_error (reporting_of_error hmade), hdirs⟩
  | ok u s =>
    rw [hmade] at hdirs h
    dsimp only at h
    rcases openNew_cases env.host ([], false) temp s with ⟨e, hopen⟩ | ⟨loc, n, -, -, hopen⟩
    · have hrun : writeOne env temp file t =
        .error ["opening " ++ display temp, env.describe e] s :=
        (bind_of_ok (reporting_of_ok hmade)).trans (bind_of_error (reporting_of_error hopen))
      exact ⟨_, s, hrun, hdirs⟩
    · rw [hopen] at h
      cases h

variable {s₁ : WorkTree}

theorem added_of_fileAt (hdirs : NewDirs t s₁)
    (hresolves : resolveEntry env.host s₁ temp = .ok entry)
    (hnone : s₁.node (entry.1 ++ [entry.2]) = none) (h : FileAt (entry.1 ++ [entry.2]) s₁ s) :
    Added env temp entry t s where
  resolves := resolveEntry_extends (h.extends hnone) hresolves
  fresh := by
    rcases hdirs (entry.1 ++ [entry.2]) with hsame | ⟨-, hdir⟩
    · rw [← hsame, hnone]
    · rw [hnone] at hdir
      cases hdir
  here := h.here
  rest x hx := by
    rw [h.same x hx]
    exact hdirs x

theorem finishFile_spec {loc : Loc Text} {n : Text} (file : PluginFile)
    (hresolves : resolveEntry env.host s temp = .ok (loc, n)) (hat : FileAt (loc ++ [n]) s₁ s) :
    ∃ s', FileAt (loc ++ [n]) s₁ s' ∧
      (Finishes env file (loc, n) → finishFile env temp file (loc, n) s = .ok () s') ∧
      (¬Finishes env file (loc, n) → ∃ e, finishFile env temp file (loc, n) s = .error e s') := by
  obtain ⟨-, -, -, hdir⟩ := resolveEntry_ok hresolves
  obtain ⟨old, hold⟩ := hat.here
  have hwritten : FileAt (loc ++ [n]) s₁
      (s.put loc n (some (.file (env.host.write (loc ++ [n]) (file.bytes, false)).1))) :=
    ⟨⟨_, put_node_self hdir (by rw [hold]; simp)⟩, fun x hx =>
      (put_node_of_ne hx).trans (hat.same x hx)⟩
  have hframe : SameFrame s
    (s.put loc n (some (.file (env.host.write (loc ++ [n]) (file.bytes, false)).1))) :=
    .put (by rw [hold]; simp) (by rw [hold]; simp) (by simp) (by simp)
  have hwrite : writeAll env.host (loc, n) (file.bytes, false) s =
      if (env.host.write (loc ++ [n]) (file.bytes, false)).2 then
        .ok () (s.put loc n (some (.file (env.host.write (loc ++ [n]) (file.bytes, false)).1)))
      else .error .noSpace
        (s.put loc n (some (.file (env.host.write (loc ++ [n]) (file.bytes, false)).1))) := rfl
  generalize s.put loc n
    (some (.file (env.host.write (loc ++ [n]) (file.bytes, false)).1)) = s₂ at *
  by_cases hfits : (env.host.write (loc ++ [n]) (file.bytes, false)).2 = true
  · rw [if_pos hfits] at hwrite
    have hrun : finishFile env temp file (loc, n) s = _ := bind_of_ok (reporting_of_ok hwrite)
    obtain ⟨stored, hstored⟩ := hwritten.here
    by_cases hexecutable : file.executable = true
    · have hmark : setMode env.host (fun stored => (stored.1, true)) temp s₂ =
          if env.host.mayMark (loc ++ [n]) then .ok ()
            (s₂.put loc n (some (.file (stored.1, true))))
          else .error .denied s₂ := by
        rw [setMode, resolveEntry_frame hframe hresolves]
        dsimp only
        rw [hstored]
      rw [if_pos hexecutable] at hrun
      by_cases hmay : env.host.mayMark (loc ++ [n]) = true
      · rw [if_pos hmay] at hmark
        refine ⟨s₂.put loc n (some (.file (stored.1, true))),
          ⟨⟨_, put_node_self ((hframe.dirs _).mpr hdir) ?_⟩, ?_⟩, ?_, ?_⟩
        · rw [hstored]
          simp
        · exact fun x hx => (put_node_of_ne hx).trans (hwritten.same x hx)
        · exact fun _ => hrun.trans (reporting_of_ok hmark)
        · exact fun hnot => absurd ⟨hfits, fun _ => hmay⟩ hnot
      · rw [if_neg hmay] at hmark
        exact ⟨s₂, hwritten, fun h => absurd (h.2 hexecutable) hmay, fun _ =>
          ⟨_, hrun.trans (reporting_of_error hmark)⟩⟩
    · rw [if_neg hexecutable] at hrun
      exact ⟨s₂, hwritten, fun _ => hrun, fun hnot =>
        absurd ⟨hfits, fun h => absurd h hexecutable⟩ hnot⟩
  · rw [if_neg hfits] at hwrite
    exact ⟨s₂, hwritten, fun h => absurd h.1 hfits, fun _ =>
      ⟨_, bind_of_error (reporting_of_error hwrite)⟩⟩

/-- Once the staging file is there, it stays, whether or not it can be finished. -/
theorem writeOne_of_creates_some (file : PluginFile) {made : WorkTree}
    (h : creates env temp t = some (entry, made)) :
    ∃ s, Added env temp entry t s ∧
      (Finishes env file entry → writeOne env temp file t = .ok () s) ∧
      (¬Finishes env file entry → ∃ e, writeOne env temp file t = .error e s) := by
  have hdirs := createDirAll_newDirs env.host temp.dropLast t
  unfold creates at h
  cases hmade : createDirAll env.host temp.dropLast t with
  | error e s =>
    rw [hmade] at h
    cases h
  | ok u s₁ =>
    rw [hmade] at hdirs h
    dsimp only at h
    rcases openNew_cases env.host
      ([], false) temp s₁ with ⟨e, hopen⟩ | ⟨loc, n, hresolves, hnone, hopen⟩
    · rw [hopen] at h
      cases h
    · rw [hopen] at h
      obtain ⟨rfl, rfl⟩ := Prod.mk.inj (Option.some.inj h)
      obtain ⟨-, -, -, hdir⟩ := resolveEntry_ok hresolves
      have hopened : FileAt (loc ++ [n]) s₁ (s₁.put loc n (some (.file ([], false)))) :=
        .put hdir (by rw [hnone]; simp)
      have hrun : writeOne env temp file t =
          finishFile env temp file (loc, n) (s₁.put loc n (some (.file ([], false)))) :=
        (bind_of_ok (reporting_of_ok hmade)).trans (bind_of_ok (reporting_of_ok hopen))
      obtain ⟨s', hat, hok, herror⟩ := finishFile_spec file
        (resolveEntry_extends (hopened.extends hnone) hresolves) hopened
      rw [hrun]
      exact ⟨s', added_of_fileAt hdirs hresolves hnone hat, hok, herror⟩

end WriteOne

/-! ### The files staged so far -/

section Staging

variable {env : DeliveryEnv} {t s s' : WorkTree} {temps : List FilePath}
  {entries : List (Loc Text × Text)}

structure Removable (env : DeliveryEnv) (t s : WorkTree) (temp : FilePath)
    (entry : Loc Text × Text) : Prop where
  resolves : resolveEntry env.host s temp = .ok entry
  here : ∃ stored, s.node (entry.1 ++ [entry.2]) = some (.file stored)
  fresh : t.node (entry.1 ++ [entry.2]) = none

/-- What staging adds to a tree: its files, and directories. -/
structure Staged (env : DeliveryEnv) (t s : WorkTree) (temps : List FilePath)
    (entries : List (Loc Text × Text)) :
    Prop where
  files : List.Forall₂ (Removable env t s) temps entries
  rest : ∀ x, (∀ entry ∈ entries, x ≠ entry.1 ++ [entry.2]) →
    s.node x = t.node x ∨ t.node x = none ∧ s.node x = some .dir

theorem Staged.nil (env : DeliveryEnv) (t : WorkTree) : Staged env t t [] [] :=
  ⟨.nil, fun _ _ => .inl rfl⟩

variable {temp : FilePath} {entry : Loc Text × Text}

theorem Removable.extends (h : Removable env t s temp entry) (hext : s.Extends s') :
    Removable env t s' temp entry where
  resolves := resolveEntry_extends hext h.resolves
  here := by
    obtain ⟨stored, hstored⟩ := h.here
    exact ⟨stored, by rw [hext _ (by rw [hstored]; rfl), hstored]⟩
  fresh := h.fresh

theorem Staged.entry_ne (h : Staged env t s temps entries) (hadded : Added env temp entry s s') :
    ∀ e ∈ entries, entry.1 ++ [entry.2] ≠ e.1 ++ [e.2] := by
  intro e he hsame
  obtain ⟨temp', -, hremovable⟩ := exists_of_forall₂_right h.files he
  obtain ⟨stored, hstored⟩ := hremovable.here
  rw [← hsame, hadded.fresh] at hstored
  cases hstored

theorem Staged.entry_fresh (h : Staged env t s temps entries) (hadded : Added env temp entry s s') :
    t.node (entry.1 ++ [entry.2]) = none := by
  rcases h.rest _ (h.entry_ne hadded) with hsame | ⟨hnone, -⟩
  · rw [← hsame, hadded.fresh]
  · exact hnone

theorem Staged.snoc (h : Staged env t s temps entries) (hadded : Added env temp entry s s') :
    Staged env t s' (temps ++ [temp]) (entries ++ [entry]) := by
  constructor
  · exact List.rel_append (h.files.imp fun _ _ hr => hr.extends hadded.extends)
      (.cons ⟨hadded.resolves, hadded.here, h.entry_fresh hadded⟩ .nil)
  · intro x hx
    have hlast : x ≠ entry.1 ++ [entry.2] := hx entry (by simp)
    have hbefore := h.rest x fun e he => hx e (by simp [he])
    rcases hadded.rest x hlast with hsame | ⟨hnone, hdir⟩
    · rw [hsame]
      exact hbefore
    · rcases hbefore with hsame | ⟨hfresh, -⟩
      · exact .inr ⟨by rw [← hsame, hnone], hdir⟩
      · exact .inr ⟨hfresh, hdir⟩

theorem cleanup_node (hall : List.Forall₂ (Removable env t s) temps entries) (x : Loc Text) :
    (cleanup env temps s).node x = if ∃ entry ∈ entries,
      x = entry.1 ++ [entry.2] then none else s.node x := by
  -- The tree `u` is `s` without some of the files that are to be removed.
  have hgen : ∀ u : WorkTree, SameFrame s u → (∀ y, u.node y = s.node y ∨ u.node y = none) →
      (cleanup env temps u).node x = if ∃ entry ∈ entries,
        x = entry.1 ++ [entry.2] then none else u.node x := by
    induction hall with
    | nil =>
      intro u _ _
      simp [cleanup]
    | @cons temp entry temps entries hremovable hrest ih =>
      intro u hframe hnodes
      obtain ⟨stored, hstored⟩ := hremovable.here
      have hresolves := resolveEntry_frame hframe hremovable.resolves
      have hleaf : u.node (entry.1 ++ [entry.2]) = none ∨
        ∃ stored, u.node (entry.1 ++ [entry.2]) = some (.file stored) := by
        rcases hnodes (entry.1 ++ [entry.2]) with hsame | hnone
        · exact .inr ⟨stored, by rw [hsame, hstored]⟩
        · exact .inl hnone
      have hnode := removeFile_node hresolves hleaf
      change (cleanup env temps (stateAfter (removeFile env.host temp u))).node x = _
      rw [ih _ (hframe.trans (removeFile_sameFrame hresolves hleaf))]
      · rw [hnode x]
        by_cases hfirst : x = entry.1 ++ [entry.2]
        · simp [hfirst]
        · have hmore : (∃ e ∈ entry :: entries, x = e.1 ++ [e.2]) ↔
            ∃ e ∈ entries, x = e.1 ++ [e.2] := by
            simp [hfirst]
          rw [if_neg hfirst]
          simp only [hmore]
      · intro y
        rw [hnode y]
        split
        · exact .inr rfl
        · exact hnodes y
  exact hgen s (SameFrame.refl s) fun _ => .inl rfl

section Run

variable {files done rest : List (PluginFile × FilePath)}
  {staged staged' : List (FilePath × FilePath)} {file : PluginFile} {target : FilePath}

theorem stageFiles_cons : stageFiles env ((file, target) :: rest) staged s =
    match writeOne env (stagingPath target) file s with
    | .ok _ t => stageFiles env rest (staged ++ [(stagingPath target, target)]) t
    | .error e t => .error ("no file of the tree was written" :: e)
      (cleanup env (staged.map (·.1)) t) := rfl

theorem stageFiles_of_ok {u : Unit} (h : writeOne env (stagingPath target) file s = .ok u s') :
    stageFiles env ((file, target) :: rest) staged s =
      stageFiles env rest (staged ++ [(stagingPath target, target)]) s' := by
  rw [stageFiles_cons, h]

theorem stageFiles_of_error {e : DeliveryError}
    (h : writeOne env (stagingPath target) file s = .error e s') :
    stageFiles env ((file, target) :: rest) staged s =
      .error ("no file of the tree was written" :: e) (cleanup env (staged.map (·.1)) s') := by
  rw [stageFiles_cons, h]

theorem stageFiles_append (h : stageFiles env done staged s = .ok staged' s') :
    stageFiles env (done ++ rest) staged s = stageFiles env rest staged' s' := by
  induction done generalizing staged s with
  | nil =>
    injection h with hstaged hs
    rw [hstaged, hs]
    rfl
  | cons head done ih =>
    obtain ⟨file, target⟩ := head
    cases hwrite : writeOne env (stagingPath target) file s with
    | error e u =>
      rw [stageFiles_of_error hwrite] at h
      cases h
    | ok _ u =>
      rw [stageFiles_of_ok hwrite] at h
      rw [List.cons_append, stageFiles_of_ok hwrite]
      exact ih h

theorem stageFiles_run (files : List (PluginFile × FilePath))
    (hs : Staged env t s (staged.map (·.1)) entries) :
    (∃ staged' s' entries', stageFiles env files staged s = .ok staged' s' ∧
      Staged env t s' (staged'.map (·.1)) entries') ∨
    ∃ done file target rest staged' s' entries' e u, files = done ++ (file, target) :: rest ∧
      stageFiles env done staged s = .ok staged' s' ∧ Staged env t s' (staged'.map (·.1)) entries' ∧
      writeOne env (stagingPath target) file s' = .error e u ∧
      stageFiles env files staged s = .error ("no file of the tree was written" :: e)
        (cleanup env (staged'.map (·.1)) u) := by
  induction files generalizing staged s entries with
  | nil => exact .inl ⟨staged, s, entries, rfl, hs⟩
  | cons head files ih =>
    obtain ⟨file, target⟩ := head
    cases hwrite : writeOne env (stagingPath target) file s with
    | error e u =>
      exact .inr ⟨[], file, target, files, staged, s, entries, e, u, rfl, rfl, hs, hwrite,
        stageFiles_of_error hwrite⟩
    | ok _ u =>
      have hstaged : ∃ entry, Staged env t u ((staged ++ [(stagingPath target, target)]).map (·.1))
        (entries ++ [entry]) := by
        rw [List.map_append]
        cases hcreates : creates env (stagingPath target) s with
        | none =>
          obtain ⟨e, v, herror, -⟩ := writeOne_of_creates_none file hcreates
          rw [hwrite] at herror
          cases herror
        | some made =>
          obtain ⟨v, hadded, hok, herror⟩ := writeOne_of_creates_some file hcreates
          by_cases hfinishes : Finishes env file made.1
          · have hsame := hok hfinishes
            rw [hwrite] at hsame
            injection hsame with _ hsame
            exact ⟨made.1, hs.snoc (hsame ▸ hadded)⟩
          · obtain ⟨e, herror⟩ := herror hfinishes
            rw [hwrite] at herror
            cases herror
      obtain ⟨entry, hstaged⟩ := hstaged
      rw [stageFiles_of_ok hwrite]
      rcases ih hstaged with hend
        | ⟨done, file', target', rest, staged', s', entries', e, v, hfiles, hdone, hmore⟩
      · exact .inl hend
      · refine .inr ⟨(file, target) :: done, file', target', rest, staged', s', entries', e, v, ?_,
          ?_, hmore⟩
        · rw [hfiles, List.cons_append]
        · rw [stageFiles_of_ok hwrite, hdone]

end Run

variable {u : WorkTree}

theorem newDirs_cleanup (h : Staged env t s temps entries) (hdirs : NewDirs s u) :
    NewDirs t (cleanup env temps u) := by
  intro x
  rw [cleanup_node (h.files.imp fun _ _ hr => hr.extends hdirs.extends) x]
  split
  next hmem =>
    obtain ⟨entry, hentry, rfl⟩ := hmem
    obtain ⟨temp, -, hremovable⟩ := exists_of_forall₂_right h.files hentry
    exact .inl hremovable.fresh.symm
  next hmem =>
    have hstaged := h.rest x fun entry hentry hx => hmem ⟨entry, hentry, hx⟩
    rcases hdirs x with hsame | ⟨hnone, hdir⟩
    · rw [hsame]
      exact hstaged
    · rcases hstaged with hbefore | ⟨hfresh, -⟩
      · exact .inr ⟨by rw [← hbefore, hnone], hdir⟩
      · exact .inr ⟨hfresh, hdir⟩

/-- A file that was created at the failing step is not among those that the cleanup removes. -/
theorem not_newDirs_cleanup (h : Staged env t s temps entries) (hadded : Added env temp entry s u) :
    ¬NewDirs t (cleanup env temps u) := by
  intro hdirs
  obtain ⟨stored, hstored⟩ := hadded.here
  have hleft : (cleanup env temps u).node (entry.1 ++ [entry.2]) = some (.file stored) := by
    rw [cleanup_node (h.files.imp fun _ _ hr => hr.extends hadded.extends), if_neg, hstored]
    rintro ⟨e, he, hsame⟩
    exact h.entry_ne hadded e he hsame
  rcases hdirs (entry.1 ++ [entry.2]) with hsame | ⟨-, hdir⟩
  · rw [hleft, h.entry_fresh hadded] at hsame
    cases hsame
  · rw [hleft] at hdir
    cases hdir

end Staging

/-- Whatever staging file the call comes to create, the machine lets it be finished. -/
def FinishesWhatItCreates (env : DeliveryEnv) (files : List PluginFile) (dir : FilePath)
    (overwrite : Bool) (t : WorkTree) :
    Prop :=
  ∀ targets, validateFiles env t dir overwrite files = .ok targets →
    ∀ done file target rest staged s, files.zip targets = done ++ (file, target) :: rest →
      stageFiles env done [] t = .ok staged s →
        ∀ entry made, creates env (stagingPath target) s = some (entry, made) →
          Finishes env file entry

theorem renameFiles_ok {env : DeliveryEnv} {total : Nat} {staged : List (FilePath × FilePath)}
    {written all : List FilePath} {t t' : WorkTree}
    (h : renameFiles env total staged written t = .ok all t') :
      all = written ++ staged.map (·.2) := by
  induction staged generalizing written t with
  | nil =>
    injection h with hall _
    rw [← hall, List.map_nil, List.append_nil]
  | cons head rest ih =>
    obtain ⟨temp, target⟩ := head
    unfold renameFiles at h
    cases hrename : rename env.host temp target t with
    | error e u =>
      rw [hrename] at h
      cases h
    | ok _ u =>
      rw [hrename] at h
      rw [ih h, List.append_assoc, List.map_cons, List.singleton_append]

/-- A write fails where its preparation does, and else reports the targets of the files it staged. -/
theorem writeToDir_spec (env : DeliveryEnv) (files : List PluginFile) (dir : FilePath)
    (overwrite : Bool) (t : WorkTree) :
    (∀ e t', prepareWrite env files dir overwrite t = .error e t' →
      writeToDir env files dir overwrite t = .error e t') ∧
    ∀ written t', writeToDir env files dir overwrite t = .ok written t' →
      ∃ staged u, prepareWrite env files dir overwrite t = .ok staged u ∧
        written = staged.map (·.2) := by
  refine ⟨fun e t' hprepare => bind_of_error hprepare, fun written t' hwrite => ?_⟩
  cases hprepare : prepareWrite env files dir overwrite t with
  | error e u =>
    rw [writeToDir, bind_of_error hprepare] at hwrite
    cases hwrite
  | ok staged u =>
    rw [writeToDir, bind_of_ok hprepare] at hwrite
    exact ⟨staged, u, rfl, renameFiles_ok hwrite⟩

/-- A write that fails before its renames leaves the files as they were unless it created a staging
file it could not finish. -/
theorem refused_write_untouched_iff (env : DeliveryEnv) (files : List PluginFile) (dir : FilePath)
    (overwrite : Bool) (t t' : WorkTree) (e : DeliveryError)
    (h : prepareWrite env files dir overwrite t = .error e t') :
    writeToDir env files dir overwrite t = .error e t' ∧
      ((∀ x, t'.node x = t.node x ∨ t.node x = none ∧ t'.node x = some .dir) ↔
        FinishesWhatItCreates env files dir overwrite t) := by
  refine ⟨(writeToDir_spec env files dir overwrite t).1 e t' h, ?_⟩
  have hnil : Staged env t t (([] : List (FilePath × FilePath)).map (·.1)) [] := Staged.nil env t
  unfold prepareWrite at h
  cases hvalid : validateFiles env t dir overwrite files with
  | error e' =>
    rw [hvalid] at h
    injection h with _ hsame
    refine ⟨fun _ targets htargets => ?_, fun _ x => .inl (by rw [hsame])⟩
    rw [hvalid] at htargets
    cases htargets
  | ok targets =>
    rw [hvalid] at h
    dsimp only at h
    constructor
    · intro hsame targets' htargets done file target rest staged s hfiles hdone entry made hcreates
      obtain rfl := Except.ok.inj (hvalid.symm.trans htargets)
      by_contra hunfinished
      obtain ⟨u, hadded, -, herror⟩ := writeOne_of_creates_some file hcreates
      obtain ⟨e', herror⟩ := herror hunfinished
      rw [hfiles, stageFiles_append hdone, stageFiles_of_error herror] at h
      injection h with _ hend
      rcases stageFiles_run done hnil with ⟨staged', s', entries, hrun, hstaged⟩ | hfail
      · rw [hdone] at hrun
        injection hrun with hstagedEq hsEq
        subst hstagedEq hsEq hend
        exact not_newDirs_cleanup hstaged hadded hsame
      · obtain ⟨_, _, _, _, _, _, _, _, _, _, _, _, _, hrun⟩ := hfail
        rw [hdone] at hrun
        cases hrun
    · intro hfinishes
      rcases stageFiles_run (files.zip targets) hnil with ⟨staged', s', entries, hrun, -⟩ | hfail
      · rw [h] at hrun
        cases hrun
      · obtain ⟨done, file, target, rest, staged', s', entries, e', u, hfiles, hdone, hstaged,
          hwrite, hrun⟩ := hfail
        rw [h] at hrun
        injection hrun with _ hend
        subst hend
        cases hcreates : creates env (stagingPath target) s' with
        | some made =>
          obtain ⟨v, -, hok, -⟩ := writeOne_of_creates_some file hcreates
          have hdoneWrite := hok (hfinishes targets hvalid done file target rest staged' s' hfiles
            hdone made.1 made.2 hcreates)
          rw [hwrite] at hdoneWrite
          cases hdoneWrite
        | none =>
          obtain ⟨_, v, herror, hdirs⟩ := writeOne_of_creates_none file hcreates
          rw [hwrite] at herror
          injection herror with _ hsame
          subst hsame
          exact newDirs_cleanup hstaged hdirs

def bareTree : WorkTree where
  node loc := if loc = [] then some .dir else none
  root := rfl
  inDir loc n h := by
    rw [if_neg (by simp)] at h
    cases h

def textFile (path : String) : PluginFile := ⟨path.toList, [65], [], false⟩

def willingHost : Host Text Stored where
  links := 40
  mayCreate _ := true
  mayOpen _ := true
  mayMark _ := true
  write _ stored := (stored, true)

/- `b.md` cannot be created at its staging name. -/
def refusingEnv : DeliveryEnv where
  host := { willingHost with mayCreate := fun loc => loc != [".okf-tmp-b.md".toList] }
  describe _ := ""

/- The disk is full when `b.md` is written. -/
def fullEnv : DeliveryEnv where
  host := { willingHost with
    write := fun loc stored =>
      if loc = [".okf-tmp-b.md".toList] then (([], false), false) else (stored, true) }
  describe _ := ""

theorem refused_write_untouched_two :
    ∃ e t', prepareWrite refusingEnv [textFile "a.md", textFile "b.md"] [] false bareTree =
      .error e t' ∧
      ∀ x, t'.node x = bareTree.node x ∨ bareTree.node x = none ∧ t'.node x = some .dir := by
  have hfails : (match prepareWrite refusingEnv [textFile "a.md", textFile "b.md"] [] false
    bareTree with
      | .error _ _ => true
      | .ok _ _ => false) = true := by decide +kernel
  cases hrun : prepareWrite refusingEnv [textFile "a.md", textFile "b.md"] [] false bareTree with
  | ok staged t' =>
    rw [hrun] at hfails
    cases hfails
  | error e t' =>
    refine ⟨e, t', rfl, (refused_write_untouched_iff refusingEnv _ [] false bareTree t' e
      hrun).2.mpr ?_⟩
    intro targets _ done file target rest staged s _ _ entry made _
    exact ⟨rfl, fun _ => rfl⟩

/-- The staging file of `a.md` is removed, that of `b.md` is left behind. -/
theorem unfinished_staging_file_left :
    ∃ e t', prepareWrite fullEnv [textFile "a.md", textFile "b.md"] [] false bareTree =
      .error e t' ∧
      bareTree.node [".okf-tmp-b.md"] = none ∧
      t'.node [".okf-tmp-b.md"] = some (.file ([], false)) := by
  have hfails : (match prepareWrite fullEnv [textFile "a.md", textFile "b.md"] [] false
    bareTree with
      | .error _ t' => decide (t'.node [".okf-tmp-b.md"] = some (.file ([], false)))
      | .ok _ _ => false) = true := by decide +kernel
  cases hrun : prepareWrite fullEnv [textFile "a.md", textFile "b.md"] [] false bareTree with
  | ok staged t' =>
    rw [hrun] at hfails
    cases hfails
  | error e t' =>
    rw [hrun] at hfails
    exact ⟨e, t', rfl, rfl, of_decide_eq_true hfails⟩

end Pgokf.Workspace
