import Pgokf.Sync.Staging

/-! # Paths of documents (`okf-parser/src/normalize.rs`)

On the paths of a bundle the parser, the staging of resources and the class of the file agree on the
id. -/

namespace Pgokf.Sync

open Lib

inductive Component where
  | rootDir
  | curDir
  | parentDir
  | normal (part : Text)
  deriving DecidableEq

/- A segment that is not the first one: empty segments and `.` are no components. -/
def segmentComponent (segment : Text) : Option Component :=
  if segment = [] ∨ segment = "." then none
  else if segment = ".." then some .parentDir
  else some (.normal segment)

/-- `Path::components` where `/` is the only separator: a leading `/` is the root, a leading `.`
stays. -/
def components (path : Text) : List Component :=
  match path.splitOn '/' with
  | [] => []
  | first :: rest =>
    let leading :=
      if first = [] then (if rest = [] then none else some .rootDir)
      else if first = "." then some .curDir
      else segmentComponent first
    leading.toList ++ rest.filterMap segmentComponent

/-- `Path::extension`: a name that starts with its only dot has none. -/
def extension (path : Text) : Option Text :=
  match (components path).getLast? with
  | some (.normal name) => (rsplitOnce '.' name).bind fun (stem, ext) =>
    if stem = [] then none else some ext
  | _ => none

inductive PathError where
  | emptyPath
  | pathTraversal (path : Text)
  | absolutePath (path : Text)
  | unsupportedExtension (path : Text)
  deriving DecidableEq

/-- The loop over the components: the first one that leaves the bundle ends it. -/
def normalParts (raw : Text) : List Component → Except PathError (List Text)
  | [] => .ok []
  | .normal part :: rest => (normalParts raw rest).map (part :: ·)
  | .curDir :: rest => normalParts raw rest
  | .parentDir :: _ => .error (.pathTraversal raw)
  | .rootDir :: _ => .error (.absolutePath raw)

def applyMarkdownExtension (normalized : Text) : Except PathError Text :=
  match extension normalized with
  | none => .ok (normalized ++ ".md")
  | some ext =>
    if ext.map Char.toLower = "md" then
      .ok (normalized.take (normalized.length - ext.length) ++ "md")
    else .error (.unsupportedExtension normalized)

def normalizePath (path : Text) : Except PathError Text :=
  if path = [] then .error .emptyPath
  else do
    let parts ← normalParts path (components path)
    if parts = [] then .error .emptyPath else applyMarkdownExtension (['/'].intercalate parts)

/- What a scan of a directory yields: no empty segment, and none that stands for a directory. -/
def Canonical (path : Text) : Prop :=
  ∀ segment ∈ path.splitOn '/', segment ≠ [] ∧ segment ≠ "." ∧ segment ≠ ".."

instance (path : Text) : Decidable (Canonical path) :=
  inferInstanceAs (Decidable (∀ segment ∈ path.splitOn '/', _))

variable {p q : Text} {cls cls' : FileClass}

theorem segmentComponent_normal {segment : Text}
    (h : segment ≠ [] ∧ segment ≠ "." ∧ segment ≠ "..") :
    segmentComponent segment = some (.normal segment) := by
  obtain ⟨hne, hdot, hdots⟩ := h
  simp only [segmentComponent, hne, hdot, hdots, or_self, if_false]

theorem Canonical.ne_nil (h : Canonical p) : p ≠ [] := by
  rintro rfl
  exact (h [] (by simp)).1 rfl

theorem Canonical.components (h : Canonical p) : components p = (p.splitOn '/').map .normal := by
  unfold Sync.components
  unfold Canonical at h
  cases hs : p.splitOn '/' with
  | nil => rfl
  | cons first rest =>
    rw [hs] at h
    have hfirst := h first (by simp)
    have hrest : rest.filterMap segmentComponent = rest.map .normal := by
      rw [← List.filterMap_eq_map]
      exact List.filterMap_congr fun s hs => segmentComponent_normal (h s (by simp [hs]))
    simp only [hfirst.1, hfirst.2.1, if_false, segmentComponent_normal hfirst, hrest]
    rfl

theorem normalParts_map_normal (raw : Text) (parts : List Text) :
    normalParts raw (parts.map .normal) = .ok parts := by
  induction parts with
  | nil => rfl
  | cons part parts ih =>
    rw [List.map_cons, normalParts, ih]
    rfl

theorem splitOn_getLast (p : Text) : (p.splitOn '/').getLast? = some (fileName p) := by
  unfold fileName splitParent
  cases hs : rsplitOnce '/' p with
  | none => simp [splitOn_of_notMem (rsplitOnce_none.mp hs)]
  | some xy =>
    obtain ⟨hp, hy⟩ := rsplitOnce_some.mp hs
    have hcut : p.splitOn '/' = xy.1.splitOn '/' ++ [xy.2] := by
      rw [hp, splitOn_append_sep, splitOn_of_notMem hy]
    simp [hcut]

theorem Canonical.extension (h : Canonical p) : extension p =
    (rsplitOnce '.' (fileName p)).bind fun (stem, ext) => if stem = [] then none else some ext := by
  simp only [Sync.extension, h.components, List.getLast?_map, splitOn_getLast, Option.map_some]

theorem Canonical.normalizePath (h : Canonical p) : normalizePath p = applyMarkdownExtension p := by
  have hparts : p.splitOn '/' ≠ [] := List.splitOn_ne_nil '/' p
  have hjoin : ['/'].intercalate (p.splitOn '/') = p := List.intercalate_splitOn '/'
  simp only [Sync.normalizePath, if_neg h.ne_nil, h.components, normalParts_map_normal]
  simp only [bind, Except.bind, if_neg hparts, hjoin]

theorem applyMarkdownExtension_md (h : Canonical p) (hmd : isMarkdown (fileName p) = true) :
    applyMarkdownExtension p = .ok p := by
  unfold isMarkdown at hmd
  cases hs : rsplitOnce '.' (fileName p) with
  | none => simp [hs] at hmd
  | some xy =>
    obtain ⟨stem, ext⟩ := xy
    simp only [hs, Bool.and_eq_true, Bool.not_eq_true', List.isEmpty_eq_false_iff, beq_iff_eq] at hmd
    obtain ⟨hstem, rfl⟩ := hmd
    have hext : extension p = some "md".toList := by
      rw [h.extension, hs]
      simp [hstem]
    -- the extension stands at the end of the path, so it is replaced by itself
    obtain ⟨x, hx⟩ := splitParent_suffix p
    obtain ⟨hname, -⟩ := rsplitOnce_some.mp hs
    have hp : p = (x ++ stem ++ ['.']) ++ "md".toList := by
      rw [← hx]
      change x ++ fileName p = _
      rw [hname]
      simp
    have hlower : "md".toList.map Char.toLower = "md".toList := by decide
    simp only [applyMarkdownExtension, hext, hlower, if_true]
    rw [hp, List.length_append, Nat.add_sub_cancel, List.take_left']
    rfl

variable {index : PackageIndex}

theorem isMarkdown_of_classify (h : index.classify p = some cls) (hres : cls.isResource = false) :
    cls = .reserved ∨ isMarkdown (fileName p) = true := by
  rcases classify_ok h with ⟨r, -, hcls⟩ | ⟨-, ⟨-, hcls⟩ | ⟨-, ⟨hname, -⟩ | ⟨hmd, -⟩⟩⟩
  · rw [resourceClass_isResource hcls] at hres
    cases hres
  · exact .inl hcls
  · exact .inr (by rw [fileName, hname]; decide)
  · exact .inr hmd

theorem parsedId_eq (hcanon : Canonical p) (h : index.classify p = some cls) (hcls : cls ≠ .reserved)
    (hres : cls.isResource = false) :
    normalizePath p = .ok p ∧ conceptId p = cls.conceptId p := by
  have hmd : isMarkdown (fileName p) = true := (isMarkdown_of_classify h hres).resolve_left hcls
  rw [hcanon.normalizePath, applyMarkdownExtension_md hcanon hmd, FileClass.conceptId_eq hres]
  exact ⟨rfl, rfl⟩

theorem stageResource_id {e : FileMetadata} (h : index.classify e.path = some e.cls)
    (hres : e.cls.isResource = true)
    (parsers : Parsers) (strict : Bool) (staging : Staging) (bytes : Bytes)
    (htext : e.cls = .skillScript → parsers.isScriptText bytes = true) :
    ∃ c, stageResource parsers index strict staging e bytes = .ok (staging.push c) ∧
      c.id = e.cls.conceptId e.path := by
  obtain ⟨r, -, hown, hcls⟩ := classify_resource h hres
  obtain ⟨x, hx⟩ := relative_isSome (resourceClass_encloses hcls)
  have hrel : index.packageRelative e.path = some x := by
    simp [PackageIndex.packageRelative, hown, hx, hcls]
  unfold stageResource
  rw [hown, hrel, conceptId_resource hres]
  dsimp only
  by_cases hscript : e.cls = .skillScript
  · rw [if_pos hscript, if_pos (htext hscript)]
    exact ⟨_, rfl, rfl⟩
  · rw [if_neg hscript]
    exact ⟨_, rfl, rfl⟩

/-- Two files of a bundle never share an id, and the parser and the staging of resources derive the
id that the class of the file gives. -/
theorem conceptId_agrees (paths : List Text) (hcanon : ∀ p ∈ paths, Canonical p) :
    (∀ p ∈ paths, ∀ q ∈ paths, p ≠ q → ∀ cls cls',
      (PackageIndex.fromPaths paths).classify p = some cls → cls ≠ .reserved →
      (PackageIndex.fromPaths paths).classify q = some cls' → cls' ≠ .reserved →
      cls.conceptId p ≠ cls'.conceptId q) ∧
    (∀ p ∈ paths, ∀ cls, (PackageIndex.fromPaths paths).classify p = some cls → cls ≠ .reserved →
      cls.isResource = false → (normalizePath p).map conceptId = .ok (cls.conceptId p)) ∧
    (∀ e : FileMetadata, e.path ∈ paths → (PackageIndex.fromPaths paths).classify e.path = some e.cls →
      e.cls.isResource = true → ∀ parsers strict staging bytes,
      (e.cls = .skillScript → parsers.isScriptText bytes = true) →
      ∃ c, stageResource parsers (.fromPaths paths) strict staging e bytes = .ok (staging.push c) ∧
        c.id = e.cls.conceptId e.path) := by
  refine ⟨?_, ?_, ?_⟩
  · intro p _ q _ hne cls cls' hp _ hq _ hid
    exact hne (conceptId_injective (fromPaths_settled paths) hp hq hid)
  · intro p hp cls hcls hconcept hres
    obtain ⟨hpath, hid⟩ := parsedId_eq (hcanon p hp) hcls hconcept hres
    rw [hpath, ← hid]
    rfl
  · intro e _ hcls hres parsers strict staging bytes htext
    exact stageResource_id hcls hres parsers strict staging bytes htext

theorem conceptId_agrees_skill :
    FileClass.skillManifest.conceptId "kit/SKILL.md" ≠
      FileClass.skillScript.conceptId "kit/scripts/run" ∧
    (normalizePath "kit/SKILL.md").map conceptId = .ok "kit/SKILL" := by
  obtain ⟨hne, hparsed, -⟩ := conceptId_agrees ["kit/SKILL.md", "kit/scripts/run"] (by decide)
  exact ⟨hne _ (by decide) _ (by decide) (by decide) _ _ (by decide) (by decide) (by decide) (by decide),
    hparsed "kit/SKILL.md" (by decide) .skillManifest (by decide) (by decide) rfl⟩

end Pgokf.Sync
