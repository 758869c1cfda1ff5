import Mathlib.Data.List.Perm.Basic
import Pgokf.Workspace.Profile
import Pgokf.Workspace.Records

/-! # The paths of a workspace tree (`pgokf-workspace`, `plugin.rs`)

Where a shape puts its files, how names become directories, and when two paths are one file. -/

namespace Pgokf.Workspace

open Lib Catalog Sync

/-- What the code asks of the Unicode tables: `char::to_lowercase`, `str::to_lowercase` and the
composed form. -/
structure Unicode where
  lowerChar : Char → List Char
  lowerText : Text → Text
  nfc : Text → Text

variable (unicode : Unicode)

def nameMax : Nat := 64
def defaultName : Text := "okf-knowledge"

/-- One character of a slug: a run of other characters becomes a hyphen before the next kept one. -/
def slugStep (acc : Text × Bool) (c : Char) : Text × Bool :=
  if c.isAlphanum then ((if acc.2 && !acc.1.isEmpty then acc.1 ++ ['-'] else acc.1) ++ [c], false)
    else (acc.1, true)

def slug (name : Text) : Text :=
  let out := (((trim name).flatMap unicode.lowerChar).foldl slugStep ([], false)).1
  let trimmed := trimEndMatches (· == '-') (out.take nameMax)
  if trimmed.isEmpty then defaultName else trimmed

structure Layout where
  root : Text
  indexPath : Text
  contentDir : Text
  packagesDir : Text
  scriptsDir : Text
  metaDir : Text
  deriving DecidableEq

def joined (dir : Text) (rest : String) : Text := dir ++ '/' :: rest.toList

def Layout.metaPath (layout : Layout) (file : String) : Text :=
  if layout.metaDir.isEmpty then file.toList else joined layout.metaDir file

def layoutOf (profile : Profile) (name : Text) : Layout :=
  match profile.shape with
  | .agentPlugin =>
    let skill := joined name "skills/" ++ name
    { root := name
      indexPath := joined skill "SKILL.md"
      contentDir := joined skill "references"
      packagesDir := joined name "skills"
      scriptsDir := joined skill "scripts"
      metaDir := name }
  | .skills =>
    let root := profile.root ++ '/' :: name
    { root
      indexPath := joined root "SKILL.md"
      contentDir := joined root "references"
      packagesDir := profile.root
      scriptsDir := joined root "scripts"
      metaDir := [] }
  | .instructionFile =>
    { root := []
      indexPath := "AGENTS.md"
      contentDir := "knowledge"
      packagesDir := "knowledge/skills"
      scriptsDir := "knowledge"
      metaDir := [] }
  | .promptBundle =>
    { root := profile.root
      indexPath := joined profile.root "INDEX.md"
      contentDir := joined profile.root "knowledge"
      packagesDir := joined profile.root "skills"
      scriptsDir := joined profile.root "knowledge"
      metaDir := [] }
  | .generic =>
    { root := profile.root
      indexPath := joined profile.root "INDEX.md"
      contentDir := joined profile.root "concepts"
      packagesDir := joined profile.root "skills"
      scriptsDir := joined profile.root "concepts"
      metaDir := [] }

/-- The link from the directory of the index file to another: out of what the two do not share, then
down. -/
def relativePrefix (indexDir dir : Text) : Text :=
  let source := (indexDir.splitOn '/').filter fun segment => !segment.isEmpty
  let target := (dir.splitOn '/').filter fun segment => !segment.isEmpty
  let common := ((source.zip target).takeWhile fun pair => pair.1 == pair.2).length
  (List.replicate (source.length - common) "../".toList).flatten ++
    (target.drop common).flatMap fun segment => segment ++ ['/']

def bundleNames (records : List ConceptRecord) : OrderedMap BundleId Text :=
  records.foldl (fun names record =>
    if (names.get record.bundleId).isSome then names else names.insert record.bundleId
      record.bundleName) []

def bundleDirectories (records : List ConceptRecord) : OrderedMap BundleId Text :=
  ((bundleNames records).insertionSort fun a b => a.1 ≤ b.1).foldl (fun dirs entry =>
    let base := slug unicode entry.2
    dirs.insert entry.1
      (if (dirs.map (·.2)).contains base then base ++ '-' :: (toString entry.1).toList else base)) []

def candidateDirectory (base : Text) (b : BundleId) : Nat → Text
  | 0 => base
  | n + 1 =>
    let suffix := '-' :: (toString b).toList ++ if n = 0 then [] else '-' :: (toString n).toList
    trimEndMatches (· == '-') (base.take (nameMax - suffix.length)) ++ suffix

/- More candidates than there are names taken: the loop ends within them. -/
def freeDirectory (taken : List Text) (base : Text) (b : BundleId) : Text :=
  (((List.range (taken.length + 3)).map (candidateDirectory base b)).find? fun dir =>
    !taken.contains dir).getD base

def placePackage (acc : List Text × OrderedMap ConceptRef Text) (record : ConceptRecord) :
    List Text × OrderedMap ConceptRef Text :=
  match record.package with
  | some package =>
    let dir := freeDirectory acc.1 (slug unicode package.name) record.bundleId
    (dir :: acc.1, acc.2.insert record.key dir)
  | none => acc

def packageDirectories (records : List ConceptRecord) (pluginName : Text) : OrderedMap ConceptRef Text :=
  (records.foldl (placePackage unicode) ([pluginName], [])).2

def isFormat (c : Char) : Bool :=
  (0x200e ≤ c.toNat && c.toNat ≤ 0x200f) || (0x202a ≤ c.toNat && c.toNat ≤ 0x202e) ||
    (0x2066 ≤ c.toNat && c.toNat ≤ 0x2069)

def safeSegment (segment : Text) : Bool :=
  let squared := trimEndMatches (fun c => c == ' ' || c == '.') segment
  !segment.isEmpty && !squared.isEmpty && squared != ".." && segment != "." &&
    !segment.any fun c => isControl c || isFormat c

def cleanChar (c : Char) : Char := if c == '\\' || c == ':' || isControl c then '_' else c

def treePath (path : Text) : Except BuildError Text := do
  let cleaned := path.map cleanChar
  ensure ((cleaned.splitOn '/').all safeSegment)
    (.invalid ("concept path " ++ debugText path ++ " cannot be written as a file"))
  pure cleaned

def staleWarningSuffix : Text := ".stale-warning.md"

/-- The name before its last dot; a dotfile keeps its whole name. -/
def warningStem (name : Text) : Text :=
  match rsplitOnce '.' name with
  | some (stem, _) => if stem.isEmpty then name else stem
  | none => name

def adjacentWarningPath (path : Text) : Text :=
  let (dir, name) := splitParent '/' path
  if dir.isEmpty then warningStem name ++ staleWarningSuffix
  else dir ++ '/' :: (warningStem name ++ staleWarningSuffix)

def collisionKey (path : Text) : Text := unicode.lowerText (unicode.nfc path)

def directoriesOf (path : Text) : List Text :=
  let segments := (path.splitOn '/').dropLast
  (List.range segments.length).map fun n => ['/'].intercalate (segments.take (n + 1))

def collisionMessage (first path : Text) : String :=
  if first = path then
    "two files would be written at " ++ String.ofList path ++
      "; rename the package or narrow the selection"
  else
    String.ofList first ++ " and " ++ String.ofList path ++
      " are one file on a case-insensitive or Unicode-normalizing filesystem; rename the package or narrow the selection"

def ensureDistinct (seen : OrderedMap Text Text) : List Text → Except BuildError Unit
  | [] => .ok ()
  | path :: rest =>
    match seen.get (collisionKey unicode path) with
    | some first => .error (.invalid (collisionMessage first path))
    | none => ensureDistinct (seen.insert (collisionKey unicode path) path) rest

def ensureNoDirectory (directories : List Text) : List Text → Except BuildError Unit
  | [] => .ok ()
  | path :: rest =>
    if directories.contains (collisionKey unicode path) then
      .error (.invalid (String.ofList path ++
        " is both a file and a directory in this tree; narrow the selection"))
    else ensureNoDirectory directories rest

def ensureUniquePaths (paths : List Text) : Except BuildError Unit := do
  ensureDistinct unicode [] paths
  ensureNoDirectory unicode ((paths.flatMap directoriesOf).map (collisionKey unicode)) paths

variable {unicode}

/-- Two paths that cannot both be files: one file, or one a directory of the other. -/
def Collide (unicode : Unicode) (p q : Text) : Prop :=
  collisionKey unicode p = collisionKey unicode q ∨
    (∃ d ∈ directoriesOf q, collisionKey unicode d = collisionKey unicode p) ∨
    ∃ d ∈ directoriesOf p, collisionKey unicode d = collisionKey unicode q

/-- A path whose own directory is the same file to the filesystem. -/
def Folds (unicode : Unicode) (p : Text) : Prop :=
  ∃ d ∈ directoriesOf p, collisionKey unicode d = collisionKey unicode p

structure UniquePaths (unicode : Unicode) (paths : List Text) : Prop where
  apart : paths.Pairwise fun p q => ¬ Collide unicode p q
  unfolded : ∀ p ∈ paths, ¬ Folds unicode p

theorem Collide.symm {p q : Text} (h : Collide unicode p q) : Collide unicode q p := by
  rcases h with h | h | h
  · exact .inl h.symm
  · exact .inr (.inr h)
  · exact .inr (.inl h)

variable {paths : List Text}

theorem ensureDistinct_ok {seen : OrderedMap Text Text} :
    ensureDistinct unicode seen paths = .ok () ↔
      (paths.map (collisionKey unicode)).Nodup ∧
        ∀ p ∈ paths, seen.get (collisionKey unicode p) = none := by
  induction paths generalizing seen with
  | nil => simp [ensureDistinct]
  | cons path rest ih =>
    rw [ensureDistinct]
    split
    next first hfirst => simp [hfirst]
    next hnone =>
      rw [ih, List.map_cons, List.nodup_cons, List.forall_mem_cons]
      constructor
      · rintro ⟨hnodup, hrest⟩
        have hfresh : ∀ p ∈ rest, collisionKey unicode p ≠ collisionKey unicode path := by
          intro p hp heq
          have hget := hrest p hp
          rw [heq, OrderedMap.get_insert_self] at hget
          cases hget
        refine ⟨⟨fun hmem => ?_, hnodup⟩, hnone, fun p hp => ?_⟩
        · obtain ⟨p, hp, heq⟩ := List.mem_map.mp hmem
          exact hfresh p hp heq
        · rw [← OrderedMap.get_insert_of_ne seen path (hfresh p hp)]
          exact hrest p hp
      · rintro ⟨⟨hnew, hnodup⟩, -, hrest⟩
        refine ⟨hnodup, fun p hp => ?_⟩
        have hne : collisionKey unicode p ≠ collisionKey unicode path := fun heq =>
          hnew (heq ▸ List.mem_map_of_mem hp)
        rw [OrderedMap.get_insert_of_ne seen path hne]
        exact hrest p hp

theorem ensureNoDirectory_ok {directories : List Text} :
    ensureNoDirectory unicode directories paths = .ok () ↔
      ∀ p ∈ paths, collisionKey unicode p ∉ directories := by
  induction paths with
  | nil => simp [ensureNoDirectory]
  | cons path rest ih =>
    rw [ensureNoDirectory, List.forall_mem_cons]
    split
    next hmem => simp [List.contains_iff_mem.mp hmem]
    next hmem => rw [ih, and_iff_right (fun h => hmem (List.contains_iff_mem.mpr h))]

theorem uniquePaths_iff :
    UniquePaths unicode paths ↔ (paths.map (collisionKey unicode)).Nodup ∧
      ∀ p ∈ paths, ∀ q ∈ paths, ∀ d ∈ directoriesOf q,
        collisionKey unicode d ≠ collisionKey unicode p := by
  constructor
  · rintro ⟨hapart, hunfolded⟩
    refine ⟨List.pairwise_map.mpr (hapart.imp fun hpq heq => hpq (.inl heq)),
      fun p hp q hq d hd heq => ?_⟩
    by_cases hsame : p = q
    · exact hunfolded p hp ⟨d, hsame ▸ hd, heq⟩
    · have hsymm : Std.Symm fun p q => ¬ Collide unicode p q := ⟨fun _ _ hpq hqp => hpq hqp.symm⟩
      exact hapart.forall hp hq hsame (.inr (.inl ⟨d, hd, heq⟩))
  · rintro ⟨hnodup, hdirs⟩
    refine ⟨(List.pairwise_map.mp hnodup).imp_of_mem fun hp hq hkey => ?_, fun p hp => ?_⟩
    · rintro (heq | ⟨d, hd, heq⟩ | ⟨d, hd, heq⟩)
      · exact hkey heq
      · exact hdirs _ hp _ hq d hd heq
      · exact hdirs _ hq _ hp d hd heq
    · rintro ⟨d, hd, heq⟩
      exact hdirs p hp p hp d hd heq

theorem ensureUniquePaths_ok :
    ensureUniquePaths unicode paths = .ok () ↔ UniquePaths unicode paths := by
  have hdirs : (∀ p ∈ paths,
    collisionKey unicode p ∉ (paths.flatMap directoriesOf).map (collisionKey unicode)) ↔
      ∀ p ∈ paths, ∀ q ∈ paths, ∀ d ∈ directoriesOf q,
        collisionKey unicode d ≠ collisionKey unicode p := by
    simp only [List.mem_map, List.mem_flatMap, not_exists, not_and]
    refine forall₂_congr fun p _ => ⟨fun h q hq d hd => h d ⟨q, hq, hd⟩, fun h d hd => ?_⟩
    obtain ⟨q, hq, hd⟩ := hd
    exact h q hq d hd
  rw [uniquePaths_iff, ← hdirs, ← ensureNoDirectory_ok, ensureUniquePaths, bind_eq_ok]
  constructor
  · rintro ⟨⟨⟩, hdistinct, hnone⟩
    exact ⟨(ensureDistinct_ok.mp hdistinct).1, hnone⟩
  · rintro ⟨hnodup, hnone⟩
    exact ⟨(), ensureDistinct_ok.mpr ⟨hnodup, fun _ _ => rfl⟩, hnone⟩

theorem UniquePaths.perm {paths' : List Text} (hperm : paths.Perm paths')
    (h : UniquePaths unicode paths) :
    UniquePaths unicode paths' where
  apart := (hperm.pairwise_iff fun hpq hqp => hpq hqp.symm).mp h.apart
  unfolded p hp := h.unfolded p (hperm.mem_iff.mpr hp)

theorem uniquePaths_append {labels : List Text} :
    UniquePaths unicode (paths ++ labels) ↔ UniquePaths unicode paths ∧ UniquePaths unicode labels ∧
      ∀ p ∈ paths, ∀ l ∈ labels, ¬ Collide unicode p l := by
  constructor
  · rintro ⟨hapart, hunfolded⟩
    obtain ⟨hpaths, hlabels, hacross⟩ := List.pairwise_append.mp hapart
    exact ⟨⟨hpaths, fun p hp => hunfolded p (List.mem_append_left _ hp)⟩,
      ⟨hlabels, fun l hl => hunfolded l (List.mem_append_right _ hl)⟩, hacross⟩
  · rintro ⟨hpaths, hlabels, hacross⟩
    refine ⟨List.pairwise_append.mpr ⟨hpaths.apart, hlabels.apart, hacross⟩, fun p hp => ?_⟩
    rcases List.mem_append.mp hp with hp | hp
    · exact hpaths.unfolded p hp
    · exact hlabels.unfolded p hp

def plainUnicode : Unicode where
  lowerChar c := [c.toLower]
  lowerText text := text.map Char.toLower
  nfc text := text

end Pgokf.Workspace
