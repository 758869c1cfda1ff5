import Mathlib.Data.List.Sort
import Mathlib.Data.String.Basic
import Mathlib.Algebra.GroupWithZero.Nat
import Pgokf.Lib.Path
import Pgokf.Text

/-! # Skill packages and file classes (`okf-sync/src/package.rs`) -/

namespace Pgokf.Sync

open Lib

def skillManifest : Text := "SKILL.md"

def reservedFileNames : List Text := ["index.md", "log.md"]

inductive FileClass where
  | okfDocument
  | skillManifest
  | skillScript
  | skillReference
  | skillAsset
  | reserved
  deriving DecidableEq

namespace FileClass

def isResource : FileClass → Bool
  | skillScript | skillReference | skillAsset => true
  | _ => false

def label : FileClass → Text
  | okfDocument => "document"
  | skillManifest => "skill"
  | skillScript => "script"
  | skillReference => "reference"
  | skillAsset => "asset"
  | reserved => "reserved"

/-- `concept_id`: a resource keeps its extension, everything else loses the `.md`. -/
def conceptId (cls : FileClass) (normalizedPath : Text) : Text :=
  if cls.isResource then normalizedPath
  else (".md".toList.isSuffixOf? normalizedPath).getD normalizedPath

end FileClass

/-- `is_markdown`: the extension of the name is `md`, and something stands before it. -/
def isMarkdown (name : Text) : Bool :=
  match rsplitOnce '.' name with
  | some (stem, extension) => !stem.isEmpty && extension == "md"
  | none => false

def directoryClass (directory : Text) : Option FileClass :=
  if directory = "scripts" then some .skillScript
  else if directory = "references" then some .skillReference
  else if directory = "assets" then some .skillAsset
  else none

def resourceClass (root path : Text) : Option FileClass := do
  let relative ← relative '/' root path
  let (directory, _) ← splitOnce '/' relative
  directoryClass directory

def manifestDirectory (path : Text) : Option Text :=
  let (directory, name) := splitParent '/' path
  if name = skillManifest then some directory else none

def utf8Len (text : Text) : Nat := (text.map (·.utf8Size)).sum

@[ext] structure PackageIndex where
  roots : Finset Text
  deriving DecidableEq

namespace PackageIndex

def ownerOf (index : PackageIndex) (path : Text) : Option Text := nearest '/' index.roots path

def resourceOfIndexedPackage (index : PackageIndex) (path : Text) : Bool :=
  (index.ownerOf path).any fun root => (resourceClass root path).isSome

def insertManifest (index : PackageIndex) (path : Text) : PackageIndex :=
  match manifestDirectory path with
  | none => index
  | some directory =>
    if index.resourceOfIndexedPackage path then index else ⟨insert directory index.roots⟩

/- The order in which manifests are decided: by length, then by path. -/
def manifestOrder (a b : Text) : Prop :=
  utf8Len a < utf8Len b ∨ utf8Len a = utf8Len b ∧ a ≤ b

instance : DecidableRel manifestOrder := fun a b => by
  unfold manifestOrder
  infer_instance

def fromPaths (paths : List Text) : PackageIndex :=
  ((paths.filter fun path => (manifestDirectory path).isSome).insertionSort manifestOrder).foldl
    insertManifest ⟨∅⟩

def classify (index : PackageIndex) (path : Text) : Option FileClass :=
  -- Ownership first, then reserved names, manifests and documents.
  match (index.ownerOf path).bind fun root => resourceClass root path with
  | some cls => some cls
  | none =>
    let name := (splitParent '/' path).2
    if name ∈ reservedFileNames then some .reserved
    else if name = skillManifest then some .skillManifest
    else if isMarkdown name then some .okfDocument
    else none

def packageRelative (index : PackageIndex) (path : Text) : Option Text := do
  let root ← index.ownerOf path
  let relative ← relative '/' root path
  (resourceClass root path).map fun _ => relative

end PackageIndex

example : (PackageIndex.fromPaths ["tools/kit/references/SKILL.md".toList, "tools/kit/SKILL.md".toList,
    "tools/kit/inner/SKILL.md".toList]).roots = {"tools/kit".toList, "tools/kit/inner".toList} := by
  decide

end Pgokf.Sync
