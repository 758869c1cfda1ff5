import Pgokf.Workspace.Delivery

/-! # Files that are one on some filesystem (`pgokf-workspace`, `plugin.rs`)

`ensure_unique_paths` compares composed lowercase paths. A filesystem may also drop spaces and dots
at the end of a segment. -/

namespace Pgokf.Workspace

open Lib Catalog Sync

/-- A path with spaces or dots at the end of a segment. -/
def Ragged (path : Text) : Prop := ∃ segment ∈ path.splitOn '/', squared segment ≠ segment

instance (path : Text) : Decidable (Ragged path) :=
  inferInstanceAs (Decidable (∃ segment ∈ path.splitOn '/', squared segment ≠ segment))

/-- What of two files may turn out to be one: the files, or a file and a directory of the other. -/
inductive Facing (p q : Text) : Text → Text → Prop
  | files : Facing p q p q
  | below (d : Text) (h : d ∈ directoriesOf q) : Facing p q p d
  | above (d : Text) (h : d ∈ directoriesOf p) : Facing p q d q

variable {unicode : Unicode} {p q : Text}

theorem Facing.mem {x y : Text} (h : Facing p q x y) :
    x ∈ p :: directoriesOf p ∧ y ∈ q :: directoriesOf q := by
  cases h with
  | files => exact ⟨List.mem_cons_self, List.mem_cons_self⟩
  | below _ hd => exact ⟨List.mem_cons_self, List.mem_cons_of_mem _ hd⟩
  | above _ hd => exact ⟨List.mem_cons_of_mem _ hd, List.mem_cons_self⟩

end Pgokf.Workspace
