import Mathlib.Data.List.Induction
import Mathlib.Tactic.Common

/-! # Ragged columns

The rows of a list of lists are kept in one flat list, each with the window of its elements. -/

namespace Pgokf.Lib.Ragged

variable {α : Type*}

/-- The elements of an array from the position `lo` to the position `hi`, counted from 1. -/
def slice (flat : List α) (lo hi : Int) : List α := (flat.take hi.toNat).drop (lo - 1).toNat

/- The first and the last position of each row; an empty row ends before it starts. -/
def windows (offset : Nat) : List (List α) → List (Nat × Nat)
  | [] => []
  | row :: rest => (offset + 1, offset + row.length) :: windows (offset + row.length) rest

@[simp]
theorem length_windows (offset : Nat) (rows : List (List α)) :
    (windows offset rows).length = rows.length := by
  induction rows generalizing offset with
  | nil => rfl
  | cons row rest ih => simp [windows, ih]

theorem windows_append (offset : Nat) (rows : List (List α)) (row : List α) :
    windows offset (rows ++ [row]) = windows offset rows ++
      [(offset + rows.flatten.length + 1, offset + rows.flatten.length + row.length)] := by
  induction rows generalizing offset with
  | nil => simp [windows]
  | cons first rest ih => simp [windows, ih, Nat.add_assoc]

theorem windows_at (offset : Nat) (done : List (List α)) (row : List α) (rest : List (List α)) :
    (windows offset (done ++ row :: rest))[done.length]? =
      some (offset + done.flatten.length + 1, offset + done.flatten.length + row.length) := by
  induction done generalizing offset with
  | nil => simp [windows]
  | cons first done ih =>
    rw [List.cons_append, windows, List.length_cons, List.getElem?_cons_succ, ih]
    simp [Nat.add_assoc]

theorem slice_window (before row after : List α) :
    slice (before ++ row ++ after) ((before.length + 1 : Nat) : Int)
      ((before.length + row.length : Nat) : Int) =
      row := by
  have hlo : (((before.length + 1 : Nat) : Int) - 1).toNat = before.length := by omega
  have hhi : ((before.length + row.length : Nat) : Int).toNat = (before ++ row).length := by
    rw [List.length_append, Int.toNat_natCast]
  rw [slice, hlo, hhi, List.take_left, List.drop_left]

/- Rows that are read at every position of a list. -/
theorem filterMap_range {β : Type*} {l : List α} {read : Nat → Option β} {f : α → β}
    (h : ∀ done row rest, l = done ++ row :: rest → read done.length = some (f row)) :
    (List.range l.length).filterMap read = l.map f := by
  have hdone : ∀ done rest, l = done ++ rest → (List.range done.length).filterMap read = done.map f := by
    intro done
    induction done using List.reverseRecOn with
    | nil =>
      intro rest _
      rfl
    | append_singleton done row ih =>
      intro rest hl
      have hread := h done row rest (by rw [hl, List.append_assoc, List.singleton_append])
      rw [List.length_append, List.length_singleton, List.range_succ, List.filterMap_append,
        ih (row :: rest) (by rw [hl, List.append_assoc, List.singleton_append])]
      simp [hread]
  exact hdone l [] (List.append_nil l).symm

end Pgokf.Lib.Ragged
