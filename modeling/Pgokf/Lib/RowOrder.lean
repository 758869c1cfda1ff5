import Mathlib.Data.List.Lex
import Pgokf.Lib.Keyset
import Pgokf.Lib.ThreeValued

/-! # Rows compared column by column

The first pair of columns that differ decides, and it is unknown if a null comes before it; an order
by several columns has nulls last. -/

namespace Pgokf.Lib

variable {α κ : Type*} [LinearOrder κ] {as bs : List κ}

/-- `(a₁, a₂, …) > (b₁, b₂, …)`. -/
def rowGreater : List (Option κ) → List (Option κ) → Truth
  | [], [] => some false
  | some a :: as, some b :: bs => if a = b then rowGreater as bs else some (decide (b < a))
  | _, _ => none

def nullsLast : Option κ → Option κ → Bool
  | some a, some b => a < b
  | some _, none => true
  | none, _ => false

/-- Whether a row may stand before another one under `ORDER BY`. -/
def rowBefore : List (Option κ) → List (Option κ) → Bool
  | a :: as, b :: bs => if a = b then rowBefore as bs else nullsLast a b
  | _, _ => true

theorem rowGreater_some (h : as.length = bs.length) :
    (rowGreater (as.map some) (bs.map some)).holds = true ↔ bs < as := by
  induction as generalizing bs with
  | nil =>
    obtain rfl := List.length_eq_zero_iff.mp h.symm
    simp [rowGreater]
  | cons a as ih =>
    cases bs with
    | nil => cases h
    | cons b bs =>
      rw [List.map_cons, List.map_cons, rowGreater, List.cons_lt_cons_iff]
      by_cases hab : a = b
      · subst hab
        simpa using ih (Nat.succ.inj h)
      · simp [hab, Ne.symm hab]

theorem rowBefore_some (h : as.length = bs.length) : rowBefore (as.map some) (bs.map some) = true ↔
    as ≤ bs := by
  rw [← not_lt]
  induction as generalizing bs with
  | nil => simp [rowBefore]
  | cons a as ih =>
    cases bs with
    | nil => cases h
    | cons b bs =>
      rw [List.map_cons, List.map_cons, rowBefore, List.cons_lt_cons_iff]
      by_cases hab : a = b
      · subst hab
        simpa using ih (Nat.succ.inj h)
      · have hlt : ¬b < a ↔ a < b := ⟨fun h => lt_of_le_of_ne (not_lt.mp h) hab, lt_asymm⟩
        simp [hab, Ne.symm hab, nullsLast, hlt]

theorem insertionSort_congr_of_mem {r s : α → α → Prop} [DecidableRel r] [DecidableRel s] {l : List α}
    (h : ∀ a ∈ l, ∀ b ∈ l, r a b ↔ s a b) : l.insertionSort r = l.insertionSort s := by
  have hmap := List.map_insertionSort r s id l h
  simpa using hmap

end Pgokf.Lib
