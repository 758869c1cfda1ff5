import Mathlib.Data.List.Pairwise
import Mathlib.Order.Basic

/-! # Tables whose key an identity column assigns -/

namespace Pgokf.Lib

/- The rows stand in the order of their keys: the identity column hands out increasing values. -/
structure SerialTable (ρ : Type*) (key : ρ → Int) where
  rows : List ρ
  next : Int
  ordered : rows.Pairwise fun a b => key a < key b
  allocated : ∀ r ∈ rows, key r < next

namespace SerialTable

variable {ρ : Type*} {key : ρ → Int}

def empty : SerialTable ρ key := ⟨[], 1, .nil, by simp⟩

def update (t : SerialTable ρ key) (f : ρ → ρ) (hf : ∀ r, key (f r) = key r) : SerialTable ρ key where
  rows := t.rows.map f
  next := t.next
  ordered := t.ordered.map f fun a b h => by rwa [hf, hf]
  allocated := by
    intro r hr
    obtain ⟨r', hr', rfl⟩ := List.mem_map.mp hr
    exact hf r' ▸ t.allocated r' hr'

def updateWhere (t : SerialTable ρ key) (p : ρ → Bool) (f : ρ → ρ) (hf : ∀ r, key (f r) = key r) :
    SerialTable ρ key :=
  t.update (fun r => if p r then f r else r) fun r => by
    split
    · exact hf r
    · rfl

def retain (t : SerialTable ρ key) (p : ρ → Bool) : SerialTable ρ key where
  rows := t.rows.filter p
  next := t.next
  ordered := t.ordered.filter p
  allocated := fun r hr => t.allocated r (List.mem_filter.mp hr).1

def insert (t : SerialTable ρ key) (row : Int → ρ) (hrow : ∀ n, key (row n) = n) :
    SerialTable ρ key where
  rows := t.rows ++ [row t.next]
  next := t.next + 1
  ordered := by
    refine List.pairwise_append.mpr ⟨t.ordered, List.pairwise_singleton _ _, ?_⟩
    intro a ha b hb
    rw [List.mem_singleton.mp hb, hrow]
    exact t.allocated a ha
  allocated := by
    intro r hr
    obtain hr | hr := List.mem_append.mp hr
    · exact Int.lt_trans (t.allocated r hr) (Int.lt_succ _)
    · rw [List.mem_singleton.mp hr, hrow]
      exact Int.lt_succ _

theorem eq_of_key (t : SerialTable ρ key) {a b : ρ} (ha : a ∈ t.rows) (hb : b ∈ t.rows)
    (h : key a = key b) : a = b := by
  by_contra hne
  have hdist : t.rows.Pairwise fun x y => key x ≠ key y :=
    t.ordered.imp fun hlt => Int.ne_of_lt hlt
  have : Std.Symm fun x y : ρ => key x ≠ key y := ⟨fun _ _ => Ne.symm⟩
  exact hdist.forall ha hb hne h

@[simp] theorem updateWhere_rows (t : SerialTable ρ key) (p : ρ → Bool) (f : ρ → ρ)
    (hf : ∀ r, key (f r) = key r) :
    (t.updateWhere p f hf).rows = t.rows.map fun r => if p r then f r else r := rfl

theorem mem_updateWhere_of_not {t : SerialTable ρ key} {p : ρ → Bool} {f : ρ → ρ}
    {hf : ∀ r, key (f r) = key r} {r : ρ} (hr : r ∈ t.rows) (hp : p r = false) :
    r ∈ (t.updateWhere p f hf).rows :=
  List.mem_map.mpr ⟨r, hr, by simp [hp]⟩

theorem mem_updateWhere {t : SerialTable ρ key} {p : ρ → Bool} {f : ρ → ρ} {hf : ∀ r, key (f r) = key r}
    {r : ρ} : r ∈ (t.updateWhere p f hf).rows ↔
      (r ∈ t.rows ∧ p r = false) ∨ ∃ q ∈ t.rows, p q = true ∧ r = f q := by
  rw [updateWhere_rows, List.mem_map]
  constructor
  · rintro ⟨q, hq, rfl⟩
    split
    next hp => exact .inr ⟨q, hq, hp, rfl⟩
    next hp => exact .inl ⟨hq, Bool.eq_false_iff.mpr hp⟩
  · rintro (⟨hr, hp⟩ | ⟨q, hq, hp, rfl⟩)
    · exact ⟨r, hr, if_neg (Bool.eq_false_iff.mp hp)⟩
    · exact ⟨q, hq, if_pos hp⟩

@[simp] theorem insert_rows (t : SerialTable ρ key) (row : Int → ρ) (hrow : ∀ n, key (row n) = n) :
    (t.insert row hrow).rows = t.rows ++ [row t.next] := rfl

end SerialTable

end Pgokf.Lib
