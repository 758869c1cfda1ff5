import Mathlib.Data.List.Basic

/-! # Records written with separators

Fields joined by a separator, and records each ended by one, are read back if no field holds it. -/

namespace Pgokf.Lib

variable {α : Type*} {sep : α} {x y : List α} {xs ys : List (List α)}

theorem intercalate_inj [DecidableEq α] (hxs : ∀ x ∈ xs, sep ∉ x) (hys : ∀ y ∈ ys, sep ∉ y)
    (hx : xs ≠ []) (hy : ys ≠ []) (h : [sep].intercalate xs = [sep].intercalate ys) : xs = ys := by
  rw [← List.splitOn_intercalate sep hxs hx, h, List.splitOn_intercalate sep hys hy]

def terminated (sep : α) (records : List (List α)) : List α := records.flatMap (· ++ [sep])

theorem append_sep_inj {s t : List α} (hx : sep ∉ x) (hy : sep ∉ y) (h : x ++ sep :: s = y ++ sep :: t) :
    x = y ∧ s = t := by
  induction x generalizing y with
  | nil =>
    cases y with
    | nil => exact ⟨rfl, (List.cons.inj h).2⟩
    | cons b y =>
      obtain rfl : sep = b := (List.cons.inj h).1
      simp at hy
  | cons a x ih =>
    cases y with
    | nil =>
      obtain rfl : a = sep := (List.cons.inj h).1
      simp at hx
    | cons b y =>
      obtain ⟨rfl, hrest⟩ := List.cons.inj h
      rw [List.mem_cons, not_or] at hx hy
      obtain ⟨rfl, rfl⟩ := ih hx.2 hy.2 hrest
      exact ⟨rfl, rfl⟩

/- Whatever follows a code, the value and the rest are read back. -/
structure SelfDelimiting {γ : Type*} (good : γ → Prop) (code : γ → List α) : Prop where
  ne_nil : ∀ a, good a → code a ≠ []
  split : ∀ {a b s t}, good a → good b → code a ++ s = code b ++ t → a = b ∧ s = t

theorem SelfDelimiting.flatMap_inj {γ : Type*} {good : γ → Prop} {code : γ → List α}
    (hcode : SelfDelimiting good code)
    {as bs : List γ} (ha : ∀ a ∈ as, good a) (hb : ∀ b ∈ bs, good b)
    (h : as.flatMap code = bs.flatMap code) : as = bs := by
  induction as generalizing bs with
  | nil =>
    cases bs with
    | nil => rfl
    | cons b bs =>
      rw [List.flatMap_cons, List.flatMap_nil] at h
      exact absurd (List.append_eq_nil_iff.mp h.symm).1 (hcode.ne_nil b (hb b List.mem_cons_self))
  | cons a as ih =>
    cases bs with
    | nil =>
      rw [List.flatMap_cons, List.flatMap_nil] at h
      exact absurd (List.append_eq_nil_iff.mp h).1 (hcode.ne_nil a (ha a List.mem_cons_self))
    | cons b bs =>
      rw [List.flatMap_cons, List.flatMap_cons] at h
      obtain ⟨rfl, hrest⟩ := hcode.split (ha a List.mem_cons_self) (hb b List.mem_cons_self) h
      rw [ih (fun x hx => ha x (List.mem_cons_of_mem _ hx))
        (fun y hy => hb y (List.mem_cons_of_mem _ hy)) hrest]

theorem selfDelimiting_ended : SelfDelimiting (fun x : List α => sep ∉ x) (· ++ [sep]) where
  ne_nil x _ := by simp
  split hx hy h := by
    rw [List.append_assoc, List.append_assoc] at h
    exact append_sep_inj hx hy h

theorem terminated_inj (hxs : ∀ x ∈ xs, sep ∉ x) (hys : ∀ y ∈ ys, sep ∉ y)
    (h : terminated sep xs = terminated sep ys) : xs = ys :=
  selfDelimiting_ended.flatMap_inj hxs hys h

end Pgokf.Lib
