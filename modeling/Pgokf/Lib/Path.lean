import Mathlib.Data.List.Infix
import Mathlib.Data.Finset.Basic

/-! # Paths

A path is a list of characters, and the separator ends a directory. The empty directory encloses
everything. -/

namespace Pgokf.Lib

variable {α : Type*} [DecidableEq α] {sep : α} {d d' p q x y : List α}

/-! ### Splitting -/

def rsplitOnce (sep : α) : List α → Option (List α × List α)
  | [] => none
  | a :: s =>
    match rsplitOnce sep s with
    | some (x, y) => some (a :: x, y)
    | none => if a = sep then some ([], s) else none

def splitOnce (sep : α) : List α → Option (List α × List α)
  | [] => none
  | a :: s => if a = sep then some ([], s) else (splitOnce sep s).map fun (x, y) => (a :: x, y)

theorem splitOn_of_notMem (h : sep ∉ p) : p.splitOn sep = [p] := by
  rw [List.splitOn_eq_splitOnP]
  refine List.splitOnP_eq_singleton fun x hx => beq_false_of_ne ?_
  rintro rfl
  exact h hx

theorem splitOn_append_sep (x y : List α) :
    (x ++ sep :: y).splitOn sep = x.splitOn sep ++ y.splitOn sep := by
  simp only [List.splitOn_eq_splitOnP]
  exact List.splitOnP_append_cons _ _ (beq_self_eq_true sep)

theorem rsplitOnce_none : rsplitOnce sep p = none ↔ sep ∉ p := by
  induction p with
  | nil => simp [rsplitOnce]
  | cons a s ih =>
    have hcons : sep ∉ a :: s ↔ ¬ a = sep ∧ sep ∉ s := by simp [eq_comm]
    rw [hcons, ← ih]
    cases hs : rsplitOnce sep s with
    | some xy => simp [rsplitOnce, hs]
    | none => by_cases ha : a = sep <;> simp [rsplitOnce, hs, ha]

theorem rsplitOnce_some : rsplitOnce sep p = some (x, y) ↔ p = x ++ sep :: y ∧ sep ∉ y := by
  induction p generalizing x y with
  | nil => simp [rsplitOnce]
  | cons a s ih =>
    cases hs : rsplitOnce sep s with
    | none =>
      have hnot : sep ∉ s := rsplitOnce_none.mp hs
      have hsplit : rsplitOnce sep (a :: s) = if a = sep then some ([], s) else none := by
        simp only [rsplitOnce, hs]
      rw [hsplit]
      constructor
      · intro h
        by_cases ha : a = sep
        · rw [if_pos ha] at h
          obtain ⟨rfl, rfl⟩ := Prod.mk.inj (Option.some.inj h)
          exact ⟨by simp [ha], hnot⟩
        · rw [if_neg ha] at h
          cases h
      · rintro ⟨hp, hy⟩
        cases x with
        | nil =>
          obtain ⟨rfl, rfl⟩ := List.cons.inj hp
          simp
        | cons b x =>
          obtain ⟨rfl, rfl⟩ := List.cons.inj hp
          exact absurd (by simp) hnot
    | some xy =>
      obtain ⟨x', y'⟩ := xy
      have hsplit : rsplitOnce sep (a :: s) = some (a :: x', y') := by
        simp only [rsplitOnce, hs]
      obtain ⟨hs', hy'⟩ := ih.mp hs
      rw [hsplit]
      constructor
      · intro h
        obtain ⟨rfl, rfl⟩ := Prod.mk.inj (Option.some.inj h)
        exact ⟨by simp [hs'], hy'⟩
      · rintro ⟨hp, hy⟩
        cases x with
        | nil =>
          obtain ⟨rfl, rfl⟩ := List.cons.inj hp
          exact absurd (by simp [hs']) hy
        | cons b x =>
          obtain ⟨rfl, hs''⟩ := List.cons.inj hp
          obtain ⟨rfl, rfl⟩ := Prod.mk.inj (Option.some.inj (hs.symm.trans (ih.mpr ⟨hs'', hy⟩)))
          rfl

theorem splitOnce_none : splitOnce sep p = none ↔ sep ∉ p := by
  induction p with
  | nil => simp [splitOnce]
  | cons a s ih =>
    by_cases ha : a = sep
    · simp [splitOnce, ha]
    · simp [splitOnce, ha, ih, Ne.symm ha]

theorem splitOnce_some : splitOnce sep p = some (x, y) ↔ p = x ++ sep :: y ∧ sep ∉ x := by
  induction p generalizing x with
  | nil => simp [splitOnce]
  | cons a s ih =>
    rw [splitOnce]
    cases x with
    | nil =>
      by_cases ha : a = sep
      · simp [ha]
      · simp [ha]
    | cons b x =>
      by_cases ha : a = sep
      · subst ha
        simp only [if_pos, Option.some.injEq, Prod.mk.injEq, List.nil_eq, reduceCtorEq, false_and,
          false_iff, not_and,
          List.cons_append, List.cons.injEq, List.mem_cons, not_or]
        rintro ⟨rfl, -⟩ hne
        exact absurd rfl hne
      · simp only [if_neg ha, Option.map_eq_some_iff, Prod.exists, Prod.mk.injEq, List.cons.injEq,
          List.cons_append,
          List.mem_cons, not_or]
        constructor
        · rintro ⟨x', y', hs, ⟨rfl, rfl⟩, rfl⟩
          obtain ⟨rfl, hx⟩ := ih.mp hs
          exact ⟨⟨rfl, rfl⟩, Ne.symm ha, hx⟩
        · rintro ⟨⟨rfl, rfl⟩, -, hx⟩
          exact ⟨x, y, ih.mpr ⟨rfl, hx⟩, ⟨rfl, rfl⟩, rfl⟩

/- One piece after the other: what holds of a piece without a separator and goes on past one holds
of every path. -/
theorem split_induction {P : List α → Prop} (sep : α) (piece : ∀ x, sep ∉ x → P x)
    (next : ∀ x y, sep ∉ x → P y → P (x ++ sep :: y)) (p : List α) : P p := by
  induction hn : p.length using Nat.strong_induction_on generalizing p with
  | _ n ih =>
    cases hs : splitOnce sep p with
    | none => exact piece p (splitOnce_none.mp hs)
    | some xy =>
      obtain ⟨x, y⟩ := xy
      obtain ⟨rfl, hx⟩ := splitOnce_some.mp hs
      refine next x y hx (ih y.length ?_ y rfl)
      rw [← hn, List.length_append, List.length_cons]
      omega

theorem notMem_of_mem_splitOn (h : q ∈ p.splitOn sep) : sep ∉ q := by
  induction p using split_induction sep with
  | piece x hx =>
    rw [splitOn_of_notMem hx, List.mem_singleton] at h
    rwa [h]
  | next x y hx ih =>
    rw [splitOn_append_sep, splitOn_of_notMem hx, List.mem_append, List.mem_singleton] at h
    rcases h with rfl | h
    · exact hx
    · exact ih h

theorem splitOnce_fst (x y : List α) :
    (splitOnce sep (x ++ sep :: y)).map Prod.fst = some ((splitOnce sep x).elim x Prod.fst) := by
  induction x with
  | nil => simp [splitOnce]
  | cons a x ih =>
    by_cases ha : a = sep
    · simp [splitOnce, ha]
    · simp only [List.cons_append, splitOnce, if_neg ha, Option.map_map]
      cases hx : splitOnce sep x with
      | none | some xy =>
        rw [hx] at ih
        obtain ⟨z, hz, hfst⟩ := Option.map_eq_some_iff.mp ih
        simp [hz, hfst]

theorem splitOnce_append (h : splitOnce sep p = some (x, y)) (z : List α) :
    splitOnce sep (p ++ z) = some (x, y ++ z) := by
  induction p generalizing x with
  | nil => simp [splitOnce] at h
  | cons a s ih =>
    by_cases ha : a = sep
    · simp only [splitOnce, if_pos ha] at h
      obtain ⟨rfl, rfl⟩ := Prod.mk.inj (Option.some.inj h)
      simp [splitOnce, ha]
    · simp only [splitOnce, if_neg ha] at h
      obtain ⟨⟨x', y'⟩, hs, hxy⟩ := Option.map_eq_some_iff.mp h
      obtain ⟨rfl, rfl⟩ := Prod.mk.inj hxy
      simp [splitOnce, ha, ih hs]

/- Parent directory and name; a path without a separator lies in the empty directory. -/
def splitParent (sep : α) (p : List α) : List α × List α := (rsplitOnce sep p).getD ([], p)

def Encloses (sep : α) (d p : List α) : Prop := d = [] ∨ ∃ rest, p = d ++ sep :: rest

omit [DecidableEq α] in
theorem Encloses.length_lt (h : Encloses sep d p) (hd : d ≠ []) : d.length < p.length := by
  obtain rfl | ⟨rest, rfl⟩ := h
  · exact absurd rfl hd
  · simp only [List.length_append, List.length_cons]
    omega

omit [DecidableEq α] in
theorem Encloses.trans (h₁ : Encloses sep d d') (h₂ : Encloses sep d' p) : Encloses sep d p := by
  obtain rfl | ⟨r₁, rfl⟩ := h₁
  · exact .inl rfl
  · obtain h | ⟨r₂, rfl⟩ := h₂
    · simp at h
    · exact .inr ⟨r₁ ++ sep :: r₂, by simp⟩

omit [DecidableEq α] in
theorem Encloses.of_length_lt (h : Encloses sep d p) (h' : Encloses sep d' p)
    (hlt : d.length < d'.length) : Encloses sep d d' := by
  obtain rfl | ⟨rest, rfl⟩ := h
  · exact .inl rfl
  · obtain rfl | ⟨rest', hp⟩ := h'
    · simp at hlt
    · refine .inr ?_
      have hleft : d ++ [sep] <+: d ++ sep :: rest := ⟨rest, by simp⟩
      have hright : d' <+: d ++ sep :: rest := ⟨sep :: rest', hp.symm⟩
      have hlen : (d ++ [sep]).length ≤ d'.length := by
        simp only [List.length_append, List.length_cons, List.length_nil]
        omega
      obtain ⟨r, rfl⟩ := List.prefix_of_prefix_length_le hleft hright hlen
      exact ⟨r, by simp⟩

omit [DecidableEq α] in
theorem Encloses.eq_of_length (h : Encloses sep d p) (h' : Encloses sep d' p)
    (heq : d.length = d'.length) : d = d' := by
  obtain rfl | ⟨rest, rfl⟩ := h
  · exact (List.length_eq_zero_iff.mp heq.symm).symm
  · obtain rfl | ⟨rest', hp⟩ := h'
    · exact List.length_eq_zero_iff.mp heq
    · exact (List.append_inj hp heq).1

theorem splitParent_encloses (sep : α) (p : List α) : Encloses sep (splitParent sep p).1 p := by
  unfold splitParent
  cases h : rsplitOnce sep p with
  | none => exact .inl rfl
  | some xy =>
    obtain ⟨hp, -⟩ := rsplitOnce_some.mp h
    exact .inr ⟨xy.2, hp⟩

theorem Encloses.le_parent (h : Encloses sep d p) : d.length ≤ (splitParent sep p).1.length := by
  obtain rfl | ⟨rest, rfl⟩ := h
  · simp
  · cases hs : rsplitOnce sep (d ++ sep :: rest) with
    | none => exact absurd (by simp) (rsplitOnce_none.mp hs)
    | some xy =>
      obtain ⟨hp, hy⟩ := rsplitOnce_some.mp hs
      simp only [splitParent, hs, Option.getD_some]
      by_contra hlt
      -- then the separator after `d` would lie in the name
      have hleft : xy.1 ++ [sep] <+: d ++ sep :: rest := ⟨xy.2, by simp [hp]⟩
      have hright : d <+: d ++ sep :: rest := ⟨sep :: rest, rfl⟩
      have hlen : (xy.1 ++ [sep]).length ≤ d.length := by
        simp only [List.length_append, List.length_cons, List.length_nil]
        omega
      obtain ⟨r, rfl⟩ := List.prefix_of_prefix_length_le hleft hright hlen
      have hname : r ++ sep :: rest = xy.2 := by
        simpa using hp
      exact hy (hname ▸ by simp)

theorem encloses_iff_parent : Encloses sep d p ↔
    d = (splitParent sep p).1 ∨ Encloses sep d (splitParent sep p).1 := by
  have hparent := splitParent_encloses sep p
  constructor
  · intro h
    obtain heq | hlt := Nat.eq_or_lt_of_le h.le_parent
    · exact .inl (h.eq_of_length hparent heq)
    · exact .inr (h.of_length_lt hparent hlt)
  · rintro (rfl | h)
    · exact hparent
    · exact h.trans hparent

/- From `d` upwards, the first directory in the set; `n` bounds the climb. -/
def climb (sep : α) (dirs : Finset (List α)) : Nat → List α → Option (List α)
  | 0, d => if d ∈ dirs then some d else none
  | n + 1, d =>
    if d ∈ dirs then some d else if d = [] then none else climb sep dirs n (splitParent sep d).1

def nearest (sep : α) (dirs : Finset (List α)) (p : List α) : Option (List α) :=
  climb sep dirs (splitParent sep p).1.length (splitParent sep p).1

variable {dirs : Finset (List α)}

variable {n : Nat}

theorem climb_some (h : climb sep dirs n d = some d') :
    d' ∈ dirs ∧ (d' = d ∨ Encloses sep d' d) := by
  induction n generalizing d with
  | zero =>
    unfold climb at h
    split at h
    · obtain rfl := Option.some.inj h
      exact ⟨‹_›, .inl rfl⟩
    · cases h
  | succ n ih =>
    unfold climb at h
    split at h
    · obtain rfl := Option.some.inj h
      exact ⟨‹_›, .inl rfl⟩
    · split at h
      · cases h
      · obtain ⟨hmem, hd'⟩ := ih h
        have hparent := splitParent_encloses sep d
        refine ⟨hmem, .inr ?_⟩
        obtain rfl | hd' := hd'
        · exact hparent
        · exact hd'.trans hparent

theorem climb_ge (hn : d.length ≤ n) (hd' : d' ∈ dirs) (h : d' = d ∨ Encloses sep d' d) :
    ∃ r, climb sep dirs n d = some r ∧ d'.length ≤ r.length := by
  induction n generalizing d with
  | zero =>
    obtain rfl : d = [] := List.length_eq_zero_iff.mp (Nat.le_zero.mp hn)
    have hnil : d' = [] := by
      obtain rfl | rfl | ⟨rest, hrest⟩ := h
      · rfl
      · rfl
      · simp at hrest
    subst hnil
    exact ⟨[], by simp [climb, hd'], le_rfl⟩
  | succ n ih =>
    unfold climb
    by_cases hmem : d ∈ dirs
    · refine ⟨d, if_pos hmem, ?_⟩
      obtain rfl | rfl | ⟨rest, rfl⟩ := h
      · exact le_rfl
      · simp
      · simp only [List.length_append]
        omega
    · rw [if_neg hmem]
      have hne : d' ≠ d := fun heq => hmem (heq ▸ hd')
      have hencl : Encloses sep d' d := h.resolve_left hne
      have hnil : d ≠ [] := by
        rintro rfl
        obtain rfl | ⟨rest, hrest⟩ := hencl
        · exact hne rfl
        · simp at hrest
      rw [if_neg hnil]
      have hparent := splitParent_encloses sep d
      have hlt : (splitParent sep d).1.length < d.length := by
        by_cases hp : (splitParent sep d).1 = []
        · rw [hp]
          exact List.length_pos_iff.mpr hnil
        · exact hparent.length_lt hp
      exact ih (by omega) (encloses_iff_parent.mp hencl)

theorem nearest_mem (h : nearest sep dirs p = some d) : d ∈ dirs ∧ Encloses sep d p := by
  obtain ⟨hmem, hd⟩ := climb_some h
  exact ⟨hmem, encloses_iff_parent.mpr hd⟩

theorem nearest_ge (hd : d ∈ dirs) (h : Encloses sep d p) :
    ∃ r, nearest sep dirs p = some r ∧ d.length ≤ r.length :=
  climb_ge le_rfl hd (encloses_iff_parent.mp h)

theorem nearest_eq_some : nearest sep dirs p = some d ↔
    d ∈ dirs ∧ Encloses sep d p ∧ ∀ d' ∈ dirs, Encloses sep d' p → d'.length ≤ d.length := by
  constructor
  · intro h
    obtain ⟨hmem, hencl⟩ := nearest_mem h
    refine ⟨hmem, hencl, fun d' hd' hencl' => ?_⟩
    obtain ⟨r, hr, hle⟩ := nearest_ge hd' hencl'
    obtain rfl : d = r := Option.some.inj (h.symm.trans hr)
    exact hle
  · rintro ⟨hmem, hencl, hmax⟩
    obtain ⟨r, hr, hle⟩ := nearest_ge hmem hencl
    obtain ⟨hrmem, hrencl⟩ := nearest_mem hr
    have heq : d.length = r.length := le_antisymm hle (hmax r hrmem hrencl)
    rw [hr, hencl.eq_of_length hrencl heq]

def relative (sep : α) (d p : List α) : Option (List α) :=
  if d = [] then some p else (d.isPrefixOf? p).bind fun r => [sep].isPrefixOf? r

theorem relative_eq_some : relative sep d p = some x ↔ d = [] ∧ p = x ∨ d ≠ [] ∧ p = d ++ sep :: x := by
  unfold relative
  by_cases hd : d = []
  · simp [hd]
  · simp only [if_neg hd, Option.bind_eq_some_iff, List.isPrefixOf?_eq_some_iff_append_eq]
    constructor
    · rintro ⟨r, rfl, rfl⟩
      exact .inr ⟨hd, by simp⟩
    · rintro (⟨h, -⟩ | ⟨-, rfl⟩)
      · exact absurd h hd
      · exact ⟨sep :: x, rfl, rfl⟩

theorem relative_isSome (h : Encloses sep d p) : ∃ x, relative sep d p = some x := by
  by_cases hd : d = []
  · exact ⟨p, relative_eq_some.mpr (.inl ⟨hd, rfl⟩)⟩
  · obtain h | ⟨rest, rfl⟩ := h
    · exact absurd h hd
    · exact ⟨rest, relative_eq_some.mpr (.inr ⟨hd, rfl⟩)⟩

theorem relative_encloses (h : relative sep d p = some x) : Encloses sep d p := by
  obtain ⟨hd, -⟩ | ⟨-, hp⟩ := relative_eq_some.mp h
  · exact .inl hd
  · exact .inr ⟨x, hp⟩

end Pgokf.Lib
