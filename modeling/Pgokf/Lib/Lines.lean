import Mathlib.Data.List.Basic

/-! # Texts cut into lines

Each line keeps the separator that ends it; only the last one may have none. -/

namespace Pgokf.Lib

variable {α : Type*} [DecidableEq α] {sep : α} {t line rest x y : List α}
  {lines before after : List (List α)}

/-- `split_inclusive`. -/
def splitInclusive (sep : α) : List α → List (List α)
  | [] => []
  | a :: t =>
    if a = sep then [a] :: splitInclusive sep t
    else match splitInclusive sep t with
      | [] => [[a]]
      | line :: lines => (a :: line) :: lines

/- A line before the rest of its text: a separator ends it, or the text does. -/
structure EndsLine (sep : α) (line rest : List α) : Prop where
  ne_nil : line ≠ []
  inner : sep ∉ line.dropLast
  ended : line.getLast? = some sep ∨ rest = []

theorem flatten_splitInclusive : (splitInclusive sep t).flatten = t := by
  induction t with
  | nil => rfl
  | cons a t ih =>
    rw [splitInclusive]
    split
    · simp [ih]
    · split
      next h =>
        rw [h, List.flatten_nil] at ih
        simp [← ih]
      next line lines h =>
        rw [h] at ih
        simpa using ih

theorem splitInclusive_eq_nil : splitInclusive sep t = [] ↔ t = [] := by
  constructor
  · intro h
    have hflatten : (splitInclusive sep t).flatten = t := flatten_splitInclusive
    rw [← hflatten, h, List.flatten_nil]
  · rintro rfl
    rfl

omit [DecidableEq α] in
theorem EndsLine.cons {a : α} (ha : a ≠ sep) (h : EndsLine sep line rest) :
    EndsLine sep (a :: line) rest where
  ne_nil := List.cons_ne_nil _ _
  inner := by
    rw [List.dropLast_cons_of_ne_nil h.ne_nil, List.mem_cons, not_or]
    exact ⟨ha.symm, h.inner⟩
  ended := by
    obtain ⟨b, line, rfl⟩ := List.exists_cons_of_ne_nil h.ne_nil
    rw [List.getLast?_cons_cons]
    exact h.ended

theorem splitInclusive_line (h : EndsLine sep line rest) :
    splitInclusive sep (line ++ rest) = line :: splitInclusive sep rest := by
  induction line with
  | nil => exact absurd rfl h.ne_nil
  | cons a line ih =>
    rw [List.cons_append, splitInclusive]
    cases line with
    | nil =>
      rcases h.ended with hsep | rfl
      · obtain rfl : a = sep := by simpa using hsep
        rw [if_pos rfl, List.nil_append]
      · split
        · rfl
        · rfl
    | cons b line =>
      have hinner := h.inner
      rw [List.dropLast_cons_of_ne_nil (List.cons_ne_nil _ _), List.mem_cons, not_or] at hinner
      have hended := h.ended
      rw [List.getLast?_cons_cons] at hended
      rw [if_neg (Ne.symm hinner.1), ih ⟨List.cons_ne_nil _ _, hinner.2, hended⟩]

theorem splitInclusive_eq_cons : splitInclusive sep t = line :: lines ↔
    ∃ rest, t = line ++ rest ∧ EndsLine sep line rest ∧ splitInclusive sep rest = lines := by
  constructor
  · intro h
    induction t generalizing line lines with
    | nil => simp [splitInclusive] at h
    | cons a t ih =>
      rw [splitInclusive] at h
      split at h
      next hsep =>
        obtain ⟨rfl, rfl⟩ := List.cons.inj h
        exact ⟨t, rfl, ⟨by simp, by simp, .inl (by simp [hsep])⟩, rfl⟩
      next hsep =>
        split at h
        next hnil =>
          obtain ⟨rfl, rfl⟩ := List.cons.inj h
          obtain rfl := splitInclusive_eq_nil.mp hnil
          exact ⟨[], rfl, ⟨by simp, by simp, .inr rfl⟩, rfl⟩
        next l ls hcons =>
          obtain ⟨rfl, rfl⟩ := List.cons.inj h
          obtain ⟨rest, rfl, hline, hrest⟩ := ih hcons
          exact ⟨rest, rfl, hline.cons hsep, hrest⟩
  · rintro ⟨rest, rfl, hline, rfl⟩
    exact splitInclusive_line hline

theorem splitInclusive_append (hx : x = [] ∨ x.getLast? = some sep) :
    splitInclusive sep (x ++ y) = splitInclusive sep x ++ splitInclusive sep y := by
  generalize hlines : splitInclusive sep x = lines
  induction lines generalizing x with
  | nil =>
    obtain rfl := splitInclusive_eq_nil.mp hlines
    rfl
  | cons line lines ih =>
    obtain ⟨rest, rfl, hline, hrest⟩ := splitInclusive_eq_cons.mp hlines
    have hwhole : (line ++ rest).getLast? = some sep :=
      hx.resolve_left fun h => hline.ne_nil (List.append_eq_nil_iff.mp h).1
    have hends : line.getLast? = some sep := by
      rcases hline.ended with h | rfl
      · exact h
      · rwa [List.append_nil] at hwhole
    have hrest' : rest = [] ∨ rest.getLast? = some sep := by
      rcases List.eq_nil_or_concat rest with h | ⟨z, b, rfl⟩
      · exact .inl h
      · right
        simpa using hwhole
    rw [List.append_assoc, splitInclusive_line ⟨hline.ne_nil, hline.inner, .inl hends⟩,
      ih hrest' hrest, List.cons_append]

theorem splitInclusive_eq_append_cons (h : splitInclusive sep t = before ++ line :: after) :
    t = before.flatten ++ (line ++ after.flatten) ∧
      (before.flatten = [] ∨ before.flatten.getLast? = some sep) ∧
      EndsLine sep line after.flatten ∧ splitInclusive sep before.flatten = before := by
  induction before generalizing t with
  | nil =>
    obtain ⟨rest, rfl, hline, rfl⟩ := splitInclusive_eq_cons.mp h
    rw [flatten_splitInclusive]
    exact ⟨rfl, .inl rfl, hline, rfl⟩
  | cons l before ih =>
    obtain ⟨rest, rfl, hl, hrest⟩ := splitInclusive_eq_cons.mp h
    have hends : l.getLast? = some sep := by
      refine hl.ended.resolve_right fun hnil => ?_
      rw [hnil] at hrest
      simp [splitInclusive] at hrest
    obtain ⟨rfl, hbefore, hline, hsplit⟩ := ih hrest
    have hlast : (l ++ before.flatten).getLast? = some sep := by
      rcases hbefore with hnil | hlast
      · rw [hnil, List.append_nil, hends]
      · rw [List.getLast?_append, hlast, Option.some_or]
    rw [List.flatten_cons]
    refine ⟨by rw [List.append_assoc], .inr hlast, hline, ?_⟩
    rw [splitInclusive_line ⟨hl.ne_nil, hl.inner, .inl hends⟩, hsplit]

end Pgokf.Lib
