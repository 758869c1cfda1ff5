import Mathlib.Data.List.Induction

/-! # Finite runs of a labelled step relation -/

namespace Pgokf.Lib

variable {σ α : Type*} {step : σ → α → σ → Prop} {s t u : σ} {a : α} {ls ls₁ ls₂ : List α}

/- The labels stand in order. A run grows at its end, so an induction sees the whole past of the
last step. -/
inductive Run (step : σ → α → σ → Prop) : σ → List α → σ → Prop where
  | start (s : σ) : Run step s [] s
  | snoc {s t u : σ} {ls : List α} {a : α} :
      Run step s ls t → step t a u → Run step s (ls ++ [a]) u

namespace Run

/-- A property of the state that every step keeps holds at the end of every run. -/
theorem invariant {P : σ → Prop} (h : Run step s ls t) (h0 : P s)
    (hstep : ∀ s a t, P s → step s a t → P t) : P t := by
  induction h with
  | start => exact h0
  | snoc _ hs ih => exact hstep _ _ _ ih hs

theorem history_invariant {P : List α → σ → Prop} (h : Run step s ls t) (h0 : P [] s)
    (hstep : ∀ ls s a t, P ls s → step s a t → P (ls ++ [a]) t) : P ls t := by
  induction h with
  | start => exact h0
  | snoc _ hs ih => exact hstep _ _ _ _ ih hs

theorem mono {step' : σ → α → σ → Prop} (h : Run step s ls t)
    (himp : ∀ s a t, step s a t → step' s a t) : Run step' s ls t := by
  induction h with
  | start => exact .start _
  | snoc _ hs ih => exact ih.snoc (himp _ _ _ hs)

theorem nil_iff : Run step s [] t ↔ t = s := by
  constructor
  · intro h
    generalize hl : ([] : List α) = ls at h
    cases h with
    | start => rfl
    | snoc => simp at hl
  · rintro rfl
    exact .start t

theorem snoc_iff : Run step s (ls ++ [a]) u ↔ ∃ t, Run step s ls t ∧ step t a u := by
  constructor
  · intro h
    generalize hl : ls ++ [a] = ls' at h
    cases h with
    | start => simp at hl
    | snoc h hs =>
      obtain ⟨rfl, hlast⟩ := List.append_inj' hl rfl
      obtain rfl : a = _ := by simpa using hlast
      exact ⟨_, h, hs⟩
  · rintro ⟨t, h, hs⟩
    exact .snoc h hs

theorem append_iff : Run step s (ls₁ ++ ls₂) u ↔ ∃ t, Run step s ls₁ t ∧ Run step t ls₂ u := by
  induction ls₂ using List.reverseRecOn generalizing u with
  | nil => simp [nil_iff]
  | append_singleton ls a ih =>
    rw [← List.append_assoc, snoc_iff]
    constructor
    · rintro ⟨v, hv, ha⟩
      obtain ⟨t, h₁, h₂⟩ := ih.mp hv
      exact ⟨t, h₁, h₂.snoc ha⟩
    · rintro ⟨t, h₁, h₂⟩
      obtain ⟨v, hv, ha⟩ := snoc_iff.mp h₂
      exact ⟨v, ih.mpr ⟨t, h₁, hv⟩, ha⟩

theorem cons_iff : Run step s (a :: ls) u ↔ ∃ t, step s a t ∧ Run step t ls u := by
  rw [← List.singleton_append, append_iff]
  constructor
  · rintro ⟨t, h, ht⟩
    rw [← List.nil_append [a], snoc_iff] at h
    obtain ⟨s', hs', ha⟩ := h
    rw [nil_iff] at hs'
    exact ⟨t, hs' ▸ ha, ht⟩
  · rintro ⟨t, ha, ht⟩
    exact ⟨t, .snoc (.start s) ha, ht⟩

theorem of_foldlM {f : σ → α → Option σ} (h : ls.foldlM f s = some t) :
    Run (fun s a t => f s a = some t) s ls t := by
  induction ls generalizing s with
  | nil =>
    obtain rfl : s = t := Option.some.inj h
    exact .start s
  | cons a ls ih =>
    rw [List.foldlM_cons, Option.bind_eq_bind, Option.bind_eq_some_iff] at h
    obtain ⟨u, ha, hrest⟩ := h
    exact cons_iff.mpr ⟨u, ha, ih hrest⟩

end Run

end Pgokf.Lib
