import Mathlib.Data.List.Nodup
import Pgokf.Lib.OrderedMap

/-! # Numbering what repeats

A name that occurs again is told apart by how often it occurred before. -/

namespace Pgokf.Lib

variable {α : Type} [BEq α] [LawfulBEq α]

def occurrences : List α → List α → List (α × Nat)
  | _, [] => []
  | before, name :: rest => (name, before.count name) :: occurrences (before ++ [name]) rest

def tag (suffix : α → Nat → α) (occurrence : α × Nat) : α :=
  if occurrence.2 = 0 then occurrence.1 else suffix occurrence.1 occurrence.2

variable {suffix : α → Nat → α} {before names rest : List α} {name : α} {k : Nat}

theorem mem_occurrences :
    (name, k) ∈ occurrences before names ↔ before.count name ≤ k ∧
      k < before.count name + names.count name := by
  induction names generalizing before with
  | nil =>
    simp only [occurrences, List.not_mem_nil, List.count_nil, false_iff]
    omega
  | cons other rest ih =>
    rw [occurrences, List.mem_cons, ih, Prod.mk.injEq, List.count_append]
    by_cases hsame : name = other
    · subst hsame
      rw [List.count_singleton_self, List.count_cons_self]
      simp only [true_and]
      omega
    · have hnone : [other].count name = 0 := List.count_eq_zero.mpr (by simpa using hsame)
      rw [hnone, List.count_cons_of_ne (Ne.symm hsame)]
      simp only [hsame, false_and, false_or, Nat.add_zero]

theorem nodup_occurrences : (occurrences before names).Nodup := by
  induction names generalizing before with
  | nil => exact List.nodup_nil
  | cons name rest ih =>
    rw [occurrences, List.nodup_cons]
    refine ⟨fun hmem => ?_, ih⟩
    have hcount := (mem_occurrences.mp hmem).1
    rw [List.count_append, List.count_singleton_self] at hcount
    omega

/-- Numbered names are distinct unless one of them is also a name in its own right. -/
theorem nodup_tags_iff (hsuffix : ∀ a b m n, m ≠ 0 → n ≠ 0 → suffix a m = suffix b n → a = b ∧ m = n) :
    ((occurrences [] names).map (tag suffix)).Nodup ↔
      ¬∃ name k, k ≠ 0 ∧ k < names.count name ∧ suffix name k ∈ names := by
  have hmem : ∀ a m, (a, m) ∈ occurrences [] names ↔ m < names.count a := by
    intro a m
    rw [mem_occurrences, List.count_nil, Nat.zero_add]
    exact and_iff_right (Nat.zero_le m)
  rw [List.nodup_map_iff_inj_on nodup_occurrences]
  constructor
  · rintro hinj ⟨name, k, hk, hcount, hname⟩
    have hfirst := (hmem (suffix name k) 0).mpr (List.count_pos_iff.mpr hname)
    have hsame := hinj _ hfirst _ ((hmem name k).mpr hcount) (by simp [tag, hk])
    exact hk (Prod.mk.inj hsame).2.symm
  · rintro hnone ⟨a, m⟩ ha ⟨b, n⟩ hb hsame
    rw [hmem] at ha hb
    unfold tag at hsame
    dsimp only at hsame
    by_cases hm : m = 0
    · by_cases hn : n = 0
      · rw [if_pos hm, if_pos hn] at hsame
        rw [hsame, hm, hn]
      · rw [if_pos hm, if_neg hn] at hsame
        have hpos : a ∈ names := List.count_pos_iff.mp (by omega)
        exact absurd ⟨b, n, hn, hb, hsame ▸ hpos⟩ hnone
    · by_cases hn : n = 0
      · rw [if_neg hm, if_pos hn] at hsame
        have hpos : b ∈ names := List.count_pos_iff.mp (by omega)
        exact absurd ⟨a, m, hm, ha, hsame ▸ hpos⟩ hnone
      · rw [if_neg hm, if_neg hn] at hsame
        obtain ⟨rfl, rfl⟩ := hsuffix a b m n hm hn hsame
        rfl

def Counts [DecidableEq α] (before : List α) (seen : OrderedMap α Nat) : Prop :=
    ∀ name, (seen.get name).getD 0 = before.count name

theorem Counts.insert [DecidableEq α] {seen : OrderedMap α Nat} (h : Counts before seen) (name : α) :
    Counts (before ++ [name]) (seen.insert name (before.count name + 1)) := by
  intro other
  rw [List.count_append]
  by_cases hsame : other = name
  · rw [hsame, OrderedMap.get_insert_self, List.count_singleton_self]
    rfl
  · have hnone : [name].count other = 0 := List.count_eq_zero.mpr (by simpa using hsame)
    rw [OrderedMap.get_insert_of_ne _ _ hsame, h other, hnone]
    rfl

end Pgokf.Lib
