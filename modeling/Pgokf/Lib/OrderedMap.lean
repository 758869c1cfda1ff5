import Mathlib.Data.List.Nodup

/-! # Maps that keep the order their keys came in -/

namespace Pgokf.Lib

/- Writing a key that is there replaces its value where it stands. The lemmas hold of every list of
entries. -/
abbrev OrderedMap (κ ν : Type*) := List (κ × ν)

namespace OrderedMap

variable {κ ν : Type*} [DecidableEq κ]

def get (m : OrderedMap κ ν) (k : κ) : Option ν :=
  match m with
  | [] => none
  | e :: rest => if e.1 = k then some e.2 else get rest k

def insert (m : OrderedMap κ ν) (k : κ) (v : ν) : OrderedMap κ ν :=
  match m with
  | [] => [(k, v)]
  | e :: rest => if e.1 = k then (k, v) :: rest else e :: insert rest k v

def remove (m : OrderedMap κ ν) (k : κ) : OrderedMap κ ν := m.filter fun e => !decide (e.1 = k)

def updateWhere {κ ν : Type*} (m : OrderedMap κ ν) (p : κ → ν → Bool) (f : ν → ν) : OrderedMap κ ν :=
  m.map fun e => if p e.1 e.2 then (e.1, f e.2) else e

@[simp]
theorem get_insert_self (m : OrderedMap κ ν) (k : κ) (v : ν) : get (insert m k v) k = some v := by
  induction m with
  | nil => simp [insert, get]
  | cons e rest ih =>
    rw [insert]
    split <;> simp_all [get]

variable {k j : κ}

theorem get_insert_of_ne (m : OrderedMap κ ν) (v : ν) (h : j ≠ k) :
    get (insert m k v) j = get m j := by
  induction m with
  | nil => simp [insert, get, h.symm]
  | cons e rest ih =>
    rw [insert]
    split
    next hk => simp [get, hk, h.symm]
    next hk => simp only [get, ih]

@[simp]
theorem get_remove_self (m : OrderedMap κ ν) (k : κ) : get (remove m k) k = none := by
  induction m with
  | nil => rfl
  | cons e rest ih =>
    by_cases h : e.1 = k
    · simpa [remove, h] using ih
    · simpa [remove, get, h] using ih

theorem get_remove_of_ne (m : OrderedMap κ ν) (h : j ≠ k) :
    get (remove m k) j = get m j := by
  induction m with
  | nil => rfl
  | cons e rest ih =>
    by_cases hk : e.1 = k
    · simpa [remove, get, hk, h.symm] using ih
    · simp only [remove] at ih
      simp [remove, get, hk, ih]

variable {v : ν} {e : κ × ν}

theorem mem_insert_of_ne (m : OrderedMap κ ν) (h : e.1 ≠ k) :
    e ∈ insert m k v ↔ e ∈ m := by
  have hne : e ≠ (k, v) := by
    rintro rfl
    exact h rfl
  induction m with
  | nil => simp [insert, hne]
  | cons a rest ih =>
    rw [insert]
    split
    next ha =>
      have hea : e ≠ a := by
        rintro rfl
        exact h ha
      simp [hne, hea]
    next => simp [ih]

theorem mem_remove_of_ne (m : OrderedMap κ ν) (h : e.1 ≠ k) :
    e ∈ remove m k ↔ e ∈ m := by
  simp [remove, h]

variable {ps : List (κ × ν)}

theorem mem_foldl_insert (m : OrderedMap κ ν) (h : e.1 ∉ ps.map Prod.fst) :
    e ∈ ps.foldl (fun m p => insert m p.1 p.2) m ↔ e ∈ m := by
  induction ps generalizing m with
  | nil => rfl
  | cons p ps ih =>
    rw [List.map_cons, List.mem_cons, not_or] at h
    rw [List.foldl_cons, ih _ h.2, mem_insert_of_ne m h.1]

theorem mem_foldl_remove (m : OrderedMap κ ν) {ks : List κ} (h : e.1 ∉ ks) :
    e ∈ ks.foldl remove m ↔ e ∈ m := by
  induction ks generalizing m with
  | nil => rfl
  | cons k ks ih =>
    rw [List.mem_cons, not_or] at h
    rw [List.foldl_cons, ih _ h.2, mem_remove_of_ne m h.1]

variable {m : OrderedMap κ ν}

theorem get_remove_eq_none (h : get m j = none) (k : κ) :
    get (remove m k) j = none := by
  by_cases hj : j = k
  · rw [hj, get_remove_self]
  · rw [get_remove_of_ne m hj, h]

theorem get_foldl_insert (m : OrderedMap κ ν) (hk : k ∉ ps.map Prod.fst) :
    get (ps.foldl (fun m p => insert m p.1 p.2) m) k = get m k := by
  induction ps generalizing m with
  | nil => rfl
  | cons p ps ih =>
    rw [List.map_cons, List.mem_cons, not_or] at hk
    rw [List.foldl_cons, ih _ hk.2, get_insert_of_ne _ _ hk.1]

theorem get_foldl_remove_eq_none (h : get m j = none) (ks : List κ) :
    get (ks.foldl remove m) j = none := by
  induction ks generalizing m with
  | nil => exact h
  | cons k ks ih => exact ih (get_remove_eq_none h k)

theorem mem_insert (h : e ∈ insert m k v) :
    e = (k, v) ∨ e ∈ m := by
  by_cases hk : e.1 = k
  · induction m with
    | nil => exact .inl (by simpa [insert] using h)
    | cons a rest ih =>
      rw [insert] at h
      split at h
      · rcases List.mem_cons.mp h with rfl | h
        · exact .inl rfl
        · exact .inr (List.mem_cons_of_mem _ h)
      · rcases List.mem_cons.mp h with rfl | h
        · exact .inr List.mem_cons_self
        · exact (ih h).imp_right (List.mem_cons_of_mem _)
  · exact .inr ((mem_insert_of_ne m hk).mp h)

theorem mem_keys_insert :
    j ∈ (insert m k v).map Prod.fst ↔ j = k ∨ j ∈ m.map Prod.fst := by
  induction m with
  | nil => simp [insert]
  | cons e rest ih =>
    rw [insert]
    split
    next hk => simp [hk]
    next hk =>
      rw [List.map_cons, List.mem_cons, ih, List.map_cons, List.mem_cons]
      exact or_left_comm

theorem insert_of_notMem (h : k ∉ m.map Prod.fst) (v : ν) :
    insert m k v = m ++ [(k, v)] := by
  induction m with
  | nil => rfl
  | cons e rest ih =>
    simp only [List.map_cons, List.mem_cons, not_or] at h
    rw [insert, if_neg (Ne.symm h.1), ih h.2]
    rfl

theorem mem_keys_of_get (h : get m k = some v) : k ∈ m.map Prod.fst := by
  induction m with
  | nil => cases h
  | cons e rest ih =>
    rw [get] at h
    split at h
    next hk => exact List.mem_cons.mpr (.inl hk.symm)
    next hk => exact List.mem_cons_of_mem _ (ih h)

theorem mem_updateWhere {κ ν : Type*} {m : OrderedMap κ ν} {p : κ → ν → Bool} {f : ν → ν} {e : κ × ν} :
    e ∈ updateWhere m p f ↔
      (e ∈ m ∧ p e.1 e.2 = false) ∨ ∃ v, (e.1, v) ∈ m ∧ p e.1 v = true ∧ e.2 = f v := by
  rw [updateWhere, List.mem_map]
  constructor
  · rintro ⟨a, ha, rfl⟩
    split
    next hp => exact .inr ⟨a.2, ha, hp, rfl⟩
    next hp => exact .inl ⟨ha, by simpa using hp⟩
  · rintro (⟨he, hp⟩ | ⟨v, hv, hp, hf⟩)
    · exact ⟨e, he, by simp [hp]⟩
    · exact ⟨(e.1, v), hv, by simp [hp, ← hf]⟩

theorem mem_of_get (h : get m k = some v) : (k, v) ∈ m := by
  induction m with
  | nil => cases h
  | cons e rest ih =>
    rw [get] at h
    split at h
    next hk =>
      obtain rfl := Option.some.inj h
      exact hk ▸ List.mem_cons_self
    next => exact List.mem_cons_of_mem _ (ih h)

def retain {κ ν : Type*} (m : OrderedMap κ ν) (p : κ → ν → Bool) : OrderedMap κ ν :=
    m.filter fun e => p e.1 e.2

theorem get_of_mem (h : (m.map Prod.fst).Nodup) (he : (k, v) ∈ m) :
    get m k = some v := by
  induction m with
  | nil => exact absurd he List.not_mem_nil
  | cons a rest ih =>
    rw [List.map_cons, List.nodup_cons] at h
    rcases List.mem_cons.mp he with rfl | he
    · simp [get]
    · have hne : a.1 ≠ k := by
        rintro rfl
        exact h.1 (List.mem_map.mpr ⟨_, he, rfl⟩)
      rw [get, if_neg hne]
      exact ih h.2 he

theorem nodup_values_iff (h : (m.map Prod.fst).Nodup) :
    (m.map Prod.snd).Nodup ↔ ∀ k k' v, get m k = some v → get m k' = some v → k = k' := by
  constructor
  · intro hvalues k k' v hk hk'
    have hsame := List.inj_on_of_nodup_map hvalues (mem_of_get hk) (mem_of_get hk') rfl
    exact (Prod.mk.inj hsame).1
  · intro hinj
    refine List.Nodup.map_on (fun e he e' he' hsame => ?_) (List.Nodup.of_map _ h)
    exact Prod.ext (hinj _ _ e'.2 (hsame ▸ get_of_mem h he) (get_of_mem h he')) hsame

theorem nodup_keys_insert (h : (m.map Prod.fst).Nodup) (k : κ) (v : ν) :
    ((insert m k v).map Prod.fst).Nodup := by
  induction m with
  | nil => simp [insert]
  | cons e rest ih =>
    rw [List.map_cons, List.nodup_cons] at h
    rw [insert]
    split
    next hk =>
      rw [List.map_cons, List.nodup_cons, ← hk]
      exact h
    next hk =>
      rw [List.map_cons, List.nodup_cons, mem_keys_insert]
      exact ⟨fun he => he.elim hk h.1, ih h.2⟩

theorem nodup_keys_filter {κ ν : Type*} {m : OrderedMap κ ν} (h : (m.map Prod.fst).Nodup)
    (p : κ × ν → Bool) :
    ((m.filter p).map Prod.fst).Nodup :=
  h.sublist (List.filter_sublist.map Prod.fst)

theorem get_retain (h : (m.map Prod.fst).Nodup) (p : κ → ν → Bool) (k : κ) :
    get (retain m p) k = (get m k).filter (p k) := by
  induction m with
  | nil => rfl
  | cons e rest ih =>
    rw [List.map_cons, List.nodup_cons] at h
    have hrest : get (retain rest p) k = (get rest k).filter (p k) := ih h.2
    rw [retain, List.filter_cons]
    by_cases hk : e.1 = k
    · subst hk
      cases hp : p e.1 e.2 with
      | true => simp [get, hp, Option.filter_some]
      | false =>
        -- The key does not come back further on.
        have hnone : get rest e.1 = none := by
          cases hget : get rest e.1 with
          | none => rfl
          | some v => exact absurd (mem_keys_of_get hget) h.1
        rw [hnone] at hrest
        simpa [get, hp, retain, Option.filter_some] using hrest
    · rw [show get (e :: rest) k = get rest k by simp [get, hk]]
      cases p e.1 e.2 with
      | true => simpa [get, hk, retain] using hrest
      | false => simpa [retain] using hrest

end OrderedMap

end Pgokf.Lib
