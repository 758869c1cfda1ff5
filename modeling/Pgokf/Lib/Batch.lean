import Mathlib.Data.List.AList
import Mathlib.Data.List.Sort
import Pgokf.Lib.Transaction

/-! # Batches, fallible folds and maps collected from rows -/

namespace Pgokf.Lib

section Chunks

variable {α : Type*}

/- `chunks` of at most `n` elements, for a list of at most `fuel` elements. -/
def chunksOf (n : Nat) : Nat → List α → List (List α)
  | 0, _ => []
  | _, [] => []
  | fuel + 1, l => l.take n :: chunksOf n fuel (l.drop n)

def chunks (n : Nat) (l : List α) : List (List α) := chunksOf n l.length l

variable {n : Nat}

theorem flatten_chunksOf (hn : 0 < n) (fuel : Nat) (l : List α) (hl : l.length ≤ fuel) :
    (chunksOf n fuel l).flatten = l := by
  induction fuel generalizing l with
  | zero =>
    have hnil : l = [] := List.length_eq_zero_iff.mp (Nat.le_zero.mp hl)
    rw [hnil]
    rfl
  | succ fuel ih =>
    cases l with
    | nil => rfl
    | cons a l =>
      have hshort : ((a :: l).drop n).length ≤ fuel := by
        rw [List.length_drop]
        simp only [List.length_cons] at hl ⊢
        omega
      rw [chunksOf, List.flatten_cons, ih _ hshort]
      · exact List.take_append_drop n (a :: l)
      · exact List.cons_ne_nil a l

theorem flatten_chunks (hn : 0 < n) (l : List α) : (chunks n l).flatten = l :=
  flatten_chunksOf hn l.length l le_rfl

theorem chunks_sublist (hn : 0 < n) {l c : List α} (hc : c ∈ chunks n l) : c.Sublist l := by
  have h := List.sublist_flatten_of_mem hc
  rwa [flatten_chunks hn] at h

end Chunks

section Fold

variable {ε α : Type*} {σ : Type} {f : σ → α → Except ε σ} {s t : σ} {l : List α}

variable {P : List α → σ → Prop}

theorem foldlM_invariant (h : l.foldlM f s = .ok t) (h0 : P [] s)
    (hstep : ∀ done a rest s t, l = done ++ a :: rest → P done s → f s a = .ok t →
      P (done ++ [a]) t) : P l t := by
  -- The induction is over what is left to read; `done` is what has been read.
  have hgen : ∀ rest done s, l = done ++ rest → P done s → rest.foldlM f s = .ok t → P l t := by
    intro rest
    induction rest with
    | nil =>
      intro done s hl hs hfold
      rw [List.foldlM_nil, pure_eq_ok] at hfold
      rw [List.append_nil] at hl
      exact hl ▸ hfold ▸ hs
    | cons a rest ih =>
      intro done s hl hs hfold
      rw [List.foldlM_cons, bind_eq_ok] at hfold
      obtain ⟨s', hf, hfold⟩ := hfold
      exact ih (done ++ [a]) s' (by simp [hl]) (hstep done a rest s s' hl hs hf) hfold
  exact hgen l [] s rfl h0 h

theorem foldlM_total (h0 : P [] s) (hstep : ∀ done a rest s, l = done ++ a :: rest → P done s →
      ∃ t, f s a = .ok t ∧ P (done ++ [a]) t) : ∃ t, l.foldlM f s = .ok t ∧ P l t := by
  have hgen : ∀ rest done s, l = done ++ rest → P done s → ∃ t, rest.foldlM f s = .ok t ∧ P l t := by
    intro rest
    induction rest with
    | nil =>
      intro done s hl hs
      rw [List.append_nil] at hl
      exact ⟨s, rfl, hl ▸ hs⟩
    | cons a rest ih =>
      intro done s hl hs
      obtain ⟨s', hf, hs'⟩ := hstep done a rest s hl hs
      obtain ⟨t, hfold, ht⟩ := ih (done ++ [a]) s' (by simp [hl]) hs'
      refine ⟨t, ?_, ht⟩
      rw [List.foldlM_cons, bind_eq_ok]
      exact ⟨s', hf, hfold⟩
  exact hgen l [] s rfl h0

/-- Batches that are checked and then folded are folded like the whole list. -/
theorem foldlM_batches {check : List α → Except ε Unit} {bs : List (List α)} :
    bs.foldlM (fun s b => do check b; b.foldlM f s) s = .ok t ↔
      (∀ b ∈ bs, check b = .ok ()) ∧ bs.flatten.foldlM f s = .ok t := by
  induction bs generalizing s with
  | nil => simp
  | cons b bs ih =>
    simp only [List.foldlM_cons, List.flatten_cons, List.foldlM_append, bind_eq_ok, ih,
      List.forall_mem_cons]
    constructor
    · rintro ⟨s', ⟨⟨⟩, hcheck, hb⟩, hchecks, hbs⟩
      exact ⟨⟨hcheck, hchecks⟩, s', hb, hbs⟩
    · rintro ⟨⟨hcheck, hchecks⟩, s', hb, hbs⟩
      exact ⟨s', ⟨(), hcheck, hb⟩, hchecks, hbs⟩

variable {β : Type} {g : α → Except ε β}

theorem forall₂_of_mapM {r : List β} (h : l.mapM g = .ok r) :
    List.Forall₂ (fun a b => g a = .ok b) l r := by
  induction l generalizing r with
  | nil =>
    rw [List.mapM_nil, pure_eq_ok] at h
    subst h
    exact .nil
  | cons a l ih =>
    simp only [List.mapM_cons, bind_eq_ok, pure_eq_ok] at h
    obtain ⟨b, hb, r, hr, rfl⟩ := h
    exact .cons hb (ih hr)

theorem mapM_of_forall₂ {r : List β} (h : List.Forall₂ (fun a b => g a = .ok b) l r) :
    l.mapM g = .ok r := by
  induction h with
  | nil => rfl
  | cons hb _ ih =>
    simp only [List.mapM_cons, bind_eq_ok, pure_eq_ok]
    exact ⟨_, hb, _, ih, rfl⟩

theorem map_of_mapM {γ : Type} {r : List β} {f : β → γ} {k : α → γ} (hg : ∀ a b, g a = .ok b → f b = k a)
    (h : l.mapM g = .ok r) : r.map f = l.map k := by
  have hall := forall₂_of_mapM h
  clear h
  induction hall with
  | nil => rfl
  | cons hb _ ih => rw [List.map_cons, List.map_cons, hg _ _ hb, ih]

theorem mapM_total : (∃ r, l.mapM g = .ok r) ↔ ∀ a ∈ l, ∃ b, g a = .ok b := by
  induction l with
  | nil => simp [pure, Except.pure]
  | cons a l ih =>
    rw [List.forall_mem_cons, ← ih]
    simp only [List.mapM_cons, bind_eq_ok, pure_eq_ok]
    constructor
    · rintro ⟨_, b, hb, r, hr, -⟩
      exact ⟨⟨b, hb⟩, r, hr⟩
    · rintro ⟨⟨b, hb⟩, r, hr⟩
      exact ⟨_, b, hb, r, hr, rfl⟩

theorem mapM_map_total {γ : Type} {f : β → γ} {k : α → γ} (h : ∀ a ∈ l, ∃ b, g a = .ok b ∧ f b = k a) :
    ∃ r, l.mapM g = .ok r ∧ r.map f = l.map k := by
  induction l with
  | nil => exact ⟨[], rfl, rfl⟩
  | cons a l ih =>
    obtain ⟨⟨b, hb, hfb⟩, hl⟩ := List.forall_mem_cons.mp h
    obtain ⟨r, hr, hmap⟩ := ih hl
    refine ⟨b :: r, ?_, by rw [List.map_cons, List.map_cons, hfb, hmap]⟩
    simp only [List.mapM_cons, bind_eq_ok, pure_eq_ok]
    exact ⟨b, hb, r, hr, rfl⟩

theorem of_forM {g : α → Except ε Unit} (h : l.forM g = .ok ()) : ∀ a ∈ l, g a = .ok () := by
  induction l with
  | nil => simp
  | cons a l ih =>
    obtain ⟨_, ha, hl⟩ := bind_eq_ok.mp h
    exact List.forall_mem_cons.mpr ⟨ha, ih hl⟩

theorem exists_of_forall₂_right {β : Type*} {R : α → β → Prop} {r : List β} {b : β}
    (h : List.Forall₂ R l r) (hb : b ∈ r) : ∃ a ∈ l, R a b := by
  induction h with
  | nil => cases hb
  | cons hab _ ih =>
    rcases List.mem_cons.mp hb with rfl | hb
    · exact ⟨_, by simp, hab⟩
    · obtain ⟨a, ha, hab⟩ := ih hb
      exact ⟨a, by simp [ha], hab⟩

end Fold

section Collect

variable {κ ν : Type*} [DecidableEq κ] {l : List (κ × ν)} {k : κ} {v : ν}

/-- The map built by inserting rows one after the other: of two rows with one key the later wins. -/
def collect (l : List (κ × ν)) : AList fun _ : κ => ν := l.foldl (fun m kv => m.insert kv.1 kv.2) ∅

theorem collect_append_singleton (l : List (κ × ν)) (kv : κ × ν) :
    collect (l ++ [kv]) = (collect l).insert kv.1 kv.2 := by
  simp [collect]

theorem mem_collect : k ∈ collect l ↔ ∃ v, (k, v) ∈ l := by
  induction l using List.reverseRecOn with
  | nil => simp [collect]
  | append_singleton l kv ih =>
    rw [collect_append_singleton, AList.mem_insert, ih]
    constructor
    · rintro (rfl | ⟨v, hv⟩)
      · exact ⟨kv.2, by simp⟩
      · exact ⟨v, by simp [hv]⟩
    · rintro ⟨v, hv⟩
      rcases List.mem_append.mp hv with hv | hv
      · exact .inr ⟨v, hv⟩
      · rw [List.mem_singleton] at hv
        exact .inl (by rw [← hv])

theorem mem_of_lookup_collect (h : (collect l).lookup k = some v) : (k, v) ∈ l := by
  induction l using List.reverseRecOn with
  | nil => simp [collect] at h
  | append_singleton l kv ih =>
    rw [collect_append_singleton] at h
    by_cases hk : k = kv.1
    · subst hk
      rw [AList.lookup_insert, Option.some.injEq] at h
      simp [← h]
    · rw [AList.lookup_insert_ne hk] at h
      simp [ih h]

theorem lookup_collect_isSome (h : (k, v) ∈ l) : ((collect l).lookup k).isSome :=
  AList.lookup_isSome.mpr (mem_collect.mpr ⟨v, h⟩)

theorem lookup_collect_last {l₁ l₂ : List (κ × ν)} (h : ∀ v, (k, v) ∉ l₂) :
    (collect (l₁ ++ (k, v) :: l₂)).lookup k = some v := by
  induction l₂ using List.reverseRecOn with
  | nil => rw [collect_append_singleton, AList.lookup_insert]
  | append_singleton l kv ih =>
    have hk : k ≠ kv.1 := by
      rintro rfl
      exact h kv.2 (by simp)
    rw [← List.cons_append, ← List.append_assoc, collect_append_singleton, AList.lookup_insert_ne hk]
    exact ih fun v hv => h v (by simp [hv])

theorem lookup_collect (huniq : ∀ v v', (k, v) ∈ l → (k, v') ∈ l → v = v') :
    (collect l).lookup k = some v ↔ (k, v) ∈ l := by
  constructor
  · exact mem_of_lookup_collect
  · intro h
    obtain ⟨v', hv'⟩ := Option.isSome_iff_exists.mp (lookup_collect_isSome h)
    rw [hv', huniq v' v (mem_of_lookup_collect hv') h]

end Collect

section Overlay

variable {κ ν : Type*} [DecidableEq κ] {f : κ → Option ν} {l : List (κ × ν)} {k : κ} {v : ν}

/- A table after rows have been written to it one after the other. -/
def overlay (f : κ → Option ν) (l : List (κ × ν)) : κ → Option ν :=
  l.foldl (fun f kv => Function.update f kv.1 (some kv.2)) f

theorem overlay_append_singleton (f : κ → Option ν) (l : List (κ × ν)) (kv : κ × ν) :
    overlay f (l ++ [kv]) = Function.update (overlay f l) kv.1 (some kv.2) := by
  simp [overlay]

theorem overlay_of_not_mem (h : ∀ v, (k, v) ∉ l) : overlay f l k = f k := by
  induction l using List.reverseRecOn with
  | nil => rfl
  | append_singleton l kv ih =>
    have hk : k ≠ kv.1 := by
      rintro rfl
      exact h kv.2 (by simp)
    rw [overlay_append_singleton, Function.update_of_ne hk]
    exact ih fun v hv => h v (by simp [hv])

theorem overlay_of_mem (h : (k, v) ∈ l) : ∃ v, (k, v) ∈ l ∧ overlay f l k = some v := by
  induction l using List.reverseRecOn with
  | nil => simp at h
  | append_singleton l kv ih =>
    rw [overlay_append_singleton]
    by_cases hk : k = kv.1
    · subst hk
      exact ⟨kv.2, by simp, Function.update_self ..⟩
    · have hl : (k, v) ∈ l := by
        rcases List.mem_append.mp h with h | h
        · exact h
        · rw [List.mem_singleton] at h
          exact absurd (by rw [← h]) hk
      obtain ⟨v', hv', heq⟩ := ih hl
      exact ⟨v', by simp [hv'], by rw [Function.update_of_ne hk, heq]⟩

theorem overlay_of_unique (huniq : ∀ v v', (k, v) ∈ l → (k, v') ∈ l → v = v') (h : (k, v) ∈ l) :
    overlay f l k = some v := by
  obtain ⟨v', hv', heq⟩ := overlay_of_mem (f := f) h
  rw [heq, huniq v' v hv' h]

end Overlay

variable {α : Type*} {l : List α}

theorem find?_key_eq_some {κ : Type*} [DecidableEq κ] {f : α → κ} {k : κ} {a : α}
    (hl : (l.map f).Nodup) :
    l.find? (f · = k) = some a ↔ a ∈ l ∧ f a = k := by
  constructor
  · intro h
    exact ⟨List.mem_of_find?_eq_some h, by simpa using List.find?_some h⟩
  · rintro ⟨ha, rfl⟩
    cases hfind : l.find? (f · = f a) with
    | none => exact absurd (List.find?_eq_none.mp hfind a ha) (by simp)
    | some b =>
      have hkey : f b = f a := by simpa using List.find?_some hfind
      rw [List.inj_on_of_nodup_map hl (List.mem_of_find?_eq_some hfind) ha hkey]

variable {l' : List α}

theorem map_eq_of_map_eq {β γ : Type*} {t : α → β} {m : α → γ}
    (h : ∀ a ∈ l, ∀ b ∈ l', t a = t b → m a = m b)
    (ht : l.map t = l'.map t) : l.map m = l'.map m := by
  induction l generalizing l' with
  | nil =>
    cases l' with
    | nil => rfl
    | cons b l' => cases ht
  | cons a l ih =>
    cases l' with
    | nil => cases ht
    | cons b l' =>
      obtain ⟨hab, hrest⟩ := List.cons.inj ht
      have htail := ih (fun a ha b hb => h a (by simp [ha]) b (by simp [hb])) hrest
      rw [List.map_cons, List.map_cons, h a (by simp) b (by simp) hab, htail]

theorem perm_of_map_perm {β : Type*} {f : α → β} {g : β → α} {p : α → Bool}
    (hg : ∀ a, p a = false → g (f a) = a)
    (h : (l.map f).Perm (l'.map f)) (hp : (l.filter p).Perm (l'.filter p)) : l.Perm l' := by
  have hsplit : ∀ l : List α, (l.filter p ++ l.filter fun a => !p a).Perm l :=
    fun l => List.filter_append_perm p l
  have hundo : ∀ l : List α, ((l.filter fun a => !p a).map f).map g = l.filter fun a => !p a := by
    intro l
    have hid : ∀ a ∈ l.filter fun a => !p a, (g ∘ f) a = id a := by
      intro a ha
      exact hg a (by simpa using (List.mem_filter.mp ha).2)
    rw [List.map_map, List.map_congr_left hid, List.map_id]
  have hrest : ((l.filter fun a => !p a).map f).Perm ((l'.filter fun a => !p a).map f) := by
    have hall := (((hsplit l).map f).trans h).trans ((hsplit l').map f).symm
    rw [List.map_append, List.map_append] at hall
    exact (List.perm_append_left_iff _).mp (((hp.map f).symm.append_right _).trans hall)
  have hrows := hrest.map g
  rw [hundo, hundo] at hrows
  exact ((hsplit l).symm.trans (hp.append hrows)).trans (hsplit l')

section SortByKey

variable {α κ : Type*} {f : α → κ} {r : κ → κ → Prop} {l l' : List α}

theorem insertionSort_key_eq [DecidableRel r] [Std.Total r] [IsTrans κ r] [Std.Antisymm r]
    (hl : (l.map f).Nodup) (hl' : (l'.map f).Nodup) (h : ∀ a, a ∈ l ↔ a ∈ l') :
    l.insertionSort (fun a b => r (f a) (f b)) = l'.insertionSort fun a b => r (f a) (f b) := by
  have htotal : Std.Total fun a b => r (f a) (f b) := ⟨fun a b => Std.Total.total (f a) (f b)⟩
  have htrans : IsTrans α fun a b => r (f a) (f b) :=
    ⟨fun a b c => IsTrans.trans (f a) (f b) (f c)⟩
  have hperm : l.Perm l' := (List.perm_ext_iff_of_nodup hl.of_map hl'.of_map).mpr h
  refine List.Perm.eq_of_pairwise (fun a b ha hb hab hba => ?_) (List.pairwise_insertionSort _ l)
    (List.pairwise_insertionSort _ l') (((List.perm_insertionSort _ l).trans hperm).trans
      (List.perm_insertionSort _ l').symm)
  have hkey : f a = f b := Std.Antisymm.antisymm _ _ hab hba
  exact List.inj_on_of_nodup_map hl ((List.mem_insertionSort _).mp ha)
    ((h b).mpr ((List.mem_insertionSort _).mp hb)) hkey

end SortByKey

end Pgokf.Lib
