import Pgokf.Sync.Package

/-! # Who owns a path

No root lies in a resource directory of another, so the package that recognises a path as its
resource owns it. The index depends on the manifests only. -/

namespace Pgokf.Sync

open Lib

variable {r d m p q : Text} {roots roots' : Finset Text} {cls : FileClass}

theorem manifestDirectory_eq_some : manifestDirectory m = some d ↔
    m = skillManifest ∧ d = [] ∨ m = d ++ '/' :: skillManifest := by
  have hname : '/' ∉ skillManifest := by decide
  unfold manifestDirectory splitParent
  cases hs : rsplitOnce '/' m with
  | none =>
    have hnot : '/' ∉ m := rsplitOnce_none.mp hs
    have hslash : m ≠ d ++ '/' :: skillManifest := by
      rintro rfl
      exact hnot (by simp)
    simp [hslash, eq_comm]
  | some xy =>
    obtain ⟨hm, hy⟩ := rsplitOnce_some.mp hs
    have hslash : m ≠ skillManifest := by
      rintro rfl
      exact hname (by simp [hm])
    simp only [Option.getD_some, Option.ite_none_right_eq_some, Option.some.injEq, hslash, false_and,
      false_or]
    constructor
    · rintro ⟨hy', rfl⟩
      rw [hm, hy']
    · intro hm'
      have hd := hs.symm.trans (rsplitOnce_some.mpr ⟨hm', hname⟩)
      rw [Option.some.inj hd]
      exact ⟨rfl, rfl⟩

theorem manifestDirectory_parent (h : manifestDirectory m = some d) : d = (splitParent '/' m).1 := by
  unfold manifestDirectory at h
  dsimp only at h
  split at h
  · exact (Option.some.inj h).symm
  · cases h

theorem encloses_manifest (h : manifestDirectory m = some d) :
    Encloses '/' r m ↔ r = d ∨ Encloses '/' r d := by
  rw [manifestDirectory_parent h]
  exact encloses_iff_parent

theorem manifest_eq (h : manifestDirectory m = some d) (hd : d ≠ []) :
    m = d ++ '/' :: skillManifest := by
  obtain ⟨-, hnil⟩ | hm := manifestDirectory_eq_some.mp h
  · exact absurd hnil hd
  · exact hm

theorem resourceClass_eq (r p : Text) : resourceClass r p =
    ((relative '/' r p).bind fun x => (splitOnce '/' x).map Prod.fst).bind directoryClass := by
  unfold resourceClass
  cases hrel : relative '/' r p with
  | none => rfl
  | some x =>
    cases hx : splitOnce '/' x with
    | none | some xy => simp [hx]

theorem resourceClass_encloses (h : resourceClass r p = some cls) : Encloses '/' r p := by
  cases hrel : relative '/' r p with
  | none => simp [resourceClass_eq, hrel] at h
  | some x => exact relative_encloses hrel

theorem resourceClass_isResource (h : resourceClass r p = some cls) : cls.isResource = true := by
  rw [resourceClass_eq] at h
  obtain ⟨directory, -, hdir⟩ := Option.bind_eq_some_iff.mp h
  unfold directoryClass at hdir
  split at hdir
  · cases hdir
    rfl
  · split at hdir
    · cases hdir
      rfl
    · split at hdir
      · cases hdir
        rfl
      · cases hdir

theorem resourceClass_manifest (h : manifestDirectory m = some d) : resourceClass d m = none := by
  have hname : splitOnce '/' skillManifest = none := by decide
  have hempty : directoryClass [] = none := by decide
  rw [resourceClass_eq]
  by_cases hd : d = []
  · subst hd
    have hrel : relative '/' [] m = some m := rfl
    obtain ⟨rfl, -⟩ | hm := manifestDirectory_eq_some.mp h
    · simp [hrel, hname]
    · rw [hrel, hm]
      simp [splitOnce, hempty]
  · have hm := manifest_eq h hd
    have hrel : relative '/' d m = some skillManifest := relative_eq_some.mpr (.inr ⟨hd, hm⟩)
    simp [hrel, hname]

theorem resourceClass_congr (hrd : Encloses '/' r d) (hd : d ≠ []) (hp : Encloses '/' d p)
    (hq : Encloses '/' d q) : resourceClass r p = resourceClass r q := by
  -- Below `r`, both paths start with what leads from `r` to `d`, followed by a separator.
  have hbelow : ∃ x, ∀ p, Encloses '/' d p → ∃ y, relative '/' r p = some (x ++ '/' :: y) := by
    by_cases hr : r = []
    · refine ⟨d, fun p hp => ?_⟩
      obtain h | ⟨y, rfl⟩ := hp
      · exact absurd h hd
      · exact ⟨y, relative_eq_some.mpr (.inl ⟨hr, rfl⟩)⟩
    · obtain h | ⟨x, rfl⟩ := hrd
      · exact absurd h hr
      · refine ⟨x, fun p hp => ?_⟩
        obtain h | ⟨y, rfl⟩ := hp
        · exact absurd h hd
        · exact ⟨y, relative_eq_some.mpr (.inr ⟨hr, by simp⟩)⟩
  obtain ⟨x, hx⟩ := hbelow
  obtain ⟨y, hy⟩ := hx p hp
  obtain ⟨z, hz⟩ := hx q hq
  rw [resourceClass_eq, resourceClass_eq, hy, hz, Option.bind_some, Option.bind_some, splitOnce_fst,
    splitOnce_fst]

theorem resourceClass_append (h : resourceClass r p = some cls) (z : Text) :
    resourceClass r (p ++ z) = some cls := by
  rw [resourceClass_eq] at h ⊢
  obtain ⟨directory, hfirst, hcls⟩ := Option.bind_eq_some_iff.mp h
  obtain ⟨x, hrel, hsplit⟩ := Option.bind_eq_some_iff.mp hfirst
  obtain ⟨⟨a, b⟩, hx, rfl⟩ := Option.map_eq_some_iff.mp hsplit
  have hrel' : relative '/' r (p ++ z) = some (x ++ z) := by
    obtain ⟨hr, rfl⟩ | ⟨hr, rfl⟩ := relative_eq_some.mp hrel
    · exact relative_eq_some.mpr (.inl ⟨hr, rfl⟩)
    · exact relative_eq_some.mpr (.inr ⟨hr, by simp⟩)
  simp [hrel', splitOnce_append hx z, hcls]

/- No root lies in a resource directory of another: what is below the inner one is no resource of
the outer. -/
def Settled (roots : Finset Text) : Prop :=
  ∀ r ∈ roots, ∀ d ∈ roots, d ≠ [] → Encloses '/' r d → ∀ p, Encloses '/' d p → resourceClass r p = none

theorem Settled.owner (h : Settled roots) (hr : r ∈ roots) (hcls : resourceClass r p = some cls) :
    nearest '/' roots p = some r := by
  have hencl := resourceClass_encloses hcls
  refine nearest_eq_some.mpr ⟨hr, hencl, fun d hd hencl' => ?_⟩
  by_contra hlt
  have hrd : Encloses '/' r d := hencl.of_length_lt hencl' (by omega)
  have hne : d ≠ [] := by
    rintro rfl
    simp at hlt
  rw [h r hr d hd hne hrd p hencl'] at hcls
  cases hcls

/-- A root strictly above the manifest takes it for a resource. -/
def Blocked (roots : Finset Text) (m d : Text) : Prop :=
  ∃ r ∈ roots, r ≠ d ∧ Encloses '/' r d ∧ (resourceClass r m).isSome

theorem resourceOfIndexedPackage_iff (h : Settled roots) (hm : manifestDirectory m = some d) :
    (PackageIndex.mk roots).resourceOfIndexedPackage m = true ↔ d ∉ roots ∧ Blocked roots m d := by
  have hself := resourceClass_manifest hm
  have hd : Encloses '/' d m := (encloses_manifest hm).mpr (.inl rfl)
  unfold PackageIndex.resourceOfIndexedPackage PackageIndex.ownerOf
  constructor
  · intro hres
    obtain ⟨r, hr, hcls⟩ := (Option.any_eq_true _ _).mp hres
    obtain ⟨hmem, hencl, hmax⟩ := nearest_eq_some.mp hr
    have hne : r ≠ d := by
      rintro rfl
      simp [hself] at hcls
    refine ⟨fun hdmem => ?_, r, hmem, hne, ?_, hcls⟩
    · -- the directory itself would be nearer
      have hle := hmax d hdmem hd
      obtain heq | hrd := (encloses_manifest hm).mp hencl
      · exact hne heq
      · by_cases hnil : r = []
        · subst hnil
          have : d = [] := List.length_eq_zero_iff.mp (Nat.le_zero.mp hle)
          exact hne this.symm
        · have := hrd.length_lt hnil
          omega
    · exact ((encloses_manifest hm).mp hencl).resolve_left hne
  · rintro ⟨-, r, hmem, -, -, hcls⟩
    obtain ⟨cls, hcls'⟩ := Option.isSome_iff_exists.mp hcls
    rw [h.owner hmem hcls']
    simpa using hcls

/-! ### The index of a set of paths -/

/- The roots are the directories of the manifests that no root above takes for a resource; `P` holds
of the paths given. -/
def Declares (P : Text → Prop) (roots : Finset Text) : Prop :=
  ∀ d, d ∈ roots ↔ ∃ m, P m ∧ manifestDirectory m = some d ∧ ¬ Blocked roots m d

theorem Blocked.mono (hsub : roots ⊆ roots') (h : Blocked roots m d) : Blocked roots' m d := by
  obtain ⟨r, hr, hrest⟩ := h
  exact ⟨r, hsub hr, hrest⟩

theorem Encloses.length_lt_of_ne (h : Encloses '/' r d) (hne : r ≠ d) : r.length < d.length := by
  by_cases hr : r = []
  · subst hr
    exact List.length_pos_iff.mpr hne.symm
  · exact h.length_lt hr

theorem Blocked.congr (h : ∀ r, r.length < d.length → (r ∈ roots ↔ r ∈ roots')) :
    Blocked roots m d ↔ Blocked roots' m d := by
  unfold Blocked
  refine exists_congr fun r => ?_
  constructor
  · rintro ⟨hr, hne, hencl, hcls⟩
    exact ⟨(h r (Encloses.length_lt_of_ne hencl hne)).mp hr, hne, hencl, hcls⟩
  · rintro ⟨hr, hne, hencl, hcls⟩
    exact ⟨(h r (Encloses.length_lt_of_ne hencl hne)).mpr hr, hne, hencl, hcls⟩

variable {P Q : Text → Prop}

/-- Two sets of paths declare the same roots if the smaller lacks only manifests that are no roots
of the larger or are resources of its own roots. -/
theorem Declares.unique_of_blocked (hP : Declares P roots) (hQ : Declares Q roots')
    (hle : ∀ m d, manifestDirectory m = some d → Q m → P m)
    (hge : ∀ m d, manifestDirectory m = some d → P m → d ∈ roots → Q m ∨ Blocked roots' m d) :
      roots = roots' := by
  have hmem : ∀ n, ∀ d : Text, d.length = n → (d ∈ roots ↔ d ∈ roots') := by
    intro n
    induction n using Nat.strong_induction_on with
    | _ n ih =>
      intro d hlen
      have hshort : ∀ r : Text, r.length < d.length → (r ∈ roots ↔ r ∈ roots') :=
        fun r hr => ih r.length (hlen ▸ hr) r rfl
      rw [hP d, hQ d]
      constructor
      · rintro ⟨m, hm, hdir, hfree⟩
        have hd : d ∈ roots := (hP d).mpr ⟨m, hm, hdir, hfree⟩
        rcases hge m d hdir hm hd with hQm | hblocked
        · exact ⟨m, hQm, hdir, fun hb => hfree ((Blocked.congr hshort).mpr hb)⟩
        · exact absurd ((Blocked.congr hshort).mpr hblocked) hfree
      · rintro ⟨m, hm, hdir, hfree⟩
        exact ⟨m, hle m d hdir hm, hdir, fun hb => hfree ((Blocked.congr hshort).mp hb)⟩
  ext d
  exact hmem d.length d rfl

theorem Declares.unique (hP : Declares P roots) (hQ : Declares Q roots')
    (hle : ∀ m d, manifestDirectory m = some d → Q m → P m)
    (hge : ∀ m d, manifestDirectory m = some d → P m → d ∈ roots → Q m) : roots = roots' :=
  hP.unique_of_blocked hQ hle fun m d hdir hm hd => .inl (hge m d hdir hm hd)

theorem utf8Len_append (a b : Text) : utf8Len (a ++ b) = utf8Len a + utf8Len b := by
  simp [utf8Len]

theorem utf8Len_pos (h : d ≠ []) : 0 < utf8Len d := by
  cases d with
  | nil => exact absurd rfl h
  | cons c d =>
    have := c.utf8Size_pos
    simp only [utf8Len, List.map_cons, List.sum_cons]
    omega

theorem utf8Len_manifest (hm : manifestDirectory m = some d) : utf8Len m ≤ utf8Len d + 9 := by
  have hname : utf8Len skillManifest = 8 := by decide
  have hslash : utf8Len ('/' :: skillManifest) = 9 := by decide
  obtain ⟨rfl, rfl⟩ | rfl := manifestDirectory_eq_some.mp hm
  · omega
  · rw [utf8Len_append, hslash]

theorem utf8Len_lt_of_encloses (hm : manifestDirectory m = some r) {m' : Text}
    (hm' : manifestDirectory m' = some d) (h : Encloses '/' r d) (hne : r ≠ d) :
    utf8Len m < utf8Len m' := by
  have hslash : utf8Len ('/' :: skillManifest) = 9 := by decide
  have hd : d ≠ [] := by
    rintro rfl
    obtain rfl | ⟨rest, hrest⟩ := h
    · exact hne rfl
    · simp at hrest
  have hlt : utf8Len r < utf8Len d := by
    obtain rfl | ⟨rest, rfl⟩ := h
    · exact utf8Len_pos hd
    · rw [utf8Len_append]
      have := utf8Len_pos (List.cons_ne_nil '/' rest)
      omega
  have hle := utf8Len_manifest hm
  rw [manifest_eq hm' hd, utf8Len_append, hslash]
  omega

section Insert

variable {L : List Text}

theorem insertManifest_old (hset : Settled roots) (hm : manifestDirectory m = some d)
    (hold : d ∈ roots ∨ Blocked roots m d) :
      ((PackageIndex.mk roots).insertManifest m).roots = roots := by
  unfold PackageIndex.insertManifest
  rw [hm]
  dsimp only
  split
  · rfl
  · rename_i hres
    have hd : d ∈ roots := by
      by_contra hd
      exact hres ((resourceOfIndexedPackage_iff hset hm).mpr ⟨hd, hold.resolve_left hd⟩)
    exact Finset.insert_eq_of_mem hd

theorem insertManifest_new (hset : Settled roots) (hm : manifestDirectory m = some d)
    (hfree : ¬ Blocked roots m d) :
    ((PackageIndex.mk roots).insertManifest m).roots = insert d roots := by
  have hres : ¬ (PackageIndex.mk roots).resourceOfIndexedPackage m = true := fun hres =>
    hfree ((resourceOfIndexedPackage_iff hset hm).mp hres).2
  simp [PackageIndex.insertManifest, hm, hres]

theorem Declares.insert_old (hdecl : Declares (· ∈ L) roots) (hm : manifestDirectory m = some d)
    (hold : d ∈ roots ∨ Blocked roots m d) : Declares (· ∈ L ++ [m]) roots := by
  intro d'
  rw [hdecl d']
  constructor
  · rintro ⟨m', hm', hrest⟩
    exact ⟨m', List.mem_append_left _ hm', hrest⟩
  · rintro ⟨m', hm', hdir, hfree⟩
    rcases List.mem_append.mp hm' with hm' | hm'
    · exact ⟨m', hm', hdir, hfree⟩
    · obtain rfl := List.mem_singleton.mp hm'
      obtain rfl : d = d' := Option.some.inj (hm.symm.trans hdir)
      exact (hdecl d).mp (hold.resolve_right hfree)

theorem Settled.insert (hset : Settled roots) (hm : manifestDirectory m = some d) (hd : d ∉ roots)
    (hfree : ¬ Blocked roots m d) (habove : ∀ d' ∈ roots, ¬ Encloses '/' d d') :
    Settled (insert d roots) := by
  intro r hr d' hd' hne hencl p hp
  rcases Finset.mem_insert.mp hd' with rfl | hold
  · rcases Finset.mem_insert.mp hr with rfl | hr
    · have := hencl.length_lt hne
      omega
    · -- What an older root takes of the new directory, it would take of the manifest.
      have hrd : r ≠ d' := fun h => hd (h ▸ hr)
      have hencl' : Encloses '/' d' m := (encloses_manifest hm).mpr (.inl rfl)
      rw [resourceClass_congr hencl hne hp hencl']
      by_contra hcls
      exact hfree ⟨r, hr, hrd, hencl, Option.isSome_iff_ne_none.mpr hcls⟩
  · rcases Finset.mem_insert.mp hr with rfl | hr
    · exact absurd hencl (habove d' hold)
    · exact hset r hr d' hold hne hencl p hp

theorem Declares.insert_new (hdecl : Declares (· ∈ L) roots) (hm : manifestDirectory m = some d)
    (hfree : ¬ Blocked roots m d) (habove : ∀ d' ∈ roots, ¬ Encloses '/' d d') :
    Declares (· ∈ L ++ [m]) (insert d roots) := by
  intro d'
  constructor
  · intro hd'
    rcases Finset.mem_insert.mp hd' with rfl | hold
    · refine ⟨m, by simp, hm, ?_⟩
      rintro ⟨r, hr, hne, hrest⟩
      exact hfree ⟨r, Finset.mem_of_mem_insert_of_ne hr hne, hne, hrest⟩
    · obtain ⟨m', hm', hdir, hfree'⟩ := (hdecl d').mp hold
      refine ⟨m', List.mem_append_left _ hm', hdir, ?_⟩
      rintro ⟨r, hr, hne, hencl, hcls⟩
      rcases Finset.mem_insert.mp hr with rfl | hr
      · exact habove d' hold hencl
      · exact hfree' ⟨r, hr, hne, hencl, hcls⟩
  · rintro ⟨m', hm', hdir, hfree'⟩
    rcases List.mem_append.mp hm' with hm' | hm'
    · refine Finset.mem_insert_of_mem ((hdecl d').mpr ⟨m', hm', hdir, fun hb => hfree' ?_⟩)
      exact hb.mono (Finset.subset_insert _ _)
    · obtain rfl := List.mem_singleton.mp hm'
      obtain rfl : d = d' := Option.some.inj (hm.symm.trans hdir)
      exact Finset.mem_insert_self _ _

/-- What holds while manifests are inserted in the order of their lengths. -/
theorem insertManifest_declares (hset : Settled roots)
    (hdecl : Declares (· ∈ L) roots) (hm : manifestDirectory m = some d)
    (hlong : ∀ m' ∈ L, utf8Len m' ≤ utf8Len m) :
    Settled ((PackageIndex.mk roots).insertManifest m).roots ∧
      Declares (· ∈ L ++ [m]) ((PackageIndex.mk roots).insertManifest m).roots := by
  by_cases hold : d ∈ roots ∨ Blocked roots m d
  · rw [insertManifest_old hset hm hold]
    exact ⟨hset, hdecl.insert_old hm hold⟩
  · obtain ⟨hd, hfree⟩ := not_or.mp hold
    -- The new root is not above any older one, whose manifest is no longer than its own.
    have habove : ∀ d' ∈ roots, ¬ Encloses '/' d d' := by
      intro d' hd' hencl
      obtain ⟨m', hm', hdir, -⟩ := (hdecl d').mp hd'
      have hlt := utf8Len_lt_of_encloses hm hdir hencl fun h => hd (h ▸ hd')
      have hle := hlong m' hm'
      omega
    rw [insertManifest_new hset hm hfree]
    exact ⟨hset.insert hm hd hfree habove, hdecl.insert_new hm hfree habove⟩

end Insert

instance : Std.Total PackageIndex.manifestOrder where
  total a b := by
    unfold PackageIndex.manifestOrder
    rcases lt_trichotomy (utf8Len a) (utf8Len b) with hlt | heq | hgt
    · exact .inl (.inl hlt)
    · exact (le_total a b).imp (fun h => .inr ⟨heq, h⟩) fun h => .inr ⟨heq.symm, h⟩
    · exact .inr (.inl hgt)

instance : IsTrans Text PackageIndex.manifestOrder where
  trans a b c hab hbc := by
    unfold PackageIndex.manifestOrder at *
    rcases hab with hab | ⟨hab, hle⟩
    · exact .inl (by omega)
    · rcases hbc with hbc | ⟨hbc, hle'⟩
      · exact .inl (by omega)
      · exact .inr ⟨by omega, le_trans hle hle'⟩

theorem foldl_insertManifest (L : List Text) (hman : ∀ m ∈ L, (manifestDirectory m).isSome)
    (hord : L.Pairwise PackageIndex.manifestOrder) :
    Settled (L.foldl PackageIndex.insertManifest ⟨∅⟩).roots ∧
      Declares (· ∈ L) (L.foldl PackageIndex.insertManifest ⟨∅⟩).roots := by
  induction L using List.reverseRecOn with
  | nil =>
    constructor
    · intro r hr
      simp at hr
    · intro d
      simp
  | append_singleton L m ih =>
    obtain ⟨hL, -, hlast⟩ := List.pairwise_append.mp hord
    obtain ⟨hset, hdecl⟩ := ih (fun m' hm' => hman m' (by simp [hm'])) hL
    obtain ⟨d, hd⟩ := Option.isSome_iff_exists.mp (hman m (by simp))
    rw [List.foldl_append]
    refine insertManifest_declares hset hdecl hd fun m' hm' => ?_
    have hle := hlast m' hm' m (by simp)
    unfold PackageIndex.manifestOrder at hle
    omega

theorem fromPaths_spec (paths : List Text) : Settled (PackageIndex.fromPaths paths).roots ∧
    Declares (· ∈ paths) (PackageIndex.fromPaths paths).roots := by
  have hmem : ∀ m, m ∈ (paths.filter fun path => (manifestDirectory path).isSome).insertionSort
      PackageIndex.manifestOrder ↔ m ∈ paths ∧ (manifestDirectory m).isSome := by
    intro m
    rw [List.mem_insertionSort, List.mem_filter]
  obtain ⟨hset, hdecl⟩ := foldl_insertManifest _ (fun m hm => ((hmem m).mp hm).2)
    (List.pairwise_insertionSort PackageIndex.manifestOrder
      (paths.filter fun path => (manifestDirectory path).isSome))
  refine ⟨hset, fun d => (hdecl d).trans (exists_congr fun m => ?_)⟩
  constructor
  · rintro ⟨hm, hrest⟩
    exact ⟨((hmem m).mp hm).1, hrest⟩
  · rintro ⟨hm, hdir, hfree⟩
    exact ⟨(hmem m).mpr ⟨hm, by simp [hdir]⟩, hdir, hfree⟩

theorem fromPaths_settled (paths : List Text) : Settled (PackageIndex.fromPaths paths).roots :=
  (fromPaths_spec paths).1

theorem fromPaths_declares (paths : List Text) :
    Declares (· ∈ paths) (PackageIndex.fromPaths paths).roots :=
  (fromPaths_spec paths).2

section Classes

variable {index : PackageIndex}

theorem md_suffix_of_isMarkdown {name : Text} (h : isMarkdown name = true) : ".md" <:+ name := by
  unfold isMarkdown at h
  cases hs : rsplitOnce '.' name with
  | none => simp [hs] at h
  | some xy =>
    obtain ⟨hx, -⟩ := rsplitOnce_some.mp hs
    simp only [hs, Bool.and_eq_true, beq_iff_eq] at h
    rw [hx, h.2]
    exact ⟨xy.1, rfl⟩

theorem classify_ok (h : index.classify p = some cls) :
    (∃ r, index.ownerOf p = some r ∧ resourceClass r p = some cls) ∨
    (index.ownerOf p).bind (resourceClass · p) = none ∧
      ((splitParent '/' p).2 ∈ reservedFileNames ∧ cls = .reserved ∨
        (splitParent '/' p).2 ∉ reservedFileNames ∧
          ((splitParent '/' p).2 = skillManifest ∧ cls = .skillManifest ∨
            isMarkdown (splitParent '/' p).2 = true ∧ cls = .okfDocument)) := by
  unfold PackageIndex.classify at h
  cases hres : (index.ownerOf p).bind (resourceClass · p) with
  | some cls' =>
    simp only [hres, Option.some.injEq] at h
    subst h
    exact .inl (Option.bind_eq_some_iff.mp hres)
  | none =>
    simp only [hres] at h
    refine .inr ⟨rfl, ?_⟩
    split at h
    next hname => exact .inl ⟨hname, (Option.some.inj h).symm⟩
    next hname =>
      refine .inr ⟨hname, ?_⟩
      split at h
      next hskill => exact .inl ⟨hskill, (Option.some.inj h).symm⟩
      next =>
        split at h
        next hmd => exact .inr ⟨hmd, (Option.some.inj h).symm⟩
        next => cases h

theorem classify_cases (h : index.classify p = some cls) :
    (∃ r, index.ownerOf p = some r ∧ resourceClass r p = some cls) ∨
    ((index.ownerOf p).bind (resourceClass · p) = none ∧ cls.isResource = false ∧
      ".md" <:+ (splitParent '/' p).2) := by
  rcases classify_ok h with hres | ⟨hnone, ⟨hname, rfl⟩ | ⟨-, ⟨hname, rfl⟩ | ⟨hmd, rfl⟩⟩⟩
  · exact .inl hres
  · obtain h | h : _ ∨ _ := by simpa [reservedFileNames] using hname
    · exact .inr ⟨hnone, rfl, h ▸ by decide⟩
    · exact .inr ⟨hnone, rfl, h ▸ by decide⟩
  · exact .inr ⟨hnone, rfl, hname ▸ by decide⟩
  · exact .inr ⟨hnone, rfl, md_suffix_of_isMarkdown hmd⟩

theorem Settled.classify (hset : Settled index.roots) (hr : r ∈ index.roots)
    (hcls : resourceClass r p = some cls) : index.ownerOf p = some r ∧ index.classify p = some cls := by
  have hown : index.ownerOf p = some r := hset.owner hr hcls
  refine ⟨hown, ?_⟩
  simp [PackageIndex.classify, hown, hcls]

theorem classify_resource (h : index.classify p = some cls) (hres : cls.isResource = true) :
    ∃ r ∈ index.roots, index.ownerOf p = some r ∧ resourceClass r p = some cls := by
  obtain ⟨r, hr, hcls⟩ | ⟨-, hnot, -⟩ := classify_cases h
  · exact ⟨r, (nearest_mem hr).1, hr, hcls⟩
  · simp [hres] at hnot

theorem splitParent_suffix (p : Text) : (splitParent '/' p).2 <:+ p := by
  unfold splitParent
  cases hs : rsplitOnce '/' p with
  | none => exact List.suffix_refl p
  | some xy =>
    obtain ⟨hp, -⟩ := rsplitOnce_some.mp hs
    exact ⟨xy.1 ++ ['/'], by simp [hp]⟩

theorem conceptId_append (h : index.classify p = some cls) (hres : cls.isResource = false) :
    cls.conceptId p ++ ".md" = p := by
  obtain ⟨r, -, hcls⟩ | ⟨-, -, hmd⟩ := classify_cases h
  · simp [resourceClass_isResource hcls] at hres
  · obtain ⟨x, hx⟩ := hmd.trans (splitParent_suffix p)
    have hstrip : ".md".toList.isSuffixOf? p = some x := by
      rw [List.isSuffixOf?_eq_some_iff_append_eq]
      exact hx
    simp only [FileClass.conceptId, hres, hstrip]
    exact hx

theorem conceptId_resource (hres : cls.isResource = true) : cls.conceptId p = p := by
  simp [FileClass.conceptId, hres]

theorem conceptId_injective (hset : Settled index.roots) {cls' : FileClass}
    (hp : index.classify p = some cls) (hq : index.classify q = some cls')
    (hid : cls.conceptId p = cls'.conceptId q) : p = q := by
  -- A resource whose id is that of a document would take the document for a resource too.
  have hmixed : ∀ {p q cls cls'}, index.classify p = some cls → index.classify q = some cls' →
      cls.isResource = true → cls'.isResource = false → cls.conceptId p ≠ cls'.conceptId q := by
    intro p q cls cls' hp hq hres hres' hid
    obtain ⟨r, hr, -, hcls⟩ := classify_resource hp hres
    have hq' := conceptId_append hq hres'
    rw [← hid, conceptId_resource hres] at hq'
    have hcls' := hset.classify hr (resourceClass_append hcls ".md")
    rw [hq'] at hcls'
    rw [Option.some.inj (hq.symm.trans hcls'.2), hres] at hres'
    cases hres'
  cases hres : cls.isResource with
  | true =>
    cases hres' : cls'.isResource with
    | true => rwa [conceptId_resource hres, conceptId_resource hres'] at hid
    | false => exact absurd hid (hmixed hp hq hres hres')
  | false =>
    cases hres' : cls'.isResource with
    | true => exact absurd hid.symm (hmixed hq hp hres' hres)
    | false => rw [← conceptId_append hp hres, ← conceptId_append hq hres', hid]

theorem classify_manifest_of_root (hm : manifestDirectory m = some d) (hd : d ∈ index.roots) :
    index.classify m = some .skillManifest := by
  have hencl : Encloses '/' d m := (encloses_manifest hm).mpr (.inl rfl)
  have hown : index.ownerOf m = some d := by
    refine nearest_eq_some.mpr ⟨hd, hencl, fun r _ hr => ?_⟩
    obtain rfl | hrd := (encloses_manifest hm).mp hr
    · exact Nat.le_refl _
    · by_cases hnil : r = []
      · simp [hnil]
      · exact (hrd.length_lt hnil).le
  have hname : (splitParent '/' m).2 = skillManifest := by
    unfold manifestDirectory at hm
    dsimp only at hm
    split at hm
    · assumption
    · cases hm
  have hplain : skillManifest ∉ reservedFileNames := by decide
  simp [PackageIndex.classify, hown, resourceClass_manifest hm, hname, hplain]

theorem manifestDirectory_of_classify (h : index.classify m = some .skillManifest) :
    ∃ d, manifestDirectory m = some d := by
  rcases classify_ok h with ⟨r, -, hcls⟩ | ⟨-, ⟨-, hcls⟩ | ⟨-, ⟨hname, -⟩ | ⟨-, hcls⟩⟩⟩
  · exact absurd (resourceClass_isResource hcls) (by decide)
  · cases hcls
  · exact ⟨(splitParent '/' m).1, by simp [manifestDirectory, hname]⟩
  · cases hcls

end Classes

section FromPaths

variable {paths : List Text}

theorem root_or_resource (hmem : m ∈ paths) (hm : manifestDirectory m = some d) :
    d ∈ (PackageIndex.fromPaths paths).roots ∨
      ∃ cls, (PackageIndex.fromPaths paths).classify m = some cls ∧ cls.isResource = true := by
  by_cases hd : d ∈ (PackageIndex.fromPaths paths).roots
  · exact .inl hd
  · right
    have hblocked : Blocked (PackageIndex.fromPaths paths).roots m d := by
      by_contra hfree
      exact hd ((fromPaths_declares paths d).mpr ⟨m, hmem, hm, hfree⟩)
    obtain ⟨r, hr, -, -, hres⟩ := hblocked
    obtain ⟨cls, hcls⟩ := Option.isSome_iff_exists.mp hres
    exact ⟨cls, ((fromPaths_settled paths).classify hr hcls).2, resourceClass_isResource hcls⟩

theorem classify_manifest_iff (hmem : m ∈ paths) (hm : manifestDirectory m = some d) :
    (PackageIndex.fromPaths paths).classify m = some .skillManifest ↔
      d ∈ (PackageIndex.fromPaths paths).roots := by
  refine ⟨fun hcls => ?_, classify_manifest_of_root hm⟩
  rcases root_or_resource hmem hm with hd | ⟨cls, hcls', hres⟩
  · exact hd
  · rw [Option.some.inj (hcls'.symm.trans hcls)] at hres
    cases hres

/-- The index built from the manifests alone is the index built from all paths. -/
theorem fromPaths_manifests : PackageIndex.fromPaths (paths.filter fun p =>
    (PackageIndex.fromPaths paths).classify p = some .skillManifest) = PackageIndex.fromPaths paths := by
  have hroots := (fromPaths_declares paths).unique (fromPaths_declares (paths.filter fun p =>
      (PackageIndex.fromPaths paths).classify p = some .skillManifest))
    (fun m d _ hm => (List.mem_filter.mp hm).1)
    (fun m d hdir hm hd =>
      List.mem_filter.mpr ⟨hm, decide_eq_true ((classify_manifest_iff hm hdir).mpr hd)⟩)
  exact PackageIndex.ext hroots.symm

theorem fromPaths_congr {paths' : List Text} (h : ∀ p, p ∈ paths ↔ p ∈ paths') :
    PackageIndex.fromPaths paths = PackageIndex.fromPaths paths' := by
  have hroots := (fromPaths_declares paths).unique (fromPaths_declares paths')
    (fun m _ _ hm => (h m).mpr hm) (fun m _ _ hm _ => (h m).mp hm)
  exact PackageIndex.ext hroots

end FromPaths

def resourceDirectories : List Text := ["scripts", "references", "assets"]

def packageDirectory (root name : Text) : Text := if root = [] then name else root ++ '/' :: name

/- A directory that is one of the resource directories of the package at `root`, or lies below one. -/
def InResources (root d : Text) : Prop :=
  ∃ name ∈ resourceDirectories, d = packageDirectory root name ∨
    Encloses '/' (packageDirectory root name) d

theorem relative_packageDirectory (r name x : Text) :
    relative '/' r (packageDirectory r name ++ '/' :: x) = some (name ++ '/' :: x) := by
  unfold packageDirectory
  by_cases hr : r = []
  · rw [if_pos hr]
    exact relative_eq_some.mpr (.inl ⟨hr, rfl⟩)
  · rw [if_neg hr]
    exact relative_eq_some.mpr (.inr ⟨hr, by simp⟩)

variable {name : Text}

theorem resourceClass_of_directory (hname : name ∈ resourceDirectories) (x : Text) :
    ∃ cls, resourceClass r (packageDirectory r name ++ '/' :: x) = some cls := by
  have hplain : ∀ name ∈ resourceDirectories,
      splitOnce '/' name = none ∧ (directoryClass name).isSome = true := by decide
  obtain ⟨hsplit, hdir⟩ := hplain name hname
  rw [resourceClass_eq, relative_packageDirectory, Option.bind_some, splitOnce_fst, hsplit]
  exact Option.isSome_iff_exists.mp hdir

theorem packageDirectory_ne_nil (hname : name ∈ resourceDirectories) :
    packageDirectory r name ≠ [] := by
  have hne : ∀ name ∈ resourceDirectories, name ≠ [] := by decide
  unfold packageDirectory
  split
  · exact hne name hname
  · simp

theorem InResources.below (h : InResources r d) (x : Text) :
    ∃ name ∈ resourceDirectories, ∃ y, d ++ '/' :: x = packageDirectory r name ++ '/' :: y := by
  obtain ⟨name, hname, rfl | hencl⟩ := h
  · exact ⟨name, hname, x, rfl⟩
  · obtain hnil | ⟨rest, rfl⟩ := hencl
    · exact absurd hnil (packageDirectory_ne_nil hname)
    · exact ⟨name, hname, rest ++ '/' :: x, by simp⟩

theorem InResources.ne_nil (h : InResources r d) : d ≠ [] := by
  obtain ⟨name, hname, rfl | hencl⟩ := h
  · exact packageDirectory_ne_nil hname
  · obtain hnil | ⟨rest, rfl⟩ := hencl
    · exact absurd hnil (packageDirectory_ne_nil hname)
    · simp

theorem Settled.not_inResources (h : Settled roots) (hr : r ∈ roots) (hd : d ∈ roots) :
    ¬ InResources r d := by
  intro hin
  have hne := hin.ne_nil
  obtain ⟨name, hname, y, hy⟩ := hin.below skillManifest
  obtain ⟨cls, hcls⟩ := resourceClass_of_directory (r := r) hname y
  rw [← hy] at hcls
  have hbelow : Encloses '/' d (d ++ '/' :: skillManifest) := .inr ⟨skillManifest, rfl⟩
  -- The package at `r` would take the manifest at `d` for a resource.
  have hself : manifestDirectory (d ++ '/' :: skillManifest) = some d :=
    manifestDirectory_eq_some.mpr (.inr rfl)
  have hencl := (encloses_manifest hself).mp (resourceClass_encloses hcls)
  obtain rfl | hrd := hencl
  · rw [resourceClass_manifest hself] at hcls
    cases hcls
  · rw [h r hr d hd hne hrd _ hbelow] at hcls
    cases hcls

/-- Every resource has one owner, whatever the nesting of the packages and the order of the paths. -/
theorem ownership_partition (paths : List Text) :
    (∀ r ∈ (PackageIndex.fromPaths paths).roots, ∀ d ∈ (PackageIndex.fromPaths paths).roots,
      ¬ InResources r d) ∧
    (∀ r ∈ (PackageIndex.fromPaths paths).roots, ∀ p cls, resourceClass r p = some cls →
      (PackageIndex.fromPaths paths).ownerOf p = some r ∧
      ∀ r' ∈ (PackageIndex.fromPaths paths).roots, ∀ cls', resourceClass r' p = some cls' → r' = r) ∧
    ∀ paths' : List Text, paths'.Perm paths →
      PackageIndex.fromPaths paths' = PackageIndex.fromPaths paths := by
  have hset := fromPaths_settled paths
  refine ⟨fun r hr d hd => hset.not_inResources hr hd, fun r hr p cls hcls => ?_, fun paths' hperm => ?_⟩
  · have hown : (PackageIndex.fromPaths paths).ownerOf p = some r := hset.owner hr hcls
    refine ⟨hown, fun r' hr' cls' hcls' => ?_⟩
    exact Option.some.inj ((hset.owner hr' hcls').symm.trans hown)
  · exact fromPaths_congr fun p => hperm.mem_iff

theorem ownership_partition_nested :
    (PackageIndex.fromPaths ["kit/references/SKILL.md".toList, "kit/SKILL.md".toList]).ownerOf
      "kit/references/SKILL.md".toList = some "kit".toList ∧
    PackageIndex.fromPaths ["kit/SKILL.md".toList, "kit/references/SKILL.md".toList] =
      PackageIndex.fromPaths ["kit/references/SKILL.md".toList, "kit/SKILL.md".toList] := by
  obtain ⟨-, hown, horder⟩ :=
    ownership_partition ["kit/references/SKILL.md".toList, "kit/SKILL.md".toList]
  exact ⟨(hown "kit".toList (by decide) _ .skillReference (by decide)).1,
    horder _ (List.Perm.swap _ _ [])⟩

end Pgokf.Sync
