import Mathlib.Data.List.TakeWhile
import Mathlib.Data.Set.Finite.Lattice
import Pgokf.Lib.Decimal
import Pgokf.Lib.Keyset
import Pgokf.Workspace.Tree

/-! # Names and directories (`plugin.rs`, `okf-parser`'s `skill.rs`)

Directories of packages are distinct names of the Agent Skills standard, and those of bundles are
distinct unless a numbered one takes the slug of another bundle. -/

namespace Pgokf.Workspace

open Lib Catalog Sync

def nameMaxLen : Nat := 64

def isNameChar (c : Char) : Bool := c.isLower || c.isDigit || c == '-'

/- A name that passes is ASCII, so that its bytes are its characters. -/
def isValidName (name : Text) : Bool :=
  !name.isEmpty && decide (name.length ≤ nameMaxLen) && name.head? != some '-' &&
    name.getLast? != some '-' &&
    !decide (['-', '-'] <:+: name) && name.all isNameChar

/-- The start of a name: it may still end with a hyphen, and has no bound. -/
structure Hyphenated (t : Text) : Prop where
  chars : ∀ c ∈ t, isNameChar c = true
  head : t.head? ≠ some '-'
  single : ¬['-', '-'] <:+: t

variable {s t : Text} {c : Char}

theorem isValidName_iff :
    isValidName t = true ↔ t ≠ [] ∧ t.length ≤ nameMaxLen ∧ t.getLast? ≠ some '-' ∧ Hyphenated t := by
  simp only [isValidName, Bool.and_eq_true, Bool.not_eq_true', List.isEmpty_eq_false_iff,
    decide_eq_true_eq,
    bne_iff_ne, decide_eq_false_iff_not, List.all_eq_true]
  constructor
  · intro ⟨⟨⟨⟨⟨hne, hlength⟩, hhead⟩, hlast⟩, hsingle⟩, hchars⟩
    exact ⟨hne, hlength, hlast, hchars, hhead, hsingle⟩
  · intro ⟨hne, hlength, hlast, hchars, hhead, hsingle⟩
    exact ⟨⟨⟨⟨⟨hne, hlength⟩, hhead⟩, hlast⟩, hsingle⟩, hchars⟩

theorem hyphenated_nil : Hyphenated [] := ⟨by simp, by simp, by simp⟩

theorem Hyphenated.of_prefix (h : Hyphenated t) (hs : s <+: t) : Hyphenated s where
  chars c hc := h.chars c (hs.subset hc)
  head := by
    cases s with
    | nil => simp
    | cons c s =>
      obtain ⟨rest, rfl⟩ := hs
      exact h.head
  single hinside := h.single (hinside.trans hs.isInfix)

theorem Hyphenated.concat (h : Hyphenated t) (hc : isNameChar c = true)
    (hnext : c = '-' → t ≠ [] ∧ t.getLast? ≠ some '-') :
    Hyphenated (t ++ [c]) where
  chars d hd := by
    rcases List.mem_append.mp hd with hd | hd
    · exact h.chars d hd
    · rwa [List.mem_singleton.mp hd]
  head := by
    cases t with
    | nil =>
      intro hhead
      exact (hnext (Option.some.inj hhead)).1 rfl
    | cons a t => exact h.head
  single := by
    rw [List.infix_concat_iff, List.suffix_concat_iff]
    rintro ((hnil | ⟨front, hfront, hsuffix⟩) | hinside)
    · cases hnil
    · have hparts : front = ['-'] ∧ '-' = c := by
        have hlength : front.length = 1 := by
          simpa using (congrArg List.length hfront).symm
        have happend : ['-'] ++ ['-'] = front ++ [c] := hfront
        obtain ⟨hleft, hright⟩ := List.append_inj happend hlength.symm
        exact ⟨hleft.symm, (List.cons.inj hright).1⟩
      obtain ⟨rfl, rfl⟩ := hparts
      obtain ⟨rest, rfl⟩ := hsuffix
      exact (hnext rfl).2 (by simp)
    · exact h.single hinside

/-! ### Slugs -/

/-- What the Unicode tables say of ASCII: a lowered character is no capital, and the characters of a
name are their own lower case. -/
structure Unicode.LowersAscii (unicode : Unicode) : Prop where
  lowered : ∀ c, ∀ d ∈ unicode.lowerChar c, d.isUpper = false
  kept : ∀ c, isNameChar c = true → unicode.lowerChar c = [c]

variable {unicode : Unicode}

theorem isUpper_bounds (hc : c.isUpper = true) : 65 ≤ c.val.toNat ∧ c.val.toNat ≤ 90 := by
  change decide (c.val ≥ 'A'.val ∧ c.val ≤ 'Z'.val) = true at hc
  simpa [UInt32.le_iff_toNat_le] using hc

theorem isNameChar_bounds (hc : isNameChar c = true) :
    (97 ≤ c.val.toNat ∧ c.val.toNat ≤ 122) ∨ (48 ≤ c.val.toNat ∧ c.val.toNat ≤ 57) ∨ c = '-' := by
  change (decide ('a'.val ≤ c.val) && decide (c.val ≤ 'z'.val) ||
    (decide ('0'.val ≤ c.val) && decide (c.val ≤ '9'.val)) || c == '-') = true at hc
  simpa [UInt32.le_iff_toNat_le, or_assoc] using hc

theorem isNameChar_of_alphanum (hc : c.isAlphanum = true) (hlow : c.isUpper = false) :
    isNameChar c = true ∧ c ≠ '-' := by
  constructor
  · change ((c.isUpper || c.isLower) || c.isDigit) = true at hc
    rw [hlow, Bool.false_or] at hc
    rw [isNameChar, hc, Bool.true_or]
  · rintro rfl
    exact absurd hc (by decide)

theorem isAlphanum_of_isNameChar (hc : isNameChar c = true) (hne : c ≠ '-') : c.isAlphanum = true := by
  simp only [isNameChar, Bool.or_eq_true, beq_iff_eq, hne, or_false] at hc
  change ((c.isUpper || c.isLower) || c.isDigit) = true
  simp only [Bool.or_eq_true]
  rcases hc with hc | hc
  · exact .inl (.inr hc)
  · exact .inr hc

/-- What the loop has written: a name, but for its length. -/
def Written (out : Text) : Prop := Hyphenated out ∧ out.getLast? ≠ some '-'

variable {acc : Text × Bool}

theorem Written.slugStep (h : Written acc.1) (hlow : c.isUpper = false) :
    Written (slugStep acc c).1 := by
  obtain ⟨hout, hlast⟩ := h
  rw [Workspace.slugStep]
  split
  next hc =>
    obtain ⟨hchar, hne⟩ := isNameChar_of_alphanum hc hlow
    have hfront : Hyphenated (if acc.2 && !acc.1.isEmpty then acc.1 ++ ['-'] else acc.1) := by
      split
      next hpending =>
        have hnonempty : acc.1 ≠ [] := by
          simp only [Bool.and_eq_true, Bool.not_eq_true', List.isEmpty_eq_false_iff] at hpending
          exact hpending.2
        exact hout.concat (by decide) fun _ => ⟨hnonempty, hlast⟩
      next => exact hout
    refine ⟨hfront.concat hchar fun h => absurd h hne, ?_⟩
    rw [List.getLast?_concat]
    exact fun h => hne (Option.some.inj h)
  next => exact ⟨hout, hlast⟩

theorem Written.foldl (h : Written acc.1) (hlow : ∀ c ∈ t, c.isUpper = false) :
    Written (t.foldl Workspace.slugStep acc).1 := by
  induction t generalizing acc with
  | nil => exact h
  | cons c t ih =>
    rw [List.foldl_cons]
    apply ih
    · exact h.slugStep (hlow c (by simp))
    · exact fun d hd => hlow d (by simp [hd])

theorem trimEndMatches_prefix (p : Char → Bool) (t : Text) : trimEndMatches p t <+: t := by
  have hsuffix := List.dropWhile_suffix p (l := t.reverse)
  rw [← List.reverse_prefix, List.reverse_reverse] at hsuffix
  exact hsuffix

theorem trimEndMatches_last (p : Char → Bool) (t : Text) (hc : (trimEndMatches p t).getLast? = some c) :
    p c = false := by
  rw [trimEndMatches, List.getLast?_reverse] at hc
  have hhead := List.head?_dropWhile_not p t.reverse
  rw [hc] at hhead
  simpa using hhead

theorem trimEndMatches_of_last {p : Char → Bool} (h : ∀ c, t.getLast? = some c → p c = false) :
    trimEndMatches p t = t := by
  rw [trimEndMatches]
  cases hreverse : t.reverse with
  | nil =>
    rw [List.reverse_eq_nil_iff] at hreverse
    rw [hreverse]
    rfl
  | cons c rest =>
    have hlast : t.getLast? = some c := by
      rw [List.getLast?_eq_head?_reverse, hreverse]
      rfl
    rw [List.dropWhile_cons_of_neg (by simp [h c hlast]), ← hreverse, List.reverse_reverse]

theorem Hyphenated.cut (h : Hyphenated t) (n : Nat) :
    Hyphenated (trimEndMatches (· == '-') (t.take n)) ∧
      (trimEndMatches (· == '-') (t.take n)).length ≤ n ∧
      (trimEndMatches (· == '-') (t.take n)).getLast? ≠ some '-' := by
  have hfront := trimEndMatches_prefix (· == '-') (t.take n)
  refine ⟨h.of_prefix (hfront.trans (List.take_prefix n t)), ?_, ?_⟩
  · have hlength := hfront.length_le
    rw [List.length_take] at hlength
    omega
  · intro hlast
    have hnot := trimEndMatches_last _ _ hlast
    simp at hnot

theorem isValidName_slug (hascii : unicode.LowersAscii) (name : Text) :
    isValidName (slug unicode name) = true := by
  rw [slug]
  generalize hout : (((trim name).flatMap unicode.lowerChar).foldl slugStep ([], false)).1 = out
  have hwritten : Written out := by
    rw [← hout]
    apply Written.foldl
    · exact ⟨hyphenated_nil, by simp⟩
    · intro d hd
      obtain ⟨c, -, hd⟩ := List.mem_flatMap.mp hd
      exact hascii.lowered c d hd
  obtain ⟨hhyphenated, hlength, hlast⟩ := hwritten.1.cut nameMax
  split
  next => decide
  next hne => exact isValidName_iff.mpr ⟨by simpa using hne, hlength, hlast, hhyphenated⟩

theorem trimEndMatches_concat (p : Char → Bool) (t : Text) (c : Char) :
    trimEndMatches p (t ++ [c]) = if p c then trimEndMatches p t else t ++ [c] := by
  rw [trimEndMatches, List.reverse_concat, List.dropWhile_cons]
  split
  · rfl
  · rw [List.reverse_cons, List.reverse_reverse]

/-- Over a name nothing is lost: what is written lags behind by the hyphen that is pending. -/
theorem Hyphenated.foldl_slugStep (h : Hyphenated t) :
    t.foldl slugStep ([], false) = (trimEndMatches (· == '-') t, decide (t.getLast? = some '-')) := by
  induction t using List.reverseRecOn with
  | nil => rfl
  | append_singleton t c ih =>
    have hfront := h.of_prefix (List.prefix_append t [c])
    rw [List.foldl_concat, ih hfront, trimEndMatches_concat, List.getLast?_concat, slugStep]
    by_cases hhyphen : c = '-'
    · subst hhyphen
      rfl
    · have halnum := isAlphanum_of_isNameChar (h.chars c (by simp)) hhyphen
      simp only [halnum, if_true, beq_iff_eq, hhyphen, if_false, Option.some.injEq, decide_false]
      congr 2
      by_cases hlast : t.getLast? = some '-'
      · obtain ⟨front, rfl⟩ : ∃ front, t = front ++ ['-'] := by
          obtain ⟨front, hfront⟩ := List.getLast?_eq_some_iff.mp hlast
          exact ⟨front, hfront⟩
        have hkept : trimEndMatches (· == '-') (front ++ ['-']) = front := by
          rw [trimEndMatches_concat]
          apply trimEndMatches_of_last
          intro d hd
          -- A second hyphen before the last one would double it.
          by_contra hd'
          obtain rfl : d = '-' := by simpa using hd'
          obtain ⟨more, rfl⟩ := List.getLast?_eq_some_iff.mp hd
          exact hfront.single ⟨more, [], by simp⟩
        have hnonempty : front ≠ [] := by
          rintro rfl
          exact hfront.head rfl
        rw [hkept]
        simp [hnonempty]
      · have hkept : trimEndMatches (· == '-') t = t := by
          apply trimEndMatches_of_last
          rintro d hd
          simp only [beq_eq_false_iff_ne]
          rintro rfl
          exact hlast hd
        simp [hkept, hlast]

theorem isWhitespace_of_isNameChar (hc : isNameChar c = true) : isWhitespace c = false := by
  have hrange : 45 ≤ c.toNat ∧ c.toNat ≤ 122 := by
    change 45 ≤ c.val.toNat ∧ c.val.toNat ≤ 122
    rcases isNameChar_bounds hc with hlower | hdigit | rfl
    · omega
    · omega
    · decide
  simp only [isWhitespace, Bool.or_eq_false_iff, Bool.and_eq_false_iff, decide_eq_false_iff_not,
    beq_eq_false_iff_ne]
  omega

theorem slug_of_isValidName (hascii : unicode.LowersAscii) (h : isValidName t = true) :
    slug unicode t = t := by
  obtain ⟨hne, hlength, hlast, hhyphenated⟩ := isValidName_iff.mp h
  have htrim : trim t = t := trim_of_no_whitespace fun c hc =>
    isWhitespace_of_isNameChar (hhyphenated.chars c hc)
  have hlower : t.flatMap unicode.lowerChar = t := by
    rw [List.flatMap_congr fun c hc => hascii.kept c (hhyphenated.chars c hc)]
    simp
  have hend : trimEndMatches (· == '-') t = t := by
    apply trimEndMatches_of_last
    intro c hc
    simp only [beq_eq_false_iff_ne]
    rintro rfl
    exact hlast hc
  have hcut : t.take nameMax = t := List.take_of_length_le hlength
  rw [slug, htrim, hlower, hhyphenated.foldl_slugStep]
  simp only [hend, hcut]
  exact if_neg (by simp [hne])

theorem slug_eq_self_iff (hascii : unicode.LowersAscii) (name : Text) :
    slug unicode name = name ↔ isValidName name = true := by
  constructor
  · intro h
    rw [← h]
    exact isValidName_slug hascii name
  · exact slug_of_isValidName hascii

theorem Hyphenated.append_digits {ds : Text} (h : Hyphenated t) (hds : ∀ c ∈ ds, c.isDigit = true) :
    Hyphenated (t ++ ds) := by
  induction ds generalizing t with
  | nil => rwa [List.append_nil]
  | cons c ds ih =>
    have hdigit := hds c (by simp)
    have hne : c ≠ '-' := by
      rintro rfl
      exact absurd hdigit (by decide)
    rw [List.append_cons]
    apply ih
    · exact h.concat (by simp [isNameChar, hdigit]) fun hc => absurd hc hne
    · exact fun d hd => hds d (by simp [hd])

theorem Written.numbered (h : Written t) (hne : t ≠ []) (n : Nat) :
    Written (t ++ '-' :: Nat.toDigits 10 n) := by
  have hdigits : ∀ c ∈ Nat.toDigits 10 n, c.isDigit = true := fun c hc =>
    Nat.isDigit_of_mem_toDigits (by decide) (by decide) hc
  constructor
  · rw [List.append_cons]
    exact (h.1.concat (by decide) fun _ => ⟨hne, h.2⟩).append_digits hdigits
  · intro hlast
    have hmem : '-' ∈ Nat.toDigits 10 n := by
      rw [List.getLast?_append_of_ne_nil _ (by simp),
        List.getLast?_cons_of_ne_nil Nat.toDigits_ne_nil] at hlast
      exact List.mem_of_getLast? hlast
    exact notMem_toDigits n hmem

theorem Hyphenated.cut_ne_nil (h : Hyphenated t) (hne : t ≠ []) {n : Nat} (hn : 0 < n) :
    trimEndMatches (· == '-') (t.take n) ≠ [] := by
  obtain ⟨c, rest, rfl⟩ := List.exists_cons_of_ne_nil hne
  obtain ⟨n, rfl⟩ := Nat.exists_eq_succ_of_ne_zero hn.ne'
  have hc : c ≠ '-' := fun hc => h.head (congrArg some hc)
  rw [trimEndMatches, List.take_succ_cons]
  intro hnil
  rw [List.reverse_eq_nil_iff, List.dropWhile_eq_nil_iff] at hnil
  have hall := hnil c (by simp)
  exact hc (by simpa using hall)

section Packages

variable {base : Text} {b : BundleId} {taken : List Text}

variable {n : Nat}

/-- From the second number on, a candidate ends with its number, so that no two of them are one
name. -/
theorem candidateDirectory_inj {m : Nat}
    (h : candidateDirectory base b (m + 2) = candidateDirectory base b (n + 2)) :
    m = n := by
  have hsplit : ∀ k, ∃ front,
    candidateDirectory base b (k + 2) = front ++ '-' :: Nat.toDigits 10 (k + 1) := by
    intro k
    simp only [candidateDirectory, Nat.add_eq_zero_iff, one_ne_zero, and_false, if_false,
      toString_nat_toList]
    exact ⟨_, (List.append_assoc _ _ _).symm⟩
  obtain ⟨front, hm⟩ := hsplit m
  obtain ⟨front', hn⟩ := hsplit n
  have hlast := rsplitOnce_some.mpr ⟨hm, notMem_toDigits (m + 1)⟩
  rw [h, rsplitOnce_some.mpr ⟨hn, notMem_toDigits (n + 1)⟩, Option.some.injEq, Prod.mk.injEq] at hlast
  have hnumbers := toDigits_inj hlast.2
  omega

/-- The loop ends, at the first candidate that is free. -/
theorem freeDirectory_spec (taken : List Text) (base : Text) (b : BundleId) :
    ∃ n < taken.length + 3, freeDirectory taken base b = candidateDirectory base b n ∧
      candidateDirectory base b n ∉ taken ∧ ∀ m < n, candidateDirectory base b m ∈ taken := by
  have hfree : ∃ n < taken.length + 3, candidateDirectory base b n ∉ taken := by
    by_contra hall
    push Not at hall
    -- One numbered candidate more than there are names taken.
    have hnodup : ((List.range (taken.length + 1)).map fun i =>
      candidateDirectory base b (i + 2)).Nodup :=
      List.Nodup.map (fun m n h => candidateDirectory_inj h) List.nodup_range
    have hsubset : ((List.range (taken.length + 1)).map fun i => candidateDirectory base b (i + 2))
      ⊆ taken := by
      intro dir hdir
      obtain ⟨i, hi, rfl⟩ := List.mem_map.mp hdir
      have hlt := List.mem_range.mp hi
      exact hall (i + 2) (by omega)
    have hlength := (hnodup.subperm hsubset).length_le
    simp only [List.length_map, List.length_range] at hlength
    omega
  have hfound : ∃ n, (List.range (taken.length + 3)).find?
      (fun n => !taken.contains (candidateDirectory base b n)) = some n := by
    obtain ⟨n, hn, hnot⟩ := hfree
    rw [← Option.isSome_iff_exists, List.find?_isSome]
    exact ⟨n, List.mem_range.mpr hn, by simpa using hnot⟩
  obtain ⟨n, hn⟩ := hfound
  refine ⟨n, List.mem_range.mp (List.mem_of_find?_eq_some hn), ?_, ?_, ?_⟩
  · rw [freeDirectory, List.find?_map]
    exact congrArg (·.getD base) (congrArg (Option.map (candidateDirectory base b)) hn)
  · simpa using List.find?_some hn
  · intro m hm
    have hbefore := (List.find?_range_eq_some.mp hn).2.2 m hm
    simpa using hbefore

theorem isValidName_candidateDirectory (hbase : isValidName base = true) (hb : 0 ≤ b)
    (hbound : Json.IsI64 b)
    (hn : n ≤ 2147483648) : isValidName (candidateDirectory base b n) = true := by
  obtain ⟨hne, hlength, hlast, hhyphenated⟩ := isValidName_iff.mp hbase
  cases n with
  | zero => exact hbase
  | succ n =>
    rw [candidateDirectory, toString_int_toList hb]
    generalize hsuffix :
      ('-' :: Nat.toDigits 10 b.toNat ++ if n = 0 then [] else '-' :: (toString n).toList) = suffix
    have hsmall : b.toNat < 9223372036854775808 := (Int.toNat_lt hb).mpr hbound.2
    have hid : (Nat.toDigits 10 b.toNat).length ≤ 19 :=
      (Nat.length_toDigits_le_iff (by decide) (by decide)).mpr (by omega)
    have hnumber : (Nat.toDigits 10 n).length ≤ 10 :=
      (Nat.length_toDigits_le_iff (by decide) (by decide)).mpr (by omega)
    have hshort : suffix.length ≤ 31 := by
      rw [← hsuffix]
      split
      next =>
        simp only [List.length_append, List.length_cons, List.length_nil]
        omega
      next =>
        simp only [toString_nat_toList, List.length_append, List.length_cons]
        omega
    obtain ⟨hhead, hheadLength, hheadLast⟩ := hhyphenated.cut (nameMax - suffix.length)
    have hheadNe := hhyphenated.cut_ne_nil hne (show 0 < nameMax - suffix.length by rw [nameMax]; omega)
    generalize trimEndMatches (· == '-') (base.take (nameMax - suffix.length)) = front at *
    have hwritten : Written (front ++ suffix) := by
      have hnumbered := Written.numbered ⟨hhead, hheadLast⟩ hheadNe b.toNat
      rw [← hsuffix]
      split
      next => rwa [List.append_nil]
      next =>
        rw [toString_nat_toList, ← List.append_assoc]
        exact hnumbered.numbered (by simp) n
    refine isValidName_iff.mpr ⟨by simp [hheadNe], ?_, hwritten.2, hwritten.1⟩
    rw [List.length_append]
    rw [nameMax] at hheadLength
    rw [nameMaxLen]
    omega

structure Placed (pluginName : Text) (acc : List Text × OrderedMap ConceptRef Text) : Prop where
  own : pluginName ∈ acc.1
  taken : ∀ e ∈ acc.2, e.2 ∈ acc.1
  valid : ∀ e ∈ acc.2, isValidName e.2 = true
  apart : ∀ e ∈ acc.2, e.2 ≠ pluginName
  distinct : ∀ e ∈ acc.2, ∀ e' ∈ acc.2, e.2 = e'.2 → e = e'

variable {unicode : Unicode} {pluginName : Text} {acc : List Text × OrderedMap ConceptRef Text}
  {record : ConceptRecord}

theorem Placed.placePackage (hascii : unicode.LowersAscii) (h : Placed pluginName acc)
    (hb : 0 ≤ record.bundleId)
    (hbound : Json.IsI64 record.bundleId) (hcount : acc.1.length + 2 < 2147483648) :
    Placed pluginName (placePackage unicode acc record) := by
  rw [Workspace.placePackage]
  split
  next package hpackage =>
    obtain ⟨n, hn, hdir, hfree, -⟩ :=
      freeDirectory_spec acc.1 (slug unicode package.name) record.bundleId
    have hvalid := isValidName_candidateDirectory (isValidName_slug hascii package.name) hb hbound
      (show n ≤ 2147483648 by omega)
    rw [← hdir] at hfree hvalid
    generalize freeDirectory acc.1 (slug unicode package.name) record.bundleId = dir at hfree hvalid
    refine ⟨List.mem_cons_of_mem _ h.own, fun e he => ?_, fun e he => ?_, fun e he =>
      ?_, fun e he e' he' hsame => ?_⟩
    · rcases OrderedMap.mem_insert he with rfl | he
      · exact List.mem_cons_self
      · exact List.mem_cons_of_mem _ (h.taken e he)
    · rcases OrderedMap.mem_insert he with rfl | he
      · exact hvalid
      · exact h.valid e he
    · rcases OrderedMap.mem_insert he with rfl | he
      · intro hown
        rw [← hown] at h
        exact hfree h.own
      · exact h.apart e he
    · rcases OrderedMap.mem_insert he with rfl | he
      · rcases OrderedMap.mem_insert he' with rfl | he'
        · rfl
        · have htaken := h.taken e' he'
          rw [← hsame] at htaken
          exact absurd htaken hfree
      · rcases OrderedMap.mem_insert he' with rfl | he'
        · have htaken := h.taken e he
          rw [hsame] at htaken
          exact absurd htaken hfree
        · exact h.distinct e he e' he' hsame
  next => exact h

theorem placePackage_taken_length : (placePackage unicode acc record).1.length ≤ acc.1.length + 1 := by
  rw [placePackage]
  split
  · simp
  · simp

variable {records : List ConceptRecord}

theorem Placed.foldl (hascii : unicode.LowersAscii) (h : Placed pluginName acc)
    (hids : ∀ r ∈ records, 0 ≤ r.bundleId ∧ Json.IsI64 r.bundleId)
    (hcount : acc.1.length + records.length + 1 < 2147483648) :
    Placed pluginName (records.foldl (Workspace.placePackage unicode) acc) := by
  induction records generalizing acc with
  | nil => exact h
  | cons record records ih =>
    obtain ⟨hb, hbound⟩ := hids record (by simp)
    have hgrows : (Workspace.placePackage unicode acc record).1.length ≤ acc.1.length + 1 :=
      placePackage_taken_length
    simp only [List.length_cons] at hcount
    rw [List.foldl_cons]
    apply ih
    · exact h.placePackage hascii hb hbound (by omega)
    · exact fun r hr => hids r (by simp [hr])
    · omega

theorem placePackage_keys {key : ConceptRef} (h : (acc.2.get key).isSome) :
    ((placePackage unicode acc record).2.get key).isSome := by
  rw [placePackage]
  split
  next =>
    by_cases hkey : key = record.key
    · rw [hkey, OrderedMap.get_insert_self]
      rfl
    · rwa [OrderedMap.get_insert_of_ne _ _ hkey]
  next => exact h

theorem packageDirectories_get (hrecord : record ∈ records) (hpackage : record.package.isSome) :
    ((packageDirectories unicode records pluginName).get record.key).isSome := by
  have hkeep : ∀ (rest : List ConceptRecord) acc, (acc.2.get record.key).isSome →
      ((rest.foldl (placePackage unicode) acc).2.get record.key).isSome := by
    intro rest
    induction rest with
    | nil => exact fun acc h => h
    | cons r rest ih => exact fun acc h => ih _ (placePackage_keys h)
  obtain ⟨before, after, rfl⟩ := List.append_of_mem hrecord
  rw [packageDirectories, List.foldl_append, List.foldl_cons]
  apply hkeep
  obtain ⟨package, hpackage⟩ := Option.isSome_iff_exists.mp hpackage
  rw [placePackage, hpackage, OrderedMap.get_insert_self]
  rfl

/-- Slugs are the names of the standard, and the directories of packages are distinct ones, apart
from the plugin's own. -/
theorem package_directories_valid (unicode : Unicode) (hascii : unicode.LowersAscii) :
    (∀ s, isValidName (slug unicode s) = true ∧ (slug unicode s = s ↔ isValidName s = true)) ∧
      (∀ taken base b, ∃ n < taken.length + 3, freeDirectory taken base b = candidateDirectory base b n ∧
        candidateDirectory base b n ∉ taken ∧ ∀ m < n, candidateDirectory base b m ∈ taken) ∧
      ∀ records pluginName, (∀ r ∈ records, 0 ≤ r.bundleId ∧ Json.IsI64 r.bundleId) →
        records.length + 2 < 2147483648 →
        let dirs := packageDirectories unicode records pluginName
        (∀ r ∈ records, r.package.isSome → (dirs.get r.key).isSome) ∧
          (∀ key dir, dirs.get key = some dir → isValidName dir = true ∧ dir ≠ pluginName) ∧
          ∀ key key' dir, dirs.get key = some dir → dirs.get key' = some dir → key = key' := by
  refine ⟨fun s => ⟨isValidName_slug hascii s, slug_eq_self_iff hascii s⟩, freeDirectory_spec, ?_⟩
  intro records pluginName hids hcount
  have hstart : Placed pluginName ([pluginName], []) :=
    ⟨List.mem_cons_self, by simp, by simp, by simp, by simp⟩
  have hplaced := hstart.foldl hascii hids (by simp only [List.length_cons, List.length_nil]; omega)
  refine ⟨fun r hr hpackage => packageDirectories_get hr hpackage, fun key dir hget =>
    ?_, fun key key' dir hget hget' => ?_⟩
  · have hmem := OrderedMap.mem_of_get hget
    exact ⟨hplaced.valid _ hmem, hplaced.apart _ hmem⟩
  · have hsame := hplaced.distinct _ (OrderedMap.mem_of_get hget) _ (OrderedMap.mem_of_get hget') rfl
    exact (Prod.mk.inj hsame).1

end Packages

theorem plainUnicode_lowersAscii : plainUnicode.LowersAscii where
  lowered c d hd := by
    rw [List.mem_singleton.mp hd]
    refine Bool.eq_false_iff.mpr fun hup => ?_
    have hbounds := isUpper_bounds hup
    by_cases hc : c.val ≥ 'A'.val ∧ c.val ≤ 'Z'.val
    · have hcapital : 65 ≤ c.val.toNat ∧ c.val.toNat ≤ 90 := by
        simpa [UInt32.le_iff_toNat_le] using hc
      have hval : c.toLower.val = c.val + 32 := congrArg Char.val (dif_pos hc)
      have hshift : c.toLower.val.toNat = (c.val.toNat + 32) % 2 ^ 32 := by
        rw [hval, UInt32.toNat_add]
        rfl
      omega
    · have hval : c.toLower = c := dif_neg hc
      rw [hval] at hbounds
      exact hc ⟨UInt32.le_iff_toNat_le.mpr hbounds.1, UInt32.le_iff_toNat_le.mpr hbounds.2⟩
  kept c hc := by
    have hlow : ¬(c.val ≥ 'A'.val ∧ c.val ≤ 'Z'.val) := by
      simp only [ge_iff_le, UInt32.le_iff_toNat_le]
      rintro ⟨hA, hZ⟩
      rcases isNameChar_bounds hc with hlower | hdigit | rfl
      · exact absurd (hlower.1.trans hZ) (by decide)
      · exact absurd (hA.trans hdigit.2) (by decide)
      · exact absurd hA (by decide)
    exact congrArg ([·]) (dif_neg hlow)

def skillPackage (b : BundleId) (id name : String) : ConceptRecord where
  bundleId := b
  bundleName := "team"
  conceptId := id.toList
  path := id.toList
  title := none
  fileHash := []
  trustTier := "verified"
  exact := true
  bytes := [65]
  package := some ⟨name.toList, [], [], [], []⟩
  resource := none
  freshness := Freshness.unknown
  origin := ⟨true, false, false⟩

theorem package_directories_valid_three :
    let dirs := packageDirectories plainUnicode
      [skillPackage 1 "a" "Kit", skillPackage 2 "b" "kit!", skillPackage 2 "c" "kit"] "okf".toList
    dirs.map (·.2) = ["kit".toList, "kit-2".toList, "kit-2-1".toList] ∧
      ∀ key key' dir, dirs.get key = some dir → dirs.get key' = some dir → key = key' :=
  ⟨by decide +kernel,
    ((package_directories_valid plainUnicode plainUnicode_lowersAscii).2.2 _ "okf".toList
      (by decide) (by decide)).2.2⟩

/-! ### Directories of bundles -/

section Bundles

variable {unicode : Unicode} {names done rest : OrderedMap BundleId Text}
  {dirs : OrderedMap BundleId Text} {b i k : BundleId} {name : Text}

def numberedDirectory (base : Text) (b : BundleId) : Text := base ++ '-' :: (toString b).toList

/-- The names in use when the turn of bundle `i` comes: the slug of an earlier one, or, where that
was in use, the slug with the id of the earlier one. -/
inductive InUse (unicode : Unicode) (names : OrderedMap BundleId Text) : BundleId → Text → Prop
  | plain (i k : BundleId) (name : Text) (hname : (k, name) ∈ names) (hk : k < i) :
    InUse unicode names i (slug unicode name)
  | numbered (i k : BundleId) (name : Text) (hname : (k, name) ∈ names) (hk : k < i)
    (hused : InUse unicode names k (slug unicode name)) :
    InUse unicode names i (numberedDirectory (slug unicode name) k)

/-- Some bundle has to be numbered, and its slug with its id is the slug of an earlier bundle. -/
def NumberedAsAnother (unicode : Unicode) (names : OrderedMap BundleId Text) : Prop :=
  ∃ i name j other, (i, name) ∈ names ∧ (j, other) ∈ names ∧ j < i ∧
    InUse unicode names i (slug unicode name) ∧
    slug unicode other = numberedDirectory (slug unicode name) i

theorem notMem_of_isValidName (h : isValidName name = true) (hc : isNameChar c = false) : c ∉ name := by
  intro hmem
  rw [(isValidName_iff.mp h).2.2.2.chars c hmem] at hc
  contradiction

/-- The last hyphen ends the slug, or follows the one that does if the id is negative. -/
theorem rsplitOnce_numberedDirectory (base : Text) (b : Int) :
    rsplitOnce '-' (numberedDirectory base b) =
      some (if b < 0 then base ++ ['-'] else base, Nat.toDigits 10 b.natAbs) := by
  apply rsplitOnce_some.mpr
  refine ⟨?_, notMem_toDigits _⟩
  rw [numberedDirectory]
  split
  next hb => rw [toString_int_neg_toList hb, List.append_cons]
  next hb =>
    have hpos : 0 ≤ b := Int.not_lt.mp hb
    have habs : b.toNat = b.natAbs := by omega
    rw [toString_int_toList hpos, habs]

theorem numberedDirectory_inj {base base' : Text} {b k : Int} (hbase : isValidName base = true)
    (hbase' : isValidName base' = true)
    (h : numberedDirectory base b = numberedDirectory base' k) : base = base' ∧ b = k := by
  have hsplit := rsplitOnce_numberedDirectory base b
  rw [h, rsplitOnce_numberedDirectory, Option.some.injEq, Prod.mk.injEq] at hsplit
  obtain ⟨hfront, hdigits⟩ := hsplit
  have habs := toDigits_inj hdigits
  -- Neither slug ends with the hyphen that a negative id would leave there.
  have hends : ∀ {s s' : Text}, isValidName s = true → s ≠ s' ++ ['-'] := by
    rintro s s' hs rfl
    exact (isValidName_iff.mp hs).2.2.1 (by simp)
  split at hfront
  next hk =>
    split at hfront
    next hb => exact ⟨(List.append_cancel_right hfront).symm, by omega⟩
    next => exact absurd hfront.symm (hends hbase)
  next hk =>
    split at hfront
    next => exact absurd hfront (hends hbase')
    next hb => exact ⟨hfront.symm, by omega⟩

theorem inUse_numberedDirectory_iff (hascii : unicode.LowersAscii) :
    InUse unicode names i (numberedDirectory (slug unicode name) i) ↔
      ∃ j other, (j, other) ∈ names ∧ j < i ∧
        slug unicode other = numberedDirectory (slug unicode name) i := by
  constructor
  · intro h
    generalize hdir : numberedDirectory (slug unicode name) i = dir at h
    cases h with
    | plain _ j other hother hj => exact ⟨j, other, hother, hj, rfl⟩
    | numbered _ k other hother hk hused =>
      obtain ⟨-, hsame⟩ :=
        numberedDirectory_inj (isValidName_slug hascii _) (isValidName_slug hascii _) hdir
      exact absurd hk (by rw [hsame]; exact lt_irrefl k)
  · rintro ⟨j, other, hother, hj, hslug⟩
    rw [← hslug]
    exact .plain i j other hother hj

theorem inUse_next {next : BundleId} (hname : (i, name) ∈ names)
    (hnext : ∀ e ∈ names, e.1 < next ↔ e.1 < i ∨ e = (i, name)) :
    InUse unicode names next t ↔ InUse unicode names i t ∨ t = slug unicode name ∨
      t = numberedDirectory (slug unicode name) i ∧ InUse unicode names i (slug unicode name) := by
  constructor
  · intro h
    cases h with
    | plain _ k other hother hk =>
      rcases (hnext _ hother).mp hk with hk | hsame
      · exact .inl (.plain i k other hother hk)
      · obtain ⟨rfl, rfl⟩ := Prod.mk.inj hsame
        exact .inr (.inl rfl)
    | numbered _ k other hother hk hused =>
      rcases (hnext _ hother).mp hk with hk | hsame
      · exact .inl (.numbered i k other hother hk hused)
      · obtain ⟨rfl, rfl⟩ := Prod.mk.inj hsame
        exact .inr (.inr ⟨rfl, hused⟩)
  · have hi : i < next := (hnext _ hname).mpr (.inr rfl)
    rintro (h | rfl | ⟨rfl, hused⟩)
    · cases h with
      | plain _ k other hother hk => exact .plain next k other hother ((hnext _ hother).mpr (.inl hk))
      | numbered _ k other hother hk hused =>
        exact .numbered next k other hother ((hnext _ hother).mpr (.inl hk)) hused
    · exact .plain next i name hname hi
    · exact .numbered next i name hname hi hused

def bundleStep (unicode : Unicode) (dirs : OrderedMap BundleId Text) (entry : BundleId × Text) :
    OrderedMap BundleId Text :=
  dirs.insert entry.1
    (if (dirs.map (·.2)).contains (slug unicode entry.2) then numberedDirectory
      (slug unicode entry.2) entry.1
      else slug unicode entry.2)

theorem bundleDirectories_eq (records : List ConceptRecord) :
    bundleDirectories unicode records = (ordered Prod.fst (bundleNames records)).foldl
      (bundleStep unicode) [] := rfl

/-- The directories after the turns of the bundles of `done`, which are those below some id. -/
structure Assigned (unicode : Unicode) (names done dirs : OrderedMap BundleId Text) : Prop where
  keys : dirs.map Prod.fst = done.map Prod.fst
  used : ∀ i, (∀ e ∈ names, e.1 < i ↔ e ∈ done) → ∀ t, t ∈ dirs.map (·.2) ↔ InUse unicode names i t
  distinct : (dirs.map (·.2)).Nodup ↔ ∀ i name, (i, name) ∈ done →
    InUse unicode names i (slug unicode name) →
    ∀ j other, (j, other) ∈ names → j < i → slug unicode other ≠ numberedDirectory (slug unicode name) i

theorem Assigned.step (hascii : unicode.LowersAscii) (h : Assigned unicode names done dirs)
    (hname : (i, name) ∈ names) (hdone : ∀ e ∈ done, e ∈ names)
    (hbelow : ∀ e ∈ names, e.1 < i ↔ e ∈ done) :
    Assigned unicode names (done ++ [(i, name)]) (bundleStep unicode dirs (i, name)) := by
  have hnew : i ∉ dirs.map Prod.fst := by
    rw [h.keys]
    intro hmem
    obtain ⟨e, he, hkey⟩ := List.mem_map.mp hmem
    have hlt := (hbelow e (hdone e he)).mpr he
    exact absurd hkey hlt.ne
  have hused := h.used i hbelow
  have hcontains : (dirs.map (·.2)).contains (slug unicode name) = true ↔
    InUse unicode names i (slug unicode name) := by
    rw [List.contains_iff_mem]
    exact hused _
  rw [bundleStep, OrderedMap.insert_of_notMem hnew]
  generalize hdir : (if (dirs.map (·.2)).contains (slug unicode name) then numberedDirectory
    (slug unicode name) i
    else slug unicode name) = dir
  refine ⟨by simp [h.keys], fun next hnext t => ?_, ?_⟩
  · have hstep : ∀ e ∈ names, e.1 < next ↔ e.1 < i ∨ e = (i, name) := by
      intro e he
      rw [hnext e he, List.mem_append, List.mem_singleton, hbelow e he]
    rw [inUse_next hname hstep, List.map_append, List.mem_append, hused t, List.map_singleton,
      List.mem_singleton, ← hdir]
    by_cases hslug : InUse unicode names i (slug unicode name)
    · rw [if_pos (hcontains.mpr hslug)]
      constructor
      · rintro (ht | ht)
        · exact .inl ht
        · exact .inr (.inr ⟨ht, hslug⟩)
      · rintro (ht | rfl | ⟨ht, -⟩)
        · exact .inl ht
        · exact .inl hslug
        · exact .inr ht
    · rw [if_neg fun hmem => hslug (hcontains.mp hmem)]
      simp [hslug]
  · have hclash : dir ∈ dirs.map (·.2) ↔ InUse unicode names i (slug unicode name) ∧
        ∃ j other, (j, other) ∈ names ∧ j < i ∧
          slug unicode other = numberedDirectory (slug unicode name) i := by
      rw [hused dir, ← inUse_numberedDirectory_iff hascii, ← hdir]
      by_cases hslug : InUse unicode names i (slug unicode name)
      · rw [if_pos (hcontains.mpr hslug), and_iff_right hslug]
      · rw [if_neg fun hmem => hslug (hcontains.mp hmem)]
        exact ⟨fun h => absurd h hslug, fun h => absurd h.1 hslug⟩
    rw [List.map_append, List.map_singleton, ← List.concat_eq_append, List.nodup_concat,
      h.distinct, hclash]
    constructor
    · rintro ⟨hfree, hold⟩ k other hmem hk j another hanother hj hsame
      rcases List.mem_append.mp hmem with hmem | hmem
      · exact hold k other hmem hk j another hanother hj hsame
      · obtain ⟨rfl, rfl⟩ := Prod.mk.inj (List.mem_singleton.mp hmem)
        exact hfree ⟨hk, j, another, hanother, hj, hsame⟩
    · intro hall
      refine ⟨?_, fun k other hmem => hall k other (List.mem_append_left _ hmem)⟩
      rintro ⟨hslug, j, another, hanother, hj, hsame⟩
      exact hall i name (List.mem_append_right _ List.mem_cons_self) hslug j another hanother hj hsame

theorem Assigned.foldl (hascii : unicode.LowersAscii) (h : Assigned unicode names done dirs)
    (hnames : ∀ e, e ∈ names ↔ e ∈ done ++ rest)
    (hsorted : (done ++ rest).Pairwise fun e e' => e.1 < e'.1) :
    Assigned unicode names (done ++ rest) (rest.foldl (bundleStep unicode) dirs) := by
  induction rest generalizing done dirs with
  | nil => rwa [List.append_nil]
  | cons entry rest ih =>
    obtain ⟨i, name⟩ := entry
    have hbelow : ∀ e ∈ names, e.1 < i ↔ e ∈ done := by
      intro e he
      obtain ⟨-, hlater, hacross⟩ := List.pairwise_append.mp hsorted
      constructor
      · intro hlt
        rcases List.mem_append.mp ((hnames e).mp he) with he | he
        · exact he
        · rcases List.mem_cons.mp he with rfl | he
          · exact absurd hlt (lt_irrefl _)
          · exact absurd hlt ((List.pairwise_cons.mp hlater).1 e he).not_gt
      · intro hmem
        exact hacross e hmem (i, name) List.mem_cons_self
    have hname : (i, name) ∈ names := (hnames _).mpr (by simp)
    have hstep := h.step hascii hname (fun e he => (hnames e).mpr (List.mem_append_left _ he)) hbelow
    rw [List.append_cons] at hnames hsorted ⊢
    exact ih hstep hnames hsorted

theorem nodup_keys_bundleNames (records : List ConceptRecord) :
    ((bundleNames records).map Prod.fst).Nodup := by
  have hkeep : ∀ (rest : List ConceptRecord) (names : OrderedMap BundleId Text),
    (names.map Prod.fst).Nodup →
      ((rest.foldl (fun names record =>
        if (names.get record.bundleId).isSome then names else names.insert record.bundleId
          record.bundleName)
          names).map Prod.fst).Nodup := by
    intro rest
    induction rest with
    | nil => exact fun names h => h
    | cons record rest ih =>
      intro names h
      rw [List.foldl_cons]
      apply ih
      split
      · exact h
      · exact OrderedMap.nodup_keys_insert h _ _
  exact hkeep records [] List.nodup_nil

theorem bundleDirectories_assigned (hascii : unicode.LowersAscii) (records : List ConceptRecord) :
    Assigned unicode (bundleNames records) (ordered Prod.fst (bundleNames records))
      (bundleDirectories unicode records) := by
  have hstart : Assigned unicode (bundleNames records) [] [] := by
    refine ⟨rfl, fun i hi t => ?_, by simp⟩
    simp only [List.map_nil, List.not_mem_nil, false_iff]
    intro h
    cases h with
    | plain _ k name hname hk | numbered _ k name hname hk hused =>
      exact absurd ((hi _ hname).mp hk) List.not_mem_nil
  have hall : Assigned unicode (bundleNames records) ([] ++ ordered Prod.fst (bundleNames records))
      ((ordered Prod.fst (bundleNames records)).foldl (bundleStep unicode) []) :=
    hstart.foldl hascii (fun e => mem_ordered.symm) (ordered_strict (nodup_keys_bundleNames records))
  rwa [List.nil_append, ← bundleDirectories_eq] at hall

theorem InUse.oneSegment (hascii : unicode.LowersAscii) (h : InUse unicode names i t) : t ≠ [] ∧
    '/' ∉ t := by
  have hslug : ∀ name, slug unicode name ≠ [] ∧ '/' ∉ slug unicode name := fun name =>
    ⟨(isValidName_iff.mp (isValidName_slug hascii name)).1,
      notMem_of_isValidName (isValidName_slug hascii name) (by decide)⟩
  cases h with
  | plain _ k name => exact hslug name
  | numbered _ k name =>
    have hdigits : ∀ n, '/' ∉ Nat.toDigits 10 n := fun n hmem =>
      absurd (Nat.isDigit_of_mem_toDigits (by decide) (by decide) hmem) (by decide)
    have hid : '/' ∉ (toString k).toList := by
      by_cases hk : k < 0
      · rw [toString_int_neg_toList hk]
        simp [hdigits]
      · rw [toString_int_toList (Int.not_lt.mp hk)]
        exact hdigits _
    refine ⟨by simp [numberedDirectory], ?_⟩
    rw [numberedDirectory, List.mem_append, List.mem_cons, not_or, not_or]
    exact ⟨(hslug name).2, by decide, hid⟩

/-- The directories of two bundles differ unless a numbered one takes the slug of another bundle. -/
theorem bundle_directories_injective_iff (unicode : Unicode) (hascii : unicode.LowersAscii)
    (records : List ConceptRecord) :
    ((∀ b b' dir, (bundleDirectories unicode records).get b = some dir →
        (bundleDirectories unicode records).get b' = some dir → b = b') ∧
      ∀ b b' dir dir' path, (bundleDirectories unicode records).get b = some dir →
        (bundleDirectories unicode records).get b' = some dir' → b ≠ b' →
          ¬Encloses '/' dir' (dir ++ '/' :: path)) ↔
      ¬NumberedAsAnother unicode (bundleNames records) := by
  have hassigned := bundleDirectories_assigned hascii records
  have hkeys : ((bundleDirectories unicode records).map Prod.fst).Nodup := by
    rw [hassigned.keys]
    exact (ordered_perm.map Prod.fst).nodup_iff.mpr (nodup_keys_bundleNames records)
  have hsegment : ∀ b dir, (bundleDirectories unicode records).get b = some dir → dir ≠ [] ∧
    '/' ∉ dir := by
    intro b dir hget
    -- An id above all others: every name given out is in use there.
    obtain ⟨top, htop⟩ := ((bundleNames records).map Prod.fst).toFinset.bddAbove
    have hused := hassigned.used (top + 1) (fun e he => by
      have hle : e.1 ≤ top := htop (List.mem_toFinset.mpr (List.mem_map_of_mem he))
      exact ⟨fun _ => mem_ordered.mpr he, fun _ => Int.lt_add_one_of_le hle⟩) dir
    exact (hused.mp (List.mem_map_of_mem (OrderedMap.mem_of_get hget))).oneSegment hascii
  have hdistinct := (OrderedMap.nodup_values_iff hkeys).symm.trans hassigned.distinct
  constructor
  · rintro ⟨hinj, -⟩ ⟨i, name, j, other, hname, hother, hj, hused, hsame⟩
    exact hdistinct.mp hinj i name (mem_ordered.mpr hname) hused j other hother hj hsame
  · intro hnone
    have hinj := hdistinct.mpr fun i name hname hused j other hother hj hsame =>
      hnone ⟨i, name, j, other, mem_ordered.mp hname, hother, hj, hused, hsame⟩
    refine ⟨hinj, fun b b' dir dir' path hget hget' hne hencloses => ?_⟩
    rcases hencloses with hnil | ⟨below, hbelow⟩
    · exact (hsegment b' dir' hget').1 hnil
    · have hsame := (append_sep_inj (hsegment b dir hget).2 (hsegment b' dir' hget').2 hbelow).1
      exact hne (hinj b b' dir hget (hsame ▸ hget'))

end Bundles

def documentOf (b : BundleId) (bundleName : String) : ConceptRecord :=
  { skillPackage b "a.md" "" with bundleName := bundleName.toList, package := none }

theorem bundle_directories_injective_three :
    (bundleDirectories plainUnicode [documentOf 1 "x", documentOf 2 "x", documentOf 3 "x-2"]).map (·.2) =
        ["x".toList, "x-2".toList, "x-2-3".toList] ∧
      ∀ b b' dir,
        (bundleDirectories plainUnicode
          [documentOf 1 "x", documentOf 2 "x", documentOf 3 "x-2"]).get b = some dir →
        (bundleDirectories plainUnicode
          [documentOf 1 "x", documentOf 2 "x", documentOf 3 "x-2"]).get b' = some dir →
        b = b' := by
  have hnames : ∀ e ∈ bundleNames [documentOf 1 "x", documentOf 2 "x", documentOf 3 "x-2"],
      ∀ e' ∈ bundleNames [documentOf 1 "x", documentOf 2 "x", documentOf 3 "x-2"], e'.1 < e.1 →
        slug plainUnicode e'.2 ≠ numberedDirectory (slug plainUnicode e.2) e.1 := by decide +kernel
  refine ⟨by decide +kernel,
    ((bundle_directories_injective_iff plainUnicode plainUnicode_lowersAscii _).mpr ?_).1⟩
  rintro ⟨i, name, j, other, hname, hother, hj, -, hsame⟩
  exact hnames (i, name) hname (j, other) hother hj hsame

/-- The third bundle is numbered as the first is named. -/
theorem numbered_as_another :
    (bundleDirectories plainUnicode [documentOf 1 "x-3", documentOf 2 "x", documentOf 3 "x"]).get 1 =
        some "x-3".toList ∧
      (bundleDirectories plainUnicode [documentOf 1 "x-3", documentOf 2 "x", documentOf 3 "x"]).get 3 =
        some "x-3".toList := by
  decide +kernel

end Pgokf.Workspace
