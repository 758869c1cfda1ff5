import Mathlib.Algebra.BigOperators.Group.List.Basic
import Pgokf.Lib.Guarded

/-! # Slices by byte offsets

A string is a list of characters and a slice of it is taken by byte offsets, which have to lie
between characters. -/

namespace Pgokf.Lib

def utf8Bytes (t : List Char) : List UInt8 := t.flatMap String.utf8EncodeChar

/-- The two sides of a byte offset; none if it is inside of a character or behind the end. -/
def cutAt : List Char → Nat → Option (List Char × List Char)
  | t, 0 => some ([], t)
  | [], _ + 1 => none
  | c :: t, n + 1 =>
    if c.utf8Size ≤ n + 1 then (cutAt t (n + 1 - c.utf8Size)).map fun sides =>
      (c :: sides.1, sides.2) else none

/-- `&t[n..]`. -/
def sliceFrom (t : List Char) (n : Nat) : Guarded (List Char) :=
  match cutAt t n with
  | some sides => .value sides.2
  | none => .fault .boundary

/-- `&t[..n]`. -/
def sliceTo (t : List Char) (n : Nat) : Guarded (List Char) :=
  match cutAt t n with
  | some sides => .value sides.1
  | none => .fault .boundary

/-- `t.get(start..stop)`. -/
def getSlice (t : List Char) (start stop : Nat) : Option (List Char) :=
  (cutAt t start).bind fun sides => (cutAt sides.2 (stop - start)).map Prod.fst

/-- `t.find(p)`: the offset of the first character with the property. -/
def findByte (p : Char → Bool) (t : List Char) : Option Nat :=
  if t.any p then some (utf8Bytes (t.takeWhile fun c => !p c)).length else none

/-- `t.as_bytes()[n]`. -/
def byteAt (t : List Char) (n : Nat) : Guarded UInt8 :=
  match (utf8Bytes t)[n]? with
  | some b => .value b
  | none => .fault .index

variable {t x y : List Char} {c : Char} {n : Nat}

@[simp] theorem utf8Bytes_nil : utf8Bytes [] = [] := rfl

@[simp] theorem utf8Bytes_cons : utf8Bytes (c :: t) = String.utf8EncodeChar c ++ utf8Bytes t := rfl

theorem utf8Bytes_append : utf8Bytes (x ++ y) = utf8Bytes x ++ utf8Bytes y := List.flatMap_append

theorem utf8Bytes_inj : utf8Bytes x = utf8Bytes y ↔ x = y := by
  rw [← List.toByteArray_inj, ← String.ofList_inj, ← String.toByteArray_inj, String.toByteArray_ofList,
    String.toByteArray_ofList]
  rfl

theorem length_utf8Bytes_cons : (utf8Bytes (c :: t)).length = c.utf8Size + (utf8Bytes t).length := by
  rw [utf8Bytes_cons, List.length_append, String.length_utf8EncodeChar]

theorem utf8Bytes_eq_nil : (utf8Bytes t).length = 0 ↔ t = [] := by
  cases t with
  | nil => simp
  | cons c t =>
    have hpos := Char.utf8Size_pos c
    rw [length_utf8Bytes_cons]
    constructor
    · intro h
      omega
    · intro h
      cases h

theorem cutAt_zero : cutAt t 0 = some (x, y) ↔ t = x ++ y ∧ (utf8Bytes x).length = 0 := by
  simp only [cutAt, Option.some.injEq, Prod.mk.injEq, utf8Bytes_eq_nil]
  constructor
  · rintro ⟨rfl, rfl⟩
    exact ⟨rfl, rfl⟩
  · rintro ⟨hxy, rfl⟩
    exact ⟨rfl, hxy⟩

theorem cutAt_eq_some : cutAt t n = some (x, y) ↔ t = x ++ y ∧ (utf8Bytes x).length = n := by
  induction t generalizing n x with
  | nil =>
    cases n with
    | zero => exact cutAt_zero
    | succ n =>
      simp only [cutAt, reduceCtorEq, false_iff, not_and]
      intro hxy
      obtain ⟨rfl, -⟩ := List.append_eq_nil_iff.mp hxy.symm
      simp
  | cons c t ih =>
    have hpos := Char.utf8Size_pos c
    cases n with
    | zero => exact cutAt_zero
    | succ n =>
      rw [cutAt]
      cases x with
      | nil =>
        split <;> simp
      | cons d x =>
        rw [length_utf8Bytes_cons]
        split
        next hle =>
          simp only [Option.map_eq_some_iff, Prod.exists, Prod.mk.injEq, List.cons.injEq,
            List.cons_append]
          constructor
          · rintro ⟨x', y', hcut, ⟨rfl, rfl⟩, rfl⟩
            obtain ⟨rfl, hlength⟩ := ih.mp hcut
            exact ⟨⟨rfl, rfl⟩, by omega⟩
          · rintro ⟨⟨rfl, rfl⟩, hlength⟩
            exact ⟨x, y, ih.mpr ⟨rfl, by omega⟩, ⟨rfl, rfl⟩, rfl⟩
        next hlt =>
          simp only [reduceCtorEq, false_iff, not_and, List.cons_append, List.cons.injEq]
          rintro ⟨rfl, rfl⟩
          omega

theorem utf8Bytes_append_inj {x' y' : List Char} (h : x ++ y = x' ++ y')
    (hlength : (utf8Bytes x).length = (utf8Bytes x').length) : x = x' ∧ y = y' := by
  have hcut : cutAt (x ++ y) (utf8Bytes x).length = some (x, y) := cutAt_eq_some.mpr ⟨rfl, rfl⟩
  have hcut' : cutAt (x ++ y) (utf8Bytes x).length = some (x', y') := cutAt_eq_some.mpr ⟨h, hlength.symm⟩
  exact Prod.mk.inj (Option.some.inj (hcut.symm.trans hcut'))

theorem sliceFrom_eq_value : sliceFrom t n = .value y ↔ ∃ x, t = x ++ y ∧ (utf8Bytes x).length = n := by
  simp only [← cutAt_eq_some]
  rw [sliceFrom]
  cases cutAt t n <;> simp [Prod.ext_iff]

theorem sliceTo_eq_value : sliceTo t n = .value x ↔ ∃ y, t = x ++ y ∧ (utf8Bytes x).length = n := by
  simp only [← cutAt_eq_some]
  rw [sliceTo]
  cases cutAt t n <;> simp [Prod.ext_iff]

theorem sliceFrom_append : sliceFrom (x ++ y) (utf8Bytes x).length = .value y :=
    sliceFrom_eq_value.mpr ⟨x, rfl, rfl⟩

theorem sliceTo_append : sliceTo (x ++ y) (utf8Bytes x).length = .value x :=
    sliceTo_eq_value.mpr ⟨y, rfl, rfl⟩

variable {f : Fault}

theorem sliceFrom_eq_fault : sliceFrom t n = .fault f ↔ cutAt t n = none ∧ f = .boundary := by
  rw [sliceFrom]
  cases cutAt t n <;> simp [eq_comm]

theorem sliceTo_eq_fault : sliceTo t n = .fault f ↔ cutAt t n = none ∧ f = .boundary := by
  rw [sliceTo]
  cases cutAt t n <;> simp [eq_comm]

theorem getSlice_eq_some {z : List Char} {start stop : Nat} :
    getSlice t start stop = some z ↔
      ∃ x y, t = x ++ (z ++ y) ∧ (utf8Bytes x).length = start ∧ (utf8Bytes z).length = stop - start := by
  rw [getSlice]
  simp only [Option.bind_eq_some_iff, Option.map_eq_some_iff, Prod.exists, cutAt_eq_some]
  constructor
  · rintro ⟨x, y, ⟨rfl, hx⟩, z', y', ⟨rfl, hz⟩, rfl⟩
    exact ⟨x, y', rfl, hx, hz⟩
  · rintro ⟨x, y, rfl, hx, hz⟩
    exact ⟨x, z ++ y, ⟨rfl, hx⟩, z, y, ⟨rfl, hz⟩, rfl⟩

theorem byteAt_append : byteAt (x ++ y) ((utf8Bytes x).length + n) = byteAt y n := by
  rw [byteAt, byteAt, utf8Bytes_append, List.getElem?_append_right (Nat.le_add_right _ _),
    Nat.add_sub_cancel_left]

theorem byteAt_eq_fault : byteAt t n = .fault f ↔ (utf8Bytes t).length ≤ n ∧ f = .index := by
  rw [byteAt, ← List.getElem?_eq_none_iff]
  cases (utf8Bytes t)[n]? <;> simp [eq_comm]

theorem utf8Size_of_ascii (hc : c.toNat < 128) : c.utf8Size = 1 :=
  Char.utf8Size_eq_one_iff.mpr (UInt32.le_iff_toNat_le.mpr (Nat.lt_succ_iff.mp hc))

variable {a : Char}

/- The bytes of a character beyond ASCII are all above those of ASCII. -/
theorem utf8EncodeChar_head (ha : a.toNat < 128) :
    (String.utf8EncodeChar c).head? = some a.toUInt8 ↔ c = a := by
  have hbyte : a.toUInt8.toNat = a.toNat := by
    simp only [Char.toUInt8, Char.toNat, UInt32.toNat_toUInt8] at ha ⊢
    omega
  constructor
  · intro h
    have hc : c.toNat = a.toNat := by
      rw [String.utf8EncodeChar] at h
      rw [← hbyte, Char.toNat]
      split at h
      next h1 =>
        have hb := congrArg UInt8.toNat (Option.some.inj h)
        rw [UInt8.toNat_ofNat'] at hb
        omega
      next =>
        exfalso
        split at h
        · have hb := congrArg UInt8.toNat (Option.some.inj h)
          rw [UInt8.toNat_ofNat'] at hb
          omega
        · split at h
          all_goals
            have hb := congrArg UInt8.toNat (Option.some.inj h)
            rw [UInt8.toNat_ofNat'] at hb
            omega
    exact Char.toNat_inj.mp hc
  · rintro rfl
    rw [String.utf8EncodeChar_eq_singleton (utf8Size_of_ascii ha)]
    rfl

/- The first byte says of every ASCII character whether it is the first one. -/
theorem byteAt_cons (c : Char) (t : List Char) :
    ∃ b, byteAt (c :: t) 0 = .value b ∧ ∀ a : Char, a.toNat < 128 → (b = a.toUInt8 ↔ c = a) := by
  have hpos := Char.utf8Size_pos c
  rw [← String.length_utf8EncodeChar] at hpos
  cases hbytes : String.utf8EncodeChar c with
  | nil =>
    rw [hbytes] at hpos
    exact absurd hpos (Nat.lt_irrefl 0)
  | cons b rest =>
    refine ⟨b, ?_, fun a ha => ?_⟩
    · rw [byteAt, utf8Bytes_cons, hbytes]
      rfl
    · rw [← utf8EncodeChar_head ha, hbytes, List.head?_cons, Option.some.injEq]

theorem byteAt_zero_eq (ha : a.toNat < 128) :
    byteAt t 0 = .value a.toUInt8 ↔ ∃ rest, t = a :: rest := by
  cases t with
  | nil => simp [byteAt]
  | cons c t =>
    obtain ⟨b, hb, heq⟩ := byteAt_cons c t
    rw [hb, Guarded.value.injEq, heq a ha]
    simp

theorem sliceFrom_one (hc : c.toNat < 128) : sliceFrom (c :: t) 1 = .value t := by
  refine sliceFrom_eq_value.mpr ⟨[c], rfl, ?_⟩
  rw [length_utf8Bytes_cons, utf8Size_of_ascii hc]
  rfl

theorem length_utf8Bytes_of_ascii (h : ∀ c ∈ t, c.toNat < 128) : (utf8Bytes t).length = t.length := by
  induction t with
  | nil => rfl
  | cons c t ih =>
    rw [length_utf8Bytes_cons, utf8Size_of_ascii (h c List.mem_cons_self), ih fun d hd =>
      h d (List.mem_cons_of_mem _ hd),
      List.length_cons, Nat.add_comm]

theorem findByte_eq_some {p : Char → Bool} :
    findByte p t = some n ↔ t.any p ∧ n = (utf8Bytes (t.takeWhile fun c => !p c)).length := by
  rw [findByte]
  by_cases hany : t.any p
  · rw [if_pos hany, Option.some.injEq, eq_comm]
    exact ⟨fun h => ⟨hany, h⟩, And.right⟩
  · simp [hany]

end Pgokf.Lib
