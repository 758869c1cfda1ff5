import Pgokf.Text

/-! # Integers in texts (`str::parse`) -/

namespace Pgokf

def isDigit (c : Char) : Bool := '0' ≤ c && c ≤ '9'

def digitValue (c : Char) : Nat := c.toNat - '0'.toNat

def digitsValue (t : Text) : Nat := t.foldl (fun n c => 10 * n + digitValue c) 0

def parseDigits (t : Text) : Option Nat :=
    if !t.isEmpty && t.all isDigit then some (digitsValue t) else none

/-- An unsigned type with values below the bound: a plus sign is accepted. -/
def parseUnsigned (bound : Nat) (t : Text) : Option Nat :=
  (parseDigits (match t with
    | '+' :: rest => rest
    | _ => t)).filter fun n => n < bound

def i64Bound : Nat := 9223372036854775808

/-- `parse::<i64>`: either sign is accepted. -/
def parseI64 (t : Text) : Option Int :=
  match t with
  | '-' :: rest => ((parseDigits rest).filter fun n => n ≤ i64Bound).map fun (n : Nat) => -(n : Int)
  | '+' :: rest => ((parseDigits rest).filter fun n => n < i64Bound).map Int.ofNat
  | _ => ((parseDigits t).filter fun n => n < i64Bound).map Int.ofNat

variable {t : Text} {c : Char}

theorem isDigit_bounds (h : isDigit c) : 48 ≤ c.toNat ∧ c.toNat ≤ 57 := by
  rw [isDigit, Bool.and_eq_true, decide_eq_true_eq, decide_eq_true_eq] at h
  exact ⟨UInt32.le_iff_toNat_le.mp (Char.le_def.mp h.1), UInt32.le_iff_toNat_le.mp (Char.le_def.mp h.2)⟩

theorem digitValue_le (h : isDigit c) : digitValue c ≤ 9 := by
  have hbounds := isDigit_bounds h
  have hzero : '0'.toNat = 48 := rfl
  rw [digitValue]
  omega

variable {n : Nat}

theorem parseDigits_eq_some : parseDigits t = some n ↔ t ≠ [] ∧ t.all isDigit ∧ digitsValue t = n := by
  rw [parseDigits]
  split
  next h => simp_all
  next h =>
    simp only [reduceCtorEq, false_iff]
    rintro ⟨hne, hall, -⟩
    simp_all

/- What both parsers accept: digits, with at most one sign before them. -/
theorem parseI64_digits {n : Int} (h : parseI64 t = some n) :
    ∃ digits, (t = digits ∨ t = '-' :: digits ∨ t = '+' :: digits) ∧ digits ≠ [] ∧ digits.all isDigit ∧
      n.natAbs = digitsValue digits := by
  unfold parseI64 at h
  split at h <;>
    simp only [Option.map_eq_some_iff, Option.filter_eq_some_iff, parseDigits_eq_some] at h
  next rest =>
    obtain ⟨m, ⟨⟨hne, hall, rfl⟩, -⟩, rfl⟩ := h
    exact ⟨rest, .inr (.inl rfl), hne, hall, Int.natAbs_neg _⟩
  next rest =>
    obtain ⟨m, ⟨⟨hne, hall, rfl⟩, -⟩, rfl⟩ := h
    exact ⟨rest, .inr (.inr rfl), hne, hall, rfl⟩
  next =>
    obtain ⟨m, ⟨⟨hne, hall, rfl⟩, -⟩, rfl⟩ := h
    exact ⟨t, .inl rfl, hne, hall, rfl⟩

variable {bound : Nat}

theorem parseUnsigned_digits (h : parseUnsigned bound t = some n) :
    ∃ digits, (t = digits ∨ t = '+' :: digits) ∧ digits ≠ [] ∧ digits.all isDigit ∧
      n = digitsValue digits := by
  unfold parseUnsigned at h
  rw [Option.filter_eq_some_iff, parseDigits_eq_some] at h
  obtain ⟨h, -⟩ := h
  split at h
  next rest => exact ⟨rest, .inr rfl, h.1, h.2.1, h.2.2.symm⟩
  next => exact ⟨t, .inl rfl, h.1, h.2.1, h.2.2.symm⟩

theorem parseI64_of_digits (hne : t ≠ []) (hall : t.all isDigit) (hbound : digitsValue t < i64Bound) :
    parseI64 t = some (digitsValue t : Int) := by
  have hparsed : (parseDigits t).filter (fun n => n < i64Bound) = some (digitsValue t) := by
    rw [parseDigits_eq_some.mpr ⟨hne, hall, rfl⟩]
    simp [Option.filter, hbound]
  unfold parseI64
  split
  next rest => exact absurd (List.all_eq_true.mp hall '-' List.mem_cons_self) (by decide)
  next rest => exact absurd (List.all_eq_true.mp hall '+' List.mem_cons_self) (by decide)
  next =>
    rw [hparsed]
    rfl

theorem parseUnsigned_of_digits (hne : t ≠ []) (hall : t.all isDigit) (hbound : digitsValue t < bound) :
    parseUnsigned bound t = some (digitsValue t) := by
  unfold parseUnsigned
  split
  next rest => exact absurd (List.all_eq_true.mp hall '+' List.mem_cons_self) (by decide)
  next =>
    rw [parseDigits_eq_some.mpr ⟨hne, hall, rfl⟩]
    simp [Option.filter, hbound]

theorem parseI64_of_parseUnsigned (h : parseUnsigned bound t = some n) (hbound : n < i64Bound) :
    parseI64 t = some (n : Int) := by
  obtain ⟨digits, rfl | rfl, hne, hall, rfl⟩ := parseUnsigned_digits h
  · exact parseI64_of_digits hne hall hbound
  · have hparsed : (parseDigits digits).filter (fun n => n < i64Bound) = some (digitsValue digits) := by
      rw [parseDigits_eq_some.mpr ⟨hne, hall, rfl⟩]
      simp [Option.filter, hbound]
    rw [parseI64, hparsed]
    rfl

theorem ascii_of_digits {digits : Text} (ht : t = digits ∨ t = '-' :: digits ∨ t = '+' :: digits)
    (hall : digits.all isDigit) : ∀ c ∈ t, c.toNat < 128 := by
  have hdigits : ∀ c ∈ digits, c.toNat < 128 := by
    intro c hc
    have hbounds := isDigit_bounds (List.all_eq_true.mp hall c hc)
    omega
  rcases ht with rfl | rfl | rfl
  · exact hdigits
  · exact List.forall_mem_cons.mpr ⟨by decide, hdigits⟩
  · exact List.forall_mem_cons.mpr ⟨by decide, hdigits⟩

theorem parseI64_ascii {n : Int} (h : parseI64 t = some n) : ∀ c ∈ t, c.toNat < 128 := by
  obtain ⟨digits, ht, -, hall, -⟩ := parseI64_digits h
  exact ascii_of_digits ht hall

theorem parseUnsigned_ascii (h : parseUnsigned bound t = some n) : ∀ c ∈ t, c.toNat < 128 := by
  obtain ⟨digits, ht, -, hall, -⟩ := parseUnsigned_digits h
  exact ascii_of_digits (ht.imp_right .inr) hall

theorem digitsValue_le_of_four (hall : t.all isDigit) (hlength : t.length ≤ 4) :
    digitsValue t ≤ 9999 := by
  -- The fold keeps its value below the next power of ten.
  have hstep : ∀ (rest : Text) (n bound : Nat), rest.all isDigit → n ≤ bound →
      rest.foldl (fun n c => 10 * n + digitValue c) n ≤ rest.foldl (fun n _ => 10 * n + 9) bound := by
    intro rest
    induction rest with
    | nil => exact fun _ _ _ hle => hle
    | cons c rest ih =>
      intro n bound hall hle
      rw [List.all_cons, Bool.and_eq_true] at hall
      have hdigit := digitValue_le hall.1
      have hnext : 10 * n + digitValue c ≤ 10 * bound + 9 := by omega
      exact ih _ _ hall.2 hnext
  have hvalue := hstep t 0 0 hall (Nat.le_refl 0)
  have hnines : t.foldl (fun n _ => 10 * n + 9) 0 ≤ 9999 := by
    match t, hlength with
    | [], _ | [_], _ | [_, _], _ | [_, _, _], _ | [_, _, _, _], _ => simp
  exact Nat.le_trans hvalue hnines

end Pgokf
