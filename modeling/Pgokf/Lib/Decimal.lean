import Mathlib.Tactic.Common

/-! # Numbers as they are written

The decimal digits of a number, and the sign before them. -/

namespace Pgokf.Lib

theorem toString_nat_toList (n : Nat) : (toString n).toList = Nat.toDigits 10 n := Nat.toList_repr

variable {b : Int}

theorem toString_int_toList (hb : 0 ≤ b) : (toString b).toList = Nat.toDigits 10 b.toNat := by
  obtain ⟨n, rfl⟩ := Int.eq_ofNat_of_zero_le hb
  exact Nat.toList_repr

theorem notMem_toDigits (n : Nat) : '-' ∉ Nat.toDigits 10 n := by
  intro h
  have hdigit := Nat.isDigit_of_mem_toDigits (by decide) (by decide) h
  exact absurd hdigit (by decide)

theorem toDigits_inj {m n : Nat} (h : Nat.toDigits 10 m = Nat.toDigits 10 n) : m = n := by
  have hvalue := congrArg (Nat.ofDigitChars 10 · 0) h
  simpa only [Nat.ofDigitChars_ten_toDigits] using hvalue

theorem toString_int_neg_toList (hb : b < 0) :
    (toString b).toList = '-' :: Nat.toDigits 10 b.natAbs := by
  obtain ⟨n, rfl⟩ := Int.eq_negSucc_of_lt_zero hb
  change ("-" ++ Nat.repr (n + 1)).toList = _
  rw [String.toList_append, Nat.toList_repr]
  rfl

end Pgokf.Lib
