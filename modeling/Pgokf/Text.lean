import Mathlib.Data.List.Basic

/-! # Strings of the catalog -/

namespace Pgokf

/- Rust strings and SQL texts are lists of characters, as the operations on them are. -/
abbrev Text := List Char

instance : Coe String Text := ⟨String.toList⟩

instance : LawfulBEq Text := List.instLawfulBEq

/-- `char::is_whitespace`: the characters with the Unicode property `White_Space`. -/
def isWhitespace (c : Char) : Bool :=
  let n := c.toNat
  (9 ≤ n && n ≤ 13) || n == 0x20 || n == 0x85 || n == 0xA0 || n == 0x1680 ||
    (0x2000 ≤ n && n ≤ 0x200A) || n == 0x2028 || n == 0x2029 || n == 0x202F || n == 0x205F ||
    n == 0x3000

/-- `char::is_control`. -/
def isControl (c : Char) : Bool := c.toNat < 0x20 || (0x7f ≤ c.toNat && c.toNat ≤ 0x9f)

def isBlank (t : Text) : Bool := t.all isWhitespace

/-- `str::trim`. -/
def trim (t : Text) : Text :=
  ((t.dropWhile isWhitespace).reverse.dropWhile isWhitespace).reverse

/-- `str::trim_end_matches`. -/
def trimEndMatches (p : Char → Bool) (t : Text) : Text := (t.reverse.dropWhile p).reverse

theorem trim_of_no_whitespace {t : Text} (h : ∀ c ∈ t, isWhitespace c = false) : trim t = t := by
  have hdrop : ∀ l : Text, (∀ c ∈ l, isWhitespace c = false) → l.dropWhile isWhitespace = l := by
    intro l hl
    cases l with
    | nil => rfl
    | cons c l => exact List.dropWhile_cons_of_neg (by simp [hl c])
  rw [trim, hdrop t h, hdrop t.reverse fun c hc => h c (List.mem_reverse.mp hc), List.reverse_reverse]

end Pgokf
