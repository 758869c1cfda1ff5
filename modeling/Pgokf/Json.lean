import Mathlib.Algebra.Ring.Int.Defs
import Pgokf.Text

/-! # JSON values (`serde_json::Value`) -/

namespace Pgokf

/- The double-precision numbers are a type of their own; what the code asks of them is named where
it is used. -/
inductive JsonNumber (F : Type) where
  | int (n : Int)
  | float (x : F)
  deriving DecidableEq

inductive Json (F : Type) where
  | null
  | bool (b : Bool)
  | number (n : JsonNumber F)
  | string (t : Text)
  | array (items : List (Json F))
  -- Keys are distinct and in the order of the map that holds them.
  | object (entries : List (Text × Json F))

namespace Json

variable {F : Type}

def isNull : Json F → Bool
  | null => true
  | _ => false

def asStr : Json F → Option Text
  | string t => some t
  | _ => none

def asArray : Json F → Option (List (Json F))
  | array items => some items
  | _ => none

def asObject : Json F → Option (List (Text × Json F))
  | object entries => some entries
  | _ => none

/-- `as_i64`: an integer that fits; a float is none, whatever its value. -/
def asI64 : Json F → Option Int
  | number (.int n) => if -2 ^ 63 ≤ n ∧ n < 2 ^ 63 then some n else none
  | _ => none

def asF64 (ofInt : Int → F) : Json F → Option F
  | number (.int n) => some (ofInt n)
  | number (.float x) => some x
  | _ => none

def get (key : Text) (v : Json F) : Option (Json F) := v.asObject.bind (List.lookup key)

/-- `pointer`, along keys of objects. -/
def pointer (keys : List String) (v : Json F) : Option (Json F) :=
    keys.foldlM (fun v key => v.get key.toList) v

def IsI64 (n : Int) : Prop := -2 ^ 63 ≤ n ∧ n < 2 ^ 63

instance (n : Int) : Decidable (IsI64 n) := inferInstanceAs (Decidable (_ ∧ _))

variable {n : Int}

theorem asI64_of_isI64 (h : IsI64 n) : (number (.int n) : Json F).asI64 = some n := if_pos h

theorem asI64_int {m : Int} (h : (number (.int n) : Json F).asI64 = some m) : m = n := by
  rw [asI64] at h
  split at h
  · exact (Option.some.inj h).symm
  · cases h

mutual

def texts : Json F → List Text
  | string t => [t]
  | array items => textsOfItems items
  | object entries => textsOfEntries entries
  | _ => []

def textsOfItems : List (Json F) → List Text
  | [] => []
  | v :: vs => v.texts ++ textsOfItems vs

def textsOfEntries : List (Text × Json F) → List Text
  | [] => []
  | (key, v) :: entries => key :: v.texts ++ textsOfEntries entries

end

variable {v : Json F} {t : Text}

theorem mem_texts_of_array {items : List (Json F)} (hv : v ∈ items) (ht : t ∈ v.texts) :
    t ∈ (array items).texts := by
  rw [texts]
  induction items with
  | nil => cases hv
  | cons w items ih =>
    rw [textsOfItems, List.mem_append]
    rcases List.mem_cons.mp hv with rfl | hv
    · exact .inl ht
    · exact .inr (ih hv)

theorem mem_texts_of_lookup {entries : List (Text × Json F)} {key : Text}
    (hv : entries.lookup key = some v) (ht : t ∈ v.texts) : t ∈ (object entries).texts := by
  rw [texts]
  induction entries with
  | nil => cases hv
  | cons entry entries ih =>
    obtain ⟨key', w⟩ := entry
    rw [textsOfEntries, List.mem_append, List.mem_cons]
    rw [List.lookup_cons] at hv
    split at hv
    · obtain rfl := Option.some.inj hv
      exact .inl (.inr ht)
    · exact .inr (ih hv)

theorem mem_texts_of_asStr (h : v.asStr = some t) : t ∈ v.texts := by
  cases v <;> simp_all [asStr, texts]

end Json

def nul : Char := Char.ofNat 0

/-- A `jsonb` value: the type refuses the character `\u0000` in strings and keys. -/
structure Jsonb (F : Type) where
  value : Json F
  plain : ∀ t ∈ value.texts, nul ∉ t

end Pgokf
