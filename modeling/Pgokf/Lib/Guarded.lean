import Mathlib.Tactic.Common

/-! # Computations that may fail in two ways

A computation gives a value, gives none, or stops the program (a slice inside of a character, an
index out of range, an overflow). -/

namespace Pgokf.Lib

inductive Fault where
  | boundary
  | index
  | overflow
  deriving DecidableEq

inductive Guarded (α : Type) where
  | fault (f : Fault)
  | rejected
  | value (a : α)
  deriving DecidableEq

namespace Guarded

variable {α β : Type} {x : Guarded α} {g : α → Guarded β} {a : α} {b : β} {f : Fault}

def bind (x : Guarded α) (g : α → Guarded β) : Guarded β :=
  match x with
  | fault f => fault f
  | rejected => rejected
  | value a => g a

instance : Monad Guarded where
  pure := value
  bind := bind

/-- `?` on an option. -/
def ofOption : Option α → Guarded α
  | some a => value a
  | none => rejected

def demand (c : Bool) : Guarded Unit := if c then value () else rejected

/-- The value if there is one; only a fault is passed on. -/
def attempt : Guarded α → Guarded (Option α)
  | fault f => fault f
  | rejected => value none
  | value a => value (some a)

theorem bind_value : value a >>= g = g a := rfl

@[simp] theorem bind_eq_value : x >>= g = value b ↔ ∃ a, x = value a ∧ g a = value b := by
  cases x <;> simp [Bind.bind, bind]

@[simp] theorem bind_eq_fault : x >>= g = fault f ↔ x = fault f ∨ ∃ a, x = value a ∧ g a = fault f := by
  cases x <;> simp [Bind.bind, bind]

@[simp] theorem pure_eq_value {a' : α} : (pure a : Guarded α) = value a' ↔ a = a' := by
  simp [pure]

@[simp] theorem pure_ne_fault : (pure a : Guarded α) ≠ fault f := by
  simp [pure]

variable {o : Option α}

@[simp] theorem ofOption_eq_value : ofOption o = value a ↔ o = some a := by
  cases o <;> simp [ofOption]

@[simp] theorem ofOption_ne_fault : ofOption o ≠ fault f := by
  cases o <;> simp [ofOption]

variable {c : Bool}

@[simp] theorem demand_eq_value {u : Unit} : demand c = value u ↔ c = true := by
  cases c <;> simp [demand]

@[simp] theorem demand_ne_fault : demand c ≠ fault f := by
  cases c <;> simp [demand]

def Yields (x : Guarded α) (P : α → Prop) : Prop := ∃ a, x = value a ∧ P a

variable {P : α → Prop}

theorem Yields.bind {Q : β → Prop} (hx : Yields x P) (hg : ∀ a, P a → Yields (g a) Q) :
    Yields (x >>= g) Q := by
  obtain ⟨a, rfl, ha⟩ := hx
  exact hg a ha

theorem Yields.ne_fault (hx : Yields x P) : x ≠ fault f := by
  obtain ⟨a, rfl, -⟩ := hx
  simp

end Guarded

end Pgokf.Lib
