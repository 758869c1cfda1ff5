import Mathlib.Data.Option.Basic

/-! # Conditions over columns that may be null

A condition is unknown (`none`) where a comparison meets a null; a statement selects the rows for
which it is true. -/

namespace Pgokf.Lib

abbrev Truth := Option Bool

namespace Truth

variable {α : Type*} [DecidableEq α] {s t : Truth} {l : List Truth} {x y : Option α} {a : α}

def not (t : Truth) : Truth := t.map (!·)

/-- False where one side is, even if the other is unknown. -/
def and : Truth → Truth → Truth
  | some false, _ => some false
  | _, some false => some false
  | some true, some true => some true
  | _, _ => none

def or : Truth → Truth → Truth
  | some true, _ => some true
  | _, some true => some true
  | some false, some false => some false
  | _, _ => none

/-- `a AND b AND …`. -/
def conj (l : List Truth) : Truth := l.foldr and (some true)

/-- `a OR b OR …`. -/
def disj (l : List Truth) : Truth := l.foldr or (some false)

def isNull {α : Type*} (x : Option α) : Truth := some x.isNone

def isNotNull {α : Type*} (x : Option α) : Truth := some x.isSome

/-- `x = y`. -/
def equal (x y : Option α) : Truth := x.bind fun a => y.map fun b => decide (a = b)

/-- `x <> y`. -/
def unequal (x y : Option α) : Truth := (equal x y).not

/-- `x IS DISTINCT FROM y`: nulls compare as values. -/
def distinctFrom (x y : Option α) : Truth := some (decide (x ≠ y))

def holds (t : Truth) : Bool := t == some true

@[simp] theorem holds_some (b : Bool) : holds (some b) = b := by
  cases b <;> rfl

@[simp] theorem holds_and : (s.and t).holds = (s.holds && t.holds) := by
  match s, t with
  | none, none | none, some true | none, some false => rfl
  | some true, none | some true, some true | some true, some false => rfl
  | some false, none | some false, some true | some false, some false => rfl

@[simp] theorem holds_or : (s.or t).holds = (s.holds || t.holds) := by
  match s, t with
  | none, none | none, some true | none, some false => rfl
  | some true, none | some true, some true | some true, some false => rfl
  | some false, none | some false, some true | some false, some false => rfl

theorem holds_conj : (conj l).holds = l.all holds := by
  induction l with
  | nil => rfl
  | cons t l ih => exact holds_and.trans (by rw [List.all_cons, ← ih, conj])

theorem holds_disj : (disj l).holds = l.any holds := by
  induction l with
  | nil => rfl
  | cons t l ih => exact holds_or.trans (by rw [List.any_cons, ← ih, disj])

@[simp] theorem holds_isNull {α : Type*} {x : Option α} : (isNull x).holds = x.isNone := holds_some _

@[simp] theorem holds_isNotNull {α : Type*} {x : Option α} : (isNotNull x).holds = x.isSome :=
    holds_some _

@[simp] theorem holds_equal_some : (equal x (some a)).holds = decide (x = some a) := by
  cases x with
  | none => rfl
  | some b => simp [equal]

@[simp] theorem holds_unequal_some : (unequal x (some a)).holds = x.any (decide <| · ≠ a) := by
  cases x with
  | none => rfl
  | some b => simp [unequal, equal, not]

@[simp] theorem holds_distinctFrom : (distinctFrom x y).holds = decide (x ≠ y) := holds_some _

end Truth

end Pgokf.Lib
