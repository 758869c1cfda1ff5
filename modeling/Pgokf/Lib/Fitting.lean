import Mathlib.Algebra.GroupWithZero.Nat
import Mathlib.Algebra.Order.BigOperators.Group.List

/-! # Taking what still fits

Items are looked at in order and each that fits in the room that is left is taken. -/

namespace Pgokf.Lib

variable {α : Type*} (cost : α → Nat)

end Pgokf.Lib
