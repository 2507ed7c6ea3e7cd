import Mathlib.Tactic

/-! Bounded machine arithmetic over `Nat`. A counter of the source is a natural
number together with the bound of its type at the operations that check it. -/
namespace Word

/-- `u32::MAX`. -/
def max32 : Nat := 2 ^ 32 - 1

/-- `u64::MAX`. -/
def max64 : Nat := 2 ^ 64 - 1

/-- `isize::MAX`, the bytes of the largest allocation. A request for more is a capacity
overflow, and panics. -/
def maxIsize : Nat := 2 ^ 63 - 1

/-- `checked_add` of an unsigned type with largest value `max`. -/
def checkedAdd (max a b : Nat) : Option Nat :=
  if a + b ≤ max then some (a + b) else none

/-- `saturating_add` of an unsigned type with largest value `max`. -/
def saturatingAdd (max a b : Nat) : Nat := min max (a + b)

/-- The truncating cast `as u32`. -/
def asU32 (n : Nat) : Nat := n % 2 ^ 32

theorem checkedAdd_eq_some {max a b c : Nat} :
    checkedAdd max a b = some c ↔ c = a + b ∧ a + b ≤ max := by
  unfold checkedAdd
  split <;> simp_all [eq_comm]

theorem checkedAdd_eq_none {max a b : Nat} :
    checkedAdd max a b = none ↔ max < a + b := by
  simp [checkedAdd]

theorem asU32_of_lt {n : Nat} (h : n < 2 ^ 32) : asU32 n = n := Nat.mod_eq_of_lt h

end Word
