import Mathlib.Algebra.BigOperators.Group.List.Basic
import Mathlib.Algebra.Order.Ring.Int

/-! # Integers of 64 bits

What the operations of `Int64` are as operations on the integers, where they do not overflow; and what a
sum is that does. -/

namespace MigrationSafety.Lib.Words

theorem toInt_add {a b : Int64} (h₁ : -2 ^ 63 ≤ a.toInt + b.toInt) (h₂ : a.toInt + b.toInt < 2 ^ 63) :
    (a + b).toInt = a.toInt + b.toInt := by
  rw [Int64.toInt_add]
  exact Int.bmod_eq_of_le (by omega) (by omega)

theorem toInt_sub {a b : Int64} (h₁ : -2 ^ 63 ≤ a.toInt - b.toInt) (h₂ : a.toInt - b.toInt < 2 ^ 63) :
    (a - b).toInt = a.toInt - b.toInt := by
  rw [Int64.toInt_sub]
  exact Int.bmod_eq_of_le (by omega) (by omega)

theorem toInt_mul {a b : Int64} (h₁ : -2 ^ 63 ≤ a.toInt * b.toInt) (h₂ : a.toInt * b.toInt < 2 ^ 63) :
    (a * b).toInt = a.toInt * b.toInt := by
  rw [Int64.toInt_mul]
  exact Int.bmod_eq_of_le (by omega) (by omega)

theorem toInt_div {a b : Int64} (ha : 0 ≤ a.toInt) : (a / b).toInt = a.toInt / b.toInt := by
  have hne : a ≠ Int64.minValue := by
    rintro rfl
    exact absurd ha (by decide)
  rw [Int64.toInt_div_of_ne_left _ _ hne, Int.tdiv_eq_ediv_of_nonneg ha]

/-- **An overflow** goes below every number that is not negative. -/
theorem toInt_add_of_overflow {a b : Int64} (h : 2 ^ 63 ≤ a.toInt + b.toInt) :
    (a + b).toInt = a.toInt + b.toInt - 2 ^ 64 := by
  have ha := a.toInt_lt
  have hb := b.toInt_lt
  rw [Int64.toInt_add, ← Int.sub_bmod_right]
  exact Int.bmod_eq_of_le (by omega) (by omega)

theorem ofInt_sum (l : List Int64) : Int64.ofInt (l.map Int64.toInt).sum = l.sum := by
  induction l with
  | nil => rfl
  | cons a l ih => rw [List.map_cons, List.sum_cons, List.sum_cons, Int64.ofInt_add, Int64.ofInt_toInt, ih]

end MigrationSafety.Lib.Words
