import Mathlib.Data.Int.Log
import Mathlib.Data.Rat.Floor
import Mathlib.Tactic.Linarith
import Mathlib.Tactic.Positivity

/-!
# Rounding to binary digits

`toPrecision digits` rounds a rational to that many significant binary digits, to the
nearest and in a tie to the even neighbour. Floating-point operations whose results stay
within the range of normal numbers are the exact operations followed by it.
-/

namespace Boros.Data

/-- The nearest integer, in a tie the even one. -/
def roundEven (x : ℚ) : ℤ :=
  if x - ⌊x⌋ < 1 / 2 then ⌊x⌋
  else if 1 / 2 < x - ⌊x⌋ then ⌊x⌋ + 1
  else ⌊x⌋ + ⌊x⌋ % 2

/-- The weight of the last of the significant digits of a positive number. -/
def lastPlace (digits : Nat) (x : ℚ) : ℚ := 2 ^ (Int.log 2 x - (digits - 1))

/-- The number rounded to significant binary digits. -/
def toPrecision (digits : Nat) (x : ℚ) : ℚ :=
  roundEven (x / lastPlace digits x) * lastPlace digits x

example : toPrecision 2 (11 / 4) = 3 ∧ toPrecision 2 (5 / 2) = 2 := by decide +kernel

variable {digits : Nat} {x : ℚ}

/-- Rounding to an integer adds at most a half. -/
theorem roundEven_le (x : ℚ) : (roundEven x : ℚ) ≤ x + 1 / 2 := by
  have below : (⌊x⌋ : ℚ) ≤ x := Int.floor_le x
  fun_cases roundEven x with
  | case1 near => linarith
  | case2 near far =>
      push_cast
      linarith
  | case3 near tie =>
      have parity : ((⌊x⌋ % 2 : ℤ) : ℚ) ≤ 1 := by exact_mod_cast (by omega : ⌊x⌋ % 2 ≤ 1)
      push_cast at parity ⊢
      linarith

/-- It takes at most a half away. -/
theorem le_roundEven (x : ℚ) : x - 1 / 2 ≤ roundEven x := by
  have above : x < ⌊x⌋ + 1 := Int.lt_floor_add_one x
  fun_cases roundEven x with
  | case1 near => linarith
  | case2 near far =>
      push_cast
      linarith
  | case3 near tie =>
      have parity : (0 : ℚ) ≤ ((⌊x⌋ % 2 : ℤ) : ℚ) := by exact_mod_cast (by omega : 0 ≤ ⌊x⌋ % 2)
      push_cast at parity ⊢
      linarith

theorem roundEven_nonneg (nonneg : 0 ≤ x) : 0 ≤ roundEven x := by
  have floor : 0 ≤ ⌊x⌋ := Int.floor_nonneg.mpr nonneg
  fun_cases roundEven x <;> omega

theorem lastPlace_pos (digits : Nat) (x : ℚ) : 0 < lastPlace digits x :=
  zpow_pos two_pos _

theorem toPrecision_nonneg (digits : Nat) (nonneg : 0 ≤ x) : 0 ≤ toPrecision digits x := by
  have place := lastPlace_pos digits x
  have scaled : 0 ≤ roundEven (x / lastPlace digits x) :=
    roundEven_nonneg (div_nonneg nonneg place.le)
  exact mul_nonneg (by exact_mod_cast scaled) place.le

/-- Half a unit of the last significant digit is a small part of the number. -/
theorem half_lastPlace_le (digits : Nat) (positive : 0 < x) :
    1 / 2 * lastPlace digits x ≤ 1 / 2 ^ digits * x := by
  have leading : (2 : ℚ) ^ Int.log 2 x ≤ x := Int.zpow_log_le_self (by decide) positive
  have significant : lastPlace digits x * 2 ^ digits ≤ 2 * x := by
    calc lastPlace digits x * 2 ^ digits
        = 2 * 2 ^ Int.log 2 x := by
          rw [lastPlace, ← zpow_natCast, ← zpow_add₀ two_ne_zero, ← zpow_one_add₀ two_ne_zero]
          congr 1
          ring
      _ ≤ 2 * x := by linarith
  have power : (0 : ℚ) < 2 ^ digits := by positivity
  rw [one_div_mul_eq_div, one_div_mul_eq_div, div_le_div_iff₀ two_pos power]
  linarith

/-- Rounding to significant digits adds at most half a unit of the last of them. -/
theorem toPrecision_le (digits : Nat) (nonneg : 0 ≤ x) :
    toPrecision digits x ≤ (1 + 1 / 2 ^ digits) * x := by
  have place := lastPlace_pos digits x
  rcases nonneg.eq_or_lt with rfl | positive
  · simp [toPrecision, roundEven]
  · have rounded := mul_le_mul_of_nonneg_right (roundEven_le (x / lastPlace digits x)) place.le
    rw [add_mul, div_mul_cancel₀ _ place.ne'] at rounded
    have half := half_lastPlace_le digits positive
    calc toPrecision digits x ≤ x + 1 / 2 * lastPlace digits x := rounded
      _ ≤ (1 + 1 / 2 ^ digits) * x := by linarith

/-- It takes at most as much away. -/
theorem le_toPrecision (digits : Nat) (nonneg : 0 ≤ x) :
    (1 - 1 / 2 ^ digits) * x ≤ toPrecision digits x := by
  have place := lastPlace_pos digits x
  rcases nonneg.eq_or_lt with rfl | positive
  · simp [toPrecision, roundEven]
  · have rounded := mul_le_mul_of_nonneg_right (le_roundEven (x / lastPlace digits x)) place.le
    rw [sub_mul, div_mul_cancel₀ _ place.ne'] at rounded
    have half := half_lastPlace_le digits positive
    calc (1 - 1 / 2 ^ digits) * x ≤ x - 1 / 2 * lastPlace digits x := by linarith
      _ ≤ toPrecision digits x := rounded

/-! ## Arithmetic -/

/-- How the result of an operation comes from the exact one, which it is within a relative
error of. -/
structure Arithmetic (error : ℚ) where
  result : ℚ → ℚ
  le : ∀ {x : ℚ}, 0 ≤ x → result x ≤ (1 + error) * x
  ge : ∀ {x : ℚ}, 0 ≤ x → (1 - error) * x ≤ result x

/-- The exact results. -/
def Arithmetic.exact {error : ℚ} (nonneg : 0 ≤ error) : Arithmetic error where
  result := id
  le := fun {x} positive => by
    have added := mul_nonneg nonneg positive
    simp only [id]
    linarith
  ge := fun {x} positive => by
    have taken := mul_nonneg nonneg positive
    simp only [id]
    linarith

/-- Results rounded to significant binary digits. -/
def Arithmetic.binary (digits : Nat) : Arithmetic (1 / 2 ^ digits) where
  result := toPrecision digits
  le := toPrecision_le digits
  ge := le_toPrecision digits

namespace Arithmetic

variable {error factor : ℚ}

theorem nonneg (arithmetic : Arithmetic error) (small : error ≤ 1) (positive : 0 ≤ x) :
    0 ≤ arithmetic.result x := by
  have product : 0 ≤ (1 - error) * x := mul_nonneg (by linarith) positive
  exact product.trans (arithmetic.ge positive)

/-- The result of two operations, of which the second is a product. -/
theorem result_mul_le (arithmetic : Arithmetic error) (small : error ≤ 1) (nonneg : 0 ≤ error)
    (positive : 0 ≤ x) (factorPositive : 0 ≤ factor) :
    arithmetic.result (arithmetic.result x * factor) ≤ (1 + error) ^ 2 * (x * factor) := by
  have first := arithmetic.nonneg small positive
  calc arithmetic.result (arithmetic.result x * factor)
      ≤ (1 + error) * (arithmetic.result x * factor) :=
        arithmetic.le (mul_nonneg first factorPositive)
    _ ≤ (1 + error) * ((1 + error) * x * factor) := by
        have bound := mul_le_mul_of_nonneg_right (arithmetic.le positive) factorPositive
        exact mul_le_mul_of_nonneg_left bound (by linarith)
    _ = (1 + error) ^ 2 * (x * factor) := by ring

theorem le_result_mul (arithmetic : Arithmetic error) (small : error ≤ 1) (positive : 0 ≤ x)
    (factorPositive : 0 ≤ factor) :
    (1 - error) ^ 2 * (x * factor) ≤ arithmetic.result (arithmetic.result x * factor) := by
  have first := arithmetic.nonneg small positive
  calc (1 - error) ^ 2 * (x * factor) = (1 - error) * ((1 - error) * x * factor) := by ring
    _ ≤ (1 - error) * (arithmetic.result x * factor) := by
        have bound := mul_le_mul_of_nonneg_right (arithmetic.ge positive) factorPositive
        exact mul_le_mul_of_nonneg_left bound (by linarith)
    _ ≤ arithmetic.result (arithmetic.result x * factor) :=
        arithmetic.ge (mul_nonneg first factorPositive)

end Arithmetic

/-! ## Rounding half up -/

/-- Which numbers are below the number which a number is rounded to. -/
theorem natCast_le_round_iff (k : Nat) : (k : ℤ) ≤ round x ↔ (k : ℚ) ≤ x + 1 / 2 := by
  rw [round_eq, Int.le_floor]
  rfl

/-- Rounding half up at most doubles. -/
theorem round_le_two_mul (nonneg : 0 ≤ x) : (round x : ℚ) ≤ 2 * x := by
  rw [round_eq]
  have below : (⌊x + 1 / 2⌋ : ℚ) ≤ x + 1 / 2 := Int.floor_le _
  rcases lt_or_ge x (1 / 2) with small | large
  · have none : ⌊x + 1 / 2⌋ ≤ 0 := by
      rw [← Int.lt_add_one_iff, Int.floor_lt]
      push_cast
      linarith
    have cast : (⌊x + 1 / 2⌋ : ℚ) ≤ 0 := by exact_mod_cast none
    linarith
  · linarith

end Boros.Data
