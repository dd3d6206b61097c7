/-
# Rounding to binary64

A float64 operation returns the nearest number with 53 significant bits, and of
two equally near ones the one whose last bit is zero. `float64` is this rounding
on the rationals, without the limits of the exponent: the numbers rounded here
are far from both ends of its range.

Key definition: `float64`.
Key theorems: `float64_natCast`, `abs_float64_sub_le`, `one_le_float64`.
-/
import Mathlib.Algebra.Order.Field.Power
import Mathlib.Data.Int.Log
import Mathlib.Data.Rat.Floor
import Mathlib.Tactic.FieldSimp
import Mathlib.Tactic.Linarith
import Mathlib.Tactic.NormNum
import Mathlib.Tactic.Positivity

namespace Go

/-- The nearest integer, the even one of two that are equally near. -/
def roundEven (q : ℚ) : ℤ :=
  if q - ⌊q⌋ < 1 / 2 then ⌊q⌋
  else if 1 / 2 < q - ⌊q⌋ then ⌊q⌋ + 1
  else if ⌊q⌋ % 2 = 0 then ⌊q⌋ else ⌊q⌋ + 1

/-- The nearest float64. -/
def float64 (q : ℚ) : ℚ :=
  if q = 0 then 0
  else roundEven (q / 2 ^ (Int.log 2 |q| - 52)) * 2 ^ (Int.log 2 |q| - 52)

theorem roundEven_intCast (z : ℤ) : roundEven z = z := by
  simp [roundEven]

/-- Integers of at most 53 bits are exact. -/
theorem float64_natCast {n : ℕ} (h : n < 2 ^ 53) : float64 n = n := by
  rcases Nat.eq_zero_or_pos n with rfl | hn
  · simp [float64]
  have hlog : Int.log 2 |(n : ℚ)| = (Nat.log 2 n : ℕ) := by
    rw [abs_of_nonneg (by positivity), Int.log_natCast]
  have hle : Nat.log 2 n ≤ 52 := by
    have := Nat.log_lt_of_lt_pow (by omega) h
    omega
  -- the unit in the last place is `1 / 2 ^ k`
  obtain ⟨k, hk⟩ := Nat.exists_eq_add_of_le hle
  have he : Int.log 2 |(n : ℚ)| - 52 = -(k : ℤ) := by rw [hlog]; omega
  have hn0 : (n : ℚ) ≠ 0 := by positivity
  have hq : (n : ℚ) / 2 ^ (-(k : ℤ)) = ((n * 2 ^ k : ℤ) : ℚ) := by
    rw [zpow_neg, zpow_natCast]
    field_simp
    push_cast
    ring
  calc float64 n = roundEven (n / 2 ^ (-(k : ℤ))) * 2 ^ (-(k : ℤ)) := by rw [float64, if_neg hn0, he]
    _ = ((n * 2 ^ k : ℤ) : ℚ) * 2 ^ (-(k : ℤ)) := by rw [hq, roundEven_intCast]
    _ = n := by
        rw [zpow_neg, zpow_natCast]
        push_cast
        field_simp

/-! ### Bounds -/

theorem floor_le_roundEven (q : ℚ) : ⌊q⌋ ≤ roundEven q := by
  unfold roundEven
  split_ifs <;> omega

theorem abs_roundEven_sub_le (q : ℚ) : |roundEven q - q| ≤ 1 / 2 := by
  have h0 := Int.floor_le q
  have h1 := Int.lt_floor_add_one q
  unfold roundEven
  rw [abs_le]
  split_ifs with h2 h3 h4
  · constructor <;> linarith
  · push_cast
    constructor <;> linarith
  · constructor <;> linarith
  · push_cast
    constructor <;> linarith

theorem float64_nonneg {q : ℚ} (h : 0 ≤ q) : 0 ≤ float64 q := by
  unfold float64
  split_ifs
  · exact le_rfl
  · have hfloor : 0 ≤ ⌊q / 2 ^ (Int.log 2 |q| - 52)⌋ := Int.floor_nonneg.mpr (by positivity)
    have hround : (0 : ℚ) ≤ roundEven (q / 2 ^ (Int.log 2 |q| - 52)) := by
      exact_mod_cast hfloor.trans (floor_le_roundEven _)
    positivity

/-- The error is at most half a unit in the last place. -/
theorem abs_float64_sub_le (q : ℚ) : |float64 q - q| ≤ |q| / 2 ^ 53 := by
  by_cases hq : q = 0
  · simp [float64, hq]
  have hpos : (0 : ℚ) < 2 ^ (Int.log 2 |q| - 52) := by positivity
  have hlog : (2 : ℚ) ^ Int.log 2 |q| ≤ |q| := by
    have h := Int.zpow_log_le_self (b := 2) (by norm_num) (abs_pos.mpr hq)
    exact_mod_cast h
  have hunit : (2 : ℚ) ^ (Int.log 2 |q| - 52) = 2 ^ Int.log 2 |q| / 2 ^ 52 := by
    rw [zpow_sub₀ (by norm_num)]
    rfl
  have hsub : float64 q - q = (roundEven (q / 2 ^ (Int.log 2 |q| - 52)) - q / 2 ^ (Int.log 2 |q| - 52)) *
      2 ^ (Int.log 2 |q| - 52) := by
    rw [float64, if_neg hq, sub_mul, div_mul_cancel₀ q hpos.ne']
  calc |float64 q - q|
      = |roundEven (q / 2 ^ (Int.log 2 |q| - 52)) - q / 2 ^ (Int.log 2 |q| - 52)| *
          2 ^ (Int.log 2 |q| - 52) := by rw [hsub, abs_mul, abs_of_pos hpos]
    _ ≤ 1 / 2 * 2 ^ (Int.log 2 |q| - 52) := mul_le_mul_of_nonneg_right (abs_roundEven_sub_le _) hpos.le
    _ = 2 ^ Int.log 2 |q| / 2 ^ 53 := by rw [hunit]; ring
    _ ≤ |q| / 2 ^ 53 := by gcongr

/-- What is one or more stays so. -/
theorem one_le_float64 {q : ℚ} (h : 1 ≤ q) : 1 ≤ float64 q := by
  have hq : 0 < q := by linarith
  have habs : |q| = q := abs_of_pos hq
  have hlog : (2 : ℚ) ^ Int.log 2 |q| ≤ q := by
    have h' := Int.zpow_log_le_self (b := 2) (by norm_num) hq
    rw [habs]
    exact_mod_cast h'
  have hlog0 : 0 ≤ Int.log 2 |q| := by
    rw [habs, ← Int.zpow_le_iff_le_log (by norm_num) hq]
    simpa using h
  obtain ⟨n, hn⟩ := Int.eq_ofNat_of_zero_le hlog0
  rw [float64, if_neg hq.ne']
  rw [hn] at hlog ⊢
  have hunit : (2 : ℚ) ^ ((n : ℤ) - 52) * 2 ^ 52 = 2 ^ n := by
    rw [zpow_sub₀ (by norm_num), zpow_natCast]
    norm_num
  have hpos : (0 : ℚ) < 2 ^ ((n : ℤ) - 52) := by positivity
  have hge : (2 ^ 52 : ℚ) ≤ q / 2 ^ ((n : ℤ) - 52) := by
    rw [le_div_iff₀ hpos, mul_comm, hunit]
    exact_mod_cast hlog
  have hfloor : (2 ^ 52 : ℤ) ≤ ⌊q / 2 ^ ((n : ℤ) - 52)⌋ := Int.le_floor.mpr (by exact_mod_cast hge)
  have hround : (2 ^ 52 : ℚ) ≤ roundEven (q / 2 ^ ((n : ℤ) - 52)) := by
    exact_mod_cast hfloor.trans (floor_le_roundEven _)
  calc (1 : ℚ) ≤ 2 ^ n := one_le_pow₀ (by norm_num)
    _ = 2 ^ 52 * 2 ^ ((n : ℤ) - 52) := by rw [mul_comm, hunit]
    _ ≤ roundEven (q / 2 ^ ((n : ℤ) - 52)) * 2 ^ ((n : ℤ) - 52) := mul_le_mul_of_nonneg_right hround hpos.le

end Go
