import Mathlib.Data.Int.Log
import Mathlib.Data.Rat.Floor
import Mathlib.Tactic.Positivity

/-! Rational numbers rounded to the nearest double. -/
namespace NodeTerm.Base

def nearestEven (q : ℚ) : ℤ :=
  if 2 * (q - ⌊q⌋) < 1 ∨ 2 * (q - ⌊q⌋) = 1 ∧ ⌊q⌋ % 2 = 0 then ⌊q⌋ else ⌊q⌋ + 1

/-- The distance of the doubles about a number. -/
def doubleStep (q : ℚ) : ℚ := 2 ^ max (Int.log 2 |q| - 52) (-1074)

/-- `none` is an infinity. -/
def toDouble (q : ℚ) : Option ℚ :=
  let value := nearestEven (q / doubleStep q) * doubleStep q
  if |value| < 2 ^ 1024 then some value else none

theorem nearestEven_intCast (n : ℤ) : nearestEven n = n := by
  simp [nearestEven]

theorem floor_le_nearestEven (q : ℚ) : ⌊q⌋ ≤ nearestEven q := by
  unfold nearestEven
  split <;> omega

theorem doubleStep_pos (q : ℚ) : 0 < doubleStep q := zpow_pos (by norm_num) _

/-- An integer of at most 53 bits is a double. -/
theorem toDouble_intCast {n : ℤ} (h : |n| < 2 ^ 53) : toDouble n = some (n : ℚ) := by
  have hcast : |(n : ℚ)| < 2 ^ 53 := by exact_mod_cast h
  have hlog : Int.log 2 |(n : ℚ)| ≤ 52 := by
    by_cases hzero : n = 0
    · simp [hzero]
    · have hpos : (0 : ℚ) < |(n : ℚ)| := abs_pos.mpr (by exact_mod_cast hzero)
      have hlt : Int.log 2 |(n : ℚ)| < 53 := (Int.lt_zpow_iff_log_lt (by norm_num) hpos).mp (by exact_mod_cast hcast)
      omega
  obtain ⟨k, hk⟩ : ∃ k : ℕ, max (Int.log 2 |(n : ℚ)| - 52) (-1074) = -(k : ℤ) :=
    ⟨(-max (Int.log 2 |(n : ℚ)| - 52) (-1074)).toNat, by omega⟩
  have hstep : doubleStep n = (2 ^ k : ℚ)⁻¹ := by
    rw [doubleStep, hk, zpow_neg, zpow_natCast]
  have hscaled : (n : ℚ) / doubleStep n = ((n * 2 ^ k : ℤ) : ℚ) := by
    rw [hstep, div_inv_eq_mul]
    push_cast
    rfl
  have hvalue : (nearestEven ((n : ℚ) / doubleStep n) : ℚ) * doubleStep n = n := by
    rw [hscaled, nearestEven_intCast, ← hscaled, div_mul_cancel₀ _ (doubleStep_pos _).ne']
  have hsmall : |(n : ℚ)| < 2 ^ 1024 := hcast.trans (pow_lt_pow_right₀ (by norm_num) (by norm_num))
  unfold toDouble
  rw [hvalue]
  exact if_pos hsmall

/-- Rounding takes at most half of a large number. -/
theorem half_le_toDouble {q value : ℚ} (h : 1 ≤ q) (hvalue : toDouble q = some value) : q / 2 ≤ value := by
  have habs : |q| = q := abs_of_pos (by linarith)
  have hlog : (0 : ℤ) ≤ Int.log 2 q := by
    have hone := Int.log_mono_right (b := 2) (by norm_num) h
    rwa [Int.log_one_right] at hone
  have hstep : doubleStep q ≤ q / 2 := by
    have hexponent : max (Int.log 2 |q| - 52) (-1074) ≤ Int.log 2 q - 1 := by
      rw [habs]
      omega
    calc doubleStep q ≤ 2 ^ (Int.log 2 q - 1) := zpow_le_zpow_right₀ (by norm_num) hexponent
      _ = 2 ^ Int.log 2 q / 2 := by rw [zpow_sub₀ (by norm_num), zpow_one]
      _ ≤ q / 2 := by
        have hle := Int.zpow_log_le_self (b := 2) (by norm_num) (lt_of_lt_of_le one_pos h)
        have hle' : (2 : ℚ) ^ Int.log 2 q ≤ q := by exact_mod_cast hle
        linarith
  obtain ⟨-, rfl⟩ := Option.ite_some_none_eq_some.mp hvalue
  have hpos := doubleStep_pos q
  have hfloor := Int.sub_one_lt_floor (q / doubleStep q)
  have hnearest : (⌊q / doubleStep q⌋ : ℚ) ≤ nearestEven (q / doubleStep q) := by exact_mod_cast floor_le_nearestEven _
  calc q / 2 ≤ q - doubleStep q := by linarith
    _ = (q / doubleStep q - 1) * doubleStep q := by field_simp
    _ ≤ nearestEven (q / doubleStep q) * doubleStep q := by
      apply mul_le_mul_of_nonneg_right _ hpos.le
      linarith

end NodeTerm.Base
