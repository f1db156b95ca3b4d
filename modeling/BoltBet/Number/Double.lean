import Mathlib.Data.Int.Log
import Mathlib.Data.Rat.Floor
import Mathlib.Tactic.Linarith
import Mathlib.Tactic.Positivity

/-!
# Doubles

The values of binary64 arithmetic, as rationals: 53 bits, and an exponent that neither overflows nor
underflows. `nearest x` is the result of an operation whose exact value is `x`: the double next to
it, a tie going to the even one.

* `abs_nearest_sub_le`: the error is half the spacing of the doubles around `x` at most.
* `nearest_intCast`: an integer below `2 ^ 53` is a double.
* `floor_nearest_div`: the quotient of two integers, the first of them below `2 ^ 53`, has the floor
  of the exact quotient.
-/

namespace Double

/-- The spacing of the doubles around `x`. -/
def ulp (x : ℚ) : ℚ := 2 ^ (Int.log 2 |x| - 52)

/-- The integer next to `x`, a tie going to the even one. -/
def roundEven (x : ℚ) : ℤ :=
  if 2 * (x - ⌊x⌋) < 1 then ⌊x⌋
  else if 1 < 2 * (x - ⌊x⌋) then ⌊x⌋ + 1
  else if Even ⌊x⌋ then ⌊x⌋ else ⌊x⌋ + 1

/-- The double next to `x`. -/
def nearest (x : ℚ) : ℚ := roundEven (x / ulp x) * ulp x

theorem ulp_pos (x : ℚ) : 0 < ulp x := zpow_pos (by norm_num) _

/-- Around `x` the doubles are relatively dense. -/
theorem ulp_le {x : ℚ} (hx : 0 < x) : ulp x * 2 ^ 52 ≤ x := by
  have hlog : (2 : ℚ) ^ Int.log 2 |x| ≤ |x| := by
    exact_mod_cast Int.zpow_log_le_self (R := ℚ) (b := 2) (by norm_num) (abs_pos.mpr hx.ne')
  have hulp : ulp x * 2 ^ 52 = 2 ^ Int.log 2 |x| := by
    unfold ulp
    rw [zpow_sub₀ (by norm_num), div_mul_eq_mul_div]
    exact mul_div_cancel_right₀ _ (by norm_num)
  rw [hulp]
  rwa [abs_of_pos hx] at hlog ⊢

theorem abs_roundEven_sub_le (x : ℚ) : |roundEven x - x| ≤ 1 / 2 := by
  have hle : (⌊x⌋ : ℚ) ≤ x := Int.floor_le x
  have hlt : x < ⌊x⌋ + 1 := Int.lt_floor_add_one x
  rw [abs_le]
  unfold roundEven
  split
  · constructor <;> linarith
  · split
    · push_cast
      constructor <;> linarith
    · split
      · constructor <;> linarith
      · push_cast
        constructor <;> linarith

theorem roundEven_intCast (n : ℤ) : roundEven n = n := by
  unfold roundEven
  rw [Int.floor_intCast, sub_self, mul_zero]
  exact if_pos one_pos

/-- **The error of one operation.** -/
theorem abs_nearest_sub_le (x : ℚ) : |nearest x - x| ≤ ulp x / 2 := by
  have hpos := ulp_pos x
  have hx : x = x / ulp x * ulp x := (div_mul_cancel₀ x hpos.ne').symm
  have hscaled : nearest x - x = (roundEven (x / ulp x) - x / ulp x) * ulp x := by
    unfold nearest
    rw [sub_mul, ← hx]
  rw [hscaled, abs_mul, abs_of_pos hpos]
  calc |(roundEven (x / ulp x) : ℚ) - x / ulp x| * ulp x
      ≤ 1 / 2 * ulp x := mul_le_mul_of_nonneg_right (abs_roundEven_sub_le _) hpos.le
    _ = ulp x / 2 := by ring

/-- **Small integers are doubles.** -/
theorem nearest_intCast {n : ℤ} (h : |n| < 2 ^ 53) : nearest n = n := by
  by_cases hn : n = 0
  · subst hn
    unfold nearest
    rw [Int.cast_zero, zero_div, ← Int.cast_zero, roundEven_intCast]
    simp
  have hlog : Int.log 2 |(n : ℚ)| ≤ 52 := by
    have hpos : (0 : ℚ) < |(n : ℚ)| := abs_pos.mpr (Int.cast_ne_zero.mpr hn)
    have hlt : |(n : ℚ)| < ((2 : ℕ) : ℚ) ^ (53 : ℤ) := by exact_mod_cast h
    have := (Int.lt_zpow_iff_log_lt (R := ℚ) (b := 2) (by norm_num) hpos).mp hlt
    omega
  obtain ⟨k, hk⟩ := Int.eq_ofNat_of_zero_le (sub_nonneg.mpr hlog)
  have hulp : ulp (n : ℚ) = (2 ^ k)⁻¹ := by
    unfold ulp
    rw [show Int.log 2 |(n : ℚ)| - 52 = -(k : ℤ) by omega, zpow_neg, zpow_natCast]
  have hscaled : (n : ℚ) / ulp n = ((n * 2 ^ k : ℤ) : ℚ) := by
    rw [hulp, div_inv_eq_mul]
    push_cast
    rfl
  unfold nearest
  rw [hscaled, roundEven_intCast, ← hscaled]
  exact div_mul_cancel₀ _ (ulp_pos _).ne'

/-- **A quotient has the floor of the exact one.** -/
theorem floor_nearest_div {p d : ℤ} (hp : 0 ≤ p) (hp' : p < 2 ^ 53) (hd : 0 < d) :
    ⌊nearest (p / d)⌋ = p / d := by
  have hd' : (0 : ℚ) < d := Int.cast_pos.mpr hd
  -- an exact quotient is an integer, any other is `1 / d` away from the integers at least
  by_cases hdvd : d ∣ p
  · obtain ⟨k, rfl⟩ := hdvd
    have hk : ((d * k : ℤ) : ℚ) / d = k := by
      push_cast
      exact mul_div_cancel_left₀ _ hd'.ne'
    have hle : |k| < 2 ^ 53 := by
      have hk0 : 0 ≤ k := nonneg_of_mul_nonneg_right hp hd
      rw [abs_of_nonneg hk0]
      nlinarith
    rw [hk, nearest_intCast hle, Int.floor_intCast, Int.mul_ediv_cancel_left _ hd.ne']
  have hp0 : 0 < p := lt_of_le_of_ne hp fun h => hdvd (h ▸ dvd_zero d)
  have hx : (0 : ℚ) < p / d := div_pos (Int.cast_pos.mpr hp0) hd'
  have herr : |nearest ((p : ℚ) / d) - p / d| < 1 / d := by
    refine (abs_nearest_sub_le _).trans_lt ?_
    have hdense := ulp_le hx
    have hsmall : (p : ℚ) / d < 2 ^ 53 / d := by
      refine div_lt_div_of_pos_right ?_ hd'
      exact_mod_cast hp'
    have hscale : (2 : ℚ) ^ 53 / d = 1 / d * 2 * 2 ^ 52 := by ring
    linarith
  have hmod := Int.emod_add_mul_ediv p d
  have hrem : 0 < p % d := lt_of_le_of_ne (Int.emod_nonneg p hd.ne') fun h =>
    hdvd (Int.dvd_of_emod_eq_zero h.symm)
  have hrem' : p % d < d := Int.emod_lt_of_pos p hd
  have hquot : (p : ℚ) / d = (p / d : ℤ) + ((p % d : ℤ) : ℚ) / d := by
    rw [eq_comm, ← mul_div_cancel_left₀ (((p / d : ℤ) : ℚ)) hd'.ne', ← add_div]
    congr 1
    exact_mod_cast (by omega : d * (p / d) + p % d = p)
  have hlow : 1 / (d : ℚ) ≤ ((p % d : ℤ) : ℚ) / d :=
    div_le_div_of_nonneg_right (by exact_mod_cast hrem) hd'.le
  have hhigh : ((p % d : ℤ) : ℚ) / d + 1 / d ≤ 1 := by
    rw [← add_div, div_le_one hd']
    exact_mod_cast hrem'
  rw [abs_lt] at herr
  rw [Int.floor_eq_iff]
  constructor <;> linarith [herr.1, herr.2]

end Double
