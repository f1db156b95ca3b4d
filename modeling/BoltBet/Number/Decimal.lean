import BoltBet.Format
import BoltBet.Number.Double
import BoltBet.Text.Money

/-!
# Decimal numerals and doubles

`Decimal.value` reads a text the way `parseFloat` does, before the rounding: white space in front, a
sign, digits with a fraction, an exponent, and whatever follows them is ignored. The double of the
numeral is `Double.nearest` of that value. `Infinity` and values a double cannot hold are left out.

* `value_toFixed2`: what `toFixed(2)` prints is read back exactly.
* `abs_nearest_sub_le_mul`: one operation is off by one part in `2 ^ 53` at most.
* **`round_hundredfold`**: hundredths survive the doubles. Writing `n` hundredths as a double,
  multiplying by a hundred and rounding gives `n` again.
-/

namespace Math

/-- `Math.round`: the integer next to `x`, a tie going up. -/
def round (x : ℚ) : ℤ := ⌊x + 1 / 2⌋

theorem abs_round_sub_le (x : ℚ) : |round x - x| ≤ 1 / 2 := by
  have hle := Int.floor_le (x + 1 / 2)
  have hlt := Int.lt_floor_add_one (x + 1 / 2)
  unfold round
  rw [abs_le]
  constructor <;> linarith

theorem round_eq {x : ℚ} {n : ℤ} (h : |x - n| < 1 / 2) : round x = n := by
  rw [abs_lt] at h
  unfold round
  rw [Int.floor_eq_iff]
  constructor <;> linarith [h.1, h.2]

end Math

namespace Double

theorem nearest_zero : nearest 0 = 0 := by
  have hzero : nearest ((0 : ℤ) : ℚ) = (0 : ℤ) := nearest_intCast (by norm_num)
  rwa [Int.cast_zero] at hzero

theorem ulp_abs (x : ℚ) : ulp |x| = ulp x := by
  unfold ulp
  rw [abs_abs]

/-- **The relative error of one operation.** -/
theorem abs_nearest_sub_le_mul (x : ℚ) : |nearest x - x| ≤ |x| / 2 ^ 53 := by
  by_cases hx : x = 0
  · subst hx
    rw [nearest_zero, sub_zero, abs_zero, zero_div]
  · have hdense := ulp_le (abs_pos.mpr hx)
    rw [ulp_abs] at hdense
    have herr := abs_nearest_sub_le x
    have hhalf : |x| / 2 ^ 53 = |x| / 2 ^ 52 / 2 := by ring
    rw [hhalf]
    have hulp : ulp x ≤ |x| / 2 ^ 52 := by rwa [le_div_iff₀ (by norm_num)]
    linarith

/-- A hundred times the double of `x` is next to `100 * x`, and so is its double. -/
theorem abs_hundredfold_sub_lt {x : ℚ} (hx : |x * 100| < 2 ^ 50) :
    |nearest x * 100 - x * 100| < 1 / 4 ∧ |nearest (nearest x * 100) - x * 100| < 1 / 2 := by
  have hscaled : |nearest x * 100 - x * 100| ≤ |x * 100| / 2 ^ 53 := by
    rw [← sub_mul, abs_mul, abs_mul, abs_of_pos (by norm_num : (0 : ℚ) < 100), mul_div_right_comm]
    exact mul_le_mul_of_nonneg_right (abs_nearest_sub_le_mul x) (by norm_num)
  have hfirst : |nearest x * 100 - x * 100| < 1 / 8 := by
    refine hscaled.trans_lt ?_
    rw [div_lt_iff₀ (by norm_num)]
    norm_num at hx ⊢
    exact hx
  -- the second operation starts from a number below `2 ^ 50 + 1 / 8`
  have hsize : |nearest x * 100| ≤ |nearest x * 100 - x * 100| + |x * 100| := by
    have htri := abs_add_le (nearest x * 100 - x * 100) (x * 100)
    rwa [sub_add_cancel] at htri
  have hsecond : |nearest (nearest x * 100) - nearest x * 100| < 1 / 4 := by
    refine (abs_nearest_sub_le_mul _).trans_lt ?_
    rw [div_lt_iff₀ (by norm_num)]
    refine hsize.trans_lt ((add_lt_add hfirst hx).trans ?_)
    norm_num
  refine ⟨by linarith, ?_⟩
  have htri := abs_add_le (nearest (nearest x * 100) - nearest x * 100)
    (nearest x * 100 - x * 100)
  rw [sub_add_sub_cancel] at htri
  linarith

/-- **Hundredths survive the doubles.** -/
theorem round_hundredfold {n : ℤ} (hn : |n| < 2 ^ 50) :
    Math.round (nearest (nearest ((n : ℚ) / 100) * 100)) = n := by
  have hexact : (n : ℚ) / 100 * 100 = n := div_mul_cancel₀ _ (by norm_num)
  have hx : |(n : ℚ) / 100 * 100| < 2 ^ 50 := by
    rw [hexact]
    exact_mod_cast hn
  have hclose := (abs_hundredfold_sub_lt hx).2
  rw [hexact] at hclose
  exact Math.round_eq hclose

/-- A hundred times the double of `n` hundredths, in exact arithmetic. -/
theorem abs_hundredths_sub_lt {n : ℤ} (hn : |n| < 2 ^ 50) :
    |nearest ((n : ℚ) / 100) * 100 - n| < 1 / 4 := by
  have hexact : (n : ℚ) / 100 * 100 = n := div_mul_cancel₀ _ (by norm_num)
  have hx : |(n : ℚ) / 100 * 100| < 2 ^ 50 := by
    rw [hexact]
    exact_mod_cast hn
  have hclose := (abs_hundredfold_sub_lt hx).1
  rwa [hexact] at hclose

/-- Hundredths are compared as their doubles are. -/
theorem nearest_hundredths_lt {m n : ℤ} (hm : |m| < 2 ^ 50) (hn : |n| < 2 ^ 50) :
    nearest ((m : ℚ) / 100) < nearest ((n : ℚ) / 100) ↔ m < n := by
  have hm' := abs_lt.mp (abs_hundredths_sub_lt hm)
  have hn' := abs_lt.mp (abs_hundredths_sub_lt hn)
  constructor
  · intro hlt
    by_contra hge
    have hcases : m = n ∨ n + 1 ≤ m := by omega
    rcases hcases with rfl | hstep
    · exact lt_irrefl _ hlt
    · have hstep' : (n : ℚ) + 1 ≤ m := by exact_mod_cast hstep
      linarith
  · intro hlt
    have hstep : (m : ℚ) + 1 ≤ n := by exact_mod_cast hlt
    linarith

end Double

namespace Decimal

/-- The white space `parseFloat` skips. -/
def isSpace (c : Char) : Bool :=
  9 ≤ c.toNat && c.toNat ≤ 13 || 0x2000 ≤ c.toNat && c.toNat ≤ 0x200A ||
    c.toNat ∈ [0x20, 0xA0, 0x1680, 0x2028, 0x2029, 0x202F, 0x205F, 0x3000, 0xFEFF]

/-- A sign, and what it is in front of. -/
def sign : List Char → Bool × List Char
  | '-' :: s => (true, s)
  | '+' :: s => (false, s)
  | s => (false, s)

/-- The digits behind a dot. -/
def fraction : List Char → List Char × List Char
  | '.' :: s => s.span Char.isDigit
  | s => ([], s)

/-- `n` below its sign. -/
def signed (negative : Bool) (n : ℕ) : ℤ := if negative then -n else n

/-- The exponent of a numeral, zero when what follows the digits is none. -/
def exponent : List Char → ℤ
  | [] => 0
  | c :: s =>
    if c = 'e' ∨ c = 'E' then
      signed (sign s).1 (Nat.ofDigitChars 10 ((sign s).2.takeWhile Char.isDigit) 0)
    else 0

/-- The number a text begins with, `none` for `NaN`. -/
def value (s : List Char) : Option ℚ :=
  let (negative, s) := sign (s.dropWhile isSpace)
  let (whole, s) := s.span Char.isDigit
  let (decimals, s) := fraction s
  if whole = [] ∧ decimals = [] then none
  else some (signed negative (Nat.ofDigitChars 10 (whole ++ decimals) 0) *
    10 ^ (exponent s - decimals.length))

/-- `parseFloat`. -/
def parseFloat (s : List Char) : Option ℚ := (value s).map Double.nearest

theorem isSpace_digit {c : Char} (hc : c.isDigit = true) : isSpace c = false := by
  have hcode : 48 ≤ c.toNat ∧ c.toNat ≤ 57 := by
    simpa [Char.isDigit, UInt32.le_iff_toNat_le] using hc
  simp [isSpace]
  omega

theorem sign_digit {c : Char} (hc : c.isDigit = true) (s : List Char) :
    sign (c :: s) = (false, c :: s) := by
  unfold sign
  split
  · rename_i h
    obtain ⟨rfl, -⟩ := List.cons.inj h
    exact absurd hc (by decide)
  · rename_i h
    obtain ⟨rfl, -⟩ := List.cons.inj h
    exact absurd hc (by decide)
  · rfl

theorem span_digits {ds : List Char} (h : BoltBet.Digits ds) (s : List Char)
    (hs : ∀ c, s.head? = some c → c.isDigit = false) :
    (ds ++ s).span Char.isDigit = (ds, s) := by
  rw [List.span_eq_takeWhile_dropWhile, List.takeWhile_append_of_pos h,
    List.dropWhile_append_of_pos h]
  cases s with
  | nil => simp
  | cons c s => simp [hs c rfl]

/-- A plain numeral: digits, a dot and digits, nothing in front but a minus. -/
theorem value_plain (negative : Bool) {whole decimals : List Char} (hwhole : BoltBet.Digits whole)
    (hne : whole ≠ []) (hdecimals : BoltBet.Digits decimals) :
    value ((if negative then ['-'] else []) ++ whole ++ '.' :: decimals) =
      some ((signed negative (Nat.ofDigitChars 10 (whole ++ decimals) 0) : ℚ) /
        10 ^ decimals.length) := by
  obtain ⟨d, ds, rfl⟩ := List.exists_cons_of_ne_nil hne
  have hd : d.isDigit = true := hwhole d List.mem_cons_self
  have hsigned : sign (((if negative then ['-'] else []) ++ d :: ds ++ '.' :: decimals).dropWhile
      isSpace) = (negative, d :: ds ++ '.' :: decimals) := by
    cases negative with
    | false =>
      have hspace : (d :: (ds ++ '.' :: decimals)).dropWhile isSpace =
          d :: (ds ++ '.' :: decimals) :=
        List.dropWhile_cons_of_neg (by rw [isSpace_digit hd]; exact Bool.false_ne_true)
      simp only [Bool.false_eq_true, if_false, List.nil_append, List.cons_append, hspace,
        sign_digit hd]
    | true =>
      have hspace : ('-' :: d :: (ds ++ '.' :: decimals)).dropWhile isSpace =
          '-' :: d :: (ds ++ '.' :: decimals) := List.dropWhile_cons_of_neg (by decide)
      simp only [if_true, List.cons_append, List.nil_append, hspace, sign]
  have hspan : (d :: ds ++ '.' :: decimals).span Char.isDigit = (d :: ds, '.' :: decimals) :=
    span_digits hwhole _ fun c hc => by
      obtain rfl : '.' = c := Option.some.inj hc
      decide
  have hfraction : fraction ('.' :: decimals) = (decimals, []) := by
    have := span_digits hdecimals [] (by simp)
    rwa [List.append_nil] at this
  unfold value
  simp only [hsigned, hspan, hfraction]
  rw [if_neg fun h => List.cons_ne_nil _ _ h.1, exponent, zero_sub, zpow_neg, zpow_natCast,
    div_eq_mul_inv]

/-- **What `toFixed(2)` prints is read back.** -/
theorem value_toFixed2 (n : ℤ) : value (BoltBet.toFixed2 n) = some ((n : ℚ) / 100) := by
  have hx : (Nat.digitChar (n.natAbs % 100 / 10)).isDigit = true :=
    BoltBet.digitChar_isDigit (by omega)
  have hy : (Nat.digitChar (n.natAbs % 100 % 10)).isDigit = true :=
    BoltBet.digitChar_isDigit (by omega)
  have htext : BoltBet.toFixed2 n = (if decide (n < 0) then ['-'] else []) ++
      Nat.toDigits 10 (n.natAbs / 100) ++
        '.' :: [Nat.digitChar (n.natAbs % 100 / 10), Nat.digitChar (n.natAbs % 100 % 10)] := by
    simp [BoltBet.toFixed2]
  have hdecimals : BoltBet.Digits
      [Nat.digitChar (n.natAbs % 100 / 10), Nat.digitChar (n.natAbs % 100 % 10)] := by
    intro c hc
    rcases List.mem_pair.mp hc with rfl | rfl
    · exact hx
    · exact hy
  have hdigits : Nat.ofDigitChars 10 (Nat.toDigits 10 (n.natAbs / 100) ++
      [Nat.digitChar (n.natAbs % 100 / 10), Nat.digitChar (n.natAbs % 100 % 10)]) 0 =
        n.natAbs := by
    rw [Nat.ofDigitChars_append, Nat.ofDigitChars_ten_toDigits,
      Nat.ofDigitChars_cons_digitChar_of_lt_ten (by omega),
      Nat.ofDigitChars_cons_digitChar_of_lt_ten (by omega), Nat.ofDigitChars_nil]
    omega
  have hsigned : signed (decide (n < 0)) n.natAbs = n := by
    by_cases hn : n < 0
    · simp only [signed, decide_eq_true hn, if_true]
      omega
    · simp only [signed, decide_eq_false hn, Bool.false_eq_true, if_false]
      omega
  rw [htext, value_plain _ (BoltBet.digits_toDigits _) Nat.toDigits_ne_nil hdecimals, hdigits,
    hsigned]
  norm_num

end Decimal
