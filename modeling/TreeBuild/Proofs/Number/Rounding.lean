import Mathlib.Algebra.Order.Field.Power
import Mathlib.Data.Rat.Cast.Order
import Mathlib.Tactic.NormNum
import Mathlib.Tactic.Positivity
import TreeBuild.Number.Shortest

/-!
# Rounding decimals

A decimal is rounded to a binary number by its value alone: how many zeros are written at its end, and in
which way the value is split into digits and a power of ten, makes no difference. A number that is itself
binary is its own rounding. So the shortest decimal of a number is read back as the number, whether it was
found among the short decimals or is the number written out.
-/
namespace TreeBuild.Number

namespace Binary64

/-! ### Rounding a quotient -/

/-- A quotient is rounded the same if both numbers are multiplied by a factor. -/
theorem divNearestEven_mul_right (num den : Nat) {factor : Nat} (positive : 0 < factor) :
    divNearestEven (num * factor) (den * factor) = divNearestEven num den := by
  have double : 2 * (num % den * factor) = 2 * (num % den) * factor := (Nat.mul_assoc _ _ _).symm
  unfold divNearestEven
  dsimp only
  rw [Nat.mul_div_mul_right _ _ positive, Nat.mul_mod_mul_right, double]
  simp only [Nat.mul_lt_mul_right positive]

/-- Quotients of the same value are rounded to the same number. -/
theorem divNearestEven_congr {num den other more : Nat} (positive : 0 < den) (positiveToo : 0 < more)
    (same : num * more = other * den) : divNearestEven num den = divNearestEven other more := by
  rw [← divNearestEven_mul_right num den positiveToo, ← divNearestEven_mul_right other more positive, same,
    Nat.mul_comm den more]

/-- A quotient without a remainder is rounded to itself. -/
theorem divNearestEven_mul (quotient : Nat) {den : Nat} (positive : 0 < den) :
    divNearestEven (quotient * den) den = quotient := by
  simp [divNearestEven, Nat.mul_div_cancel _ positive, positive]

/-- Rounding goes down to the whole quotient at most. -/
theorem div_le_divNearestEven (num den : Nat) : num / den ≤ divNearestEven num den := by
  unfold divNearestEven
  dsimp only
  split
  · exact Nat.le_refl _
  split
  · exact Nat.le_succ _
  split
  · exact Nat.le_refl _
  · exact Nat.le_succ _

/-- Rounding goes up by one at most. -/
theorem divNearestEven_le (num den : Nat) : divNearestEven num den ≤ num / den + 1 := by
  unfold divNearestEven
  dsimp only
  split
  · exact Nat.le_succ _
  split
  · exact Nat.le_refl _
  split
  · exact Nat.le_succ _
  · exact Nat.le_refl _

/-! ### The exponent -/

/-- What stands below a power is positive. -/
theorem overPower_positive {base num den : Nat} (baseful : 0 < base) (positive : 0 < den) (power : Int) :
    0 < (overPower base num den power).2 := by
  unfold overPower
  split
  · exact Nat.mul_pos positive (Nat.pow_pos baseful)
  · exact positive

/-- A ratio over a power is the ratio divided by the power. -/
theorem overPower_eq {base num den : Nat} (baseful : 0 < base) (power : Int) :
    ((overPower base num den power).1 : ℚ) / (overPower base num den power).2 =
      (num : ℚ) / den / (base : ℚ) ^ power := by
  have nonzero : (base : ℚ) ≠ 0 := by positivity
  unfold overPower
  split
  · rename_i natural
    obtain ⟨count, rfl⟩ := Int.eq_ofNat_of_zero_le natural
    simp [div_div]
  · rename_i negative
    obtain ⟨count, rfl⟩ : ∃ count : Nat, power = -count := ⟨power.natAbs, by omega⟩
    simp [mul_div_right_comm]

/-- An exponent fits a value if the significand has 53 bits there, or fewer where the exponent is the least. -/
structure Fits (value : ℚ) (exponent : Int) : Prop where
  least : minExponent ≤ exponent
  low : exponent = minExponent ∨ (2 : ℚ) ^ (52 + exponent) ≤ value
  high : value < (2 : ℚ) ^ (53 + exponent)

/-- An exponent that fits is the least one for its value. -/
theorem Fits.le {value : ℚ} {exponent other : Int} (fits : Fits value exponent) (least : minExponent ≤ exponent)
    (low : other = minExponent ∨ (2 : ℚ) ^ (52 + other) ≤ value) : other ≤ exponent := by
  rcases low with rfl | low
  · exact least
  · have between := (zpow_lt_zpow_iff_right₀ (by norm_num : (1 : ℚ) < 2)).mp (low.trans_lt fits.high)
    omega

/-- One exponent fits a value. -/
theorem Fits.unique {value : ℚ} {exponent other : Int} (fits : Fits value exponent) (too : Fits value other) :
    exponent = other :=
  le_antisymm (too.le too.least fits.low) (fits.le fits.least too.low)

/-- A natural number lies between the powers of two of its logarithm. -/
theorem log2_bounds {number : Nat} (positive : 0 < number) :
    (2 : ℚ) ^ (number.log2 : Int) ≤ number ∧ (number : ℚ) < (2 : ℚ) ^ ((number.log2 : Int) + 1) := by
  have least := Nat.log2_self_le (Nat.pos_iff_ne_zero.mp positive)
  have most := @Nat.lt_log2_self number
  constructor
  · rw [zpow_natCast]
    exact_mod_cast least
  · rw [← Int.natCast_succ, zpow_natCast]
    exact_mod_cast most

/-- A quotient is below a power of two if the ratio is below that power, moved by the exponent. -/
theorem overPower_div_lt {num den : Nat} (positive : 0 < den) (count : Nat) (exponent : Int) :
    (overPower 2 num den exponent).1 / (overPower 2 num den exponent).2 < 2 ^ count ↔
      (num : ℚ) / den < (2 : ℚ) ^ (count + exponent) := by
  have bottom := @overPower_positive 2 num den (by decide) positive exponent
  have moved := @overPower_eq 2 num den (by decide) exponent
  have two : (0 : ℚ) < 2 ^ exponent := by positivity
  have quotient : (num : ℚ) / den =
      (overPower 2 num den exponent).1 / (overPower 2 num den exponent).2 * 2 ^ exponent := by
    rw [moved, Nat.cast_ofNat, div_mul_cancel₀ _ two.ne']
  rw [quotient, zpow_add₀ (by norm_num), mul_lt_mul_iff_left₀ two, Nat.div_lt_iff_lt_mul bottom,
    div_lt_iff₀ (by exact_mod_cast bottom), zpow_natCast]
  exact_mod_cast Iff.rfl

/-- The exponent of a ratio fits its value. -/
theorem fits_exponentOf {num den : Nat} (positive : 0 < num) (positiveToo : 0 < den) :
    Fits ((num : ℚ) / den) (exponentOf num den) := by
  obtain ⟨numLeast, numMost⟩ := log2_bounds positive
  obtain ⟨denLeast, denMost⟩ := log2_bounds positiveToo
  have two : (2 : ℚ) ≠ 0 := by norm_num
  have grows {low high : Int} (less : low ≤ high) : (2 : ℚ) ^ low ≤ 2 ^ high :=
    zpow_le_zpow_right₀ (by norm_num) less
  have denPositive : (0 : ℚ) < den := by exact_mod_cast positiveToo
  unfold exponentOf
  dsimp only
  obtain ⟨guess, known⟩ : ∃ guess : Int, (num.log2 : Int) - (den.log2 : Int) - 52 = guess := ⟨_, rfl⟩
  rw [known]
  -- The logarithms leave two exponents open.
  have above : (2 : ℚ) ^ (51 + guess) ≤ (num : ℚ) / den := by
    rw [le_div_iff₀ denPositive]
    calc (2 : ℚ) ^ (51 + guess) * den ≤ 2 ^ (51 + guess) * 2 ^ ((den.log2 : Int) + 1) := by gcongr
      _ = 2 ^ (num.log2 : Int) := by rw [← zpow_add₀ two]; congr 1; omega
      _ ≤ num := numLeast
  have below : (num : ℚ) / den < (2 : ℚ) ^ (53 + guess) := by
    rw [div_lt_iff₀ denPositive]
    calc (num : ℚ) < 2 ^ ((num.log2 : Int) + 1) := numMost
      _ = 2 ^ (53 + guess) * 2 ^ (den.log2 : Int) := by rw [← zpow_add₀ two]; congr 1; omega
      _ ≤ 2 ^ (53 + guess) * den := by gcongr
  -- The greater one is taken if it fits.
  obtain ⟨chosen, same, low, high⟩ : ∃ chosen, (if (overPower 2 num den guess).1 / (overPower 2 num den guess).2 <
      Nat.pow 2 52 then guess - 1 else guess) = chosen ∧ (2 : ℚ) ^ (52 + chosen) ≤ (num : ℚ) / den ∧
      (num : ℚ) / den < 2 ^ (53 + chosen) := by
    refine ⟨_, rfl, ?_⟩
    split
    · rename_i less
      refine ⟨above.trans' (grows (by omega)), ?_⟩
      exact ((overPower_div_lt positiveToo 52 guess).mp less).trans_le (grows (by omega))
    · rename_i more
      exact ⟨not_lt.mp fun less => more ((overPower_div_lt positiveToo 52 guess).mpr less), below⟩
  rw [same]
  refine ⟨le_max_left _ _, ?_, high.trans_le (grows (by omega))⟩
  rcases le_total chosen minExponent with least | more
  · exact .inl (max_eq_left least)
  · exact .inr (by rwa [max_eq_right more])

/-! ### Rounding a ratio -/

/-- Ratios of the same value have the same significand at an exponent. -/
theorem divNearestEven_overPower_congr {num den other more : Nat} (positive : 0 < den) (positiveToo : 0 < more)
    (same : (num : ℚ) / den = other / more) (exponent : Int) :
    divNearestEven (overPower 2 num den exponent).1 (overPower 2 num den exponent).2 =
      divNearestEven (overPower 2 other more exponent).1 (overPower 2 other more exponent).2 := by
  have bottom := @overPower_positive 2 num den (by decide) positive exponent
  have bottomToo := @overPower_positive 2 other more (by decide) positiveToo exponent
  have moved := @overPower_eq 2 num den (by decide) exponent
  rw [same, ← @overPower_eq 2 other more (by decide),
    div_eq_div_iff (by exact_mod_cast bottom.ne') (by exact_mod_cast bottomToo.ne')] at moved
  exact divNearestEven_congr bottom bottomToo (by exact_mod_cast moved)

/-- Ratios of the same value are rounded to the same number. -/
theorem ofRatio_congr (negative : Bool) {num den other more : Nat} (positive : 0 < den) (positiveToo : 0 < more)
    (same : (num : ℚ) / den = other / more) : ofRatio negative num den = ofRatio negative other more := by
  have zeros : num = 0 ↔ other = 0 := by
    have value (top : Nat) {bottom : Nat} (positive : 0 < bottom) : (top : ℚ) / bottom = 0 ↔ top = 0 := by
      rw [div_eq_zero_iff, or_iff_left (by exact_mod_cast positive.ne'), Nat.cast_eq_zero]
    rw [← value num positive, same, value other positiveToo]
  unfold ofRatio
  by_cases zero : num = 0
  · rw [if_pos zero, if_pos (zeros.mp zero)]
  · have nonzero : other ≠ 0 := fun none => zero (zeros.mpr none)
    have exponent : exponentOf num den = exponentOf other more :=
      (fits_exponentOf (Nat.pos_of_ne_zero zero) positive).unique
        (same ▸ fits_exponentOf (Nat.pos_of_ne_zero nonzero) positiveToo)
    rw [if_neg zero, if_neg nonzero, exponent]
    dsimp only
    rw [divNearestEven_overPower_congr positive positiveToo same]

/-- A significand and an exponent as they come out of rounding. -/
structure IsCanonical (significand : Nat) (exponent : Int) : Prop where
  small : significand < 2 ^ 53
  least : minExponent ≤ exponent
  most : exponent ≤ maxExponent
  full : exponent = minExponent ∨ 2 ^ 52 ≤ significand

/-- Zero has the least exponent. -/
theorem isCanonical_zero : IsCanonical 0 minExponent :=
  ⟨by decide, le_refl _, by decide, .inl rfl⟩

namespace IsCanonical

variable {significand : Nat} {exponent : Int}

/-- The exponent of a number fits its value. -/
theorem fits (canonical : IsCanonical significand exponent) : Fits (significand * 2 ^ exponent) exponent := by
  have two : (0 : ℚ) < 2 ^ exponent := by positivity
  refine ⟨canonical.least, canonical.full.imp id fun full => ?_, ?_⟩
  · rw [zpow_add₀ (by norm_num), mul_le_mul_iff_left₀ two]
    exact_mod_cast full
  · rw [zpow_add₀ (by norm_num), mul_lt_mul_iff_left₀ two]
    exact_mod_cast canonical.small

/-- A number is its own rounding. -/
theorem ofRatio (canonical : IsCanonical significand exponent) (nonzero : significand ≠ 0) (negative : Bool)
    {num den : Nat} (positive : 0 < den) (same : (num : ℚ) / den = significand * 2 ^ exponent) :
    ofRatio negative num den = .finite negative significand exponent := by
  have numPositive : 0 < num := by
    refine Nat.pos_of_ne_zero ?_
    rintro rfl
    rw [Nat.cast_zero, zero_div, eq_comm, mul_eq_zero] at same
    exact same.elim (fun zero => nonzero (by exact_mod_cast zero)) (by positivity)
  have found : exponentOf num den = exponent :=
    (fits_exponentOf numPositive positive).unique (same ▸ canonical.fits)
  have whole : (overPower 2 num den exponent).1 = significand * (overPower 2 num den exponent).2 := by
    have moved := @overPower_eq 2 num den (by decide) exponent
    have bottom := @overPower_positive 2 num den (by decide) positive exponent
    rw [same, Nat.cast_ofNat, mul_div_cancel_right₀ _ (by positivity),
      div_eq_iff (by exact_mod_cast bottom.ne')] at moved
    exact_mod_cast moved
  have bottom := @overPower_positive 2 num den (by decide) positive exponent
  unfold Binary64.ofRatio
  rw [if_neg numPositive.ne', found]
  dsimp only
  have noCarry : significand ≠ Nat.pow 2 53 := canonical.small.ne
  rw [whole, divNearestEven_mul _ bottom, if_neg noCarry]
  exact if_neg (not_lt.mpr canonical.most)

end IsCanonical

/-- A finite number that comes out of rounding is canonical. -/
theorem isCanonical_ofRatio {negative sign : Bool} {num den significand : Nat} {exponent : Int} (positive : 0 < den)
    (rounded : ofRatio negative num den = .finite sign significand exponent) : IsCanonical significand exponent := by
  unfold ofRatio at rounded
  split at rounded
  · cases rounded
    exact isCanonical_zero
  rename_i nonzero
  have fits := fits_exponentOf (Nat.pos_of_ne_zero nonzero) positive
  obtain ⟨found, known⟩ : ∃ found, exponentOf num den = found := ⟨_, rfl⟩
  rw [known] at fits rounded
  dsimp only at rounded
  have small := (overPower_div_lt positive 53 found).mpr fits.high
  have full := fits.low.imp id fun low => not_lt.mp fun less =>
    not_lt.mpr low ((overPower_div_lt positive 52 found).mp less)
  have least := div_le_divNearestEven (overPower 2 num den found).1 (overPower 2 num den found).2
  have most := divNearestEven_le (overPower 2 num den found).1 (overPower 2 num den found).2
  generalize divNearestEven _ _ = whole at rounded least most
  split at rounded
  · -- The significand has been carried over to 54 bits.
    split at rounded
    · cases rounded
    · rename_i bounded
      cases rounded
      have carried : found ≤ found + 1 := by omega
      exact ⟨(by decide : 2 ^ 52 < 2 ^ 53), fits.least.trans carried, not_lt.mp bounded, .inr (le_refl _)⟩
  · rename_i noCarry
    have noCarry : whole ≠ 2 ^ 53 := noCarry
    split at rounded
    · cases rounded
    · rename_i bounded
      cases rounded
      exact ⟨by omega, fits.least, not_lt.mp bounded, full.imp id fun full => full.trans least⟩

/-! ### Rounding a decimal -/

/-- The sign does not take part in the rounding of a ratio. -/
theorem ofRatio_sign (negative : Bool) {sign : Bool} {num den significand : Nat} {exponent : Int}
    (rounded : ofRatio sign num den = .finite sign significand exponent) :
    ofRatio negative num den = .finite negative significand exponent := by
  unfold ofRatio at rounded ⊢
  by_cases zero : num = 0
  · rw [if_pos zero] at rounded ⊢
    cases rounded
    rfl
  · rw [if_neg zero] at rounded ⊢
    dsimp only at rounded ⊢
    generalize (if _ = Nat.pow 2 53 then _ else _ : Nat × Int) = carried at rounded ⊢
    by_cases high : maxExponent < carried.2
    · rw [if_pos high] at rounded
      cases rounded
    · rw [if_neg high] at rounded ⊢
      cases rounded
      rfl

/-- The sign does not take part in the rounding of a decimal. -/
theorem ofDecimal_sign (negative : Bool) {sign : Bool} {digits significand : Nat} {power exponent : Int}
    (rounded : ofDecimal sign digits power = .finite sign significand exponent) :
    ofDecimal negative digits power = .finite negative significand exponent := by
  unfold ofDecimal at rounded ⊢
  by_cases zero : digits = 0
  · rw [if_pos zero] at rounded ⊢
    cases rounded
    rfl
  rw [if_neg zero] at rounded ⊢
  dsimp only at rounded ⊢
  by_cases high : 400 < power + (Nat.toDigits 10 digits).length
  · rw [if_pos high] at rounded
    cases rounded
  by_cases low : power + (Nat.toDigits 10 digits).length < -400
  · rw [if_neg high, if_pos low] at rounded ⊢
    cases rounded
    rfl
  · rw [if_neg high, if_neg low] at rounded ⊢
    exact ofRatio_sign negative rounded

/-- The ratio as which a decimal is rounded. -/
def ratioOf (digits : Nat) (power : Int) : Nat × Nat :=
  if 0 ≤ power then (digits * Nat.pow 10 power.toNat, 1) else (digits, Nat.pow 10 (-power).toNat)

/-- What stands below the ratio of a decimal number is positive. -/
theorem ratioOf_positive (digits : Nat) (power : Int) : 0 < (ratioOf digits power).2 := by
  unfold ratioOf
  split
  · exact Nat.one_pos
  · exact Nat.pow_pos (by decide)

/-- The ratio of a decimal has its value. -/
theorem ratioOf_eq (digits : Nat) (power : Int) :
    ((ratioOf digits power).1 : ℚ) / (ratioOf digits power).2 = digits * 10 ^ power := by
  unfold ratioOf
  split
  · rename_i natural
    obtain ⟨count, rfl⟩ := Int.eq_ofNat_of_zero_le natural
    simp
  · rename_i negative
    obtain ⟨count, rfl⟩ : ∃ count : Nat, power = -count := ⟨power.natAbs, by omega⟩
    simp [div_eq_mul_inv]

/-- Within the range, a decimal is rounded as any ratio of its value. -/
theorem ofDecimal_eq_ofRatio (negative : Bool) {digits num den : Nat} {power : Int} (nonzero : digits ≠ 0)
    (low : -400 ≤ power + (Nat.toDigits 10 digits).length) (high : power + (Nat.toDigits 10 digits).length ≤ 400)
    (positive : 0 < den) (same : (num : ℚ) / den = digits * 10 ^ power) :
    ofDecimal negative digits power = ofRatio negative num den := by
  unfold ofDecimal
  rw [if_neg nonzero]
  dsimp only
  rw [if_neg (not_lt.mpr high), if_neg (not_lt.mpr low)]
  exact ofRatio_congr negative (ratioOf_positive digits power) positive ((ratioOf_eq digits power).trans same.symm)

/-- Ten times a number has one digit more. -/
theorem length_toDigits_mul_ten {number : Nat} (nonzero : number ≠ 0) :
    (Nat.toDigits 10 (number * 10)).length = (Nat.toDigits 10 number).length + 1 := by
  rw [Nat.toDigits_eq_if (by decide), if_neg (by omega), Nat.mul_div_cancel _ (by decide), List.length_append]
  rfl

/-- A zero at the end of the digits is worth a power of ten. -/
theorem ofDecimal_mul_ten (negative : Bool) (digits : Nat) (power : Int) :
    ofDecimal negative (digits * 10) power = ofDecimal negative digits (power + 1) := by
  by_cases zero : digits = 0
  · rw [zero]
    rfl
  have nonzero : digits * 10 ≠ 0 := by omega
  have magnitude : power + (Nat.toDigits 10 (digits * 10)).length = power + 1 + (Nat.toDigits 10 digits).length := by
    rw [length_toDigits_mul_ten zero]
    omega
  by_cases high : 400 < power + 1 + (Nat.toDigits 10 digits).length
  · rw [ofDecimal, ofDecimal, if_neg nonzero, if_neg zero]
    dsimp only
    rw [magnitude, if_pos high, if_pos high]
  by_cases low : power + 1 + (Nat.toDigits 10 digits).length < -400
  · rw [ofDecimal, ofDecimal, if_neg nonzero, if_neg zero]
    dsimp only
    rw [magnitude, if_neg high, if_pos low, if_neg high, if_pos low]
  have same : ((digits * 10 : Nat) : ℚ) * 10 ^ power = digits * 10 ^ (power + 1) := by
    rw [zpow_add_one₀ (by norm_num), Nat.cast_mul, Nat.cast_ofNat, mul_assoc, mul_comm (10 : ℚ)]
  rw [ofDecimal_eq_ofRatio negative zero (not_lt.mp low) (not_lt.mp high) (ratioOf_positive (digits * 10) power)
      ((ratioOf_eq (digits * 10) power).trans same),
    ofDecimal_eq_ofRatio negative nonzero (magnitude ▸ not_lt.mp low) (magnitude ▸ not_lt.mp high)
      (ratioOf_positive (digits * 10) power) (ratioOf_eq (digits * 10) power)]

/-- Zeros at the end of the digits are worth as many powers of ten. -/
theorem ofDecimal_mul_pow (negative : Bool) (digits : Nat) (count : Nat) (power : Int) :
    ofDecimal negative (digits * 10 ^ count) power = ofDecimal negative digits (power + count) := by
  induction count generalizing power with
  | zero => simp
  | succ count inductionHypothesis =>
    rw [pow_succ, ← mul_assoc, ofDecimal_mul_ten, inductionHypothesis]
    congr 1
    omega

/-- A number lies between the powers of ten of the count of its digits. -/
theorem pow_length_bounds {digits : Nat} (nonzero : digits ≠ 0) :
    (10 : ℚ) ^ (((Nat.toDigits 10 digits).length : Int) - 1) ≤ digits ∧
      (digits : ℚ) < 10 ^ ((Nat.toDigits 10 digits).length : Int) := by
  have most (count : Nat) (positive : 0 < count) := @Nat.length_toDigits_le_iff 10 digits count (by decide) positive
  obtain ⟨count, length⟩ : ∃ count, (Nat.toDigits 10 digits).length = count + 1 :=
    Nat.exists_eq_succ_of_ne_zero (mt List.length_eq_zero_iff.mp Nat.toDigits_ne_nil)
  rw [length] at most ⊢
  constructor
  · rw [Nat.cast_add_one, add_sub_cancel_right, zpow_natCast]
    refine mod_cast not_lt.mp fun less => ?_
    rcases Nat.eq_zero_or_pos count with rfl | positive
    · omega
    · exact absurd ((most count positive).mpr less) (by omega)
  · rw [zpow_natCast]
    exact_mod_cast (most _ (Nat.succ_pos count)).mp (le_refl _)

/-- The greatest and the least number lie within the range of powers of ten. -/
theorem two_pow_le_ten_pow : (2 : ℚ) ^ (1074 : Nat) ≤ 10 ^ (400 : Nat) :=
  calc (2 : ℚ) ^ (1074 : Nat) = (2 ^ (3 : Nat)) ^ (358 : Nat) := by rw [← pow_mul]
    _ ≤ 10 ^ (358 : Nat) := pow_le_pow_left₀ (by norm_num) (by norm_num) _
    _ ≤ 10 ^ (400 : Nat) := pow_le_pow_right₀ (by norm_num) (by decide)

namespace IsCanonical

variable {significand : Nat} {exponent : Int}

/-- A decimal of the same value as a number is rounded to the number. -/
theorem ofDecimal (canonical : IsCanonical significand exponent) (nonzero : significand ≠ 0) (negative : Bool)
    {digits : Nat} {power : Int} (same : (digits : ℚ) * 10 ^ power = significand * 2 ^ exponent) :
    ofDecimal negative digits power = .finite negative significand exponent := by
  have digital : digits ≠ 0 := by
    rintro rfl
    rw [Nat.cast_zero, zero_mul, eq_comm, mul_eq_zero] at same
    exact same.elim (fun zero => nonzero (by exact_mod_cast zero)) (by positivity)
  obtain ⟨least, most⟩ := pow_length_bounds digital
  have ten : (0 : ℚ) < 10 ^ power := by positivity
  -- The value lies between the least and the greatest number, and these between powers of ten.
  have low : (10 : ℚ) ^ (-400 : Int) ≤ significand * 2 ^ exponent :=
    calc (10 : ℚ) ^ (-400 : Int) ≤ 1 * 2 ^ minExponent := by
          rw [one_mul, minExponent, zpow_neg, zpow_neg, zpow_ofNat, zpow_ofNat]
          exact inv_anti₀ (by positivity) two_pow_le_ten_pow
      _ ≤ significand * 2 ^ exponent := by
        have one : (1 : ℚ) ≤ significand := by exact_mod_cast Nat.pos_of_ne_zero nonzero
        have more : (2 : ℚ) ^ minExponent ≤ 2 ^ exponent := zpow_le_zpow_right₀ (by norm_num) canonical.least
        gcongr
  have high : (significand : ℚ) * 2 ^ exponent < 10 ^ (400 : Int) :=
    calc (significand : ℚ) * 2 ^ exponent < 2 ^ 53 * 2 ^ exponent := by
          have small : (significand : ℚ) < 2 ^ 53 := by exact_mod_cast canonical.small
          gcongr
      _ ≤ 2 ^ 53 * 2 ^ maxExponent := by
          have less : (2 : ℚ) ^ exponent ≤ 2 ^ maxExponent := zpow_le_zpow_right₀ (by norm_num) canonical.most
          gcongr
      _ = 2 ^ (1024 : Nat) := by rw [maxExponent, ← zpow_natCast, ← zpow_natCast, ← zpow_add₀ (by norm_num)]; rfl
      _ ≤ 10 ^ (400 : Int) := (pow_le_pow_right₀ (by norm_num) (by decide)).trans two_pow_le_ten_pow
  have below : (10 : ℚ) ^ (-400 : Int) < 10 ^ (power + (Nat.toDigits 10 digits).length) := by
    rw [add_comm, zpow_add₀ (by norm_num)]
    exact (low.trans_eq same.symm).trans_lt (mul_lt_mul_of_pos_right most ten)
  have above : (10 : ℚ) ^ (power + ((Nat.toDigits 10 digits).length - 1)) < 10 ^ (400 : Int) := by
    rw [add_comm, zpow_add₀ (by norm_num)]
    exact (mul_le_mul_of_nonneg_right least ten.le).trans_lt (same.trans_lt high)
  have below := (zpow_lt_zpow_iff_right₀ (by norm_num : (1 : ℚ) < 10)).mp below
  have above := (zpow_lt_zpow_iff_right₀ (by norm_num : (1 : ℚ) < 10)).mp above
  rw [ofDecimal_eq_ofRatio negative digital below.le (by omega) (ratioOf_positive digits power) (ratioOf_eq digits power)]
  exact canonical.ofRatio nonzero negative (ratioOf_positive digits power) ((ratioOf_eq digits power).trans same)

end IsCanonical

/-- A number is as rounding leaves it. -/
def IsRounded : Binary64 → Prop
  | .finite _ significand exponent => IsCanonical significand exponent
  | _ => True

/-- What comes out of rounding a decimal is as rounding leaves it. -/
theorem isRounded_ofDecimal (negative : Bool) (digits : Nat) (power : Int) :
    (ofDecimal negative digits power).IsRounded := by
  unfold ofDecimal
  split
  · exact isCanonical_zero
  dsimp only
  split
  · trivial
  split
  · exact isCanonical_zero
  · rcases rounded : ofRatio _ _ _ with ⟨sign, significand, exponent⟩ | _ | _
    · exact isCanonical_ofRatio (ratioOf_positive digits power) rounded
    all_goals trivial

end Binary64

/-! ### The shortest decimal -/

namespace Decimal

open Binary64

/-- A decimal without the zeros at its end is rounded as before. -/
theorem ofDecimal_stripped (negative : Bool) (fuel : Nat) (decimal : Decimal) :
    ofDecimal negative (stripped fuel decimal).digits (stripped fuel decimal).power =
      ofDecimal negative decimal.digits decimal.power := by
  induction fuel generalizing decimal with
  | zero => rfl
  | succ fuel inductionHypothesis =>
    rw [stripped]
    split
    · rename_i tens
      rw [inductionHypothesis, ← ofDecimal_mul_ten, Nat.div_mul_cancel (Nat.dvd_of_mod_eq_zero tens.2)]
    · rfl

/-- A number that is written out has its value. -/
theorem exact_eq (significand : Nat) (exponent : Int) :
    ((exact significand exponent).digits : ℚ) * 10 ^ (exact significand exponent).power =
      significand * 2 ^ exponent := by
  unfold exact
  split
  · rename_i natural
    obtain ⟨count, rfl⟩ := Int.eq_ofNat_of_zero_le natural
    simp
  · rename_i negative
    obtain ⟨count, rfl⟩ : ∃ count : Nat, exponent = -count := ⟨exponent.natAbs, by omega⟩
    have ten : (10 : ℚ) ^ count = 5 ^ count * 2 ^ count := by rw [← mul_pow]; norm_num
    simp only [neg_neg, Int.toNat_natCast, Nat.pow_eq, Nat.cast_mul, Nat.cast_pow, Nat.cast_ofNat, zpow_neg,
      zpow_natCast, ten, mul_inv]
    rw [mul_assoc, mul_inv_cancel_left₀ (by positivity)]

/-- The shortest decimal of a number is rounded to the number. -/
theorem ofDecimal_shortest {significand : Nat} {exponent : Int} (canonical : IsCanonical significand exponent)
    (nonzero : significand ≠ 0) (negative : Bool) :
    ofDecimal negative (shortest significand exponent).digits (shortest significand exponent).power =
      .finite negative significand exponent := by
  unfold shortest
  dsimp only
  rw [ofDecimal_stripped]
  rcases found : List.findSome? _ _ with _ | candidate
  · exact canonical.ofDecimal nonzero negative (exact_eq significand exponent)
  · obtain ⟨places, -, chosen⟩ := List.exists_of_findSome?_eq_some found
    have rounds := List.find?_some chosen
    rw [roundsTo, decide_eq_true_eq] at rounds
    exact ofDecimal_sign negative rounds

/-- The shortest decimal of a number that is not zero has a digit other than zero. -/
theorem shortest_ne_zero {significand : Nat} {exponent : Int} (canonical : IsCanonical significand exponent)
    (nonzero : significand ≠ 0) : (shortest significand exponent).digits ≠ 0 := by
  intro zero
  have rounded := ofDecimal_shortest canonical nonzero false
  rw [zero] at rounded
  exact nonzero (Binary64.finite.inj rounded).2.1.symm

end Decimal

end TreeBuild.Number
