import Mathlib.Algebra.Order.Field.Power
import Mathlib.Data.Rat.Cast.Order
import Mathlib.Tactic.FieldSimp
import Mathlib.Tactic.Linarith
import Mathlib.Tactic.Ring
import PCode.Binary64.Reading

namespace PCode
namespace Binary64

/-!
Rounding.

A ratio is rounded by choosing a power of two and dividing.  The power is the one of the greatest
binary digit of the ratio, less the width of a significand, unless the format ends before.  A ratio
that is a number of the format is therefore divided without remainder and given back as it is, and a
ratio that is rounded to a number is never rounded to an infinity.
-/

/-! ## The greatest binary digit -/

variable {power : Int} {den num significand : Nat} {negative : Bool} {value : Binary64}

theorem zpow_toNat (nonneg : 0 <= power) : (2 : ℚ) ^ power.toNat = 2 ^ power := by
  rw [← zpow_natCast, Int.toNat_of_nonneg nonneg]

/-- A ratio compared with a power of two, in integers. -/
def isBelow (num den : Nat) (power : Int) : Bool :=
  if 0 <= power then decide (num < den * Nat.pow 2 power.toNat)
  else decide (num * Nat.pow 2 (-power).toNat < den)

theorem isBelow_iff (num : Nat) (positive : 0 < den) (power : Int) :
    isBelow num den power = true <-> (num : ℚ) / den < 2 ^ power := by
  have denPositive : (0 : ℚ) < den := by exact_mod_cast positive
  rw [isBelow, div_lt_iff₀ denPositive]
  split
  · rename_i nonneg
    rw [decide_eq_true_eq, ← zpow_toNat nonneg, mul_comm]
    exact_mod_cast Iff.rfl
  · rename_i negative
    have opposite : (2 : ℚ) ^ power = (2 ^ (-power).toNat)⁻¹ := by
      rw [zpow_toNat (by omega), zpow_neg, inv_inv]
    rw [decide_eq_true_eq, opposite, inv_mul_eq_div, lt_div_iff₀ (by positivity)]
    exact_mod_cast Iff.rfl

/-- A positive ratio lies between two powers of two, of which this is the lower one. -/
structure TopPower (ratio : ℚ) (power : Int) : Prop where
  low : 2 ^ power <= ratio
  high : ratio < 2 ^ (power + 1)

theorem TopPower.unique {ratio other} (top : TopPower ratio power) (again : TopPower ratio other) :
    power = other := by
  have left := (zpow_lt_zpow_iff_right₀ (by norm_num : (1 : ℚ) < 2)).mp (top.low.trans_lt again.high)
  have right := (zpow_lt_zpow_iff_right₀ (by norm_num : (1 : ℚ) < 2)).mp (again.low.trans_lt top.high)
  omega

/-- The greatest digits of both sides of a ratio tell its greatest digit up to one place. -/
theorem ratio_bounds (numPositive : 0 < num) (denPositive : 0 < den) :
    (2 : ℚ) ^ ((num.log2 : Int) - den.log2 - 1) <= (num : ℚ) / den
      ∧ (num : ℚ) / den < 2 ^ ((num.log2 : Int) - den.log2 + 1) := by
  have positive : (0 : ℚ) < den := by exact_mod_cast denPositive
  have numLow : (2 : ℚ) ^ (num.log2 : Int) <= num := by
    exact_mod_cast Nat.log2_self_le numPositive.ne'
  have numHigh : (num : ℚ) < 2 ^ ((num.log2 : Int) + 1) := by
    exact_mod_cast @Nat.lt_log2_self num
  have denLow : (2 : ℚ) ^ (den.log2 : Int) <= den := by
    exact_mod_cast Nat.log2_self_le denPositive.ne'
  have denHigh : (den : ℚ) < 2 ^ ((den.log2 : Int) + 1) := by
    exact_mod_cast @Nat.lt_log2_self den
  constructor
  · rw [le_div_iff₀ positive]
    calc (2 : ℚ) ^ ((num.log2 : Int) - den.log2 - 1) * den
        <= 2 ^ ((num.log2 : Int) - den.log2 - 1) * 2 ^ ((den.log2 : Int) + 1) := by gcongr
      _ = 2 ^ (num.log2 : Int) := by
          rw [← zpow_add₀ two_ne_zero]
          congr 1
          ring
      _ <= num := numLow
  · rw [div_lt_iff₀ positive]
    calc (num : ℚ) < 2 ^ ((num.log2 : Int) + 1) := numHigh
      _ = 2 ^ ((num.log2 : Int) - den.log2 + 1) * 2 ^ (den.log2 : Int) := by
          rw [← zpow_add₀ two_ne_zero]
          congr 1
          ring
      _ <= 2 ^ ((num.log2 : Int) - den.log2 + 1) * den := by gcongr

/-- The power that rounding starts from, before the format is looked at. -/
def topPower (num den : Nat) : Int :=
  let scale : Int := (num.log2 : Int) - den.log2
  if isBelow num den scale then scale - 1 else scale

theorem topPower_spec (numPositive : 0 < num) (denPositive : 0 < den) :
    TopPower ((num : ℚ) / den) (topPower num den) := by
  rcases ratio_bounds numPositive denPositive with ⟨low, high⟩
  have compared := isBelow_iff num denPositive ((num.log2 : Int) - den.log2)
  rw [topPower]
  by_cases below : (num : ℚ) / den < 2 ^ ((num.log2 : Int) - den.log2)
  · rw [if_pos (compared.mpr below)]
    exact ⟨low, by rwa [sub_add_cancel]⟩
  · rw [if_neg (mt compared.mp below)]
    exact ⟨not_lt.mp below, high⟩

/-! ## Ratios that are numbers of the format -/

/-- A significand and a power as the format has them. -/
structure Canonical (significand : Nat) (power : Int) : Prop where
  bounded : significand < 2 ^ 53
  least : -1074 <= power
  normal : power = -1074 ∨ 2 ^ 52 <= significand

/-- The power that a ratio is rounded with. -/
def chosenPower (num den : Nat) : Int := max (topPower num den - 52) (-1074)

theorem chosenPower_of_exact (denPositive : 0 < den) (positive : 0 < significand)
    (exact : (num : ℚ) / den = significand * 2 ^ power) (canonical : Canonical significand power) :
    chosenPower num den = power := by
  have significandPositive : (0 : ℚ) < significand := by exact_mod_cast positive
  have numPositive : 0 < num := by
    rcases Nat.eq_zero_or_pos num with zero | more
    · rw [zero, Nat.cast_zero, zero_div] at exact
      have product : (0 : ℚ) < significand * 2 ^ power := by positivity
      exact absurd exact product.ne
    · exact more
  have top := topPower_spec numPositive denPositive
  rw [exact] at top
  have bounded : (significand : ℚ) < 2 ^ (53 : Int) := by exact_mod_cast canonical.bounded
  have above : (significand : ℚ) * 2 ^ power < 2 ^ (power + 53) := by
    rw [zpow_add₀ two_ne_zero, mul_comm]
    gcongr
  rw [chosenPower]
  rcases canonical.normal with lowest | normal
  · have below := (zpow_lt_zpow_iff_right₀ (by norm_num : (1 : ℚ) < 2)).mp
      (top.low.trans_lt above)
    have least := canonical.least
    omega
  · have wide : (2 : ℚ) ^ (52 : Int) <= significand := by exact_mod_cast normal
    have exactTop : TopPower (significand * 2 ^ power) (power + 52) := by
      refine ⟨?_, ?_⟩
      · rw [zpow_add₀ two_ne_zero, mul_comm]
        gcongr
      · rw [add_assoc]
        exact above
    rw [top.unique exactTop]
    have least := canonical.least
    omega

theorem roundRatio_eq (num den : Nat) :
    roundRatio num den
      = let power := chosenPower num den
        let top := if 0 <= power then num else num * Nat.pow 2 (-power).toNat
        let bottom := if 0 <= power then den * Nat.pow 2 power.toNat else den
        (if decide (bottom < 2 * (top % bottom))
            || (2 * (top % bottom) == bottom && top / bottom % 2 == 1)
          then top / bottom + 1 else top / bottom, power) := by
  have chosen : max ((num.log2 : Int) - den.log2
      - (if isBelow num den ((num.log2 : Int) - den.log2) then 53 else 52)) (-1074)
        = chosenPower num den := by
    rw [chosenPower, topPower]
    split
    · omega
    · omega
  rw [← chosen]
  rfl

/-- A ratio that is a number of the format is rounded to that number. -/
theorem roundRatio_of_exact (denPositive : 0 < den) (positive : 0 < significand)
    (exact : (num : ℚ) / den = significand * 2 ^ power) (canonical : Canonical significand power) :
    roundRatio num den = (significand, power) := by
  rw [roundRatio_eq, chosenPower_of_exact denPositive positive exact canonical]
  dsimp only
  have nonzero : (den : ℚ) ≠ 0 := by exact_mod_cast denPositive.ne'
  rw [div_eq_iff nonzero] at exact
  -- The division leaves no remainder, whichever side the power of two stands on.
  have divides : (if 0 <= power then num else num * Nat.pow 2 (-power).toNat)
      = significand * (if 0 <= power then den * Nat.pow 2 power.toNat else den) := by
    split
    · rename_i nonneg
      rw [← zpow_toNat nonneg] at exact
      have equal : num = significand * 2 ^ power.toNat * den := by exact_mod_cast exact
      rw [equal, mul_assoc, mul_comm _ den]
      rfl
    · rename_i negative
      have opposite : (2 : ℚ) ^ power * 2 ^ (-power).toNat = 1 := by
        rw [zpow_toNat (by omega), ← zpow_add₀ two_ne_zero, add_neg_cancel, zpow_zero]
      have scaled : (num : ℚ) * 2 ^ (-power).toNat = significand * den := by
        rw [exact, mul_right_comm, mul_assoc _ _ (2 ^ (-power).toNat), opposite, mul_one]
      exact_mod_cast scaled
  have bottomPositive : 0 < (if 0 <= power then den * Nat.pow 2 power.toNat else den) := by
    split
    · exact Nat.mul_pos denPositive (Nat.pow_pos (by decide))
    · exact denPositive
  rw [divides, Nat.mul_mod_left, Nat.mul_div_cancel _ bottomPositive]
  rw [if_neg]
  simp only [mul_zero, Bool.or_eq_true, Bool.and_eq_true, decide_eq_true_eq, beq_iff_eq]
  omega

/-! ## The bits of a number -/

theorem ofRatio_of_exact (denPositive : 0 < den) (positive : 0 < significand)
    (exact : (num : ℚ) / den = significand * 2 ^ power) (canonical : Canonical significand power)
    (bounded : magnitude (significand, power) < topExponent * Nat.pow 2 52) :
    ofRatio negative num den = .value ⟨UInt64.ofNat
      ((if negative then Nat.pow 2 63 else 0) + magnitude (significand, power))⟩ := by
  have numNonzero : num ≠ 0 := by
    rintro rfl
    rw [Nat.cast_zero, zero_div] at exact
    have significandPositive : (0 : ℚ) < significand := by exact_mod_cast positive
    have product : (0 : ℚ) < significand * 2 ^ power := by positivity
    exact absurd exact product.ne
  rw [ofRatio, if_neg numNonzero, roundRatio_of_exact denPositive positive exact canonical]
  exact if_pos bounded

theorem pow_sign : Nat.pow 2 63 = 9223372036854775808 := rfl

theorem pow_fraction : Nat.pow 2 52 = 4503599627370496 := rfl

theorem pow_exponent : Nat.pow 2 11 = 2048 := rfl

theorem exponent_lt (value : Binary64) : value.exponent < 2048 := by
  rw [exponent, pow_exponent]
  exact Nat.mod_lt _ (by decide)

theorem fraction_lt (value : Binary64) : value.fraction < 4503599627370496 := by
  rw [fraction, pow_fraction]
  exact Nat.mod_lt _ (by decide)

/-- A number is put together from its sign and its magnitude. -/
theorem eq_of_parts (value : Binary64) :
    value = ⟨UInt64.ofNat ((if value.isNegative then Nat.pow 2 63 else 0)
      + (value.exponent * Nat.pow 2 52 + value.fraction))⟩ := by
  rcases value with ⟨bits⟩
  have bound := bits.toNat_lt
  rw [Binary64.mk.injEq, ← UInt64.toNat_inj, UInt64.toNat_ofNat']
  simp only [isNegative, exponent, fraction, pow_sign, pow_fraction, pow_exponent, beq_iff_eq]
  split
  · omega
  · omega

theorem magnitude_significandAndPower (value : Binary64) :
    magnitude value.significandAndPower = value.exponent * Nat.pow 2 52 + value.fraction := by
  rw [significandAndPower]
  split
  · rename_i subnormal
    simp only [magnitude, subnormal, pow_fraction]
    omega
  · simp only [magnitude, pow_fraction]
    omega

theorem canonical_significandAndPower (value : Binary64) :
    Canonical value.significandAndPower.1 value.significandAndPower.2 := by
  have fractionBound := value.fraction_lt
  rw [significandAndPower]
  split
  · exact ⟨by dsimp only; omega, by dsimp only; omega, .inl rfl⟩
  · simp only [pow_fraction]
    exact ⟨by omega, by omega, .inr (by omega)⟩

/-- The size of a finite number. -/
def size (value : Binary64) : ℚ := value.significandAndPower.1 * 2 ^ value.significandAndPower.2

theorem ofParts_zero (zero : value.significandAndPower.1 = 0) :
    ofParts value.isNegative 0 0 = value := by
  have magnitudeZero : value.exponent * Nat.pow 2 52 + value.fraction = 0 := by
    rw [significandAndPower] at zero
    split at zero
    · rename_i subnormal
      rw [subnormal, Nat.zero_mul]
      exact (Nat.zero_add _).trans zero
    · simp only [pow_fraction] at zero
      omega
  conv_rhs => rw [eq_of_parts value, magnitudeZero]
  rfl

/-- A ratio that is the size of a finite number is read as that number. -/
theorem ofRatio_of_size (finite : value.isFinite = true) (denPositive : 0 < den)
    (exact : (num : ℚ) / den = value.size) :
    ofRatio value.isNegative num den = .value value := by
  have nonzero : (den : ℚ) ≠ 0 := by exact_mod_cast denPositive.ne'
  rcases Nat.eq_zero_or_pos value.significandAndPower.1 with zero | positive
  · have numZero : num = 0 := by
      rw [size, zero, Nat.cast_zero, zero_mul, div_eq_zero_iff, or_iff_left nonzero] at exact
      exact_mod_cast exact
    rw [ofRatio, if_pos numZero, ofParts_zero zero]
  · have bounded : magnitude (value.significandAndPower.1, value.significandAndPower.2)
        < topExponent * Nat.pow 2 52 := by
      have exponentBound := value.exponent_lt
      have fractionBound := value.fraction_lt
      rw [isFinite, bne_iff_ne] at finite
      rw [magnitude_significandAndPower]
      simp only [topExponent, pow_fraction] at finite ⊢
      omega
    rw [ofRatio_of_exact denPositive positive exact (canonical_significandAndPower value) bounded,
      magnitude_significandAndPower, ← eq_of_parts]

/-- A number below the greatest exponent is finite. -/
theorem isFinite_of_magnitude {bits} (bounded : bits < topExponent * Nat.pow 2 52) :
    isFinite ⟨UInt64.ofNat ((if negative then Nat.pow 2 63 else 0) + bits)⟩ = true := by
  simp only [isFinite, exponent, UInt64.toNat_ofNat', topExponent, pow_sign, pow_fraction,
    pow_exponent, bne_iff_ne] at bounded ⊢
  split
  · omega
  · omega

theorem isFinite_zero (negative : Bool) : (ofParts negative 0 0).isFinite = true := by
  cases negative
  · decide
  · decide

/-- No ratio is read as an infinity. -/
theorem isFinite_of_ofRatio (read : ofRatio negative num den = .value value) :
    value.isFinite = true := by
  rw [ofRatio] at read
  split at read
  · cases read
    exact isFinite_zero negative
  · dsimp only at read
    split at read
    · rename_i bounded
      cases read
      exact isFinite_of_magnitude bounded
    · cases read

end Binary64
end PCode
