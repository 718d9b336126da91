import Mathlib.Algebra.Order.Field.Power
import Mathlib.Data.Rat.Lemmas
import Mathlib.Tactic.FieldSimp
import Mathlib.Tactic.Ring
import Uskit.Json.Double

namespace Uskit.Double

/-! The double that an integer is converted to: its value is the integer rounded
to 53 significant bits. -/

/-- The unit in the last of 53 places, for integers at least 1. -/
def unit (magnitude : Nat) : Nat :=
  2 ^ (magnitude.log2 - 52)

def roundMagnitude (magnitude : Nat) : Nat :=
  roundHalfEven magnitude (unit magnitude) * unit magnitude

/-- The rounded integer in units of 2 ^ (log2 - 52), which may be a fraction. -/
def significand (magnitude : Nat) : Nat :=
  roundHalfEven magnitude (unit magnitude) * 2 ^ (52 - magnitude.log2)

/-- To nearest, ties to even, with a significand of 53 bits. -/
def roundInt (value : Int) : Int :=
  value.sign * roundMagnitude value.natAbs

/-! The fields of a pattern. -/

theorem toNat_pack {biased fraction : Nat} (hbiased : biased < 2 ^ 11)
    (hfraction : fraction < 2 ^ 52) (negative : Bool) :
    (pack negative biased fraction).bits.toNat =
      (if negative then 2 ^ 63 else 0) + biased * 2 ^ 52 + fraction := by
  rw [pack, BitVec.toNat_ofNat, Nat.mod_eq_of_lt]
  split <;> omega

theorem biasedExponent_pack {biased fraction : Nat} (hbiased : biased < 2 ^ 11)
    (hfraction : fraction < 2 ^ 52) (negative : Bool) :
    (pack negative biased fraction).biasedExponent = biased := by
  rw [biasedExponent, toNat_pack hbiased hfraction]
  split <;> omega

theorem fraction_pack {biased fraction : Nat} (hbiased : biased < 2 ^ 11)
    (hfraction : fraction < 2 ^ 52) (negative : Bool) :
    (pack negative biased fraction).fraction = fraction := by
  rw [Double.fraction, toNat_pack hbiased hfraction]
  split <;> omega

theorem negative_pack {biased fraction : Nat} (hbiased : biased < 2 ^ 11)
    (hfraction : fraction < 2 ^ 52) (negative : Bool) :
    (pack negative biased fraction).negative = negative := by
  rw [Double.negative, BitVec.getLsbD, toNat_pack hbiased hfraction,
    Nat.testBit_eq_decide_div_mod_eq]
  cases negative with
  | true =>
      apply decide_eq_true
      rw [if_pos rfl]
      omega
  | false =>
      apply decide_eq_false
      rw [if_neg Bool.false_ne_true]
      omega

theorem power_eq (exponent : Int) : power exponent = (2 : Rat) ^ exponent := by
  unfold power
  split
  · rename_i hexponent
    rw [← zpow_natCast, Int.toNat_of_nonneg hexponent]
  · rename_i hexponent
    rw [one_div, ← zpow_natCast, Int.toNat_of_nonneg (by omega), zpow_neg, inv_inv]

theorem toRat_pack {biased fraction : Nat} (hpos : 0 < biased)
    (hbiased : biased < 2 ^ 11) (hfraction : fraction < 2 ^ 52) (negative : Bool) :
    (pack negative biased fraction).toRat =
      (if negative then -1 else 1) *
        ((2 ^ 52 + fraction : Nat) * (2 : Rat) ^ ((biased : Int) - 1075)) := by
  have hnormal : biased ≠ 0 := by omega
  rw [toRat, biasedExponent_pack hbiased hfraction, fraction_pack hbiased hfraction,
    negative_pack hbiased hfraction]
  simp only [if_neg hnormal, power_eq]
  cases negative with
  | true => rw [if_pos rfl, if_pos rfl, neg_one_mul]
  | false => rw [if_neg Bool.false_ne_true, if_neg Bool.false_ne_true, one_mul]

/-! Rounding a fraction does not depend on how it is written. -/

theorem roundHalfEven_mul (numerator denominator : Nat) {factor : Nat}
    (hfactor : 0 < factor) :
    roundHalfEven (numerator * factor) (denominator * factor) =
      roundHalfEven numerator denominator := by
  have hless : ∀ a b : Nat, a * factor < b * factor ↔ a < b :=
    fun a b => Nat.mul_lt_mul_right hfactor
  unfold roundHalfEven
  simp only [Nat.mul_div_mul_right _ _ hfactor, Nat.mul_mod_mul_right,
    ← Nat.mul_assoc, hless]

theorem roundHalfEven_one (numerator : Nat) : roundHalfEven numerator 1 = numerator := by
  unfold roundHalfEven
  simp only [Nat.div_one, Nat.mod_one]
  exact if_pos (by decide)

theorem le_roundHalfEven (numerator denominator : Nat) :
    numerator / denominator ≤ roundHalfEven numerator denominator := by
  unfold roundHalfEven
  simp only
  split_ifs <;> omega

theorem roundHalfEven_le (numerator denominator : Nat) :
    roundHalfEven numerator denominator ≤ numerator / denominator + 1 := by
  unfold roundHalfEven
  simp only
  split_ifs <;> omega

theorem roundHalfEven_rat (numerator : Nat) {denominator : Nat}
    (hpos : 0 < denominator) :
    roundHalfEven ((numerator : Rat) / denominator).num.natAbs
        ((numerator : Rat) / denominator).den =
      roundHalfEven numerator denominator := by
  obtain ⟨factor, hnum, hden⟩ := Rat.exists_eq_mul_div_num_and_eq_mul_div_den
    (numerator : Int) (d := (denominator : Int)) (by omega)
  simp only [Int.cast_natCast] at hnum hden
  generalize (numerator : Rat) / denominator = quotient at hnum hden
  have hfactor : 0 < factor := by
    by_contra hnot
    have hden' : factor * (quotient.den : Int) ≤ 0 :=
      Int.mul_nonpos_of_nonpos_of_nonneg (by omega) (by omega)
    omega
  have hnum : numerator = quotient.num.natAbs * factor.natAbs := by
    rw [← Int.natAbs_mul, Int.mul_comm, ← hnum, Int.natAbs_natCast]
  have hden : denominator = quotient.den * factor.natAbs := by
    have habs := congrArg Int.natAbs hden
    rwa [Int.natAbs_mul, Int.natAbs_natCast, Int.natAbs_natCast, Nat.mul_comm] at habs
  conv_rhs => rw [hnum, hden]
  exact (roundHalfEven_mul _ _ (by omega)).symm

/-! Integers of at most 64 bits. -/

section Magnitude

variable {magnitude : Nat}

theorem lastPlace_natCast (hpos : 0 < magnitude) :
    lastPlace (magnitude : Rat) = max (magnitude.log2 - 52 : Int) (-1074) := by
  have hlow : 2 ^ magnitude.log2 ≤ magnitude := Nat.log2_self_le (by omega)
  have hnot : ¬ (magnitude : Rat) / power (magnitude.log2 - 53 : Int) < 2 ^ 53 := by
    rw [power_eq, not_lt, le_div_iff₀ (zpow_pos (by decide) _), ← zpow_natCast,
      ← zpow_add₀ (by decide)]
    have hexponent : ((53 : Nat) : Int) + (magnitude.log2 - 53) = magnitude.log2 := by
      omega
    rw [hexponent, zpow_natCast]
    exact_mod_cast hlow
  have hone : Nat.log2 1 = 0 := by decide
  rw [lastPlace]
  simp only [Rat.num_natCast, Rat.den_natCast, Int.natAbs_natCast, hone,
    Int.natCast_zero, Int.sub_zero, if_neg hnot]
  congr 1
  omega

theorem roundHalfEven_scaled (magnitude : Nat) :
    roundHalfEven
        ((magnitude : Rat) / power (magnitude.log2 - 52 : Int)).num.natAbs
        ((magnitude : Rat) / power (magnitude.log2 - 52 : Int)).den =
      significand magnitude := by
  rw [power_eq, significand, unit]
  by_cases hsize : 52 ≤ magnitude.log2
  · have hexponent : (magnitude.log2 - 52 : Int) = (magnitude.log2 - 52 : Nat) := by
      omega
    have hunit : (2 : Rat) ^ (magnitude.log2 - 52) =
        ((2 ^ (magnitude.log2 - 52) : Nat) : Rat) := by
      push_cast
      rfl
    rw [hexponent, zpow_natCast, hunit, roundHalfEven_rat _ (Nat.two_pow_pos _),
      Nat.sub_eq_zero_of_le hsize, pow_zero, Nat.mul_one]
  · have hexponent : (magnitude.log2 - 52 : Int) = -((52 - magnitude.log2 : Nat) : Int) := by
      omega
    have hscaled : (magnitude : Rat) / 2 ^ (-((52 - magnitude.log2 : Nat) : Int)) =
        ((magnitude * 2 ^ (52 - magnitude.log2) : Nat) : Rat) := by
      rw [zpow_neg, div_inv_eq_mul, zpow_natCast]
      push_cast
      rfl
    rw [hexponent, hscaled, Rat.num_natCast, Rat.den_natCast, Int.natAbs_natCast,
      roundHalfEven_one, Nat.sub_eq_zero_of_le (Nat.le_of_not_le hsize), pow_zero,
      roundHalfEven_one]

theorem significand_mul (magnitude : Nat) :
    (significand magnitude : Rat) * 2 ^ (magnitude.log2 - 52 : Int) =
      (roundMagnitude magnitude : Rat) := by
  have hunit : (2 : Rat) ^ (52 - magnitude.log2) *
      2 ^ (magnitude.log2 - 52 : Int) = 2 ^ (magnitude.log2 - 52) := by
    rw [← zpow_natCast, ← zpow_natCast, ← zpow_add₀ (by decide)]
    congr 1
    omega
  rw [significand, roundMagnitude]
  push_cast
  rw [mul_assoc, hunit, unit]
  push_cast
  rfl

theorem significand_bounds (hpos : 0 < magnitude) :
    2 ^ 52 ≤ significand magnitude ∧ significand magnitude ≤ 2 ^ 53 := by
  have hlow : 2 ^ magnitude.log2 ≤ magnitude := Nat.log2_self_le (by omega)
  have hhigh : magnitude < 2 ^ (magnitude.log2 + 1) := Nat.lt_log2_self
  rw [significand, unit]
  by_cases hsize : 52 ≤ magnitude.log2
  · rw [Nat.sub_eq_zero_of_le hsize, pow_zero, Nat.mul_one]
    have hunit : 2 ^ magnitude.log2 = 2 ^ 52 * 2 ^ (magnitude.log2 - 52) := by
      rw [← pow_add]
      congr 1
      omega
    have hquotient : 2 ^ 52 ≤ magnitude / 2 ^ (magnitude.log2 - 52) := by
      rw [Nat.le_div_iff_mul_le (Nat.two_pow_pos _), ← hunit]
      exact hlow
    have hless : magnitude / 2 ^ (magnitude.log2 - 52) < 2 ^ 53 := by
      rw [Nat.div_lt_iff_lt_mul (Nat.two_pow_pos _), pow_succ 2 52, Nat.mul_right_comm,
        ← hunit, ← pow_succ]
      exact hhigh
    exact ⟨hquotient.trans (le_roundHalfEven _ _),
      (roundHalfEven_le _ _).trans hless⟩
  · rw [Nat.sub_eq_zero_of_le (Nat.le_of_not_le hsize), pow_zero, roundHalfEven_one]
    have hscale : 2 ^ magnitude.log2 * 2 ^ (52 - magnitude.log2) = 2 ^ 52 := by
      rw [← pow_add]
      congr 1
      omega
    constructor
    · rw [← hscale]
      exact Nat.mul_le_mul_right _ hlow
    · rw [pow_succ 2 52, ← hscale, Nat.mul_right_comm, ← pow_succ]
      exact Nat.mul_le_mul_right _ hhigh.le

/-- A conversion that does not overflow gives the rounded integer. -/
theorem ofMagnitude_natCast (hpos : 0 < magnitude) (hsize : magnitude.log2 < 64)
    (negative : Bool) :
    ∃ biased fraction, 0 < biased ∧ biased < 2047 ∧ fraction < 2 ^ 52 ∧
      ofMagnitude negative magnitude = pack negative biased fraction ∧
      ((2 ^ 52 + fraction : Nat) : Rat) * 2 ^ ((biased : Int) - 1075) =
        (roundMagnitude magnitude : Rat) := by
  have hbounds := significand_bounds hpos
  have hplace : lastPlace (magnitude : Rat) = (magnitude.log2 - 52 : Int) := by
    rw [lastPlace_natCast hpos]
    omega
  rw [ofMagnitude]
  simp only [hplace, roundHalfEven_scaled, ← significand_mul]
  by_cases hcarry : significand magnitude = 2 ^ 53
  · refine ⟨magnitude.log2 + 1024, 0, by omega, by omega, by decide, ?_, ?_⟩
    · simp only [if_pos hcarry]
      rw [if_neg (by omega), if_neg (by decide)]
      congr 1
      omega
    · rw [hcarry]
      have hexponent : ((magnitude.log2 + 1024 : Nat) : Int) - 1075 =
          (magnitude.log2 - 52 : Int) + 1 := by
        omega
      rw [hexponent, zpow_add_one₀ (by decide)]
      push_cast
      ring
  · refine ⟨magnitude.log2 + 1023, significand magnitude - 2 ^ 52, by omega,
      by omega, by omega, ?_, ?_⟩
    · simp only [if_neg hcarry]
      rw [if_neg (by omega), if_neg (by omega)]
      congr 1
      omega
    · have hexponent : ((magnitude.log2 + 1023 : Nat) : Int) - 1075 =
          (magnitude.log2 - 52 : Int) := by
        omega
      rw [hexponent, Nat.add_sub_cancel' hbounds.1]

end Magnitude

def Finite (d : Double) : Prop :=
  d.isNan = false ∧ d.isInfinite = false

theorem finite_of_biasedExponent {d : Double} (hbiased : d.biasedExponent < 2047) :
    d.Finite := by
  have hne : (d.biasedExponent == 2047) = false := beq_eq_false_iff_ne.mpr (by omega)
  constructor
  · rw [isNan, hne, Bool.false_and]
  · rw [isInfinite, hne, Bool.false_and]

theorem ofInt_zero : (ofInt 0).Finite ∧ (ofInt 0).toRat = 0 := by
  have hzero : ofInt 0 = pack false 0 0 := rfl
  rw [hzero]
  constructor
  · apply finite_of_biasedExponent
    rw [biasedExponent_pack (by decide) (by decide)]
    decide
  · rw [toRat, biasedExponent_pack (by decide) (by decide),
      fraction_pack (by decide) (by decide), negative_pack (by decide) (by decide)]
    simp

/-- The conversion of an integer of 64 bits. -/
theorem ofInt_rounds {value : Int} (hsize : value.natAbs.log2 < 64) :
    (ofInt value).Finite ∧ (ofInt value).toRat = (roundInt value : Rat) := by
  by_cases hzero : value = 0
  · subst hzero
    refine ⟨ofInt_zero.1, ofInt_zero.2.trans ?_⟩
    simp [roundInt]
  · obtain ⟨biased, fraction, hpos, hbiased, hfraction, hpack, hvalue⟩ :=
      ofMagnitude_natCast (Int.natAbs_pos.mpr hzero) hsize (decide (value < 0))
    have hmagnitude : (if (value : Rat) < 0 then -(value : Rat) else value) =
        (value.natAbs : Rat) := by
      by_cases hneg : value < 0
      · rw [if_pos (by exact_mod_cast hneg), Nat.cast_natAbs, abs_of_neg hneg]
        push_cast
        rfl
      · rw [if_neg (by exact_mod_cast hneg), Nat.cast_natAbs,
          abs_of_nonneg (Int.not_lt.mp hneg)]
    have hsign : decide ((value : Rat) < 0) = decide (value < 0) := by
      rw [decide_eq_decide]
      exact_mod_cast Iff.rfl
    have hofInt : ofInt value = pack (decide (value < 0)) biased fraction := by
      rw [ofInt, ofRat, if_neg (by exact_mod_cast hzero), hmagnitude, hsign, hpack]
    rw [hofInt]
    constructor
    · apply finite_of_biasedExponent
      rw [biasedExponent_pack (by omega) hfraction]
      exact hbiased
    · rw [toRat_pack hpos (by omega) hfraction, hvalue, roundInt]
      by_cases hneg : value < 0
      · rw [if_pos (decide_eq_true hneg), Int.sign_eq_neg_one_of_neg hneg]
        push_cast
        rfl
      · rw [if_neg (by simpa using hneg), Int.sign_eq_one_of_pos (by omega)]
        push_cast
        rfl

/-- Integers of up to 53 bits are not rounded. -/
theorem roundInt_eq_self {value : Int} (hsize : value.natAbs < 2 ^ 53) :
    roundInt value = value := by
  have hunit : value.natAbs.log2 - 52 = 0 := by
    by_cases hzero : value.natAbs = 0
    · rw [hzero]
      decide
    · have hlog := (Nat.log2_lt hzero).mpr hsize
      omega
  rw [roundInt, roundMagnitude, unit, hunit, pow_zero, roundHalfEven_one, Nat.mul_one]
  exact Int.sign_mul_natAbs value

theorem lt_of_finite {a b : Double} (ha : a.Finite) (hb : b.Finite) :
    a.lt b = decide (a.toRat < b.toRat) := by
  simp [lt, ha.1, ha.2, hb.1, hb.2]

theorem le_of_finite {a b : Double} (ha : a.Finite) (hb : b.Finite) :
    a.le b = decide (a.toRat ≤ b.toRat) := by
  simp [le, lt_of_finite hb ha, ha.1, hb.1, ← not_lt]

end Uskit.Double
