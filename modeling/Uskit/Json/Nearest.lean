import Mathlib.Algebra.Order.Round
import Mathlib.Data.Rat.Floor
import Mathlib.Tactic.Linarith
import Mathlib.Tactic.Ring
import Uskit.Json.DoubleRounding

namespace Uskit

/-! No finite double is nearer to a number than the one that the number is rounded to. -/

namespace Double

/-! Rounding to an integer. -/

theorem roundHalfEven_cases (numerator denominator : Nat) :
    (roundHalfEven numerator denominator = numerator / denominator ∧
        2 * (numerator % denominator) ≤ denominator) ∨
      (roundHalfEven numerator denominator = numerator / denominator + 1 ∧
        denominator ≤ 2 * (numerator % denominator)) := by
  unfold roundHalfEven
  simp only
  split_ifs <;> omega

/-- Between two neighbours, the nearer one is as near as any other integer. -/
theorem abs_sub_le_of_between {value : Rat} (floor : Int) {rounded other : Int}
    (hlow : (floor : Rat) ≤ value) (hhigh : value ≤ floor + 1)
    (hrounded : (rounded = floor ∧ value - floor ≤ floor + 1 - value) ∨
      (rounded = floor + 1 ∧ floor + 1 - value ≤ value - floor)) :
    |value - rounded| ≤ |value - other| := by
  have hother : (other : Rat) ≤ floor ∨ (floor : Rat) + 1 ≤ other := by
    rcases lt_or_ge floor other with hless | hle
    · exact .inr (by exact_mod_cast hless)
    · exact .inl (by exact_mod_cast hle)
  have hnear : value - floor ≤ |value - other| ∨ floor + 1 - value ≤ |value - other| := by
    rcases hother with hbelow | habove
    · exact .inl (by linarith [le_abs_self (value - other)])
    · exact .inr (by linarith [neg_abs_le (value - other)])
  rcases hrounded with ⟨rfl, hnearer⟩ | ⟨rfl, hnearer⟩
  · rw [abs_of_nonneg (by linarith)]
    rcases hnear with hnear | hnear <;> linarith
  · rw [abs_of_nonpos (by push_cast; linarith)]
    push_cast
    rcases hnear with hnear | hnear <;> linarith

/-- No integer is nearer than the one that a number is rounded to. -/
theorem abs_sub_roundHalfEven_le {value : Rat} (hvalue : 0 ≤ value) (other : Int) :
    |value - (roundHalfEven value.num.natAbs value.den : Int)| ≤ |value - other| := by
  have hden : (0 : Rat) < value.den := by exact_mod_cast value.den_pos
  have hnum : (value.num.natAbs : Rat) = value * value.den := by
    rw [Nat.cast_natAbs, abs_of_nonneg (Rat.num_nonneg.mpr hvalue)]
    exact (Rat.mul_den_eq_num value).symm
  have hsplit : value * value.den =
      ((value.num.natAbs / value.den : Nat) : Rat) * value.den +
        ((value.num.natAbs % value.den : Nat) : Rat) := by
    rw [← hnum, mul_comm]
    exact_mod_cast (Nat.div_add_mod _ _).symm
  have hless : ((value.num.natAbs % value.den : Nat) : Rat) < value.den := by
    exact_mod_cast Nat.mod_lt _ value.den_pos
  have hcases := roundHalfEven_cases value.num.natAbs value.den
  generalize roundHalfEven value.num.natAbs value.den = rounded at hcases ⊢
  generalize value.num.natAbs / value.den = floor at hsplit hcases
  generalize value.num.natAbs % value.den = rest at hsplit hless hcases
  have hrest : (rest : Rat) = (value - floor) * value.den := by linarith
  rw [hrest] at hless
  refine abs_sub_le_of_between floor ?_ ?_ ?_
  · have hnonneg : 0 ≤ (value - floor) * value.den := hrest ▸ Nat.cast_nonneg rest
    have := nonneg_of_mul_nonneg_left hnonneg hden
    push_cast
    linarith
  · have := (mul_lt_iff_lt_one_left hden).mp hless
    push_cast
    linarith
  · rcases hcases with ⟨rfl, hhalf⟩ | ⟨rfl, hhalf⟩
    · have hhalf : (2 : Rat) * rest ≤ value.den := by exact_mod_cast hhalf
      rw [hrest, ← mul_assoc] at hhalf
      have := (mul_le_iff_le_one_left hden).mp hhalf
      exact .inl ⟨rfl, by push_cast; linarith⟩
    · have hhalf : (value.den : Rat) ≤ 2 * rest := by exact_mod_cast hhalf
      rw [hrest, ← mul_assoc] at hhalf
      have := (le_mul_iff_one_le_left hden).mp hhalf
      exact .inr ⟨by push_cast; rfl, by push_cast; linarith⟩

/-! The place of the last bit. -/

/-- The last of 53 places of a number, also if it is below those of the subnormal numbers. -/
def leadingPlace (magnitude : Rat) : Int :=
  let estimate : Int :=
    Nat.log2 magnitude.num.natAbs - Nat.log2 magnitude.den - 53
  if magnitude / power estimate < 2 ^ 53 then estimate else estimate + 1

theorem lastPlace_eq_max (magnitude : Rat) :
    lastPlace magnitude = max (leadingPlace magnitude) (-1074) := rfl

theorem log2_bounds {n : Nat} (hpos : 0 < n) :
    (2 : Rat) ^ (n.log2 : Int) ≤ n ∧ (n : Rat) < 2 ^ ((n.log2 : Int) + 1) := by
  rw [zpow_add_one₀ (by decide), zpow_natCast]
  constructor
  · exact_mod_cast Nat.log2_self_le (by omega)
  · have hless : n < 2 ^ n.log2 * 2 := by
      rw [← pow_succ]
      exact Nat.lt_log2_self
    exact_mod_cast hless

/-- Rounded to the last place, in units of that place. -/
def roundedUnits (magnitude : Rat) : Nat :=
  let scaled := magnitude / 2 ^ leadingPlace magnitude
  roundHalfEven scaled.num.natAbs scaled.den

section Place

variable {magnitude : Rat} (hpos : 0 < magnitude)

include hpos

theorem leadingPlace_bounds :
    2 ^ 52 * 2 ^ leadingPlace magnitude ≤ magnitude ∧
      magnitude < 2 ^ 53 * 2 ^ leadingPlace magnitude := by
  have hnum : 0 < magnitude.num.natAbs := Int.natAbs_pos.mpr (Rat.num_pos.mpr hpos).ne'
  obtain ⟨hnumLow, hnumHigh⟩ := log2_bounds hnum
  obtain ⟨hdenLow, hdenHigh⟩ := log2_bounds magnitude.den_pos
  have hquotient : magnitude = (magnitude.num.natAbs : Rat) / magnitude.den := by
    rw [Nat.cast_natAbs, abs_of_pos (Rat.num_pos.mpr hpos), Rat.num_div_den]
  have hden : (0 : Rat) < magnitude.den := by exact_mod_cast magnitude.den_pos
  have htwo : (2 : Rat) ≠ 0 := by decide
  set estimate : Int := Nat.log2 magnitude.num.natAbs - Nat.log2 magnitude.den - 53 with hestimate
  have hlow : 2 ^ 52 * 2 ^ estimate ≤ magnitude := by
    calc (2 : Rat) ^ 52 * 2 ^ estimate
        = 2 ^ (magnitude.num.natAbs.log2 : Int) / 2 ^ ((magnitude.den.log2 : Int) + 1) := by
          rw [← zpow_sub₀ htwo, ← zpow_natCast, ← zpow_add₀ htwo, hestimate]
          congr 1
          push_cast
          ring
      _ ≤ magnitude.num.natAbs / magnitude.den :=
          div_le_div₀ (Nat.cast_nonneg _) hnumLow hden hdenHigh.le
      _ = magnitude := hquotient.symm
  have hhigh : magnitude < 2 ^ 54 * 2 ^ estimate := by
    calc magnitude = magnitude.num.natAbs / magnitude.den := hquotient
      _ < 2 ^ ((magnitude.num.natAbs.log2 : Int) + 1) / 2 ^ (magnitude.den.log2 : Int) :=
          div_lt_div₀ hnumHigh hdenLow (zpow_nonneg (by decide) _) (zpow_pos (by decide) _)
      _ = 2 ^ 54 * 2 ^ estimate := by
          rw [← zpow_sub₀ htwo, ← zpow_natCast, ← zpow_add₀ htwo, hestimate]
          congr 1
          push_cast
          ring
  have hplace : leadingPlace magnitude =
      if magnitude < 2 ^ 53 * 2 ^ estimate then estimate else estimate + 1 := by
    unfold leadingPlace
    simp only [power_eq, div_lt_iff₀ (zpow_pos (by decide : (0 : Rat) < 2) _)]
    rfl
  rw [hplace]
  split
  case isTrue hless => exact ⟨hlow, hless⟩
  case isFalse hnot =>
    rw [zpow_add_one₀ htwo]
    constructor
    · linarith
    · linarith

theorem abs_sub_roundedUnits_le (other : Int) :
    |magnitude / 2 ^ leadingPlace magnitude - (roundedUnits magnitude : Int)| ≤
      |magnitude / 2 ^ leadingPlace magnitude - other| :=
  abs_sub_roundHalfEven_le (div_nonneg hpos.le (zpow_nonneg (by decide) _)) other

theorem roundedUnits_bounds :
    2 ^ 52 ≤ roundedUnits magnitude ∧ roundedUnits magnitude ≤ 2 ^ 53 := by
  obtain ⟨hlow, hhigh⟩ := leadingPlace_bounds hpos
  have hunit : (0 : Rat) < 2 ^ leadingPlace magnitude := zpow_pos (by decide) _
  rw [← le_div_iff₀ hunit] at hlow
  rw [← div_lt_iff₀ hunit] at hhigh
  have hnearLow := abs_sub_roundedUnits_le hpos (2 ^ 52)
  have hnearHigh := abs_sub_roundedUnits_le hpos (2 ^ 53)
  generalize magnitude / 2 ^ leadingPlace magnitude = scaled at hlow hhigh hnearLow hnearHigh
  generalize roundedUnits magnitude = rounded at hnearLow hnearHigh
  push_cast at hnearLow hnearHigh
  constructor
  · by_contra hless
    have hle : (rounded : Rat) + 1 ≤ 2 ^ 52 := by exact_mod_cast Nat.not_le.mp hless
    rw [abs_of_nonneg (by linarith), abs_of_nonneg (by linarith)] at hnearLow
    linarith
  · by_contra hless
    have hle : (2 : Rat) ^ 53 + 1 ≤ rounded := by exact_mod_cast Nat.not_le.mp hless
    rw [abs_of_nonpos (by linarith), abs_of_nonpos (by linarith)] at hnearHigh
    linarith

/-- A number of the normal range becomes a pattern whose value is the rounded number. -/
theorem ofMagnitude_eq_pack (hplace : -1074 ≤ leadingPlace magnitude)
    (hrange : leadingPlace magnitude ≤ 970) (negative : Bool) :
    ∃ biased fraction, 0 < biased ∧ biased < 2047 ∧ fraction < 2 ^ 52 ∧
      ofMagnitude negative magnitude = pack negative biased fraction ∧
      ((2 ^ 52 + fraction : Nat) : Rat) * 2 ^ ((biased : Int) - 1075) =
        roundedUnits magnitude * 2 ^ leadingPlace magnitude := by
  have hbounds := roundedUnits_bounds hpos
  have hlast : lastPlace magnitude = leadingPlace magnitude := by
    rw [lastPlace_eq_max, max_eq_left hplace]
  have hrounded : roundHalfEven (magnitude / power (leadingPlace magnitude)).num.natAbs
      (magnitude / power (leadingPlace magnitude)).den = roundedUnits magnitude := by
    rw [power_eq]
    rfl
  rw [ofMagnitude]
  simp only [hlast, hrounded]
  by_cases hcarry : roundedUnits magnitude = 2 ^ 53
  · refine ⟨(leadingPlace magnitude + 1076).toNat, 0, by omega, by omega, by decide, ?_, ?_⟩
    · simp only [if_pos hcarry]
      rw [if_neg (by omega), if_neg (by decide)]
      congr 1
      omega
    · have hexponent : (((leadingPlace magnitude + 1076).toNat : Nat) : Int) - 1075 =
          leadingPlace magnitude + 1 := by
        omega
      rw [hcarry, hexponent, zpow_add_one₀ (by decide)]
      push_cast
      ring
  · refine ⟨(leadingPlace magnitude + 1075).toNat, roundedUnits magnitude - 2 ^ 52, by omega,
      by omega, by omega, ?_, ?_⟩
    · simp only [if_neg hcarry]
      rw [if_neg (by omega), if_neg (by omega)]
    · have hexponent : (((leadingPlace magnitude + 1075).toNat : Nat) : Int) - 1075 =
          leadingPlace magnitude := by
        omega
      rw [hexponent, Nat.add_sub_cancel' hbounds.1]

end Place

/-! The values of the patterns. -/

def absolute (d : Double) : Rat :=
  if d.biasedExponent = 0 then d.fraction * 2 ^ (-1074 : Int)
  else (2 ^ 52 + d.fraction : Nat) * 2 ^ ((d.biasedExponent : Int) - 1075)

theorem toRat_eq (d : Double) : d.toRat = if d.negative then -d.absolute else d.absolute := by
  unfold toRat absolute
  simp only [power_eq]

theorem absolute_nonneg (d : Double) : 0 ≤ d.absolute := by
  have hpower : ∀ exponent : Int, (0 : Rat) ≤ 2 ^ exponent :=
    fun exponent => zpow_nonneg (by decide) exponent
  unfold absolute
  split
  · exact mul_nonneg (Nat.cast_nonneg _) (hpower _)
  · exact mul_nonneg (Nat.cast_nonneg _) (hpower _)

/-- A value is a multiple of a place, or less than all numbers with 53 bits from there on. -/
theorem absolute_multiple_or_less (d : Double) {place : Int} (hplace : -1074 ≤ place) :
    (∃ units : Nat, d.absolute = units * 2 ^ place) ∨ d.absolute < 2 ^ 52 * 2 ^ place := by
  have hfraction : (d.fraction : Rat) < 2 ^ 52 := by
    exact_mod_cast Nat.mod_lt _ (Nat.two_pow_pos 52)
  have hmono : ∀ {low high : Int}, low ≤ high → (2 : Rat) ^ low ≤ 2 ^ high :=
    fun hle => zpow_le_zpow_right₀ (by decide) hle
  unfold absolute
  split
  · right
    calc (d.fraction : Rat) * 2 ^ (-1074 : Int)
        < 2 ^ 52 * 2 ^ (-1074 : Int) :=
          mul_lt_mul_of_pos_right hfraction (zpow_pos (by decide) _)
      _ ≤ 2 ^ 52 * 2 ^ place := mul_le_mul_of_nonneg_left (hmono hplace) (by decide)
  · rcases le_or_gt place ((d.biasedExponent : Int) - 1075) with hle | hless
    · left
      refine ⟨(2 ^ 52 + d.fraction) * 2 ^ ((d.biasedExponent : Int) - 1075 - place).toNat, ?_⟩
      have hsplit : (2 : Rat) ^ ((d.biasedExponent : Int) - 1075) =
          2 ^ ((d.biasedExponent : Int) - 1075 - place).toNat * 2 ^ place := by
        rw [← zpow_natCast, ← zpow_add₀ (by decide)]
        congr 1
        omega
      rw [hsplit]
      push_cast
      ring
    · right
      have hsignificand : ((2 ^ 52 + d.fraction : Nat) : Rat) < 2 ^ 53 := by
        push_cast
        linarith
      have hplace : (2 : Rat) ^ place = 2 * 2 ^ (place - 1) := by
        rw [mul_comm, ← zpow_add_one₀ (by decide), sub_add_cancel]
      have hpos : (0 : Rat) < 2 ^ ((d.biasedExponent : Int) - 1075) := zpow_pos (by decide) _
      have hnext : (2 : Rat) ^ ((d.biasedExponent : Int) - 1075) ≤ 2 ^ (place - 1) :=
        hmono (by omega)
      calc ((2 ^ 52 + d.fraction : Nat) : Rat) * 2 ^ ((d.biasedExponent : Int) - 1075)
          < 2 ^ 53 * 2 ^ ((d.biasedExponent : Int) - 1075) :=
            mul_lt_mul_of_pos_right hsignificand hpos
        _ ≤ 2 ^ 53 * 2 ^ (place - 1) := mul_le_mul_of_nonneg_left hnext (by decide)
        _ = 2 ^ 52 * 2 ^ place := by rw [hplace]; ring

theorem multiple_or_less (d : Double) {place : Int} (hplace : -1074 ≤ place) :
    (∃ units : Int, d.toRat = units * 2 ^ place) ∨ |d.toRat| < 2 ^ 52 * 2 ^ place := by
  rw [toRat_eq]
  rcases d.absolute_multiple_or_less hplace with ⟨units, hunits⟩ | hless
  · left
    split
    · exact ⟨-units, by rw [hunits]; push_cast; ring⟩
    · exact ⟨units, by rw [hunits]; push_cast; rfl⟩
  · right
    split
    · rwa [abs_neg, abs_of_nonneg d.absolute_nonneg]
    · rwa [abs_of_nonneg d.absolute_nonneg]

/-- No value is nearer than the rounded number, nor is one of the other sign. -/
theorem abs_sub_rounded_le {magnitude other : Rat} (hpos : 0 < magnitude)
    (hother : (∃ units : Int, other = units * 2 ^ leadingPlace magnitude) ∨
      |other| < 2 ^ 52 * 2 ^ leadingPlace magnitude) :
    |magnitude - roundedUnits magnitude * 2 ^ leadingPlace magnitude| ≤ |magnitude - other| := by
  have hunit : (0 : Rat) < 2 ^ leadingPlace magnitude := zpow_pos (by decide) _
  have hmultiple : ∀ units : Int,
      |magnitude - roundedUnits magnitude * 2 ^ leadingPlace magnitude| ≤
        |magnitude - units * 2 ^ leadingPlace magnitude| := by
    intro units
    have hnear := abs_sub_roundedUnits_le hpos units
    have hscale : ∀ x : Rat, |magnitude - x * 2 ^ leadingPlace magnitude| =
        |magnitude / 2 ^ leadingPlace magnitude - x| * 2 ^ leadingPlace magnitude := by
      intro x
      rw [← abs_of_pos hunit, ← abs_mul, abs_of_pos hunit, sub_mul,
        div_mul_cancel₀ _ hunit.ne']
    rw [hscale, hscale]
    exact mul_le_mul_of_nonneg_right (by exact_mod_cast hnear) hunit.le
  rcases hother with ⟨units, rfl⟩ | hless
  · exact hmultiple units
  · have hlow := (leadingPlace_bounds hpos).1
    have hle := hmultiple (2 ^ 52)
    rw [Int.cast_pow, Int.cast_ofNat, abs_of_nonneg (sub_nonneg.mpr hlow)] at hle
    linarith [le_abs_self other, le_abs_self (magnitude - other)]

/-- The double is finite, and no finite double is nearer to the number. -/
structure IsNearest (value : Rat) (d : Double) : Prop where
  finite : d.Finite
  nearest : ∀ other : Double, other.Finite → |value - d.toRat| ≤ |value - other.toRat|

theorem IsNearest.of_eq {value : Rat} {d : Double} (hfinite : d.Finite)
    (hvalue : d.toRat = value) : IsNearest value d where
  finite := hfinite
  nearest := by
    intro other _
    rw [hvalue, sub_self, abs_zero]
    exact abs_nonneg _

def signFactor (negative : Bool) : Rat :=
  if negative then -1 else 1

theorem signFactor_mul_self (negative : Bool) :
    signFactor negative * signFactor negative = 1 := by
  cases negative <;> simp [signFactor]

theorem abs_signFactor (negative : Bool) : |signFactor negative| = 1 := by
  cases negative <;> simp [signFactor]

section Normal

variable {magnitude : Rat} (hlow : 2 ^ (-1022 : Int) ≤ magnitude)
  (hhigh : magnitude < 2 ^ (1023 : Int))

include hlow

theorem pos_of_normal : 0 < magnitude :=
  (zpow_pos (by decide) _).trans_le hlow

include hhigh

theorem leadingPlace_range :
    -1074 ≤ leadingPlace magnitude ∧ leadingPlace magnitude ≤ 970 := by
  have hpos := pos_of_normal hlow
  obtain ⟨hplaceLow, hplaceHigh⟩ := leadingPlace_bounds hpos
  rw [← zpow_natCast, ← zpow_add₀ (by decide)] at hplaceLow hplaceHigh
  have hfirst := (zpow_lt_zpow_iff_right₀ (by decide)).mp (hlow.trans_lt hplaceHigh)
  have hsecond := (zpow_lt_zpow_iff_right₀ (by decide)).mp (hplaceLow.trans_lt hhigh)
  omega

theorem toRat_ofMagnitude (negative : Bool) :
    (ofMagnitude negative magnitude).Finite ∧
      (ofMagnitude negative magnitude).negative = negative ∧
      (ofMagnitude negative magnitude).toRat =
        signFactor negative * (roundedUnits magnitude * 2 ^ leadingPlace magnitude) := by
  obtain ⟨hplace, hrange⟩ := leadingPlace_range hlow hhigh
  obtain ⟨biased, fraction, hbiased, hless, hfraction, hpack, hvalue⟩ :=
    ofMagnitude_eq_pack (pos_of_normal hlow) hplace hrange negative
  rw [hpack]
  refine ⟨finite_of_biasedExponent ?_, negative_pack (by omega) hfraction negative, ?_⟩
  · rw [biasedExponent_pack (by omega) hfraction]
    exact hless
  · rw [toRat_pack hbiased (by omega) hfraction, hvalue]
    rfl

/-- In the normal range a number is rounded to the nearest double. -/
theorem isNearest_ofMagnitude (negative : Bool) :
    IsNearest (signFactor negative * magnitude) (ofMagnitude negative magnitude) := by
  have hplace := (leadingPlace_range hlow hhigh).1
  obtain ⟨hfinite, -, htoRat⟩ := toRat_ofMagnitude hlow hhigh negative
  refine ⟨hfinite, fun other _ => ?_⟩
  have hmultiple : (∃ units : Int, signFactor negative * other.toRat =
        units * 2 ^ leadingPlace magnitude) ∨
      |signFactor negative * other.toRat| < 2 ^ 52 * 2 ^ leadingPlace magnitude := by
    rw [abs_mul, abs_signFactor, one_mul]
    refine (other.multiple_or_less hplace).imp_left ?_
    rintro ⟨units, hunits⟩
    rw [hunits]
    cases negative with
    | true => exact ⟨-units, by rw [signFactor, if_pos rfl]; push_cast; ring⟩
    | false => exact ⟨units, by rw [signFactor, if_neg Bool.false_ne_true, one_mul]⟩
  have hsigned : |signFactor negative * magnitude - other.toRat| =
      |magnitude - signFactor negative * other.toRat| := by
    rw [← one_mul |magnitude - _|, ← abs_signFactor negative, ← abs_mul, mul_sub,
      ← mul_assoc, signFactor_mul_self, one_mul]
  rw [htoRat, ← mul_sub, abs_mul, abs_signFactor, one_mul, hsigned]
  exact abs_sub_rounded_le (pos_of_normal hlow) hmultiple

/-- The relative error is at most half a unit in the last of 53 places. -/
theorem abs_sub_ofMagnitude_le (negative : Bool) :
    |signFactor negative * magnitude - (ofMagnitude negative magnitude).toRat| ≤
      magnitude / 2 ^ 53 := by
  have hpos := pos_of_normal hlow
  have hunit : (0 : Rat) < 2 ^ leadingPlace magnitude := zpow_pos (by decide) _
  have hhalf := (abs_sub_roundedUnits_le hpos
    (round (magnitude / 2 ^ leadingPlace magnitude))).trans (abs_sub_round _)
  rw [Int.cast_natCast] at hhalf
  have hplace := (leadingPlace_bounds hpos).1
  calc |signFactor negative * magnitude - (ofMagnitude negative magnitude).toRat|
      = |magnitude - roundedUnits magnitude * 2 ^ leadingPlace magnitude| := by
        rw [(toRat_ofMagnitude hlow hhigh negative).2.2, ← mul_sub, abs_mul, abs_signFactor,
          one_mul]
    _ = |magnitude / 2 ^ leadingPlace magnitude - roundedUnits magnitude| *
          2 ^ leadingPlace magnitude := by
        rw [← abs_of_pos hunit, ← abs_mul, abs_of_pos hunit, sub_mul,
          div_mul_cancel₀ _ hunit.ne']
    _ ≤ 1 / 2 * 2 ^ leadingPlace magnitude := mul_le_mul_of_nonneg_right hhalf hunit.le
    _ ≤ magnitude / 2 ^ 53 := by linarith

end Normal

/-! Rounding with either sign. -/

section Rounding

variable {value : Rat}

theorem ofRat_of_ne (hne : value ≠ 0) (negativeZero : Bool) :
    ofRat value negativeZero = ofMagnitude (decide (value < 0)) |value| := by
  have hmagnitude : (if value < 0 then -value else value) = |value| := by
    split
    case isTrue hneg => exact (abs_of_neg hneg).symm
    case isFalse hnot => exact (abs_of_nonneg (not_lt.mp hnot)).symm
  rw [ofRat, if_neg hne, hmagnitude]

theorem signFactor_mul_abs (value : Rat) :
    signFactor (decide (value < 0)) * |value| = value := by
  rw [signFactor]
  by_cases hneg : value < 0
  · rw [if_pos (decide_eq_true hneg), abs_of_neg hneg, neg_mul_neg, one_mul]
  · rw [if_neg (by simpa using hneg), abs_of_nonneg (not_lt.mp hneg), one_mul]

variable (hlow : 2 ^ (-1022 : Int) ≤ |value|) (hhigh : |value| < 2 ^ (1023 : Int))

include hlow hhigh

theorem isNearest_ofRat (negativeZero : Bool) : IsNearest value (ofRat value negativeZero) := by
  have hnearest := isNearest_ofMagnitude hlow hhigh (decide (value < 0))
  rwa [signFactor_mul_abs, ← ofRat_of_ne (abs_pos.mp (pos_of_normal hlow))] at hnearest

theorem negative_ofRat (negativeZero : Bool) :
    (ofRat value negativeZero).negative = decide (value < 0) := by
  rw [ofRat_of_ne (abs_pos.mp (pos_of_normal hlow))]
  exact (toRat_ofMagnitude hlow hhigh _).2.1

theorem abs_sub_ofRat_le (negativeZero : Bool) :
    |value - (ofRat value negativeZero).toRat| ≤ |value| / 2 ^ 53 := by
  have hless := abs_sub_ofMagnitude_le hlow hhigh (decide (value < 0))
  rwa [signFactor_mul_abs, ← ofRat_of_ne (abs_pos.mp (pos_of_normal hlow))] at hless

end Rounding

theorem ofRat_zero (negativeZero : Bool) :
    (ofRat 0 negativeZero).Finite ∧ (ofRat 0 negativeZero).toRat = 0 ∧
      (ofRat 0 negativeZero).negative = negativeZero := by
  have hzero : ofRat 0 negativeZero = pack negativeZero 0 0 := rfl
  rw [hzero]
  refine ⟨finite_of_biasedExponent ?_, ?_, ?_⟩
  · rw [biasedExponent_pack (by decide) (by decide)]
    decide
  · rw [toRat, biasedExponent_pack (by decide) (by decide),
      fraction_pack (by decide) (by decide)]
    simp
  · rw [negative_pack (by decide) (by decide)]

theorem ofInt_exact (value : Int) (hsize : value.natAbs < 2 ^ 53) :
    (ofInt value).Finite ∧ (ofInt value).toRat = value := by
  have hlog : value.natAbs.log2 < 64 := by
    rcases Nat.eq_zero_or_pos value.natAbs with hzero | hpos
    · rw [hzero]
      decide
    · exact (Nat.log2_lt hpos.ne').mpr (hsize.trans (by decide))
  obtain ⟨hfinite, hvalue⟩ := ofInt_rounds hlog
  rw [roundInt_eq_self hsize] at hvalue
  exact ⟨hfinite, hvalue⟩

section Arithmetic

variable {a b : Double} (ha : a.Finite) (hb : b.Finite)

include ha hb

theorem add_of_finite :
    a.add b = ofRat (a.toRat + b.toRat) (a.negative && b.negative) := by
  simp [add, ha.1, ha.2, hb.1, hb.2]

theorem mul_of_finite :
    a.mul b = ofRat (a.toRat * b.toRat) (a.negative != b.negative) := by
  simp [mul, ha.1, ha.2, hb.1, hb.2]

theorem div_of_finite (hne : b.toRat ≠ 0) :
    a.div b = ofRat (a.toRat / b.toRat) (a.negative != b.negative) := by
  simp [div, ha.1, ha.2, hb.1, hb.2, hne]

end Arithmetic

/-! The other sign. -/

theorem neg_bits (d : Double) :
    d.neg.bits.toNat % 2 ^ 63 = d.bits.toNat % 2 ^ 63 := by
  apply Nat.eq_of_testBit_eq
  intro i
  rw [neg, BitVec.toNat_xor, BitVec.toNat_ofNat,
    Nat.mod_eq_of_lt (show 2 ^ 63 < 2 ^ 64 by decide), Nat.testBit_mod_two_pow,
    Nat.testBit_mod_two_pow, Nat.testBit_xor, Nat.testBit_two_pow]
  by_cases hi : i < 63
  · have hne : decide (63 = i) = false := by
      rw [decide_eq_false_iff_not]
      omega
    rw [hne, Bool.xor_false]
  · simp [hi]

@[simp] theorem biasedExponent_neg (d : Double) : d.neg.biasedExponent = d.biasedExponent := by
  have hbits := d.neg_bits
  simp only [biasedExponent]
  omega

@[simp] theorem fraction_neg (d : Double) : d.neg.fraction = d.fraction := by
  have hbits := d.neg_bits
  simp only [fraction]
  omega

@[simp] theorem negative_neg (d : Double) : d.neg.negative = !d.negative := by
  have hsign : (BitVec.ofNat 64 (2 ^ 63)).getLsbD 63 = true := rfl
  rw [negative, neg, BitVec.getLsbD_xor, hsign, Bool.xor_true]
  rfl

theorem Finite.neg {d : Double} (hfinite : d.Finite) : d.neg.Finite := by
  simpa [Finite, isNan, isInfinite] using hfinite

theorem toRat_neg (d : Double) : d.neg.toRat = -d.toRat := by
  simp only [toRat, biasedExponent_neg, fraction_neg, negative_neg]
  cases d.negative <;> simp

theorem IsNearest.neg {value : Rat} {d : Double} (hnearest : IsNearest value d) :
    IsNearest (-value) d.neg where
  finite := hnearest.finite.neg
  nearest := by
    intro other hother
    have hle := hnearest.nearest other.neg hother.neg
    rw [toRat_neg, sub_neg_eq_add] at hle
    rwa [toRat_neg, ← neg_sub', abs_neg, ← neg_add', abs_neg]

theorem neg_involutive (d : Double) : d.neg.neg = d := by
  rw [neg, neg, BitVec.xor_assoc, BitVec.xor_self, BitVec.xor_zero]

/-! A finite double has no other pattern with its sign. -/

theorem bits_toNat (d : Double) :
    d.bits.toNat = (if d.negative then 2 ^ 63 else 0) + d.biasedExponent * 2 ^ 52 + d.fraction := by
  have hsign : d.negative = decide (d.bits.toNat / 2 ^ 63 % 2 = 1) := by
    rw [negative, BitVec.getLsbD, Nat.testBit_eq_decide_div_mod_eq]
  have hbits := d.bits.isLt
  rw [hsign, biasedExponent, fraction]
  simp only [decide_eq_true_eq]
  split <;> omega

theorem eq_of_fields {a b : Double} (hnegative : a.negative = b.negative)
    (hbiased : a.biasedExponent = b.biasedExponent) (hfraction : a.fraction = b.fraction) :
    a = b := by
  have hbits : a.bits = b.bits := by
    apply BitVec.eq_of_toNat_eq
    rw [bits_toNat, bits_toNat, hnegative, hbiased, hfraction]
  cases a
  cases b
  exact congrArg mk hbits

def placeOf (d : Double) : Int :=
  if d.biasedExponent = 0 then -1074 else (d.biasedExponent : Int) - 1075

def significandOf (d : Double) : Nat :=
  if d.biasedExponent = 0 then d.fraction else 2 ^ 52 + d.fraction

theorem absolute_eq (d : Double) : d.absolute = d.significandOf * 2 ^ d.placeOf := by
  unfold absolute significandOf placeOf
  split <;> rfl

theorem significandOf_lt (d : Double) : d.significandOf < 2 ^ 53 := by
  have hfraction : d.fraction < 2 ^ 52 := Nat.mod_lt _ (Nat.two_pow_pos 52)
  unfold significandOf
  split <;> omega

theorem le_placeOf (d : Double) : -1074 ≤ d.placeOf := by
  unfold placeOf
  split <;> omega

theorem Finite.placeOf_le {d : Double} (hfinite : d.Finite) : d.placeOf ≤ 971 := by
  have hne : d.biasedExponent ≠ 2047 := by
    intro hbiased
    obtain ⟨hnan, hinfinite⟩ := hfinite
    simp only [isNan, isInfinite, hbiased, beq_self_eq_true, Bool.true_and] at hnan hinfinite
    simp_all
  have hless : d.biasedExponent < 2048 := Nat.mod_lt _ (by decide)
  unfold placeOf
  split <;> omega

/-- Only the least place has numbers of less than 53 bits. -/
theorem normal_of_place {d : Double} (hplace : d.placeOf ≠ -1074) :
    2 ^ 52 ≤ d.significandOf := by
  unfold placeOf at hplace
  unfold significandOf
  split_ifs at hplace ⊢ <;> omega

theorem placeOf_le {a b : Double} (hvalue : a.absolute = b.absolute) :
    b.placeOf ≤ a.placeOf := by
  by_contra hless
  have hnormal := normal_of_place (d := b) (by have := a.le_placeOf; omega)
  have hpower : (2 : Rat) * 2 ^ a.placeOf ≤ 2 ^ b.placeOf := by
    rw [mul_comm, ← zpow_add_one₀ (by decide)]
    exact zpow_le_zpow_right₀ (by decide) (by omega)
  have hunit : (0 : Rat) < 2 ^ a.placeOf := zpow_pos (by decide) _
  have hsmall : (a.significandOf : Rat) < 2 ^ 53 := by exact_mod_cast a.significandOf_lt
  have hlarge : (2 : Rat) ^ 52 ≤ b.significandOf := by exact_mod_cast hnormal
  rw [absolute_eq, absolute_eq] at hvalue
  have hlow : (2 : Rat) ^ 52 * (2 * 2 ^ a.placeOf) ≤ b.significandOf * 2 ^ b.placeOf :=
    mul_le_mul hlarge hpower (by linarith) (Nat.cast_nonneg _)
  have hhigh : (a.significandOf : Rat) * 2 ^ a.placeOf < 2 ^ 53 * 2 ^ a.placeOf :=
    mul_lt_mul_of_pos_right hsmall hunit
  linarith

theorem eq_of_toRat {a b : Double} (hvalue : a.toRat = b.toRat)
    (hsign : a.negative = b.negative) : a = b := by
  have habsolute : a.absolute = b.absolute := by
    rw [toRat_eq, toRat_eq, hsign] at hvalue
    split at hvalue
    · linarith
    · exact hvalue
  have hplace := le_antisymm (placeOf_le habsolute.symm) (placeOf_le habsolute)
  have hsignificand : a.significandOf = b.significandOf := by
    rw [absolute_eq, absolute_eq, hplace] at habsolute
    have hunit : (2 : Rat) ^ b.placeOf ≠ 0 := (zpow_pos (by decide) _).ne'
    exact_mod_cast mul_right_cancel₀ hunit habsolute
  have hfirst : a.fraction < 2 ^ 52 := Nat.mod_lt _ (Nat.two_pow_pos 52)
  have hsecond : b.fraction < 2 ^ 52 := Nat.mod_lt _ (Nat.two_pow_pos 52)
  have hbiased : a.biasedExponent = b.biasedExponent := by
    unfold placeOf at hplace
    unfold significandOf at hsignificand
    split_ifs at hplace hsignificand <;> omega
  refine eq_of_fields hsign hbiased ?_
  unfold significandOf at hsignificand
  rw [hbiased] at hsignificand
  split_ifs at hsignificand <;> omega

/-! A number may be nearer to one double than to all others. -/

structure IsOnlyNearest (value : Rat) (d : Double) : Prop where
  finite : d.Finite
  nearer : ∀ other : Double, other.Finite → other.toRat ≠ d.toRat →
    |value - d.toRat| < |value - other.toRat|

theorem exists_units (d : Double) : ∃ units : Int, d.toRat = units * 2 ^ (-1074 : Int) := by
  have hplace : d.placeOf = (d.placeOf + 1074).toNat + -1074 := by
    have := d.le_placeOf
    omega
  have habsolute : d.absolute =
      (d.significandOf * 2 ^ (d.placeOf + 1074).toNat : Nat) * 2 ^ (-1074 : Int) := by
    rw [absolute_eq, hplace, zpow_add₀ (by decide), zpow_natCast, ← hplace, ← mul_assoc,
      Nat.cast_mul, Nat.cast_pow, Nat.cast_ofNat]
  rw [toRat_eq, habsolute]
  split
  · exact ⟨-_, by rw [Int.cast_neg, neg_mul, Int.cast_natCast]⟩
  · exact ⟨_, by rw [Int.cast_natCast]⟩

/-- The distance of the next smaller double, in places. -/
def lowerGap (d : Double) : Rat :=
  if d.significandOf = 2 ^ 52 then 1 / 2 else 1

theorem lowerGap_range (d : Double) : 0 < d.lowerGap ∧ d.lowerGap ≤ 1 := by
  unfold lowerGap
  split <;> norm_num

/-- Other values are at least as far away as the neighbours of a positive double. -/
theorem apart (d other : Double) :
    other.toRat = d.absolute ∨ (d.significandOf + 1) * 2 ^ d.placeOf ≤ other.toRat ∨
      other.toRat ≤ (d.significandOf - d.lowerGap) * 2 ^ d.placeOf := by
  have hunit : (0 : Rat) < 2 ^ d.placeOf := zpow_pos (by decide) _
  have hgap := d.lowerGap_range.2
  have hmultiple : ∀ units : Int, other.toRat = units * 2 ^ d.placeOf →
      other.toRat = d.absolute ∨ (d.significandOf + 1) * 2 ^ d.placeOf ≤ other.toRat ∨
        other.toRat ≤ (d.significandOf - d.lowerGap) * 2 ^ d.placeOf := by
    intro units hunits
    rw [hunits, absolute_eq]
    rcases lt_trichotomy units d.significandOf with hless | rfl | hgreater
    · have hle : (units : Rat) + 1 ≤ d.significandOf := by exact_mod_cast hless
      exact .inr (.inr (mul_le_mul_of_nonneg_right (by linarith) hunit.le))
    · exact .inl (by rw [Int.cast_natCast])
    · have hle : (d.significandOf : Rat) + 1 ≤ units := by exact_mod_cast hgreater
      exact .inr (.inl (mul_le_mul_of_nonneg_right hle hunit.le))
  by_cases hplace : d.placeOf = -1074
  · obtain ⟨units, hunits⟩ := other.exists_units
    exact hmultiple units (by rw [hunits, hplace])
  have hnormal := normal_of_place hplace
  rcases other.multiple_or_less d.le_placeOf with ⟨units, hunits⟩ | hless
  · exact hmultiple units hunits
  have hless := (le_abs_self _).trans_lt hless
  refine .inr (.inr ?_)
  unfold lowerGap
  split
  case isTrue hsignificand =>
    have hhalf : (2 : Rat) ^ d.placeOf = 2 ^ (d.placeOf - 1) * 2 := by
      rw [← zpow_add_one₀ (by decide), sub_add_cancel]
    have hhalfPos : (0 : Rat) < 2 ^ (d.placeOf - 1) := zpow_pos (by decide) _
    have hplaceLow : -1074 ≤ d.placeOf - 1 := by
      have := d.le_placeOf
      omega
    rw [hsignificand, hhalf]
    rw [hhalf] at hless
    rcases other.multiple_or_less hplaceLow with ⟨units, hunits⟩ | hless'
    · rw [hunits] at hless ⊢
      have hsmall : (units : Rat) < 2 ^ 53 := by
        apply lt_of_mul_lt_mul_of_nonneg_right _ hhalfPos.le
        linarith
      have hnext : units + 1 ≤ 2 ^ 53 := Int.add_one_le_of_lt (by exact_mod_cast hsmall)
      have hle : (units : Rat) + 1 ≤ 2 ^ 53 := by exact_mod_cast hnext
      have hscaled := mul_le_mul_of_nonneg_right hle hhalfPos.le
      push_cast
      linarith
    · have hless' := (le_abs_self _).trans_lt hless'
      push_cast
      linarith
  case isFalse hsignificand =>
    have hlarge : (2 : Rat) ^ 52 + 1 ≤ d.significandOf := by
      exact_mod_cast Nat.lt_of_le_of_ne hnormal (Ne.symm hsignificand)
    exact hless.le.trans (mul_le_mul_of_nonneg_right (by linarith) hunit.le)

/-- Between the numbers half way to its neighbours, a double is the only nearest one. -/
theorem isOnlyNearest_of_between {value : Rat} {d : Double} (hfinite : d.Finite)
    (hsign : d.negative = false)
    (hlow : (d.significandOf - d.lowerGap / 2) * 2 ^ d.placeOf < value)
    (hhigh : value < (d.significandOf + 1 / 2) * 2 ^ d.placeOf) : IsOnlyNearest value d where
  finite := hfinite
  nearer := by
    intro other _ hne
    have hvalue : d.toRat = d.significandOf * 2 ^ d.placeOf := by
      rw [toRat_eq, hsign, if_neg Bool.false_ne_true, absolute_eq]
    have hgap := d.lowerGap_range
    have hunit : (0 : Rat) < 2 ^ d.placeOf := zpow_pos (by decide) _
    have hgapUnit := mul_pos hgap.1 hunit
    have hgapUnit' := mul_le_mul_of_nonneg_right hgap.2 hunit.le
    rw [hvalue] at hne ⊢
    rcases d.apart other with heq | habove | hbelow
    · exact absurd (by rw [heq, absolute_eq]) hne
    · rw [abs_lt]
      have habs := neg_le_abs (value - other.toRat)
      constructor <;> linarith
    · rw [abs_lt]
      have habs := le_abs_self (value - other.toRat)
      constructor <;> linarith

theorem IsOnlyNearest.neg {value : Rat} {d : Double} (hnearest : IsOnlyNearest value d) :
    IsOnlyNearest (-value) d.neg where
  finite := hnearest.finite.neg
  nearer := by
    intro other hother hne
    have hless := hnearest.nearer other.neg hother.neg (by
      rw [toRat_neg]
      rintro heq
      exact hne (by rw [toRat_neg, ← heq, neg_neg]))
    rw [toRat_neg, sub_neg_eq_add] at hless
    rwa [toRat_neg, ← neg_sub', abs_neg, ← neg_add', abs_neg]

theorem IsOnlyNearest.toRat_eq {value : Rat} {d other : Double}
    (honly : IsOnlyNearest value d) (hnearest : IsNearest value other) :
    other.toRat = d.toRat := by
  by_contra hne
  have hless := honly.nearer other hnearest.finite hne
  have hle := hnearest.nearest d honly.finite
  linarith

end Double

end Uskit
