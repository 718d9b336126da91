import Mathlib.Tactic.NormNum
import Uskit.Json.DiyFp
import Uskit.Json.Nearest

namespace Uskit

/-! The powers of ten that `Grisu2` multiplies with. -/

namespace DiyFp

open Double

/-! The table. -/

def tenPower (k : Int) : Rat :=
  if 0 ≤ k then 10 ^ k.toNat else 1 / 10 ^ (-k).toNat

theorem tenPower_eq (k : Int) : tenPower k = (10 : Rat) ^ k := by
  unfold tenPower
  split
  case isTrue hk => rw [← zpow_natCast, Int.toNat_of_nonneg hk]
  case isFalse hk =>
    rw [one_div, ← zpow_natCast, Int.toNat_of_nonneg (by omega), zpow_neg, inv_inv]

/-- Every entry is normalized, and the power of ten to within half a unit. -/
structure Approximates (entry : DiyFp) (k : Int) : Prop where
  low : 2 ^ 63 ≤ entry.f
  high : entry.f < 2 ^ 64
  near : |entry.f * (2 : Rat) ^ entry.e - 10 ^ k| ≤ 2 ^ (entry.e - 1)

theorem approximates_table : ∀ index < 87,
    2 ^ 63 ≤ (getCachedPowerByIndex index).f ∧ (getCachedPowerByIndex index).f < 2 ^ 64 ∧
      |(getCachedPowerByIndex index).f * power (getCachedPowerByIndex index).e -
        tenPower (8 * index - 348)| ≤ power ((getCachedPowerByIndex index).e - 1) := by
  decide +kernel

theorem approximates_byIndex {index : Nat} (hindex : index < 87) :
    Approximates (getCachedPowerByIndex index) (8 * index - 348) := by
  obtain ⟨hlow, hhigh, hnear⟩ := approximates_table index hindex
  rw [power_eq, power_eq, tenPower_eq] at hnear
  exact ⟨hlow, hhigh, hnear⟩

/-! The search for the index. -/

/-- The logarithm of two, in units of its last place. -/
def logUnits : Int := 30102999566398114

/-- The integer part of the estimate, without any rounding. -/
def exactEstimate (e : Int) : Int :=
  ((-61 - e) * logUnits + 347 * 10 ^ 17) / 10 ^ 17

def exactIndex (e : Int) : Nat :=
  ((exactEstimate e + 1) / 8 + 1).toNat

/-- The places behind the point, once the exponent of a power is added. -/
def placesBehind (e : Int) : Int :=
  -(e + (getCachedPowerByIndex (exactIndex e)).e + 64)

/-- What a search for the exponent relies on: the estimate is not next to an integer, and the
power takes the exponent to where at most nine digits stand in front of the point. -/
def searchFits (e : Int) : Bool :=
  let rest := ((-61 - e) * logUnits) % 10 ^ 17
  (decide (e = -61) || decide (10 ^ 13 ≤ rest ∧ rest ≤ 10 ^ 17 - 10 ^ 13)) &&
    decide (exactIndex e < 87) && decide (0 ≤ (exactEstimate e + 1) / 8 + 1) &&
    decide (34 ≤ placesBehind e ∧ placesBehind e ≤ 60) &&
    decide ((getCachedPowerByIndex (exactIndex e)).f < 10 ^ 9 * 2 ^ (placesBehind e).toNat)

theorem searchFits_table : ∀ i < 42, ∀ j < 50, searchFits ((i * 50 + j : Nat) - 1137) = true := by
  decide +kernel

theorem searchFits_of_range {e : Int} (hlow : -1137 ≤ e) (hhigh : e ≤ 960) :
    searchFits e = true := by
  have hdivide := Nat.div_add_mod' (e + 1137).toNat 50
  have hfits := searchFits_table ((e + 1137).toNat / 50) (by omega) ((e + 1137).toNat % 50)
    (Nat.mod_lt _ (by decide))
  rw [hdivide] at hfits
  rwa [show ((e + 1137).toNat : Int) - 1137 = e by omega] at hfits

/-! The estimate, in doubles. -/

section Estimate

theorem ofRat_near (value : Rat) (hlow : 1 / 2 ^ 16 ≤ |value|) (hhigh : |value| ≤ 2 ^ 10)
    (negativeZero : Bool) :
    (ofRat value negativeZero).Finite ∧
      |value - (ofRat value negativeZero).toRat| ≤ 1 / 2 ^ 43 := by
  have hnormal : (2 : Rat) ^ (-1022 : Int) ≤ |value| := by
    calc (2 : Rat) ^ (-1022 : Int) ≤ 2 ^ (-16 : Int) :=
          zpow_le_zpow_right₀ (by norm_num) (by norm_num)
      _ = 1 / 2 ^ 16 := by norm_num
      _ ≤ |value| := hlow
  have hless : |value| < (2 : Rat) ^ (1023 : Int) := by
    calc |value| ≤ 2 ^ 10 := hhigh
      _ < (2 : Rat) ^ (11 : Int) := by norm_num
      _ ≤ 2 ^ (1023 : Int) := zpow_le_zpow_right₀ (by norm_num) (by norm_num)
  refine ⟨(isNearest_ofRat hnormal hless negativeZero).finite, ?_⟩
  have herror := abs_sub_ofRat_le hnormal hless negativeZero
  linarith

def log : Double :=
  ofRat (30102999566398114 / 10 ^ 17) false

def estimate (n : Int) : Double :=
  ((ofInt n).mul log).add (ofInt 347)

theorem log_near :
    log.Finite ∧ |(30102999566398114 / 10 ^ 17 : Rat) - log.toRat| ≤ 1 / 2 ^ 43 :=
  ofRat_near _ (by norm_num) (by norm_num) false

variable {n : Int} (hne : n ≠ 0) (hlow : -1100 ≤ n) (hhigh : n ≤ 1100)

include hne hlow hhigh

theorem estimate_near :
    (estimate n).Finite ∧
      |(estimate n).toRat - (n * (30102999566398114 / 10 ^ 17) + 347)| ≤ 1 / 10 ^ 9 := by
  obtain ⟨hlogFinite, hlog⟩ := log_near
  obtain ⟨hnFinite, hn⟩ := ofInt_exact n (by omega)
  obtain ⟨hbaseFinite, hbase⟩ := ofInt_exact 347 (by decide)
  have hnLow : (-1100 : Rat) ≤ n := by exact_mod_cast hlow
  have hnHigh : (n : Rat) ≤ 1100 := by exact_mod_cast hhigh
  have hnAbs : (1 : Rat) ≤ |(n : Rat)| := by exact_mod_cast Int.one_le_abs hne
  have hnAbs' : |(n : Rat)| ≤ 1100 := abs_le.mpr ⟨hnLow, hnHigh⟩
  obtain ⟨hlogLow, hlogHigh⟩ : 3 / 10 ≤ log.toRat ∧ log.toRat ≤ 303 / 1000 := by
    rw [abs_le] at hlog
    constructor <;> linarith
  have hlogPos : 0 < log.toRat := by linarith
  -- Rounded once in the logarithm, once in the product and once in the sum.
  have hscaled : |n * log.toRat - n * (30102999566398114 / 10 ^ 17 : Rat)| ≤ 1100 / 2 ^ 43 := by
    rw [← mul_sub, abs_mul, abs_sub_comm log.toRat]
    calc |(n : Rat)| * |30102999566398114 / 10 ^ 17 - log.toRat|
        ≤ 1100 * (1 / 2 ^ 43) := mul_le_mul hnAbs' hlog (abs_nonneg _) (by norm_num)
      _ = 1100 / 2 ^ 43 := by norm_num
  have hproductLow : 1 / 2 ^ 16 ≤ |n * log.toRat| := by
    rw [abs_mul, abs_of_pos hlogPos]
    calc (1 / 2 ^ 16 : Rat) ≤ 1 * (3 / 10) := by norm_num
      _ ≤ |(n : Rat)| * log.toRat := mul_le_mul hnAbs hlogLow (by norm_num) (abs_nonneg _)
  have hproductHigh : |n * log.toRat| ≤ 334 := by
    rw [abs_mul, abs_of_pos hlogPos]
    calc |(n : Rat)| * log.toRat ≤ 1100 * (303 / 1000) :=
          mul_le_mul hnAbs' hlogHigh hlogPos.le (by norm_num)
      _ ≤ 334 := by norm_num
  rw [estimate, mul_of_finite hnFinite hlogFinite, hn]
  obtain ⟨hproductFinite, hproduct⟩ :=
    ofRat_near _ hproductLow (hproductHigh.trans (by norm_num)) ((ofInt n).negative != log.negative)
  generalize ofRat (n * log.toRat) ((ofInt n).negative != log.negative) = product at *
  rw [add_of_finite hproductFinite hbaseFinite, hbase]
  rw [abs_le] at hproduct hproductHigh hscaled
  obtain ⟨hsumFinite, hsum⟩ :=
    ofRat_near (product.toRat + (347 : Int)) (by rw [le_abs]; left; push_cast; linarith)
      (by rw [abs_le]; push_cast; constructor <;> linarith)
      (product.negative && (ofInt 347).negative)
  refine ⟨hsumFinite, ?_⟩
  rw [abs_le] at hsum ⊢
  push_cast at hsum
  constructor <;> linarith

end Estimate

theorem truncate_of_between {d : Double} {whole : Int} (hwhole : 0 ≤ whole)
    (hlow : (whole : Rat) ≤ d.toRat) (hhigh : d.toRat < whole + 1) :
    d.truncate = whole := by
  have hnonneg : (0 : Rat) ≤ whole := by exact_mod_cast hwhole
  rw [truncate, if_neg (not_lt.mpr (hnonneg.trans hlow))]
  exact Int.floor_eq_iff.mpr ⟨hlow, hhigh⟩

/-- A number clearly over an integer is seen to be over it. -/
theorem zero_lt_sub {d : Double} (hfinite : d.Finite) {whole : Int} (hsize : whole.natAbs < 2 ^ 53)
    (hlow : (whole : Rat) + 1 / 2 ^ 16 ≤ d.toRat) (hhigh : d.toRat ≤ whole + 1) :
    (Double.zero false).lt (d.sub (ofInt whole)) = true := by
  obtain ⟨hwholeFinite, hwhole⟩ := ofInt_exact whole hsize
  rw [Double.sub, add_of_finite hfinite hwholeFinite.neg, toRat_neg, hwhole, ← sub_eq_add_neg]
  have hpos : 0 ≤ d.toRat - whole := by linarith
  obtain ⟨hdiffFinite, hdiff⟩ := ofRat_near (d.toRat - whole)
    (by rw [abs_of_nonneg hpos]; linarith) (by rw [abs_of_nonneg hpos]; linarith)
    (d.negative && (ofInt whole).neg.negative)
  rw [abs_le] at hdiff
  have hzero : Double.zero false = ofInt 0 := rfl
  rw [hzero, lt_of_finite ofInt_zero.1 hdiffFinite, ofInt_zero.2, decide_eq_true_iff]
  linarith

theorem getCachedPower_eq {e : Int} (hlow : -1137 ≤ e) (hhigh : e ≤ 960) :
    getCachedPower e =
      (getCachedPowerByIndex (exactIndex e), 348 - 8 * (exactIndex e : Int)) := by
  by_cases hne : -61 - e = 0
  · obtain rfl : e = -61 := by omega
    decide +kernel
  have hfits := searchFits_of_range hlow hhigh
  simp only [searchFits, Bool.and_eq_true, Bool.or_eq_true, decide_eq_true_eq] at hfits
  obtain ⟨⟨⟨⟨hrest, -⟩, hindex⟩, -⟩, -⟩ := hfits
  replace hrest := hrest.resolve_left (by omega)
  obtain ⟨hfinite, hnear⟩ := estimate_near (n := -61 - e) hne (by omega) (by omega)
  rw [abs_le] at hnear
  have hdivided : (-61 - e) * logUnits + 347 * 10 ^ 17 =
        10 ^ 17 * exactEstimate e + (-61 - e) * logUnits % 10 ^ 17 ∧ 0 ≤ exactEstimate e ∧
      exactEstimate e < 1000 := by
    simp only [exactEstimate, logUnits]
    omega
  obtain ⟨hsplit, hwhole, hless⟩ := hdivided
  generalize (-61 - e) * logUnits % 10 ^ 17 = rest at hrest hsplit
  have hrestLow : (10 : Rat) ^ 13 ≤ rest := by exact_mod_cast hrest.1
  have hrestHigh : (rest : Rat) ≤ 10 ^ 17 - 10 ^ 13 := by exact_mod_cast hrest.2
  have hexact : ((-61 - e : Int) : Rat) * (30102999566398114 / 10 ^ 17) + 347 =
      exactEstimate e + rest / 10 ^ 17 := by
    have hcast := congrArg (Int.cast : Int → Rat) hsplit
    rw [logUnits] at hcast
    push_cast at hcast ⊢
    linarith
  rw [hexact] at hnear
  have htruncate : (estimate (-61 - e)).truncate = exactEstimate e :=
    truncate_of_between hwhole (by linarith) (by linarith)
  have hover : (Double.zero false).lt
      ((estimate (-61 - e)).sub (ofInt (exactEstimate e))) = true :=
    zero_lt_sub hfinite (by omega) (by linarith) (by linarith)
  change (let k := (estimate (-61 - e)).truncate
    let k := if (Double.zero false).lt ((estimate (-61 - e)).sub (ofInt k)) then k + 1 else k
    let index := (k / 8 + 1).toNat
    (getCachedPowerByIndex index, -(-348 + ((index * 8 : Nat) : Int)))) = _
  simp only [htruncate, hover, if_true]
  rw [exactIndex, Prod.mk.injEq]
  exact ⟨rfl, by push_cast; omega⟩

theorem getCachedPower_fits {e : Int} (hlow : -1137 ≤ e) (hhigh : e ≤ 960) :
    ∃ power k shift, getCachedPower e = (power, -k) ∧ Approximates power k ∧
      e + power.e + 64 = -((shift : Nat) : Int) ∧ 34 ≤ shift ∧ shift ≤ 60 ∧
      power.f < 10 ^ 9 * 2 ^ shift := by
  have hfits := searchFits_of_range hlow hhigh
  simp only [searchFits, Bool.and_eq_true, decide_eq_true_eq] at hfits
  obtain ⟨⟨⟨⟨-, hindex⟩, -⟩, hplaces⟩, hless⟩ := hfits
  refine ⟨_, _, (placesBehind e).toNat, ?_, approximates_byIndex hindex, ?_, ?_, ?_, hless⟩
  · rw [getCachedPower_eq hlow hhigh, neg_sub]
  · rw [Int.toNat_of_nonneg (by omega), placesBehind, neg_neg]
  · omega
  · omega

end DiyFp

end Uskit
