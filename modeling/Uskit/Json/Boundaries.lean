import Uskit.Json.CachedPower

namespace Uskit

/-! The double and the numbers half way to its neighbours, before and after the multiplication
with a power of ten. -/

namespace DiyFp

section Normalized

variable {f : Nat} (hpos : 0 < f)

include hpos

theorem normalized_bounds (hless : f < 2 ^ 64) :
    2 ^ 63 ≤ f * 2 ^ (63 - f.log2) ∧ f * 2 ^ (63 - f.log2) < 2 ^ 64 := by
  have hlog : f.log2 ≤ 63 := Nat.le_of_lt_succ ((Nat.log2_lt hpos.ne').mpr hless)
  have hlow := Nat.log2_self_le hpos.ne'
  have hhigh := f.lt_log2_self
  constructor
  · calc 2 ^ 63 = 2 ^ f.log2 * 2 ^ (63 - f.log2) := by rw [← pow_add, Nat.add_sub_cancel' hlog]
      _ ≤ f * 2 ^ (63 - f.log2) := Nat.mul_le_mul_right _ hlow
  · calc f * 2 ^ (63 - f.log2) < 2 ^ (f.log2 + 1) * 2 ^ (63 - f.log2) :=
          Nat.mul_lt_mul_of_pos_right hhigh (Nat.two_pow_pos _)
      _ = 2 ^ 64 := by
          rw [← pow_add]
          congr 1
          omega

theorem raise_eq {n bound : Nat} {e : Int} (hbound : n < bound) (hlow : 2 ^ 53 ≤ f * 2 ^ n)
    (hhigh : f * 2 ^ n < 2 ^ 54) :
    raise bound { f := f, e := e } = { f := f * 2 ^ n, e := e - n } := by
  induction n generalizing f bound e with
  | zero =>
      obtain ⟨bound, rfl⟩ : ∃ more, bound = more + 1 := ⟨bound - 1, by omega⟩
      have hbit : f.testBit 53 = true := by
        rw [Nat.testBit_eq_decide_div_mod_eq, decide_eq_true_eq]
        omega
      rw [raise, if_pos hbit]
      simp
  | succ n ih =>
      obtain ⟨bound, rfl⟩ : ∃ more, bound = more + 1 := ⟨bound - 1, by omega⟩
      have hdouble : f * 2 ^ (n + 1) = f * 2 * 2 ^ n := by ring
      have hless : f * 2 < 2 ^ 54 := by
        rw [hdouble] at hhigh
        exact (Nat.le_mul_of_pos_right _ (Nat.two_pow_pos n)).trans_lt hhigh
      have hbit : f.testBit 53 = false := by
        rw [Nat.testBit_eq_decide_div_mod_eq, decide_eq_false_iff_not]
        omega
      have hshift : shiftLeft f 1 = f * 2 := by
        rw [shiftLeft, pow_one]
        exact Nat.mod_eq_of_lt (by omega)
      rw [raise]
      simp only [hbit, Bool.false_eq_true, if_false, hshift]
      rw [hdouble] at hlow hhigh ⊢
      rw [ih (by omega) (by omega) hlow hhigh]
      push_cast
      congr 1
      ring

end Normalized

/-! The double and its boundaries, with one exponent. -/

section Boundaries

def places (f : Nat) : Nat :=
  63 - f.log2

/-- Half the distance to the next smaller double, shifted. -/
def below (f : Nat) : Nat :=
  if f = 2 ^ 52 then 2 ^ (places f - 2) else 2 ^ (places f - 1)

variable {f : Nat} {e : Int} (hpos : 0 < f) (hless : f < 2 ^ 53)

include hpos hless

theorem le_places : 11 ≤ places f := by
  have hlog := (Nat.log2_lt hpos.ne').mpr hless
  rw [places]
  omega

theorem below_le : below f ≤ f * 2 ^ places f := by
  have hle : places f - 1 ≤ 62 := Nat.sub_le_of_le_add (Nat.sub_le _ _)
  have hsmall : below f ≤ 2 ^ 62 := by
    unfold below
    split
    · exact Nat.pow_le_pow_right (by decide) (by omega)
    · exact Nat.pow_le_pow_right (by decide) hle
  have hlarge := (normalized_bounds hpos (by omega)).1
  exact hsmall.trans (le_trans (by decide) hlarge)

theorem above_lt : f * 2 ^ places f + 2 ^ (places f - 1) < 2 ^ 64 := by
  have hhigh := (normalized_bounds hpos (by omega)).2
  rw [← places] at hhigh
  have hplaces := le_places hpos hless
  have hsplit : 2 ^ 64 = 2 ^ (64 - places f) * 2 ^ places f := by
    have hle : places f ≤ 63 := Nat.sub_le _ _
    rw [← pow_add, Nat.sub_add_cancel (by omega)]
  have hlt : f < 2 ^ (64 - places f) := by
    apply Nat.lt_of_mul_lt_mul_right (a := 2 ^ places f)
    rwa [← hsplit]
  have hhalf : 2 ^ (places f - 1) < 2 ^ places f := Nat.pow_lt_pow_right (by decide) (by omega)
  calc f * 2 ^ places f + 2 ^ (places f - 1) < f * 2 ^ places f + 2 ^ places f :=
        Nat.add_lt_add_left hhalf _
    _ = (f + 1) * 2 ^ places f := (Nat.succ_mul _ _).symm
    _ ≤ 2 ^ (64 - places f) * 2 ^ places f := Nat.mul_le_mul_right _ hlt
    _ = 2 ^ 64 := hsplit.symm

theorem normalize_eq :
    normalize { f := f, e := e } = { f := f * 2 ^ places f, e := e - places f } := by
  rw [normalize, shiftLeft, Nat.mod_eq_of_lt (normalized_bounds hpos (by omega)).2]
  rfl

theorem normalizeBoundary_eq :
    normalizeBoundary { f := (shiftLeft f 1 + 1) % 2 ^ 64, e := e - 1 } =
      { f := f * 2 ^ places f + 2 ^ (places f - 1), e := e - places f } := by
  obtain ⟨hlow, hhigh⟩ := normalized_bounds hpos (by omega)
  rw [← places] at hlow hhigh
  obtain ⟨n, hn⟩ : ∃ n, places f = n + 11 :=
    ⟨places f - 11, (Nat.sub_add_cancel (le_places hpos hless)).symm⟩
  have hsmall : n ≤ 52 := by
    have hplaces : places f ≤ 63 := Nat.sub_le _ _
    omega
  rw [hn, pow_add, ← mul_assoc] at hlow hhigh
  have hnext : f * 2 ^ n + 2 ^ n ≤ 2 ^ 53 := by
    have hsplit : 2 ^ 53 = 2 ^ (53 - n) * 2 ^ n := by
      rw [← pow_add]
      congr 1
      omega
    have hlt : f < 2 ^ (53 - n) := by
      apply Nat.lt_of_mul_lt_mul_right (a := 2 ^ n)
      omega
    rw [hsplit, ← Nat.succ_mul]
    exact Nat.mul_le_mul_right _ hlt
  have hodd : (2 * f + 1) * 2 ^ n = 2 * (f * 2 ^ n) + 2 ^ n := by ring
  have hone := Nat.two_pow_pos n
  have hraised : raise 64 { f := (shiftLeft f 1 + 1) % 2 ^ 64, e := e - 1 } =
      { f := (2 * f + 1) * 2 ^ n, e := e - 1 - n } := by
    have hshift : (shiftLeft f 1 + 1) % 2 ^ 64 = 2 * f + 1 := by
      rw [shiftLeft]
      omega
    rw [hshift]
    exact raise_eq (by omega) (by omega) (by omega) (by omega)
  have hsize : (2 * f + 1) * 2 ^ n < 2 ^ 54 := by omega
  have hfits : (2 * f + 1) * 2 ^ n * 2 ^ 10 < 2 ^ 54 * 2 ^ 10 :=
    Nat.mul_lt_mul_of_pos_right hsize (Nat.two_pow_pos 10)
  have hshift : shiftLeft ((2 * f + 1) * 2 ^ n) 10 = (2 * f + 1) * 2 ^ n * 2 ^ 10 := by
    rw [shiftLeft]
    exact Nat.mod_eq_of_lt hfits
  have hfactor : f * 2 ^ (n + 11) + 2 ^ (n + 11 - 1) = (2 * f + 1) * 2 ^ n * 2 ^ 10 := by
    rw [Nat.add_succ_sub_one, pow_add, pow_add]
    ring
  simp only [normalizeBoundary, hraised, hn, hfactor, hshift, mk.injEq, true_and]
  push_cast
  omega

theorem normalizedBoundaries_eq :
    normalizedBoundaries { f := f, e := e } =
      ({ f := f * 2 ^ places f - below f, e := e - places f },
        { f := f * 2 ^ places f + 2 ^ (places f - 1), e := e - places f }) := by
  obtain ⟨hlow, hhigh⟩ := normalized_bounds hpos (by omega)
  rw [← places] at hlow hhigh
  have hplaces := le_places hpos hless
  simp only [normalizedBoundaries, normalizeBoundary_eq hpos hless, Prod.mk.injEq, and_true]
  rw [below]
  split
  case isTrue hf =>
    subst hf
    have hten : places (2 ^ 52) = 11 := by decide
    have hshift : subtract (shiftLeft (2 ^ 52) 2) 1 = 2 ^ 54 - 1 := by decide
    have hcount : (e - 2 - (e - (11 : Nat))).toNat = 9 := by omega
    rw [hten]
    simp only [hshift, hcount]
    rfl
  case isFalse hf =>
    have hshift : subtract (shiftLeft f 1) 1 = 2 * f - 1 := by
      rw [subtract, shiftLeft]
      omega
    have hcount : (e - 1 - (e - (places f : Int))).toNat = places f - 1 := by omega
    have hsplit : 2 ^ places f = 2 * 2 ^ (places f - 1) := by
      rw [← pow_succ', Nat.sub_add_cancel (by omega)]
    have hdouble : (2 * f - 1) * 2 ^ (places f - 1) = f * 2 ^ places f - 2 ^ (places f - 1) := by
      rw [Nat.sub_mul, hsplit, one_mul, mul_comm 2 f, mul_assoc]
    simp only [hshift, hcount, mk.injEq, and_true]
    rw [shiftLeft, hdouble, Nat.mod_eq_of_lt (by omega)]

end Boundaries

/-! The product with a power of ten, in units of its last place. -/

section Product

theorem Approximates.scale_ge {power : DiyFp} {k : Int} (hpower : Approximates power k) :
    (1 : Rat) / 4 ≤ 10 ^ k / 2 ^ (power.e + 64) := by
  have hnear := hpower.near
  have hunit : (0 : Rat) < 2 ^ power.e := zpow_pos (by norm_num) _
  have hlow : (2 : Rat) ^ 63 ≤ power.f := by exact_mod_cast hpower.low
  have hscaled := mul_le_mul_of_nonneg_right hlow hunit.le
  rw [abs_le, zpow_sub_one₀ (by norm_num)] at hnear
  rw [zpow_add₀ (by norm_num), le_div_iff₀ (mul_pos hunit (by norm_num))]
  norm_num at hscaled ⊢
  linarith

/-- What the significand stands for after the multiplication with `10 ^ k`. -/
def scaled (power : DiyFp) (k : Int) (q : Nat) : Rat :=
  q * (10 ^ k / 2 ^ (power.e + 64))

variable {power : DiyFp} {k : Int} (hpower : Approximates power k) {q : Nat} (hq : q < 2 ^ 64)
  (e : Int)

include hpower hq

theorem mul_bounds :
    (mul { f := q, e := e } power).e = e + power.e + 64 ∧
      (mul { f := q, e := e } power).f ≤ power.f ∧
      |((mul { f := q, e := e } power).f : Rat) - q * power.f / 2 ^ 64| ≤ 1 / 2 := by
  have hhigh := hpower.high
  have hupper : q * power.f / 2 ^ 64 < power.f := by
    apply Nat.div_lt_of_lt_mul
    exact Nat.mul_lt_mul_of_pos_right hq (by have := hpower.low; omega)
  have hdivided : (q * power.f : Rat) / 2 ^ 64 =
      (q * power.f / 2 ^ 64 : Nat) + ((q * power.f % 2 ^ 64 : Nat) : Rat) / 2 ^ 64 := by
    rw [div_eq_iff (by norm_num), add_mul, div_mul_cancel₀ _ (by norm_num), mul_comm _ (2 ^ 64)]
    exact_mod_cast (Nat.div_add_mod _ _).symm
  rw [hdivided]
  have hrest : q * power.f % 2 ^ 64 < 2 ^ 64 := Nat.mod_lt _ (by decide)
  simp only [mul, Nat.testBit_eq_decide_div_mod_eq, true_and]
  generalize q * power.f / 2 ^ 64 = upper at hupper
  generalize q * power.f % 2 ^ 64 = lower at hrest
  have hlowerCast : (lower : Rat) < 2 ^ 64 := by exact_mod_cast hrest
  split
  case isTrue hbit =>
    have hhalf : 2 ^ 63 ≤ lower := by
      rw [decide_eq_true_eq] at hbit
      omega
    have hhalfCast : (2 : Rat) ^ 63 ≤ lower := by exact_mod_cast hhalf
    have hnext : upper + 1 < 2 ^ 64 := by omega
    rw [Nat.mod_eq_of_lt hnext]
    refine ⟨Nat.succ_le_of_lt hupper, ?_⟩
    rw [abs_le]
    push_cast
    constructor <;> linarith
  case isFalse hbit =>
    have hhalf : lower < 2 ^ 63 := by
      rw [decide_eq_true_eq] at hbit
      omega
    have hhalfCast : (lower : Rat) < 2 ^ 63 := by exact_mod_cast hhalf
    have hlowerPos : (0 : Rat) ≤ lower := Nat.cast_nonneg lower
    rw [Nat.mod_eq_of_lt (by omega)]
    refine ⟨by omega, ?_⟩
    rw [abs_le]
    constructor <;> linarith

/-- Together, table and product are off by less than a unit. -/
theorem mul_near :
    |((mul { f := q, e := e } power).f : Rat) - scaled power k q| < 1 := by
  have hproduct := (mul_bounds hpower hq e).2.2
  have hunit : (0 : Rat) < 2 ^ power.e := zpow_pos (by norm_num) _
  have htable : |(power.f : Rat) - 10 ^ k / 2 ^ power.e| ≤ 1 / 2 := by
    have hnear := hpower.near
    rw [← div_mul_cancel₀ ((10 : Rat) ^ k) hunit.ne', ← sub_mul, abs_mul, abs_of_pos hunit,
      zpow_sub_one₀ (by norm_num)] at hnear
    rw [← mul_le_mul_iff_of_pos_right hunit]
    linarith
  have hfactor : scaled power k q = q * (10 ^ k / 2 ^ power.e) / 2 ^ 64 := by
    rw [scaled, zpow_add₀ (by norm_num)]
    norm_num
    ring
  have hless : (q : Rat) < 2 ^ 64 := by exact_mod_cast hq
  have hscaled : |q * power.f / 2 ^ 64 - scaled power k q| < 1 / 2 := by
    have hword : (0 : Rat) < 2 ^ 64 := by norm_num
    rw [hfactor, ← sub_div, ← mul_sub, abs_div, abs_mul, Nat.abs_cast, abs_of_pos hword,
      div_lt_iff₀ hword]
    calc (q : Rat) * |(power.f : Rat) - 10 ^ k / 2 ^ power.e|
        ≤ q * (1 / 2) := mul_le_mul_of_nonneg_left htable (Nat.cast_nonneg q)
      _ < 1 / 2 * 2 ^ 64 := by linarith
  calc |((mul { f := q, e := e } power).f : Rat) - scaled power k q|
      ≤ |((mul { f := q, e := e } power).f : Rat) - q * power.f / 2 ^ 64| +
          |q * power.f / 2 ^ 64 - scaled power k q| := abs_sub_le _ _ _
    _ < 1 := by linarith

end Product

end DiyFp

end Uskit
