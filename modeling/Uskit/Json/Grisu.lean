import Uskit.Json.Boundaries
import Uskit.Json.DigitGen

namespace Uskit

/-! The digits of `Grisu2` stand for a number that no other double is as near to. -/

namespace Dtoa

open DiyFp Double Json.Reader

theorem ofDouble_eq (d : Double) : ofDouble d = { f := d.significandOf, e := d.placeOf } := by
  unfold ofDouble significandOf placeOf
  by_cases hzero : d.biasedExponent = 0
  · simp [hzero]
  · simp [hzero, Nat.add_comm]

/-! The boundaries after the multiplication. -/

section Scaled

/-- The product with the upper boundary, less one. -/
def upper (f : Nat) (e : Int) (power : DiyFp) : Nat :=
  (mul { f := f * 2 ^ places f + 2 ^ (places f - 1), e := e } power).f - 1

/-- The product with the lower boundary, and one. -/
def lower (f : Nat) (e : Int) (power : DiyFp) : Nat :=
  (mul { f := f * 2 ^ places f - below f, e := e } power).f + 1

/-- The shifted significand, and the distances of the boundaries. -/
structure Spread (whole above below : Rat) : Prop where
  low : 2 ^ 63 ≤ whole
  high : whole < 2 ^ 64
  above_ge : 2 ^ 10 ≤ above
  below_ge : 2 ^ 9 ≤ below
  wide : whole + above + 16 * 10 ^ 16 ≤ 10 ^ 16 * (above + below)

theorem spread_of_significand {f : Nat} (hpos : 0 < f) (hless : f < 2 ^ 53) :
    Spread (f * 2 ^ places f : Nat) (2 ^ (places f - 1) : Nat) (below f) := by
  obtain ⟨hlow, hhigh⟩ := normalized_bounds hpos (by omega)
  rw [← places] at hlow hhigh
  have hplaces := le_places hpos hless
  have habove : 2 ^ 10 ≤ 2 ^ (places f - 1) := Nat.pow_le_pow_right (by decide) (by omega)
  have hlowCast : (2 : Rat) ^ 63 ≤ (f * 2 ^ places f : Nat) := by exact_mod_cast hlow
  have hhighCast : ((f * 2 ^ places f : Nat) : Rat) < 2 ^ 64 := by exact_mod_cast hhigh
  have haboveCast : (2 : Rat) ^ 10 ≤ (2 ^ (places f - 1) : Nat) := by exact_mod_cast habove
  unfold below
  split
  case isTrue hf =>
    subst hf
    have hten : places (2 ^ 52) = 11 := by decide
    rw [hten]
    constructor <;> norm_num
  case isFalse hf =>
    generalize ((f * 2 ^ places f : Nat) : Rat) = whole at *
    generalize ((2 ^ (places f - 1) : Nat) : Rat) = above at *
    constructor <;> linarith

variable {f : Nat} {power : DiyFp} {k : Int} (hpos : 0 < f) (hless : f < 2 ^ 53)
  (hpower : Approximates power k) (e : Int)

include hpos hless hpower

/-- Less one and with one, the products are on the inner side of the boundaries. -/
theorem upper_lower_bounds :
    upper f e power < scaled power k (f * 2 ^ places f + 2 ^ (places f - 1)) ∧
      scaled power k (f * 2 ^ places f + 2 ^ (places f - 1)) < upper f e power + 2 ∧
      scaled power k (f * 2 ^ places f - below f) < lower f e power ∧
      lower f e power < scaled power k (f * 2 ^ places f - below f) + 2 ∧
      upper f e power < power.f := by
  obtain ⟨hlow, -, habove, -, -⟩ := spread_of_significand hpos hless
  have hfits := above_lt hpos hless
  have hplus := mul_near hpower hfits e
  have hminus := mul_near hpower
    ((Nat.sub_le _ (below f)).trans_lt (Nat.lt_of_add_right_lt hfits)) e
  have hbound := (mul_bounds hpower hfits e).2.1
  rw [upper, lower]
  generalize (mul { f := f * 2 ^ places f + 2 ^ (places f - 1), e := e } power).f = plus at *
  generalize (mul { f := f * 2 ^ places f - below f, e := e } power).f = minus at *
  have hlarge : 2 < scaled power k (f * 2 ^ places f + 2 ^ (places f - 1)) := by
    rw [scaled, Nat.cast_add]
    have hscale := hpower.scale_ge
    calc (2 : Rat) < 2 ^ 63 * (1 / 4) := by norm_num
      _ ≤ ((f * 2 ^ places f : Nat) + (2 ^ (places f - 1) : Nat)) *
          (10 ^ k / 2 ^ (power.e + 64)) :=
          mul_le_mul (by linarith) hscale (by norm_num) (by linarith)
  rw [abs_lt] at hplus hminus
  have hone : 1 ≤ plus := by
    have hpositive : (1 : Rat) < plus := by linarith
    exact_mod_cast hpositive.le
  rw [Nat.cast_sub hone]
  push_cast
  refine ⟨by linarith, by linarith, by linarith, by linarith, by omega⟩

/-- Between the products there is room for the digits. -/
theorem upper_lower_fits :
    lower f e power < upper f e power ∧ 2 ^ 60 ≤ upper f e power ∧
      upper f e power ≤ 10 ^ 16 * (upper f e power - lower f e power) := by
  have hspread := spread_of_significand hpos hless
  obtain ⟨hup, hup', hlow, hlow', -⟩ := upper_lower_bounds hpos hless hpower e
  have hbelow := below_le hpos hless
  have hscale := hpower.scale_ge
  simp only [scaled, Nat.cast_add, Nat.cast_sub hbelow] at hup hup' hlow hlow'
  obtain ⟨hwhole, -, habove, hdistance, hwide⟩ := hspread
  generalize ((f * 2 ^ places f : Nat) : Rat) = whole at *
  generalize ((2 ^ (places f - 1) : Nat) : Rat) = above at *
  generalize ((below f : Nat) : Rat) = distance at *
  generalize (10 : Rat) ^ k / 2 ^ (power.e + 64) = scale at *
  have hroom : 1 / 4 * (10 ^ 16 * (above + distance) - whole - above) ≤
      scale * (10 ^ 16 * (above + distance) - whole - above) :=
    mul_le_mul_of_nonneg_right hscale (by linarith)
  have hgap : 1 / 4 * (above + distance) ≤ scale * (above + distance) :=
    mul_le_mul_of_nonneg_right hscale (by linarith)
  have hheight : 1 / 4 * (whole + above) ≤ scale * (whole + above) :=
    mul_le_mul_of_nonneg_right hscale (by linarith)
  have hapart : (lower f e power : Rat) < upper f e power := by linarith
  have hapart' : lower f e power < upper f e power := by exact_mod_cast hapart
  refine ⟨hapart', ?_, ?_⟩
  · have htall : (2 : Rat) ^ 60 ≤ upper f e power := by linarith
    exact_mod_cast htall
  · have hratio : (upper f e power : Rat) ≤
        10 ^ 16 * ((upper f e power - lower f e power : Nat) : Rat) := by
      rw [Nat.cast_sub hapart'.le]
      linarith
    exact_mod_cast hratio

end Scaled

/-! The digits, as a decimal. -/

section Digits

def digitsValue (result : List Char × Int) : Rat :=
  decimal result.1 0 * 10 ^ result.2

variable {d : Double} (hpos : 0 < d.significandOf)

include hpos

/-- Without shift and power of ten, the boundaries are those of the double. -/
theorem boundaries_eq :
    ((d.significandOf * 2 ^ places d.significandOf + 2 ^ (places d.significandOf - 1) : Nat) : Rat) *
        2 ^ (d.placeOf - places d.significandOf) = (d.significandOf + 1 / 2) * 2 ^ d.placeOf ∧
      ((d.significandOf * 2 ^ places d.significandOf - below d.significandOf : Nat) : Rat) *
        2 ^ (d.placeOf - places d.significandOf) =
        (d.significandOf - d.lowerGap / 2) * 2 ^ d.placeOf := by
  have hplaces := le_places hpos d.significandOf_lt
  have hshift : (2 : Rat) ^ places d.significandOf ≠ 0 := by positivity
  have hpower : (2 : Rat) ^ (d.placeOf - places d.significandOf) =
      2 ^ d.placeOf / 2 ^ places d.significandOf := by
    rw [zpow_sub₀ (by norm_num), zpow_natCast]
  have hhalf : (2 : Rat) ^ (places d.significandOf - 1) = 2 ^ places d.significandOf / 2 := by
    rw [eq_div_iff (by norm_num), ← pow_succ, Nat.sub_add_cancel (by omega)]
  rw [hpower]
  constructor
  · push_cast
    rw [hhalf]
    field_simp
  · have hbelow := below_le hpos d.significandOf_lt
    rw [Nat.cast_sub hbelow, lowerGap, below]
    split
    case isTrue hf =>
      have heleven : places d.significandOf = 11 := by
        rw [hf]
        decide
      rw [heleven]
      push_cast
      norm_num
      ring
    case isFalse hf =>
      push_cast
      rw [hhalf]
      field_simp

variable (hfinite : d.Finite)

include hfinite

theorem grisu2_generates :
    ∃ power k shift, Approximates power k ∧
      d.placeOf - places d.significandOf + power.e + 64 = -((shift : Nat) : Int) ∧
      Generates (upper d.significandOf (d.placeOf - places d.significandOf) power)
        (upper d.significandOf (d.placeOf - places d.significandOf) power -
          lower d.significandOf (d.placeOf - places d.significandOf) power)
        shift (-k) (grisu2 d) := by
  have hless := d.significandOf_lt
  have hrange : -1137 ≤ d.placeOf - places d.significandOf ∧
      d.placeOf - places d.significandOf ≤ 960 := by
    have hlow := d.le_placeOf
    have hhigh := hfinite.placeOf_le
    have hplaces := le_places hpos hless
    have hplaces' : places d.significandOf ≤ 63 := Nat.sub_le _ _
    omega
  obtain ⟨power, k, shift, hcached, hpower, hexponent, -, hshift, hdigits⟩ :=
    getCachedPower_fits hrange.1 hrange.2
  refine ⟨power, k, shift, hpower, hexponent, ?_⟩
  rw [grisu2]
  simp only [ofDouble_eq, normalizedBoundaries_eq hpos hless, normalize_eq hpos hless, hcached]
  generalize d.placeOf - places d.significandOf = e at *
  generalize d.significandOf = f at *
  obtain ⟨hapart, htall, hratio⟩ := upper_lower_fits hpos hless hpower e
  have hupper := (upper_lower_bounds hpos hless hpower e).2.2.2.2
  have hword := hpower.high
  obtain ⟨hplace, hbound, -⟩ := mul_bounds hpower (above_lt hpos hless) e
  have hWp : subtract (mul { f := f * 2 ^ places f + 2 ^ (places f - 1), e := e } power).f 1 =
      upper f e power := by
    rw [subtract, upper] at *
    omega
  have hWm : ((mul { f := f * 2 ^ places f - below f, e := e } power).f + 1) % 2 ^ 64 =
      lower f e power := Nat.mod_eq_of_lt (hapart.trans (hupper.trans hword))
  have hdelta : subtract (upper f e power) (lower f e power) =
      upper f e power - lower f e power := by
    rw [subtract]
    omega
  simp only [hWp, hWm, hdelta]
  have hone : 2 ^ shift ≤ 2 ^ 60 := Nat.pow_le_pow_right (by decide) hshift
  exact digitGen_generates (-k) hshift (hplace.trans hexponent) rfl (hupper.trans hword)
    (hone.trans htall) (hupper.trans hdigits)
    (Nat.sub_lt (hapart.trans_le' (Nat.zero_le _)) (Nat.succ_pos _)) hratio

/-- The digits are between the numbers half way to the neighbours. -/
theorem grisu2_between :
    Leads (grisu2 d).1 ∧ (grisu2 d).1.length ≤ 17 ∧
      (d.significandOf - d.lowerGap / 2) * 2 ^ d.placeOf < digitsValue (grisu2 d) ∧
      digitsValue (grisu2 d) < (d.significandOf + 1 / 2) * 2 ^ d.placeOf := by
  obtain ⟨power, k, shift, hpower, hexponent, hleads, hshort, up, down, hK, hlow, hhigh⟩ :=
    grisu2_generates hpos hfinite
  have hless := d.significandOf_lt
  obtain ⟨hup, -, hbelow, -, -⟩ :=
    upper_lower_bounds hpos hless hpower (d.placeOf - places d.significandOf)
  have hapart := (upper_lower_fits hpos hless hpower (d.placeOf - places d.significandOf)).1
  rw [Nat.sub_sub_self hapart.le] at hlow
  obtain ⟨habove, hunder⟩ := boundaries_eq hpos
  rw [scaled] at hup hbelow
  -- The unit of the products is the one of the shifted double, times the power of ten.
  have hunits : (10 : Rat) ^ k / 2 ^ (power.e + 64) * (10 ^ (-k) / 2 ^ shift) =
      2 ^ (d.placeOf - places d.significandOf) := by
    have hten : (10 : Rat) ^ k * 10 ^ (-k) = 1 := by
      rw [← zpow_add₀ (by norm_num), add_neg_cancel, zpow_zero]
    rw [div_mul_div_comm, hten, ← zpow_natCast, ← zpow_add₀ (by norm_num), one_div, ← zpow_neg]
    congr 1
    omega
  have hvalue : digitsValue (grisu2 d) * 10 ^ down =
      (decimal (grisu2 d).1 0 * (10 ^ up * 2 ^ shift) : Nat) * (10 ^ (-k) / 2 ^ shift) := by
    have hdown : (10 : Rat) ^ down ≠ 0 := by positivity
    have hshift : (2 : Rat) ^ shift ≠ 0 := by positivity
    rw [digitsValue, hK, zpow_sub₀ (by norm_num), zpow_add₀ (by norm_num), zpow_natCast,
      zpow_natCast]
    push_cast
    field_simp
  have htens : (0 : Rat) < 10 ^ down := by positivity
  have hunit : (0 : Rat) < 10 ^ (-k) / 2 ^ shift := by positivity
  have hregroup : ∀ q scale unit tens : Rat,
      q * (scale * unit) * tens = q * scale * tens * unit := by
    intro q scale unit tens
    ring
  refine ⟨hleads, hshort, ?_, ?_⟩
  · rw [← mul_lt_mul_iff_of_pos_right htens, hvalue, ← hunder, ← hunits, hregroup]
    refine mul_lt_mul_of_pos_right (lt_of_lt_of_le (mul_lt_mul_of_pos_right hbelow htens) ?_) hunit
    exact_mod_cast hlow
  · rw [← mul_lt_mul_iff_of_pos_right htens, hvalue, ← habove, ← hunits, hregroup]
    refine mul_lt_mul_of_pos_right (lt_of_le_of_lt ?_ (mul_lt_mul_of_pos_right hup htens)) hunit
    exact_mod_cast hhigh

end Digits

end Dtoa

end Uskit
