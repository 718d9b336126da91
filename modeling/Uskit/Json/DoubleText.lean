import Uskit.Json.Prettify
import Uskit.Json.RoundTrip

namespace Uskit

/-! The text of a double is read back, and as the same double if it is short. -/

namespace Dtoa

open Double Json.Reader Uskit.Grammar.Reader

/-! No digits of moderate length exceed the range of doubles. -/

section Moderate

/-- Not negative, not between zero and one, and not over the bound. -/
structure Moderate (bound : Rat) (d : Double) : Prop where
  finite : d.Finite
  whole : d.toRat = 0 ∨ 1 ≤ d.toRat
  high : d.toRat ≤ bound

theorem moderate_ofRat {value : Rat} (bound : Rat) (hwhole : value = 0 ∨ 1 ≤ value)
    (hhigh : value ≤ bound) (hbound : bound ≤ 2 ^ 220) (hpos : 0 ≤ bound)
    (negativeZero : Bool) : Moderate (2 * bound) (ofRat value negativeZero) := by
  rcases hwhole with rfl | hwhole
  · obtain ⟨hfinite, hzero, -⟩ := ofRat_zero negativeZero
    exact ⟨hfinite, .inl hzero, by rw [hzero]; linarith⟩
  · have hnormal : (2 : Rat) ^ (-1022 : Int) ≤ |value| := by
      rw [abs_of_pos (by linarith)]
      exact (zpow_le_one_of_nonpos₀ (by norm_num) (by norm_num)).trans hwhole
    have hless : |value| < (2 : Rat) ^ (1023 : Int) := by
      rw [abs_of_pos (by linarith)]
      calc value ≤ 2 ^ 220 := hhigh.trans hbound
        _ = 2 ^ (220 : Int) := by norm_num
        _ < 2 ^ (1023 : Int) := zpow_lt_zpow_right₀ (by norm_num) (by norm_num)
    have hnearest := isNearest_ofRat hnormal hless negativeZero
    have herror := abs_sub_ofRat_le hnormal hless negativeZero
    rw [abs_le, abs_of_pos (show 0 < value by linarith)] at herror
    refine ⟨hnearest.finite, .inr ?_, by linarith⟩
    by_contra hsmall
    obtain ⟨honeFinite, hone⟩ := ofInt_exact 1 (by decide)
    have hle := hnearest.nearest (ofInt 1) honeFinite
    rw [hone, Int.cast_one, abs_of_nonneg (show 0 ≤ value - 1 by linarith)] at hle
    linarith [le_abs_self (value - (ofRat value negativeZero).toRat)]

variable {bound : Rat} {d : Double}

theorem shiftDigit_moderate (hmoderate : Moderate bound d) (hone : 1 ≤ bound)
    (hbound : bound ≤ 2 ^ 200) {c : Char} (hc : isDigit c = true) :
    Moderate (bound * 64) (shiftDigit d c) := by
  obtain ⟨hfinite, hwhole, hhigh⟩ := hmoderate
  obtain ⟨htenFinite, hten⟩ := ofInt_exact 10 (by decide)
  have hdigit := digit_lt hc
  obtain ⟨hdigitFinite, hvalue⟩ := ofInt_exact (digit c) (by
    rw [Int.natAbs_natCast]
    omega)
  have hdigitHigh : (digit c : Rat) ≤ 9 := by exact_mod_cast Nat.le_of_lt_succ hdigit
  have hdigitWhole : (digit c : Rat) = 0 ∨ (1 : Rat) ≤ digit c := by
    rcases Nat.eq_zero_or_pos (digit c) with hzero | hpos
    · exact .inl (by rw [hzero, Nat.cast_zero])
    · exact .inr (by exact_mod_cast hpos)
  have hroom : bound * 64 ≤ 2 ^ 206 := by linarith
  rw [Int.cast_natCast] at hvalue
  rw [Int.cast_ofNat] at hten
  rw [shiftDigit, mul_of_finite hfinite htenFinite, hten]
  have hproductWhole : d.toRat * 10 = 0 ∨ 1 ≤ d.toRat * 10 := by
    rcases hwhole with hzero | hwhole
    · exact .inl (by rw [hzero, zero_mul])
    · exact .inr (by linarith)
  have hproduct := moderate_ofRat (bound * 10) hproductWhole (by linarith) (by linarith)
    (by linarith) (d.negative != (ofInt 10).negative)
  generalize ofRat (d.toRat * 10) (d.negative != (ofInt 10).negative) = product at hproduct
  obtain ⟨hproductFinite, hproductWhole, hproductHigh⟩ := hproduct
  rw [add_of_finite hproductFinite hdigitFinite, hvalue]
  have hsumWhole : product.toRat + digit c = 0 ∨ 1 ≤ product.toRat + digit c := by
    rcases hproductWhole with hzero | hwhole
    · rwa [hzero, zero_add]
    · exact .inr (by linarith [Nat.cast_nonneg (α := Rat) (digit c)])
  obtain ⟨hsumFinite, hsumWhole, hsumHigh⟩ := moderate_ofRat (bound * 20 + 9) hsumWhole
    (by linarith) (by linarith) (by linarith) (product.negative && (ofInt (digit c)).negative)
  exact ⟨hsumFinite, hsumWhole, by linarith⟩

theorem maxOverTen_large : maxOverTen.isNan = false ∧ maxOverTen.isInfinite = false ∧
    2 ^ 200 < maxOverTen.toRat := by
  decide +kernel

/-- The digits of a big integer that is not too long are all taken. -/
theorem takeBigInt_some {word : List Char} (hword : ∀ x ∈ word, isDigit x = true)
    (hmoderate : Moderate bound d) (hone : 1 ≤ bound)
    (hlength : bound * 64 ^ word.length ≤ 2 ^ 200) :
    ∃ result, takeBigInt d word = some (result, []) := by
  induction word generalizing d bound with
  | nil => exact ⟨d, rfl⟩
  | cons c word ih =>
      obtain ⟨hc, hrest⟩ := List.forall_mem_cons.mp hword
      obtain ⟨hnan, hinfinite, hlarge⟩ := maxOverTen_large
      rw [List.length_cons, pow_succ', ← mul_assoc] at hlength
      have hpower : (1 : Rat) ≤ 64 ^ word.length := one_le_pow₀ (by norm_num)
      have hbound : bound * 64 ≤ 2 ^ 200 :=
        (le_mul_of_one_le_right (by linarith) hpower).trans hlength
      have hgoes : maxOverTen.le d = false := by
        rw [le_of_finite ⟨hnan, hinfinite⟩ hmoderate.finite, decide_eq_false_iff_not]
        have hhigh := hmoderate.high
        linarith
      rw [takeBigInt, hc, hgoes]
      exact ih hrest (shiftDigit_moderate hmoderate hone (by linarith) hc) (by linarith) hlength

end Moderate

/-! Every such numeral is read. -/

section Reads

theorem takeInt_length (limit : Nat) (last : Char) (part : IntPart) (text : List Char) :
    (takeInt limit last part text).2.length ≤ text.length := by
  induction text generalizing part with
  | nil => exact Nat.le_refl _
  | cons c rest ih =>
      rw [takeInt]
      split
      · exact Nat.le_refl _
      · split
        · exact Nat.le_refl _
        · exact (ih _).trans (Nat.le_succ _)

theorem parseInt_length {minus : Bool} {text rest : List Char} {part : IntPart}
    (hread : parseInt minus text = some (part, rest)) : rest.length < text.length := by
  cases text with
  | nil => cases hread
  | cons c text =>
      rw [parseInt] at hread
      by_cases hzero : c = '0'
      · rw [if_pos hzero, Option.some.injEq] at hread
        cases hread
        exact Nat.lt_succ_self _
      by_cases hc : isDigit c = true
      · rw [if_neg hzero, if_pos hc] at hread
        simp only at hread
        have hfirst := takeInt_length (if minus then 214748364 else 429496729)
          (if minus then '8' else '5') { i := digit c } text
        generalize takeInt (if minus then 214748364 else 429496729)
          (if minus then '8' else '5') { i := digit c } text = taken at hread hfirst
        obtain ⟨first, behind⟩ := taken
        have hsecond := takeInt_length
          (if minus then 0x0ccccccccccccccc else 0x1999999999999999)
          (if minus then '8' else '5') { first with overflow := false } behind
        by_cases hover : first.overflow = true
        · rw [if_pos hover, Option.some.injEq] at hread
          rw [hread] at hsecond
          exact Nat.lt_succ_of_le (hsecond.trans hfirst)
        · rw [if_neg hover] at hread
          cases hread
          exact Nat.lt_succ_of_le hfirst
      · rw [if_neg hzero, if_neg hc] at hread
        cases hread

theorem decimal_lt (word : List Char) (hword : ∀ x ∈ word, isDigit x = true) (i : Nat) :
    decimal word i < (i + 1) * 10 ^ word.length := by
  induction word generalizing i with
  | nil => exact Nat.lt_of_lt_of_eq (Nat.lt_succ_self i) (Nat.mul_one _).symm
  | cons c word ih =>
      obtain ⟨hc, hrest⟩ := List.forall_mem_cons.mp hword
      have hdigit := digit_lt hc
      rw [decimal_cons, List.length_cons, pow_succ', ← Nat.mul_assoc]
      exact (ih hrest _).trans_le (Nat.mul_le_mul_right _ (by omega))

theorem parseMagnitude_some {word : List Char} (hword : word ∈ integers)
    (hlength : word.length ≤ 21) (minus : Bool) :
    ∃ magnitude, parseMagnitude minus word = some (magnitude, []) ∧
      magnitude.toDecimal.expFrac = 0 := by
  rcases hword with rfl | ⟨c, word, rfl, hc, hdigits⟩
  · exact ⟨.int 0 0, rfl, rfl⟩
  obtain ⟨part, rest, hrest, hparse, hdecimal, hover⟩ := parseInt_digits minus hc hdigits
  have halone := hparse [] (headNot_nil _)
  rw [List.append_nil, List.append_nil] at halone
  rw [List.length_cons] at hlength
  simp only [parseMagnitude, halone, bind, Option.bind_some]
  cases hoverflow : part.overflow with
  | false =>
      rw [hoverflow] at hover
      obtain ⟨rfl, -⟩ := hover
      exact ⟨_, rfl, rfl⟩
  | true =>
      -- Past 64 bits the reader goes on in doubles, far from the largest one.
      have hrestLength := parseInt_length halone
      rw [List.length_cons] at hrestLength
      have hvalue : part.i < 10 ^ 21 := by
        have hdigit := digit_lt (by
          rw [isNonzero, Bool.and_eq_true] at hc
          exact hc.2)
        calc part.i ≤ decimal rest part.i := le_decimal rest _
          _ = decimal word (digit c) := hdecimal
          _ < (digit c + 1) * 10 ^ word.length := decimal_lt word hdigits _
          _ ≤ 10 * 10 ^ 20 := Nat.mul_le_mul hdigit (Nat.pow_le_pow_right (by decide) (by omega))
          _ = 10 ^ 21 := by decide
      have hwhole : (part.i : Rat) = 0 ∨ (1 : Rat) ≤ part.i := by
        rcases Nat.eq_zero_or_pos part.i with hzero | hpos
        · exact .inl (by rw [hzero, Nat.cast_zero])
        · exact .inr (by exact_mod_cast hpos)
      have hmoderate : Moderate (2 * 10 ^ 21) (ofInt part.i) := by
        rw [ofInt, Int.cast_natCast]
        exact moderate_ofRat (10 ^ 21) hwhole (by exact_mod_cast hvalue.le) (by norm_num)
          (by norm_num) false
      have hpower : (64 : Rat) ^ rest.length ≤ 64 ^ 20 :=
        pow_le_pow_right₀ (by norm_num) (by omega)
      obtain ⟨result, hread⟩ := takeBigInt_some hrest hmoderate (by norm_num)
        ((mul_le_mul_of_nonneg_left hpower (by norm_num)).trans (by norm_num))
      rw [if_pos rfl, hread]
      exact ⟨_, rfl, rfl⟩

theorem takeFraction_expFrac (fraction : Fraction) (text : List Char) :
    (takeFraction fraction text).1.expFrac ≤ fraction.expFrac := by
  induction text generalizing fraction with
  | nil => exact le_refl _
  | cons c rest ih =>
      rw [takeFraction]
      split
      · exact le_refl _
      · exact (ih _).trans (Int.sub_le_self _ (by decide))

theorem startFraction_expFrac {magnitude : Magnitude} (hexpFrac : magnitude.toDecimal.expFrac = 0)
    (text : List Char) : (startFraction magnitude text).1.expFrac ≤ 0 := by
  cases magnitude with
  | int i significandDigit =>
      exact takeFraction_expFrac { i := i, significandDigit := significandDigit } text
  | decimal value => exact hexpFrac.le

theorem takeDecimals_expFrac (value : Decimal) (text : List Char) :
    (takeDecimals value text).1.expFrac ≤ value.expFrac := by
  induction text generalizing value with
  | nil => exact le_refl _
  | cons c rest ih =>
      rw [takeDecimals]
      split
      · exact le_refl _
      · split
        · exact (ih _).trans (Int.sub_le_self _ (by decide))
        · exact ih _

/-- Behind a fraction the power of ten is not positive. -/
theorem parseFraction_some {magnitude : Magnitude} (hexpFrac : magnitude.toDecimal.expFrac = 0)
    {part word other : List Char} (hword : word ∈ pointed part) (hother : StopsFraction other) :
    ∃ taken, parseFraction magnitude (word ++ other) = some (taken, other) ∧
      taken.toDecimal.expFrac ≤ 0 ∧ (part ≠ [] → taken = .decimal taken.toDecimal) := by
  have hwhole := parseFraction_whole magnitude word (pointed_fractions hword) other
  rcases hword with ⟨rfl, rfl⟩ | ⟨⟨c, rest, rfl, hc, -⟩, rfl⟩
  · have hpoint : HeadNot (· == '.') other := hother.mono fun c hc => by simp [hc]
    exact ⟨magnitude, parseFraction_of_headNot _ hpoint, hexpFrac.le, fun hne => absurd rfl hne⟩
  · have hread : parseFraction magnitude ('.' :: c :: rest ++ other) =
        some (.decimal (takeDecimals (startFraction magnitude (c :: rest ++ other)).1
          (startFraction magnitude (c :: rest ++ other)).2).1,
          (takeDecimals (startFraction magnitude (c :: rest ++ other)).1
            (startFraction magnitude (c :: rest ++ other)).2).2) := by
      rw [List.cons_append, parseFraction, List.cons_append, parseDecimals, if_pos hc]
    have hrest := hwhole _ _ hother hread
    rw [hrest] at hread
    exact ⟨_, hread, (takeDecimals_expFrac _ _).trans (startFraction_expFrac hexpFrac _),
      fun _ => rfl⟩

theorem parseUnsigned_spells {word : List Char} {value : Rat} (hspells : Spells word value)
    (minus : Bool) : ∃ d, parseUnsigned minus word = some (.double d, []) := by
  obtain ⟨whole, part, point, exp, ending, rfl, hwhole, hpoint, hending, hlength, hlow, hhigh, -⟩ :=
    hspells.parts
  have hstops := stopsFraction_of_endings hending
  obtain ⟨magnitude, htaken, hexpFrac⟩ := parseMagnitude_some hwhole hlength minus
  have hmagnitude := (parseMagnitude_takes minus).append htaken
    (headNot_of_fractions (pointed_fractions hpoint) (hstops.mono fun c hc => by simp [hc]))
  obtain ⟨taken, hfraction, hscale, hdecimal⟩ := parseFraction_some hexpFrac hpoint hstops
  have hexponent := parseExponent_exact hending hdecimal (by omega) (by omega)
  simp only [parseUnsigned, bind, hmagnitude, hfraction, hexponent, Option.bind_some, toNumber]
  exact ⟨_, rfl⟩

end Reads

/-! The text of a double. -/

section Text

theorem isZero_iff {d : Double} : isZero d = true ↔ d.significandOf = 0 := by
  rw [isZero, Bool.and_eq_true, beq_iff_eq, beq_iff_eq, significandOf]
  constructor
  · rintro ⟨hbiased, hfraction⟩
    rw [if_pos hbiased, hfraction]
  · intro hzero
    split at hzero
    case isTrue hbiased => exact ⟨hbiased, hzero⟩
    case isFalse hbiased => omega

/-- Large powers are compared as natural numbers. -/
theorem inv_pow_lt {m n : Nat} (hless : 2 ^ (n + 1) < 10 ^ m) :
    (10 : Rat) ^ (-(m : Int)) < 1 / 2 * 2 ^ (-(n : Int)) := by
  have hcast : (2 : Rat) ^ (n + 1) < 10 ^ m := by exact_mod_cast hless
  rw [zpow_neg, zpow_neg, zpow_natCast, zpow_natCast, one_div, ← mul_inv, ← pow_succ']
  exact inv_strictAnti₀ (by positivity) hcast

theorem pow_mul_lt {m n k : Nat} (hless : 2 ^ (n + k) < 10 ^ m) :
    (2 : Rat) ^ n * 2 ^ (k : Int) < 10 ^ (m : Int) := by
  have hcast : (2 : Rat) ^ (n + k) < 10 ^ m := by exact_mod_cast hless
  rwa [zpow_natCast, zpow_natCast, ← pow_add]

variable {d : Double} (hpos : 0 < d.significandOf) (hfinite : d.Finite)

include hpos hfinite

/-- The first digit is in a place that the text can show. -/
theorem grisu2_place :
    -324 < (grisu2 d).1.length + (grisu2 d).2 ∧ (grisu2 d).1.length + (grisu2 d).2 ≤ 309 := by
  obtain ⟨hleads, -, hlow, hhigh⟩ := grisu2_between hpos hfinite
  have hpower : (0 : Rat) < 10 ^ (grisu2 d).2 := zpow_pos (by norm_num) _
  have hone : (1 : Rat) ≤ d.significandOf := by exact_mod_cast hpos
  have hmost : (d.significandOf : Rat) + 1 ≤ 2 ^ 53 := by exact_mod_cast d.significandOf_lt
  have hgap := d.lowerGap_range.2
  constructor
  · have hless := decimal_lt (grisu2 d).1 hleads.all 0
    rw [Nat.zero_add, Nat.one_mul] at hless
    have habove : digitsValue (grisu2 d) < 10 ^ ((grisu2 d).1.length + (grisu2 d).2) := by
      rw [digitsValue, zpow_add₀ (by norm_num), zpow_natCast]
      exact mul_lt_mul_of_pos_right (by exact_mod_cast hless) hpower
    have hleast : (10 : Rat) ^ (-324 : Int) < 10 ^ ((grisu2 d).1.length + (grisu2 d).2) :=
      calc (10 : Rat) ^ (-324 : Int) < 1 / 2 * 2 ^ (-1074 : Int) :=
            inv_pow_lt (m := 324) (n := 1074) (by decide +kernel)
        _ ≤ (d.significandOf - d.lowerGap / 2) * 2 ^ d.placeOf :=
            mul_le_mul (by linarith) (zpow_le_zpow_right₀ (by norm_num) d.le_placeOf)
              (by positivity) (by linarith)
        _ < digitsValue (grisu2 d) := hlow
        _ < _ := habove
    exact (zpow_lt_zpow_iff_right₀ (by norm_num)).mp hleast
  · have hleast := pow_le_decimal hleads
    have hbelow : (10 : Rat) ^ (((grisu2 d).1.length - 1 : Nat) + (grisu2 d).2) ≤
        digitsValue (grisu2 d) := by
      rw [digitsValue, zpow_add₀ (by norm_num), zpow_natCast]
      exact mul_le_mul_of_nonneg_right (by exact_mod_cast hleast) hpower.le
    have hless : (10 : Rat) ^ (((grisu2 d).1.length - 1 : Nat) + (grisu2 d).2) < 10 ^ (309 : Int) :=
      calc (10 : Rat) ^ (((grisu2 d).1.length - 1 : Nat) + (grisu2 d).2) ≤
            digitsValue (grisu2 d) := hbelow
        _ < (d.significandOf + 1 / 2) * 2 ^ d.placeOf := hhigh
        _ ≤ 2 ^ 53 * 2 ^ (971 : Int) :=
            mul_le_mul (by linarith) (zpow_le_zpow_right₀ (by norm_num) hfinite.placeOf_le)
              (by positivity) (by norm_num)
        _ < 10 ^ (309 : Int) := pow_mul_lt (m := 309) (n := 53) (k := 971) (by decide +kernel)
    have hplace := (zpow_lt_zpow_iff_right₀ (by norm_num)).mp hless
    have hlength := hleads.length_pos
    omega

theorem lt_zero : d.lt (zero false) = d.negative := by
  obtain ⟨hzeroFinite, hzero, -⟩ := ofRat_zero false
  have hpack : ofRat 0 false = zero false := rfl
  rw [hpack] at hzeroFinite hzero
  have hvalue : 0 < d.absolute := by
    rw [absolute_eq]
    exact mul_pos (by exact_mod_cast hpos) (zpow_pos (by norm_num) _)
  rw [lt_of_finite hfinite hzeroFinite, hzero, toRat_eq]
  cases d.negative with
  | false => simpa using hvalue.le
  | true => simpa using hvalue

theorem dtoa_eq :
    dtoa d = String.ofList ((if d.negative then ['-'] else []) ++
      prettify (grisu2 (if d.negative then d.neg else d)).1
        (grisu2 (if d.negative then d.neg else d)).2 defaultMaxDecimalPlaces) := by
  have hzero : ¬ isZero d = true := fun heq => hpos.ne' (isZero_iff.mp heq)
  rw [dtoa, if_neg hzero, lt_zero hpos hfinite]

theorem grisu2_spells (hsign : d.negative = false) :
    ∃ buffer k value, grisu2 d = (buffer, k) ∧
      Spells (prettify buffer k defaultMaxDecimalPlaces) value ∧
      (prettify buffer k defaultMaxDecimalPlaces).length ≤ 24 ∧ IsOnlyNearest value d := by
  obtain ⟨hleads, hshort, hlow, hhigh⟩ := grisu2_between hpos hfinite
  obtain ⟨hplaceLow, hplaceHigh⟩ := grisu2_place hpos hfinite
  -- The digits get a name, lest they be computed.
  generalize grisu2 d = result at hleads hshort hlow hhigh hplaceLow hplaceHigh ⊢
  obtain ⟨buffer, k⟩ := result
  obtain ⟨hspells, hlength⟩ := prettify_spells hleads hshort hplaceLow hplaceHigh
  exact ⟨buffer, k, _, rfl, hspells, hlength,
    isOnlyNearest_of_between hfinite hsign hlow hhigh⟩

end Text

theorem Spells.decimals {word : List Char} {value : Rat} (hspells : Spells word value) :
    ∃ significand power, word ∈ unsignedDecimals significand power ∧
      significand * 10 ^ power = value := by
  obtain ⟨whole, part, point, exp, ending, hword, hwhole, hpoint, hending, -, -, -, hvalue⟩ :=
    hspells.parts
  exact ⟨decimal (whole ++ part) 0, exp - part.length,
    ⟨whole, part, point, exp, ending, hword, hwhole, hpoint, hending, rfl, rfl⟩, hvalue⟩

theorem significandOf_neg (d : Double) : d.neg.significandOf = d.significandOf := by
  rw [significandOf, significandOf, biasedExponent_neg, fraction_neg]

theorem spells_zero : Spells ['0', '.', '0'] 0 := by
  refine ⟨['0'], ['0'], ['.', '0'], 0, [], rfl, .inl rfl, .inr ⟨⟨'0', [], rfl, rfl, nofun⟩, rfl⟩,
    .inl ⟨by simp, rfl, rfl⟩, by decide, by decide, by decide, ?_⟩
  have hzero : decimal (['0'] ++ ['0']) 0 = 0 := rfl
  rw [hzero, Nat.cast_zero, zero_mul]

/-- The text is a numeral behind a sign, of a number that no other double is as near to. -/
theorem dtoa_spells {d : Double} (hfinite : d.Finite) :
    ∃ word value, (dtoa d).toList = (if d.negative then ['-'] else []) ++ word ∧
      Spells word value ∧ word.length ≤ 24 ∧
      IsOnlyNearest (if d.negative then -value else value) d := by
  by_cases hzero : isZero d = true
  · refine ⟨['0', '.', '0'], 0, ?_, spells_zero, by decide, ?_⟩
    · rw [dtoa, if_pos hzero, String.toList_ofList]
    · have hvalue : d.toRat = 0 := by
        rw [toRat_eq, absolute_eq, isZero_iff.mp hzero]
        simp
      rw [neg_zero, ite_self]
      refine ⟨hfinite, fun other _ hne => ?_⟩
      rw [hvalue] at hne ⊢
      simpa using hne
  · have hpos : 0 < d.significandOf := Nat.pos_of_ne_zero fun heq => hzero (isZero_iff.mpr heq)
    cases hsign : d.negative with
    | false =>
        obtain ⟨buffer, k, value, hdigits, hspells, hlength, hnearest⟩ :=
          grisu2_spells hpos hfinite hsign
        refine ⟨_, value, ?_, hspells, hlength, hnearest⟩
        rw [dtoa_eq hpos hfinite, hsign, if_neg Bool.false_ne_true, if_neg Bool.false_ne_true,
          hdigits]
        exact String.toList_ofList
    | true =>
        obtain ⟨buffer, k, value, hdigits, hspells, hlength, hnearest⟩ :=
          grisu2_spells (by rwa [significandOf_neg]) hfinite.neg (by rw [negative_neg, hsign]; rfl)
        refine ⟨_, value, ?_, hspells, hlength, ?_⟩
        · rw [dtoa_eq hpos hfinite, hsign, if_pos rfl, if_pos rfl, hdigits]
          exact String.toList_ofList
        · have hback := hnearest.neg
          rwa [Double.neg_involutive] at hback

/-- A sign in front of a numeral does not keep it from being read. -/
theorem parseNumber_dtoa {d : Double} (hfinite : d.Finite) :
    ∃ read, parseNumber (dtoa d).toList = some (.double read, []) := by
  obtain ⟨word, value, htext, hspells, -, -⟩ := dtoa_spells hfinite
  rw [htext]
  cases d.negative with
  | true => exact parseUnsigned_spells hspells true
  | false =>
      obtain ⟨significand, power, hword, -⟩ := hspells.decimals
      obtain ⟨read, hread⟩ := parseUnsigned_spells hspells false
      obtain ⟨c, rest, rfl, hc⟩ := unsignedNumerals_head (unsignedDecimals_numerals hword)
      refine ⟨read, ?_⟩
      rw [if_neg Bool.false_ne_true, List.nil_append, parseNumber_of_ne (headNot_cons.mpr ?_)]
      · exact hread
      · rw [beq_eq_false_iff_ne]
        rintro rfl
        exact absurd hc (by decide)

def reread (d : Double) : Double :=
  match parseNumber (dtoa d).toList with
  | some (.double read, _) => read
  | _ => d

theorem finite_of_not_nanOrInf {d : Double} (hd : d.isNanOrInf = false) : d.Finite := by
  rw [isNanOrInf] at hd
  constructor
  · rw [isNan, hd, Bool.false_and]
  · rw [isInfinite, hd, Bool.false_and]

theorem reads_dtoa : Json.Reads dtoa reread := by
  intro d hd
  obtain ⟨read, hread⟩ := parseNumber_dtoa (finite_of_not_nanOrInf hd)
  rw [reread, hread]

theorem exists_decimals {d : Double} (hfinite : d.Finite) :
    ∃ significand power, (dtoa d).toList ∈ decimals d.negative significand power ∧
      IsOnlyNearest (decimalValue d.negative significand power) d := by
  obtain ⟨word, value, htext, hspells, -, hnearest⟩ := dtoa_spells hfinite
  obtain ⟨significand, power, hword, rfl⟩ := hspells.decimals
  refine ⟨significand, power, ?_, hnearest⟩
  rw [htext, decimals]
  split
  · exact Language.append_mem_mul (Set.mem_singleton _) hword
  · exact hword

theorem length_dtoa {d : Double} (hfinite : d.Finite) : (dtoa d).length ≤ 25 := by
  obtain ⟨word, value, htext, -, hlength, -⟩ := dtoa_spells hfinite
  rw [← String.length_toList, htext, List.length_append]
  split
  · rw [List.length_singleton]
    omega
  · rw [List.length_nil]
    omega

/-- All digits of the text make up less than 53 bits, and the power of ten of the last place
is a double. -/
def ShortText (d : Double) : Prop :=
  ∃ significand power, (dtoa d).toList ∈ decimals d.negative significand power ∧
    significand < 2 ^ 53 ∧ -22 ≤ power ∧ power ≤ 22

/-- The reader rounds the number of a short text once, to the double that it is nearest to. -/
theorem reread_of_short {d : Double} (hfinite : d.Finite) (hshort : ShortText d) :
    reread d = d := by
  obtain ⟨significand, power, htext, hsignificand, hlow, hhigh⟩ := hshort
  obtain ⟨read, hread, hsign, hnearest⟩ := parseNumber_decimal htext hsignificand hlow hhigh
  obtain ⟨significand', power', htext', honly⟩ := exists_decimals hfinite
  obtain ⟨rfl, rfl⟩ := decimals_unique htext htext'
  rw [reread, hread]
  exact eq_of_toRat (honly.toRat_eq hnearest) hsign

end Dtoa

open Dtoa Double Json.Reader

/-- A double is written as a numeral of at most 25 characters which stands for a number that
no other double is as near to. -/
theorem dtoa_decimal {d : Double} (hfinite : d.Finite) :
    ∃ significand power, (dtoa d).toList ∈ decimals d.negative significand power ∧
      (dtoa d).length ≤ 25 ∧ IsOnlyNearest (decimalValue d.negative significand power) d := by
  obtain ⟨significand, power, htext, hnearest⟩ := exists_decimals hfinite
  exact ⟨significand, power, htext, length_dtoa hfinite, hnearest⟩

theorem dtoa_decimal_tenth :
    ∃ significand power,
      (dtoa ⟨0x3FB999999999999A⟩).toList ∈ decimals false significand power ∧
      (dtoa ⟨0x3FB999999999999A⟩).length ≤ 25 ∧
      IsOnlyNearest (decimalValue false significand power) ⟨0x3FB999999999999A⟩ := by
  have hsign : Double.negative ⟨0x3FB999999999999A⟩ = false := by decide
  have hfinite : Double.Finite ⟨0x3FB999999999999A⟩ := ⟨by decide, by decide⟩
  rw [← hsign]
  exact dtoa_decimal hfinite

example : dtoa ⟨0x3FB999999999999A⟩ = "0.1" := by
  decide +kernel

/-! Documents. -/

namespace Json

variable {reread : Double → Double}

mutual
theorem shown_eq_self {value : Json} (hkept : ∀ d, .double d ∈ numbers value →
    d.isNanOrInf = false ∧ reread d = d) : shown reread value = value := by
  cases value with
  | number value =>
      cases value with
      | int value => rfl
      | double d =>
          obtain ⟨hd, hread⟩ := hkept d List.mem_cons_self
          rw [shown, shownNumber, hd, if_neg Bool.false_ne_true, hread]
  | array elements => rw [shown, shownElements_eq_self hkept]
  | object members => rw [shown, shownMembers_eq_self hkept]
  | null | bool | string => rfl

theorem shownElements_eq_self {elements : List Json} (hkept : ∀ d,
    .double d ∈ numbersElements elements → d.isNanOrInf = false ∧ reread d = d) :
    shownElements reread elements = elements := by
  cases elements with
  | nil => rfl
  | cons value rest =>
      rw [shownElements, shown_eq_self fun d hd => hkept d (List.mem_append_left _ hd),
        shownElements_eq_self fun d hd => hkept d (List.mem_append_right _ hd)]

theorem shownMembers_eq_self {members : JsonMembers} (hkept : ∀ d,
    .double d ∈ numbersMembers members → d.isNanOrInf = false ∧ reread d = d) :
    shownMembers reread members = members := by
  cases members with
  | nil => rfl
  | cons member rest =>
      obtain ⟨name, value⟩ := member
      rw [shownMembers, shown_eq_self fun d hd => hkept d (List.mem_append_left _ hd),
        shownMembers_eq_self fun d hd => hkept d (List.mem_append_right _ hd)]
end

/-- A document whose doubles are short is read as it was written. -/
theorem shown_of_short {value : Json} (hfinite : value.finite = true)
    (hshort : ∀ d, .double d ∈ value.numbers → ShortText d) :
    value.shown Dtoa.reread = value := by
  apply shown_eq_self
  intro d hmem
  have hd : d.isNanOrInf = false := by
    rw [finite, List.all_eq_true] at hfinite
    simpa [numberFinite] using hfinite _ hmem
  exact ⟨hd, reread_of_short (finite_of_not_nanOrInf hd) (hshort d hmem)⟩

end Json

end Uskit
