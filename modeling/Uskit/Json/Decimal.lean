import Mathlib.Tactic.NormNum
import Uskit.Json.Nearest
import Uskit.Json.Spelling

namespace Uskit

open Uskit.Grammar Uskit.Grammar.Reader

/-! Which numerals with a point or an exponent are read as the nearest double. -/

namespace Json.Reader

/-! The words of such a numeral, with what they stand for. -/

/-- A point, if there are digits behind it. -/
def pointed (part : List Char) : Language Char :=
  {word | part = [] ∧ word = [] ∨ part ∈ digits ∧ word = '.' :: part}

def digitsOf (value : Int) : Language Char :=
  {word | word ∈ digits ∧ value = decimal word 0}

def signedExps (exp : Int) : Language Char :=
  digitsOf exp + ({['+']} * digitsOf exp + {['-']} * digitsOf (-exp))

def omitted (part : List Char) (exp : Int) : Language Char :=
  {word | part ≠ [] ∧ exp = 0 ∧ word = []}

/-- The exponent may be left out behind a fraction. -/
def endings (part : List Char) (exp : Int) : Language Char :=
  omitted part exp + ({['e']} * signedExps exp + {['E']} * signedExps exp)

/-- The digits of all places are those of the significand, and the power is the one of the
last place. -/
def unsignedDecimals (significand : Nat) (power : Int) : Language Char :=
  {word | ∃ whole part point exp ending, word = whole ++ (point ++ ending) ∧
    whole ∈ integers ∧ point ∈ pointed part ∧ ending ∈ endings part exp ∧
    significand = decimal (whole ++ part) 0 ∧ power = exp - part.length}

def decimals (minus : Bool) (significand : Nat) (power : Int) : Language Char :=
  if minus then {['-']} * unsignedDecimals significand power
  else unsignedDecimals significand power

theorem decimal_append (word other : List Char) (i : Nat) :
    decimal (word ++ other) i = decimal other (decimal word i) := by
  induction word generalizing i with
  | nil => rfl
  | cons c word ih => rw [List.cons_append, decimal_cons, decimal_cons, ih]

/-! The loops, as far as nothing is cut off. -/

section Loops

theorem digits_all {word : List Char} (hword : word ∈ digits) :
    ∀ x ∈ word, isDigit x = true := by
  obtain ⟨c, rest, rfl, hc, hrest⟩ := hword
  exact List.forall_mem_cons.mpr ⟨hc, hrest⟩

variable {word : List Char} (hword : ∀ x ∈ word, isDigit x = true)

include hword

theorem takeFraction_exact (fraction : Fraction) (hfits : decimal word fraction.i < 2 ^ 53) :
    ∃ significandDigit, takeFraction fraction word =
      ({ i := decimal word fraction.i
         expFrac := fraction.expFrac - word.length
         significandDigit := significandDigit }, []) := by
  induction word generalizing fraction with
  | nil => exact ⟨fraction.significandDigit, by simp [takeFraction, decimal]⟩
  | cons c word ih =>
      have hc := hword c List.mem_cons_self
      have hi := le_decimal (c :: word) fraction.i
      have hgoes : (!isDigit c || decide (2 ^ 53 - 1 < fraction.i)) = false := by
        rw [hc, Bool.not_true, Bool.false_or, decide_eq_false_iff_not]
        omega
      rw [decimal_cons] at hfits
      obtain ⟨significandDigit, htaken⟩ := ih (List.forall_mem_cons.mp hword).2
        { i := fraction.i * 10 + digit c
          expFrac := fraction.expFrac - 1
          significandDigit := fraction.significandDigit +
            if fraction.i * 10 + digit c ≠ 0 then 1 else 0 } hfits
      refine ⟨significandDigit, ?_⟩
      rw [takeFraction, hgoes, if_neg Bool.false_ne_true, htaken, decimal_cons,
        List.length_cons]
      congr 2
      push_cast
      omega

theorem takePositiveExp_exact {maxExp : Int} (exp : Nat)
    (hfits : (decimal word exp : Int) ≤ maxExp) :
    takePositiveExp maxExp exp word = some (decimal word exp, []) := by
  induction word generalizing exp with
  | nil => rfl
  | cons c word ih =>
      have hc := hword c List.mem_cons_self
      rw [decimal_cons] at hfits ⊢
      have hle := le_decimal word (exp * 10 + digit c)
      rw [takePositiveExp, hc, Bool.not_true, if_neg Bool.false_ne_true, if_neg (by omega)]
      exact ih (List.forall_mem_cons.mp hword).2 _ hfits

theorem takeNegativeExp_exact (exp : Nat) (hfits : decimal word exp < 214748364) :
    takeNegativeExp exp word = (decimal word exp, []) := by
  induction word generalizing exp with
  | nil => rfl
  | cons c word ih =>
      have hc := hword c List.mem_cons_self
      rw [decimal_cons] at hfits ⊢
      have hle := le_decimal word (exp * 10 + digit c)
      rw [takeNegativeExp, hc, Bool.not_true, if_neg Bool.false_ne_true, if_neg (by omega)]
      exact ih (List.forall_mem_cons.mp hword).2 _ hfits

end Loops

/-! The stages. -/

section Stages

theorem takeExp_exact {expFrac exp : Int} (minus : Bool) {word : List Char}
    (hword : word ∈ digitsOf (if minus then -exp else exp))
    (hmax : exp ≤ 308 - expFrac) (hmin : -214748364 < exp) :
    takeExp expFrac minus word = some (exp, []) := by
  obtain ⟨⟨c, word, rfl, hc, hrest⟩, hvalue⟩ := hword
  have hfirst : decimal (c :: word) 0 = decimal word (digit c) := by
    rw [decimal_cons, Nat.zero_mul, Nat.zero_add]
  rw [hfirst] at hvalue
  rw [takeExp, hc, Bool.not_true, if_neg Bool.false_ne_true]
  cases minus with
  | false =>
      rw [if_neg Bool.false_ne_true] at hvalue ⊢
      rw [takePositiveExp_exact hrest _ (by omega)]
      simp [hvalue]
  | true =>
      rw [if_pos rfl] at hvalue ⊢
      rw [takeNegativeExp_exact hrest _ (by omega)]
      simp [← hvalue]

theorem parseSignedExp_exact {expFrac exp : Int} {word : List Char}
    (hword : word ∈ signedExps exp)
    (hmax : exp ≤ 308 - expFrac) (hmin : -214748364 < exp) :
    parseSignedExp expFrac word = some (exp, []) := by
  rcases hword with hword | hword | hword
  · have hread := takeExp_exact false hword hmax hmin
    obtain ⟨⟨c, rest, rfl, hc, -⟩, -⟩ := hword
    rwa [parseSignedExp_digit expFrac hc]
  · obtain ⟨_, rfl, back, hback, rfl⟩ := Language.mem_mul.mp hword
    exact takeExp_exact false hback hmax hmin
  · obtain ⟨_, rfl, back, hback, rfl⟩ := Language.mem_mul.mp hword
    exact takeExp_exact true hback hmax hmin

theorem parseExponent_exact {magnitude : Magnitude} {part word : List Char} {exp : Int}
    (hword : word ∈ endings part exp)
    (hmagnitude : part ≠ [] → magnitude = .decimal magnitude.toDecimal)
    (hmax : exp ≤ 308 - magnitude.toDecimal.expFrac) (hmin : -214748364 < exp) :
    parseExponent magnitude word = some ((.decimal magnitude.toDecimal, exp), []) := by
  have hscale : ∀ back ∈ signedExps exp, scale magnitude back =
      some ((.decimal magnitude.toDecimal, exp), []) := by
    intro back hback
    rw [scale, Reader.map, parseSignedExp_exact hback hmax hmin]
    rfl
  rcases hword with ⟨hpart, rfl, rfl⟩ | hword | hword
  · rw [parseExponent, ← hmagnitude hpart]
  · obtain ⟨_, rfl, back, hback, rfl⟩ := Language.mem_mul.mp hword
    exact (parseExponent_letter magnitude rfl back).trans (hscale back hback)
  · obtain ⟨_, rfl, back, hback, rfl⟩ := Language.mem_mul.mp hword
    exact (parseExponent_letter magnitude rfl back).trans (hscale back hback)

theorem parseFraction_exact {i : Nat} (significandDigit : Nat) {part word other : List Char}
    (hword : word ∈ pointed part) (hother : StopsFraction other)
    (hfits : decimal part i < 2 ^ 53) :
    ∃ magnitude, parseFraction (.int i significandDigit) (word ++ other) =
        some (magnitude, other) ∧
      magnitude.toDecimal.d = Double.ofInt (decimal part i) ∧
      magnitude.toDecimal.expFrac = -part.length ∧
      (part ≠ [] → magnitude = .decimal magnitude.toDecimal) := by
  rcases hword with ⟨rfl, rfl⟩ | ⟨hpart, rfl⟩
  · have hpoint : HeadNot (· == '.') other := hother.mono fun c hc => by simp [hc]
    exact ⟨_, parseFraction_of_headNot _ hpoint, rfl, rfl, fun hne => absurd rfl hne⟩
  · have hdigits := digits_all hpart
    have hstops : HeadNot isDigit other := hother.mono fun c hc => by simp [hc]
    obtain ⟨digitCount, htaken⟩ := takeFraction_exact hdigits
      { i := i, significandDigit := significandDigit } hfits
    let value : Decimal :=
      { d := Double.ofInt (decimal part i)
        expFrac := -part.length
        significandDigit := digitCount }
    have hstart : startFraction (.int i significandDigit) (part ++ other) = (value, other) := by
      rw [startFraction, takeFraction_front, takeWhile_append_of_headNot hdigits hstops,
        dropWhile_append_of_headNot hdigits hstops, htaken]
      simp [value]
    refine ⟨.decimal value, ?_, rfl, rfl, fun _ => rfl⟩
    obtain ⟨c, rest, rfl, hc, -⟩ := hpart
    rw [List.cons_append, parseFraction, List.cons_append, parseDecimals, if_pos hc,
      ← List.cons_append, hstart]
    have hmore : ∀ value, takeDecimals value other = (value, other) := by
      intro value
      cases other with
      | nil => rfl
      | cons c rest =>
          rw [takeDecimals, headNot_cons.mp hstops]
          rfl
    simp only [hmore]

end Stages

/-! The power of ten. -/

section Power

open Double

/-- These powers of ten have at most 53 bits in front of their zeros. -/
theorem pow10_exact : ∀ n ≤ 22, ((pow10 n).isNan = false ∧ (pow10 n).isInfinite = false) ∧
    (pow10 n).toRat = 10 ^ n ∧ (pow10 n).negative = false := by
  decide +kernel

variable {significand : Nat} (hsignificand : significand < 2 ^ 53) {power : Int}
  (hlow : -22 ≤ power) (hhigh : power ≤ 22)

include hsignificand hlow hhigh

/-- Such decimals are far from the ends of the normal range. -/
theorem decimal_range (hpos : 0 < significand) :
    2 ^ (-1022 : Int) ≤ (significand : Rat) * 10 ^ power ∧
      (significand : Rat) * 10 ^ power < 2 ^ (1023 : Int) := by
  have hone : (1 : Rat) ≤ significand := by exact_mod_cast hpos
  have hless : (significand : Rat) < 2 ^ 53 := by exact_mod_cast hsignificand
  have htenLow : (10 : Rat) ^ (-22 : Int) ≤ 10 ^ power := zpow_le_zpow_right₀ (by norm_num) hlow
  have htenHigh : (10 : Rat) ^ power ≤ 10 ^ (22 : Int) := zpow_le_zpow_right₀ (by norm_num) hhigh
  have htenPos : (0 : Rat) < 10 ^ power := zpow_pos (by norm_num) _
  constructor
  · calc (2 : Rat) ^ (-1022 : Int) ≤ 2 ^ (-80 : Int) :=
          zpow_le_zpow_right₀ (by norm_num) (by norm_num)
      _ ≤ 10 ^ (-22 : Int) := by norm_num
      _ ≤ 10 ^ power := htenLow
      _ ≤ significand * 10 ^ power := le_mul_of_one_le_left htenPos.le hone
  · calc (significand : Rat) * 10 ^ power < 2 ^ 53 * 10 ^ power :=
          mul_lt_mul_of_pos_right hless htenPos
      _ ≤ 2 ^ 53 * 10 ^ (22 : Int) := mul_le_mul_of_nonneg_left htenHigh (by norm_num)
      _ < 2 ^ (128 : Int) := by norm_num
      _ ≤ 2 ^ (1023 : Int) := zpow_le_zpow_right₀ (by norm_num) (by norm_num)

theorem isNearest_decimal :
    IsNearest (significand * 10 ^ power) (ofRat (significand * 10 ^ power) false) ∧
      (ofRat (significand * 10 ^ power) false).negative = false := by
  rcases Nat.eq_zero_or_pos significand with rfl | hpos
  · obtain ⟨hfinite, hvalue, hsign⟩ := ofRat_zero false
    rw [Nat.cast_zero, zero_mul]
    exact ⟨IsNearest.of_eq hfinite hvalue, hsign⟩
  · obtain ⟨hmin, hmax⟩ := decimal_range hsignificand hlow hhigh hpos
    have hvalue := pos_of_normal hmin
    rw [← abs_of_pos hvalue] at hmin hmax
    refine ⟨isNearest_ofRat hmin hmax false, ?_⟩
    rw [negative_ofRat hmin hmax, decide_eq_false (not_lt.mpr hvalue.le)]

/-- Significand and power of ten are exact, so that only one operation rounds. -/
theorem strtodNormalPrecision_eq :
    strtodNormalPrecision (ofInt significand) power =
      ofRat (significand * 10 ^ power) false := by
  obtain ⟨hfinite, hvalue⟩ := ofInt_exact significand (by rwa [Int.natAbs_natCast])
  rw [Int.cast_natCast] at hvalue
  have hsign : (ofInt significand).negative = false := by
    have hunit : (-22 : Int) ≤ 0 ∧ (0 : Int) ≤ 22 := by decide
    have hnearest := (isNearest_decimal hsignificand hunit.1 hunit.2).2
    rwa [zpow_zero, mul_one] at hnearest
  rw [strtodNormalPrecision, if_neg (by omega), fastPath, if_neg (by omega)]
  split
  case isTrue hpower =>
    obtain ⟨hten, htenValue, htenSign⟩ := pow10_exact power.toNat (by omega)
    rw [mul_of_finite hfinite hten, hvalue, htenValue, hsign, htenSign, ← zpow_natCast,
      Int.toNat_of_nonneg hpower]
    rfl
  case isFalse hpower =>
    obtain ⟨hten, htenValue, htenSign⟩ := pow10_exact (-power).toNat (by omega)
    have hne : (pow10 (-power).toNat).toRat ≠ 0 := by
      rw [htenValue]
      exact pow_ne_zero _ (by decide)
    rw [div_of_finite hfinite hten hne, hvalue, htenValue, hsign, htenSign, ← zpow_natCast,
      Int.toNat_of_nonneg (by omega), zpow_neg, div_inv_eq_mul]
    rfl

end Power

/-! Numerals and documents. -/

section Decimals

variable {significand : Nat} {power : Int} {minus : Bool} {word : List Char}

theorem pointed_fractions {part : List Char} (hword : word ∈ pointed part) :
    word ∈ fractions := by
  rcases hword with ⟨-, rfl⟩ | ⟨hpart, rfl⟩
  · exact .inl rfl
  · exact .inr (Language.append_mem_mul (Set.mem_singleton _) hpart)

theorem signedExps_signedDigits {exp : Int} (hword : word ∈ signedExps exp) :
    word ∈ signedDigits := by
  rcases hword with hword | hword | hword
  · exact .inl hword.1
  · obtain ⟨_, rfl, back, hback, rfl⟩ := Language.mem_mul.mp hword
    exact .inr (.inl (Language.append_mem_mul (Set.mem_singleton _) hback.1))
  · obtain ⟨_, rfl, back, hback, rfl⟩ := Language.mem_mul.mp hword
    exact .inr (.inr (Language.append_mem_mul (Set.mem_singleton _) hback.1))

theorem endings_exponents {part : List Char} {exp : Int} (hword : word ∈ endings part exp) :
    word ∈ exponents := by
  rcases hword with ⟨-, -, rfl⟩ | hword | hword
  · exact .inl rfl
  · obtain ⟨_, rfl, back, hback, rfl⟩ := Language.mem_mul.mp hword
    exact .inr (.inl (Language.append_mem_mul (Set.mem_singleton _)
      (signedExps_signedDigits hback)))
  · obtain ⟨_, rfl, back, hback, rfl⟩ := Language.mem_mul.mp hword
    exact .inr (.inr (Language.append_mem_mul (Set.mem_singleton _)
      (signedExps_signedDigits hback)))

theorem stopsFraction_of_endings {part : List Char} {exp : Int} (hword : word ∈ endings part exp) :
    StopsFraction word := by
  have hstops := stopsFraction_of_exponents (endings_exponents hword) (headNot_nil _)
  rwa [List.append_nil] at hstops

theorem unsignedDecimals_numerals (hword : word ∈ unsignedDecimals significand power) :
    word ∈ unsignedNumerals := by
  obtain ⟨whole, part, point, exp, ending, rfl, hwhole, hpoint, hending, -⟩ := hword
  exact Language.append_mem_mul hwhole
    (Language.append_mem_mul (pointed_fractions hpoint) (endings_exponents hending))

theorem integers_all (hword : word ∈ integers) : ∀ x ∈ word, isDigit x = true := by
  rcases hword with rfl | ⟨c, rest, rfl, hc, hrest⟩
  · exact List.forall_mem_singleton.mpr (by decide)
  · rw [isNonzero, Bool.and_eq_true] at hc
    exact List.forall_mem_cons.mpr ⟨hc.2, hrest⟩

theorem digits_split {front back front' back' : List Char}
    (hfront : ∀ x ∈ front, isDigit x = true) (hfront' : ∀ x ∈ front', isDigit x = true)
    (hback : HeadNot isDigit back) (hback' : HeadNot isDigit back')
    (heq : front ++ back = front' ++ back') : front = front' ∧ back = back' := by
  have htake := congrArg (List.takeWhile isDigit) heq
  have hdrop := congrArg (List.dropWhile isDigit) heq
  rw [takeWhile_append_of_headNot hfront hback, takeWhile_append_of_headNot hfront' hback'] at htake
  rw [dropWhile_append_of_headNot hfront hback, dropWhile_append_of_headNot hfront' hback'] at hdrop
  exact ⟨htake, hdrop⟩

theorem pointed_split {part part' point point' ending ending' : List Char}
    (hpoint : point ∈ pointed part) (hpoint' : point' ∈ pointed part')
    (hending : StopsFraction ending) (hending' : StopsFraction ending')
    (heq : point ++ ending = point' ++ ending') : part = part' ∧ ending = ending' := by
  rcases hpoint with ⟨rfl, rfl⟩ | ⟨hpart, rfl⟩ <;>
    rcases hpoint' with ⟨rfl, rfl⟩ | ⟨hpart', rfl⟩
  · exact ⟨rfl, heq⟩
  · rw [List.nil_append] at heq
    rw [heq] at hending
    exact absurd (headNot_cons.mp hending) (by decide)
  · rw [List.nil_append] at heq
    rw [← heq] at hending'
    exact absurd (headNot_cons.mp hending') (by decide)
  · exact digits_split (digits_all hpart) (digits_all hpart')
      (hending.mono fun c hc => by simp [hc]) (hending'.mono fun c hc => by simp [hc])
      (List.cons.inj heq).2

def expValue : List Char → Int
  | '+' :: rest => decimal rest 0
  | '-' :: rest => -decimal rest 0
  | word => decimal word 0

theorem eq_expValue {exp : Int} (hword : word ∈ signedExps exp) : exp = expValue word := by
  rcases hword with ⟨⟨c, rest, rfl, hc, -⟩, hvalue⟩ | hword | hword
  · unfold expValue
    split
    case h_1 heq =>
      cases heq
      exact absurd hc (by decide)
    case h_2 heq =>
      cases heq
      exact absurd hc (by decide)
    case h_3 => exact hvalue
  · obtain ⟨_, rfl, back, ⟨-, hvalue⟩, rfl⟩ := Language.mem_mul.mp hword
    exact hvalue
  · obtain ⟨_, rfl, back, ⟨-, hvalue⟩, rfl⟩ := Language.mem_mul.mp hword
    exact neg_eq_iff_eq_neg.mp hvalue

theorem eq_endingValue {part : List Char} {exp : Int} (hword : word ∈ endings part exp) :
    exp = if word = [] then 0 else expValue word.tail := by
  rcases hword with ⟨-, rfl, rfl⟩ | hword | hword
  · rfl
  · obtain ⟨_, rfl, back, hback, rfl⟩ := Language.mem_mul.mp hword
    exact eq_expValue hback
  · obtain ⟨_, rfl, back, hback, rfl⟩ := Language.mem_mul.mp hword
    exact eq_expValue hback

/-- A numeral has one significand and one power. -/
theorem unsignedDecimals_unique {significand' : Nat} {power' : Int}
    (hword : word ∈ unsignedDecimals significand power)
    (hword' : word ∈ unsignedDecimals significand' power') :
    significand = significand' ∧ power = power' := by
  obtain ⟨whole, part, point, exp, ending, rfl, hwhole, hpoint, hending, rfl, rfl⟩ := hword
  obtain ⟨whole', part', point', exp', ending', heq, hwhole', hpoint', hending', rfl, rfl⟩ := hword'
  have hstops := stopsFraction_of_endings hending
  have hstops' := stopsFraction_of_endings hending'
  obtain ⟨rfl, hrest⟩ := digits_split (integers_all hwhole) (integers_all hwhole')
    (headNot_of_fractions (pointed_fractions hpoint) (hstops.mono fun c hc => by simp [hc]))
    (headNot_of_fractions (pointed_fractions hpoint') (hstops'.mono fun c hc => by simp [hc])) heq
  obtain ⟨rfl, rfl⟩ := pointed_split hpoint hpoint' hstops hstops' hrest
  rw [eq_endingValue hending, eq_endingValue hending']
  exact ⟨rfl, rfl⟩

theorem decimals_unique {significand' : Nat} {power' : Int}
    (hword : word ∈ decimals minus significand power)
    (hword' : word ∈ decimals minus significand' power') :
    significand = significand' ∧ power = power' := by
  cases minus with
  | false => exact unsignedDecimals_unique hword hword'
  | true =>
      obtain ⟨_, rfl, back, hback, rfl⟩ := Language.mem_mul.mp hword
      obtain ⟨_, rfl, back', hback', heq⟩ := Language.mem_mul.mp hword'
      cases heq
      exact unsignedDecimals_unique hback hback'

theorem parseUnsigned_decimal (hword : word ∈ unsignedDecimals significand power)
    (hsignificand : significand < 2 ^ 53) (hlow : -22 ≤ power) (hhigh : power ≤ 22)
    (minus : Bool) :
    parseUnsigned minus word = some (.double
      (if minus then (Double.ofRat (significand * 10 ^ power) false).neg
        else Double.ofRat (significand * 10 ^ power) false), []) := by
  obtain ⟨whole, part, point, exp, ending, rfl, hwhole, hpoint, hending, hsum, hpower⟩ := hword
  rw [decimal_append] at hsum
  have hle : decimal whole 0 ≤ significand := hsum ▸ le_decimal part _
  have hstops := stopsFraction_of_endings hending
  have hlargest : decimal whole 0 ≤ largest minus := by
    have hlimit : 2 ^ 53 ≤ largest minus := by cases minus <;> decide
    omega
  obtain ⟨significandDigit, rest, htaken⟩ := (parseMagnitude_int hwhole).mpr ⟨hlargest, rfl⟩
  have hrest := parseMagnitude_whole minus whole hwhole [] _ rest (headNot_nil _)
    (by rwa [List.append_nil])
  rw [hrest] at htaken
  have hmagnitude := (parseMagnitude_takes minus).append htaken
    (headNot_of_fractions (pointed_fractions hpoint) (hstops.mono fun c hc => by simp [hc]))
  obtain ⟨magnitude, hfraction, hd, hexpFrac, hdecimal⟩ :=
    parseFraction_exact significandDigit hpoint hstops (by rwa [← hsum])
  have hexponent := parseExponent_exact hending hdecimal (by omega) (by omega)
  have hscale : exp + magnitude.toDecimal.expFrac = power := by omega
  simp only [parseUnsigned, bind, hmagnitude, hfraction, hexponent, Option.bind_some,
    toNumber, hscale, hd, ← hsum, strtodNormalPrecision_eq hsignificand hlow hhigh]

def decimalValue (minus : Bool) (significand : Nat) (power : Int) : Rat :=
  if minus then -(significand * 10 ^ power) else significand * 10 ^ power

theorem parseNumber_decimal (hword : word ∈ decimals minus significand power)
    (hsignificand : significand < 2 ^ 53) (hlow : -22 ≤ power) (hhigh : power ≤ 22) :
    ∃ d, parseNumber word = some (.double d, []) ∧ d.negative = minus ∧
      Double.IsNearest (decimalValue minus significand power) d := by
  obtain ⟨hnearest, hsign⟩ := isNearest_decimal hsignificand hlow hhigh
  cases minus with
  | false =>
      have hread := parseUnsigned_decimal hword hsignificand hlow hhigh false
      rw [if_neg Bool.false_ne_true] at hread
      obtain ⟨c, rest, rfl, hc⟩ := unsignedNumerals_head (unsignedDecimals_numerals hword)
      refine ⟨_, ?_, hsign, hnearest⟩
      rw [parseNumber_of_ne (headNot_cons.mpr ?_)]
      · exact hread
      · rw [beq_eq_false_iff_ne]
        rintro rfl
        exact absurd hc (by decide)
  | true =>
      obtain ⟨_, rfl, back, hback, rfl⟩ := Language.mem_mul.mp hword
      have hread := parseUnsigned_decimal hback hsignificand hlow hhigh true
      rw [if_pos rfl] at hread
      refine ⟨_, hread, ?_, hnearest.neg⟩
      rw [Double.negative_neg, hsign]
      rfl

/-- A numeral with a point or an exponent of which all digits make up less than 53 bits,
and the power of ten of its last place is at most 22 either way, is read as the double
nearest to its value. -/
theorem parseJson_decimal {text : String}
    (htext : (cStr text).toList ∈ blanks * (decimals minus significand power * blanks))
    (hsignificand : significand < 2 ^ 53) (hlow : -22 ≤ power) (hhigh : power ≤ 22) :
    ∃ d, parseJson text = some (.number (.double d)) ∧ d.negative = minus ∧
      Double.IsNearest (decimalValue minus significand power) d := by
  obtain ⟨gap, hgap, rest, hrest, happend⟩ := Language.mem_mul.mp htext
  obtain ⟨word, hword, gap', hgap', rfl⟩ := Language.mem_mul.mp hrest
  obtain ⟨d, hread, hsign, hnearest⟩ :=
    parseNumber_decimal hword hsignificand hlow hhigh
  refine ⟨d, ?_, hsign, hnearest⟩
  rw [parseJson, parse_eq_some_iff, ← happend]
  refine Language.append_mem_mul hgap (Language.append_mem_mul ?_ hgap')
  rw [spellings]
  exact parseNumber_iff.mp hread

theorem parseJson_decimal_negative :
    ∃ d, parseJson " -12.50e-3" = some (.number (.double d)) ∧ d.negative = true ∧
      Double.IsNearest (decimalValue true 1250 (-5)) d := by
  refine parseJson_decimal ?_ (by decide) (by decide) (by decide)
  have htext : (cStr " -12.50e-3").toList =
      [' '] ++ (['-'] ++ (['1', '2'] ++ (['.', '5', '0'] ++ ['e', '-', '3'])) ++ []) := by
    decide
  have hwhole : ['1', '2'] ∈ integers := .inr ⟨'1', ['2'], rfl, by decide,
    List.forall_mem_singleton.mpr (by decide)⟩
  have hpart : ['5', '0'] ∈ digits :=
    ⟨'5', ['0'], rfl, by decide, List.forall_mem_singleton.mpr (by decide)⟩
  have hending : ['e', '-', '3'] ∈ endings ['5', '0'] (-3) := by
    refine .inr (.inl (Language.append_mem_mul (Set.mem_singleton ['e']) (.inr (.inr ?_))))
    exact Language.append_mem_mul (Set.mem_singleton ['-'])
      ⟨⟨'3', [], rfl, by decide, List.forall_mem_nil _⟩, by decide⟩
  have hgap : [' '] ∈ blanks := List.forall_mem_cons.mpr ⟨by decide, List.forall_mem_nil _⟩
  rw [htext]
  refine Language.append_mem_mul hgap (Language.append_mem_mul ?_ (List.forall_mem_nil _))
  exact Language.append_mem_mul (Set.mem_singleton ['-'])
    ⟨_, ['5', '0'], _, -3, _, rfl, hwhole, .inr ⟨hpart, rfl⟩, hending, by decide, by decide⟩

end Decimals

end Json.Reader

end Uskit
