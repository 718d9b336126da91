import Uskit.Json.Reader

namespace Uskit

open Uskit.Grammar Uskit.Grammar.Reader

/-! Which texts the reader takes for numbers, and which integers it reads exactly. -/

namespace Json.Reader

/-! The grammar of numbers. -/

def digits : Language Char :=
  headed isDigit isDigit

def isNonzero (c : Char) : Bool :=
  c != '0' && isDigit c

/-- No zero stands in front of other digits. -/
def integers : Language Char :=
  {['0']} + headed isNonzero isDigit

def fractions : Language Char :=
  1 + {['.']} * digits

def signedDigits : Language Char :=
  digits + ({['+']} * digits + {['-']} * digits)

def exponents : Language Char :=
  1 + ({['e']} * signedDigits + {['E']} * signedDigits)

def unsignedNumerals : Language Char :=
  integers * (fractions * exponents)

def numerals : Language Char :=
  unsignedNumerals + {['-']} * unsignedNumerals

/-- A numeral can go on in the character. -/
def goesOn (c : Char) : Bool :=
  isDigit c || c == '.' || isExponentSign c

/-- The text does not go on a numeral in front of it. -/
abbrev Stops : List Char → Prop :=
  HeadNot goesOn

/-! The digits that an integer takes. -/

section Int

variable {limit : Nat} {last : Char} {part : IntPart} {word other : List Char}

theorem digit_lt {c : Char} (hc : isDigit c = true) : digit c < 10 := by
  simp only [isDigit, Bool.and_eq_true, decide_eq_true_eq, Char.le_def,
    UInt32.le_iff_toNat_le] at hc
  have hnine : ('9' : Char).val.toNat = 57 := rfl
  have hzero : ('0' : Char).toNat = 48 := rfl
  have hval : c.toNat = c.val.toNat := rfl
  rw [digit, hzero, hval]
  omega

theorem digit_lt_digit {c d : Char} (hc : isDigit c = true) :
    c < d ↔ digit c < digit d := by
  simp only [isDigit, Bool.and_eq_true, decide_eq_true_eq, Char.le_def,
    UInt32.le_iff_toNat_le] at hc
  have hzero : ('0' : Char).val.toNat = 48 := rfl
  have hshift : ('0' : Char).toNat = 48 := rfl
  have hc' : c.toNat = c.val.toNat := rfl
  have hd' : d.toNat = d.val.toNat := rfl
  rw [Char.lt_def, UInt32.lt_iff_toNat_lt, digit, digit, hshift, hc', hd']
  omega

/-- The value of digits behind those that are read. -/
abbrev decimal (word : List Char) (i : Nat) : Nat :=
  Nat.ofDigitChars 10 word i

theorem decimal_cons (c : Char) (word : List Char) (i : Nat) :
    decimal (c :: word) i = decimal word (i * 10 + digit c) := by
  rw [decimal, Nat.ofDigitChars_cons, Nat.mul_comm]
  rfl

theorem le_decimal (word : List Char) (i : Nat) : i ≤ decimal word i := by
  induction word generalizing i with
  | nil => rw [decimal, Nat.ofDigitChars_nil]
  | cons c word ih =>
      rw [decimal_cons]
      exact Nat.le_trans (by omega) (ih _)

theorem takeInt_front (text : List Char) :
    takeInt limit last part text =
      ((takeInt limit last part (text.takeWhile isDigit)).1,
        (takeInt limit last part (text.takeWhile isDigit)).2 ++ text.dropWhile isDigit) := by
  induction text generalizing part with
  | nil => rfl
  | cons c rest ih =>
      cases hc : isDigit c with
      | false => simp [takeInt, hc]
      | true =>
          rw [List.takeWhile_cons_of_pos hc, List.dropWhile_cons_of_pos hc, takeInt, takeInt]
          simp only [hc, Bool.not_true, Bool.false_eq_true, if_false]
          split
          · rw [List.cons_append, List.takeWhile_append_dropWhile]
          · exact ih

/-- A digit does not fit if it would take the integer over the bound. -/
theorem overflows_iff (hlast : isDigit last = true) {c : Char} (hc : isDigit c = true)
    (i : Nat) :
    (limit ≤ i ∧ (i ≠ limit ∨ last < c)) ↔ limit * 10 + digit last < i * 10 + digit c := by
  have hlt := digit_lt hc
  have hlt' := digit_lt hlast
  rw [digit_lt_digit hlast]
  omega

/-- Digits are left exactly if the integer of all of them is over the bound. -/
theorem takeInt_digits (hlast : isDigit last = true)
    (hword : ∀ x ∈ word, isDigit x = true) (hpart : part.overflow = false)
    (hfits : part.i ≤ limit * 10 + digit last) {taken : IntPart} {rest : List Char}
    (htake : takeInt limit last part word = (taken, rest)) :
    (∀ x ∈ rest, isDigit x = true) ∧ decimal rest taken.i = decimal word part.i ∧
      taken.i ≤ limit * 10 + digit last ∧
      if taken.overflow then limit * 10 + digit last < decimal rest taken.i else rest = [] := by
  induction word generalizing part with
  | nil =>
      cases htake
      exact ⟨nofun, rfl, hfits, by rw [hpart]; rfl⟩
  | cons c word ih =>
      have hc := hword c List.mem_cons_self
      rw [takeInt, hc] at htake
      simp only [Bool.not_true, Bool.false_eq_true, if_false] at htake
      split at htake
      · rename_i hover
        rw [overflows_iff hlast hc] at hover
        cases htake
        refine ⟨hword, rfl, hfits, ?_⟩
        rw [if_pos rfl, decimal_cons]
        exact Nat.lt_of_lt_of_le hover (le_decimal word _)
      · rename_i hover
        rw [overflows_iff hlast hc, Nat.not_lt] at hover
        rw [decimal_cons]
        exact ih (List.forall_mem_cons.mp hword).2 (by exact hpart) (by exact hover) htake

/-- The largest integer that is read as such. -/
def largest (minus : Bool) : Nat :=
  if minus then 2 ^ 63 else 2 ^ 64 - 1

/-- What the two loops make of the digits behind the first one. -/
theorem parseInt_digits (minus : Bool) {c : Char} (hc : isNonzero c = true)
    (hword : ∀ x ∈ word, isDigit x = true) :
    ∃ part rest, (∀ x ∈ rest, isDigit x = true) ∧
      (∀ other, HeadNot isDigit other →
        parseInt minus (c :: (word ++ other)) = some (part, rest ++ other)) ∧
      decimal rest part.i = decimal word (digit c) ∧
      if part.overflow then largest minus < decimal rest part.i
      else rest = [] ∧ part.i ≤ largest minus := by
  rw [isNonzero, Bool.and_eq_true, bne_iff_ne] at hc
  obtain ⟨hzero, hdigit⟩ := hc
  let last := if minus then '8' else '5'
  let limit := if minus then 214748364 else 429496729
  let limit64 := if minus then 0x0ccccccccccccccc else 0x1999999999999999
  have hlast : isDigit last = true := by cases minus <;> decide
  have hlargest : limit64 * 10 + digit last = largest minus := by cases minus <;> decide
  have hfits : digit c ≤ limit * 10 + digit last := by
    have hten := digit_lt hdigit
    have hlimit : 10 ≤ limit := by cases minus <;> decide
    omega
  have hlimits : limit * 10 + digit last ≤ limit64 * 10 + digit last := by
    cases minus <;> decide
  have hparse : ∀ other, HeadNot isDigit other →
      parseInt minus (c :: (word ++ other)) =
        let taken := takeInt limit last { i := digit c } word
        if taken.1.overflow then
          some (takeInt limit64 last { taken.1 with overflow := false } (taken.2 ++ other))
        else some (taken.1, taken.2 ++ other) := by
    intro other hother
    rw [parseInt, if_neg hzero, if_pos hdigit]
    simp only
    rw [takeInt_front, takeWhile_append_of_headNot hword hother,
      dropWhile_append_of_headNot hword hother]
  generalize htaken : takeInt limit last { i := digit c } word = taken at hparse
  obtain ⟨taken, rest⟩ := taken
  obtain ⟨hrest, hdecimal, hle, hover⟩ :=
    takeInt_digits hlast hword rfl hfits htaken
  cases hoverflow : taken.overflow with
  | false =>
      rw [hoverflow] at hover
      refine ⟨taken, rest, hrest, ?_, hdecimal, ?_⟩
      · intro other hother
        simp only [hparse other hother, hoverflow, Bool.false_eq_true, if_false]
      · rw [hoverflow]
        exact ⟨hover, by omega⟩
  | true =>
      generalize hmore : takeInt limit64 last { taken with overflow := false } rest = more
      obtain ⟨more, left⟩ := more
      obtain ⟨hleft, hdecimal', hle', hover'⟩ :=
        takeInt_digits hlast hrest (by rfl) (by exact hle.trans hlimits) hmore
      refine ⟨more, left, hleft, ?_, hdecimal'.trans hdecimal, ?_⟩
      · intro other hother
        rw [hparse other hother]
        simp only [hoverflow, if_true]
        rw [takeInt_front, takeWhile_append_of_headNot hrest hother,
          dropWhile_append_of_headNot hrest hother, hmore]
      · rw [hlargest] at hover' hle'
        cases hmoreOver : more.overflow with
        | false =>
            rw [hmoreOver] at hover'
            exact ⟨hover', hle'⟩
        | true =>
            rw [hmoreOver] at hover'
            exact hover'

end Int

/-! The stages of a numeral, each with its words. -/

section Stages

theorem takeBigInt_spans (d : Double) : Spans (takeBigInt d) isDigit := by
  intro text
  induction text generalizing d with
  | nil => rfl
  | cons c rest ih =>
      cases hc : isDigit c with
      | false => simp [takeBigInt, hc]
      | true =>
          rw [List.takeWhile_cons_of_pos hc, List.dropWhile_cons_of_pos hc, takeBigInt,
            takeBigInt]
          simp only [hc, Bool.not_true, Bool.false_eq_true, if_false]
          split
          · rfl
          · exact ih _

theorem takeFraction_front (fraction : Fraction) (text : List Char) :
    takeFraction fraction text =
      ((takeFraction fraction (text.takeWhile isDigit)).1,
        (takeFraction fraction (text.takeWhile isDigit)).2 ++ text.dropWhile isDigit) := by
  induction text generalizing fraction with
  | nil => rfl
  | cons c rest ih =>
      cases hc : isDigit c with
      | false => simp [takeFraction, hc]
      | true =>
          rw [List.takeWhile_cons_of_pos hc, List.dropWhile_cons_of_pos hc, takeFraction,
            takeFraction]
          simp only [hc, Bool.not_true, Bool.false_or]
          split
          · rw [List.cons_append, List.takeWhile_append_dropWhile]
          · exact ih _

theorem takeFraction_digits (fraction : Fraction) {word : List Char}
    (hword : ∀ x ∈ word, isDigit x = true) :
    ∀ x ∈ (takeFraction fraction word).2, isDigit x = true := by
  induction word generalizing fraction with
  | nil => exact nofun
  | cons c word ih =>
      rw [takeFraction]
      split
      · exact hword
      · exact ih _ (List.forall_mem_cons.mp hword).2

theorem startFraction_digits (magnitude : Magnitude) {word : List Char}
    (hword : ∀ x ∈ word, isDigit x = true) :
    ∃ value rest, (∀ x ∈ rest, isDigit x = true) ∧
      ∀ other, HeadNot isDigit other →
        startFraction magnitude (word ++ other) = (value, rest ++ other) := by
  cases magnitude with
  | int i significandDigit =>
      let taken := startFraction (.int i significandDigit) word
      refine ⟨taken.1, taken.2, takeFraction_digits _ hword, ?_⟩
      intro other hother
      rw [startFraction, takeFraction_front, takeWhile_append_of_headNot hword hother,
        dropWhile_append_of_headNot hword hother]
      rfl
  | decimal value => exact ⟨value, word, hword, fun _ _ => rfl⟩

theorem takeDecimals_spans (value : Decimal) :
    Spans (fun text => some (takeDecimals value text)) isDigit := by
  intro text
  induction text generalizing value with
  | nil => rfl
  | cons c rest ih =>
      cases hc : isDigit c with
      | false => simp [takeDecimals, hc]
      | true =>
          simp only [List.takeWhile_cons_of_pos hc, List.dropWhile_cons_of_pos hc,
            takeDecimals, hc, Bool.not_true, Bool.false_eq_true, if_false]
          split
          · exact ih _
          · exact ih _

theorem takeNegativeExp_spans (exp : Nat) :
    Spans (fun text => some (takeNegativeExp exp text)) isDigit := by
  intro text
  induction text generalizing exp with
  | nil => rfl
  | cons c rest ih =>
      cases hc : isDigit c with
      | false => simp [takeNegativeExp, hc]
      | true =>
          simp only [List.takeWhile_cons_of_pos hc, List.dropWhile_cons_of_pos hc,
            takeNegativeExp, hc, Bool.not_true, Bool.false_eq_true, if_false]
          split
          · rfl
          · exact ih _

theorem takePositiveExp_spans (maxExp : Int) (exp : Nat) :
    Spans (takePositiveExp maxExp exp) isDigit := by
  intro text
  induction text generalizing exp with
  | nil => rfl
  | cons c rest ih =>
      cases hc : isDigit c with
      | false => simp [takePositiveExp, hc]
      | true =>
          simp only [List.takeWhile_cons_of_pos hc, List.dropWhile_cons_of_pos hc,
            takePositiveExp, hc, Bool.not_true, Bool.false_eq_true, if_false]
          split
          · rfl
          · exact ih _

theorem parseMagnitude_spans (minus : Bool) {c : Char} (hc : isNonzero c = true) :
    Spans (fun text => parseMagnitude minus (c :: text)) isDigit := by
  intro text
  have hword : ∀ x ∈ text.takeWhile isDigit, isDigit x = true :=
    fun x hx => List.mem_takeWhile_imp hx
  obtain ⟨part, rest, hrest, hparse, -, hover⟩ := parseInt_digits minus hc hword
  have hfull := hparse _ (headNot_dropWhile isDigit text)
  have halone := hparse [] (headNot_nil isDigit)
  rw [List.takeWhile_append_dropWhile] at hfull
  rw [List.append_nil] at halone
  have hbig := fun d => (takeBigInt_spans d).append hrest (headNot_dropWhile isDigit text)
  have hbig' := fun d => (takeBigInt_spans d).append hrest (headNot_nil isDigit)
  simp only [parseMagnitude, hfull, halone, bind, Option.bind_some]
  cases hoverflow : part.overflow with
  | false =>
      rw [hoverflow] at hover
      simp only [Bool.false_eq_true, if_false, hover.1, List.nil_append, Option.map_some]
  | true =>
      simp only [if_true, hbig, hbig']
      cases takeBigInt (Double.ofInt part.i) rest <;> rfl

theorem parseMagnitude_takes (minus : Bool) :
    (parseMagnitude minus).Takes integers (HeadNot isDigit) := by
  intro text
  cases text with
  | nil => exact nofun
  | cons c rest =>
      by_cases hzero : c = '0'
      · subst hzero
        intro value left hread
        cases hread
        exact ⟨['0'], .inl rfl, rfl, fun _ _ => rfl⟩
      cases hdigit : isDigit c with
      | false =>
          intro value left hread
          simp [parseMagnitude, parseInt, hzero, hdigit] at hread
      | true =>
          have hc : isNonzero c = true := by
            rw [isNonzero, hdigit, Bool.and_true, bne_iff_ne]
            exact hzero
          exact (TakesAt.of_headed hc (parseMagnitude_spans minus hc)).mono
            (fun word hword => .inr hword) fun _ h => h

theorem parseMagnitude_whole (minus : Bool) :
    (parseMagnitude minus).Whole integers (HeadNot isDigit) := by
  refine Whole.union ?_ (Whole.of_headed fun c hc => parseMagnitude_spans minus hc)
  rintro word rfl other value rest - hread
  cases hread
  rfl

theorem parseDecimals_spans (magnitude : Magnitude) {c : Char} (hc : isDigit c = true) :
    Spans (fun text => parseDecimals magnitude (c :: text)) isDigit := by
  intro text
  have hword : ∀ x ∈ c :: text.takeWhile isDigit, isDigit x = true :=
    List.forall_mem_cons.mpr ⟨hc, fun x hx => List.mem_takeWhile_imp hx⟩
  obtain ⟨value, rest, hrest, hstart⟩ := startFraction_digits magnitude hword
  have hfull := hstart _ (headNot_dropWhile isDigit text)
  have halone := hstart [] (headNot_nil isDigit)
  have hspans := takeDecimals_spans value
  have hmore := hspans.append hrest (headNot_dropWhile isDigit text)
  have hmore' := hspans.append hrest (headNot_nil isDigit)
  rw [List.cons_append, List.takeWhile_append_dropWhile] at hfull
  rw [List.append_nil] at halone
  simp only [Option.map_some, Option.some.injEq] at hmore hmore'
  simp only [parseDecimals, hc, if_true, hfull, halone, hmore, hmore', Option.map_some]

theorem parseDecimals_takes (magnitude : Magnitude) :
    (parseDecimals magnitude).Takes digits (HeadNot isDigit) := by
  intro text
  cases text with
  | nil => exact nofun
  | cons c rest =>
      cases hc : isDigit c with
      | false =>
          intro value left hread
          simp [parseDecimals, hc] at hread
      | true => exact TakesAt.of_headed hc (parseDecimals_spans magnitude hc)

theorem parseDecimals_whole (magnitude : Magnitude) :
    (parseDecimals magnitude).Whole digits (HeadNot isDigit) :=
  Whole.of_headed fun _ hc => parseDecimals_spans magnitude hc

theorem parseFraction_of_headNot (magnitude : Magnitude) {text : List Char}
    (htext : HeadNot (· == '.') text) :
    parseFraction magnitude text = some (magnitude, text) := by
  rw [parseFraction]
  rintro rest rfl
  exact absurd (headNot_cons.mp htext) (by decide)

/-- What goes on in a fraction. -/
abbrev StopsFraction : List Char → Prop :=
  HeadNot fun c => c == '.' || isDigit c

theorem parseFraction_takes (magnitude : Magnitude) :
    (parseFraction magnitude).Takes fractions StopsFraction := by
  intro text
  by_cases hpoint : HeadNot (· == '.') text
  · refine TakesAt.mono (TakesAt.empty (magnitude) fun other hother => ?_)
      (fun word hword => .inl hword) fun _ h => h
    apply parseFraction_of_headNot
    rcases hother with hother | hother
    · exact hpoint.congr hother
    · exact hother.mono fun c hc => by simp [hc]
  · obtain ⟨rest, rfl⟩ : ∃ rest, text = '.' :: rest := by
      cases text with
      | nil => exact absurd (headNot_nil _) hpoint
      | cons c rest => simpa using hpoint
    refine TakesAt.mono (TakesAt.cons (fun _ => rfl) (parseDecimals_takes magnitude rest))
      (fun word hword => .inr hword) fun text htext => ?_
    exact htext.mono fun c hc => by simp [hc]

theorem parseFraction_whole (magnitude : Magnitude) :
    (parseFraction magnitude).Whole fractions StopsFraction := by
  refine Whole.union (Whole.empty ?_) (Whole.cons (fun _ => rfl) ?_)
  · intro other value rest hother hread
    rw [parseFraction_of_headNot magnitude (hother.mono fun c hc => by simp [hc])] at hread
    cases hread
    rfl
  · exact (parseDecimals_whole magnitude).mono fun text htext =>
      htext.mono fun c hc => by simp [hc]

theorem takeExp_spans (expFrac : Int) (minus : Bool) {c : Char} (hc : isDigit c = true) :
    Spans (fun text => takeExp expFrac minus (c :: text)) isDigit := by
  intro text
  cases minus with
  | false =>
      have hspans := takePositiveExp_spans (308 - expFrac) (digit c) text
      simp only [takeExp, hc, Bool.not_true, Bool.false_eq_true, if_false]
      rw [hspans]
      cases takePositiveExp (308 - expFrac) (digit c) (text.takeWhile isDigit) <;> rfl
  | true =>
      have hspans := takeNegativeExp_spans (digit c) text
      simp only [Option.map_some, Option.some.injEq] at hspans
      simp only [takeExp, hc, Bool.not_true, Bool.false_eq_true, if_false, if_true, hspans,
        Option.map_some]

theorem takeExp_takes (expFrac : Int) (minus : Bool) :
    (takeExp expFrac minus).Takes digits (HeadNot isDigit) := by
  intro text
  cases text with
  | nil => exact nofun
  | cons c rest =>
      cases hc : isDigit c with
      | false =>
          intro value left hread
          simp [takeExp, hc] at hread
      | true => exact TakesAt.of_headed hc (takeExp_spans expFrac minus hc)

theorem takeExp_whole (expFrac : Int) (minus : Bool) :
    (takeExp expFrac minus).Whole digits (HeadNot isDigit) :=
  Whole.of_headed fun _ hc => takeExp_spans expFrac minus hc

theorem parseSignedExp_digit (expFrac : Int) {c : Char} (hc : isDigit c = true)
    (rest : List Char) :
    parseSignedExp expFrac (c :: rest) = takeExp expFrac false (c :: rest) := by
  rw [parseSignedExp]
  · rintro rest heq
    cases heq
    exact absurd hc (by decide)
  · rintro rest heq
    cases heq
    exact absurd hc (by decide)

theorem parseSignedExp_takes (expFrac : Int) :
    (parseSignedExp expFrac).Takes signedDigits (HeadNot isDigit) := by
  intro text
  cases text with
  | nil => exact nofun
  | cons c rest =>
      by_cases hplus : c = '+'
      · subst hplus
        exact (TakesAt.cons (fun _ => rfl) (takeExp_takes expFrac false rest)).mono
          (fun word hword => .inr (.inl hword)) fun _ h => h
      by_cases hminus : c = '-'
      · subst hminus
        exact (TakesAt.cons (fun _ => rfl) (takeExp_takes expFrac true rest)).mono
          (fun word hword => .inr (.inr hword)) fun _ h => h
      cases hc : isDigit c with
      | false =>
          intro value left hread
          have hnone : parseSignedExp expFrac (c :: rest) = none := by
            rw [parseSignedExp]
            · simp [takeExp, hc]
            · simpa using hplus
            · simpa using hminus
          rw [hnone] at hread
          cases hread
      | true =>
          have hspans : Spans (fun text => parseSignedExp expFrac (c :: text)) isDigit := by
            simp only [parseSignedExp_digit expFrac hc]
            exact takeExp_spans expFrac false hc
          exact (TakesAt.of_headed hc hspans).mono (fun word hword => .inl hword) fun _ h => h

theorem parseSignedExp_whole (expFrac : Int) :
    (parseSignedExp expFrac).Whole signedDigits (HeadNot isDigit) := by
  refine Whole.union (Whole.of_headed fun c hc => ?_) (Whole.union ?_ ?_)
  · simp only [parseSignedExp_digit expFrac hc]
    exact takeExp_spans expFrac false hc
  · exact Whole.cons (fun _ => rfl) (takeExp_whole expFrac false)
  · exact Whole.cons (fun _ => rfl) (takeExp_whole expFrac true)

/-- The exponent behind its letter. -/
def scale (magnitude : Magnitude) : Reader Char (Magnitude × Int) :=
  Reader.map (fun exp => (.decimal magnitude.toDecimal, exp))
    (parseSignedExp magnitude.toDecimal.expFrac)

theorem parseExponent_letter (magnitude : Magnitude) {c : Char}
    (hc : isExponentSign c = true) (rest : List Char) :
    parseExponent magnitude (c :: rest) = scale magnitude rest := by
  rw [parseExponent, if_pos hc, scale, Reader.map]
  cases parseSignedExp magnitude.toDecimal.expFrac rest <;> rfl

theorem parseExponent_of_headNot (magnitude : Magnitude) {text : List Char}
    (htext : HeadNot isExponentSign text) :
    parseExponent magnitude text = some ((magnitude, 0), text) := by
  cases text with
  | nil => rfl
  | cons c rest =>
      have hc : isExponentSign c = false := headNot_cons.mp htext
      rw [parseExponent, hc]
      rfl

/-- What goes on in an exponent. -/
abbrev StopsExponent : List Char → Prop :=
  HeadNot fun c => isExponentSign c || isDigit c

theorem isExponentSign_iff {c : Char} : isExponentSign c = true ↔ c = 'e' ∨ c = 'E' := by
  simp [isExponentSign]

theorem parseExponent_takes (magnitude : Magnitude) :
    (parseExponent magnitude).Takes exponents StopsExponent := by
  intro text
  by_cases hsign : HeadNot isExponentSign text
  · refine TakesAt.mono (TakesAt.empty (magnitude, 0) fun other hother => ?_)
      (fun word hword => .inl hword) fun _ h => h
    apply parseExponent_of_headNot
    rcases hother with hother | hother
    · exact hsign.congr hother
    · exact hother.mono fun c hc => by simp [hc]
  · obtain ⟨c, rest, rfl, hc⟩ : ∃ c rest, text = c :: rest ∧ isExponentSign c = true := by
      cases text with
      | nil => exact absurd (headNot_nil _) hsign
      | cons c rest => exact ⟨c, rest, rfl, by simpa using hsign⟩
    have hscale : (scale magnitude).Takes signedDigits (HeadNot isDigit) :=
      (parseSignedExp_takes magnitude.toDecimal.expFrac).map _
    refine TakesAt.mono (TakesAt.cons (parseExponent_letter magnitude hc) (hscale rest))
      ?_ fun text htext => htext.mono fun c hc => by simp [hc]
    rcases isExponentSign_iff.mp hc with rfl | rfl
    · exact fun word hword => .inr (.inl hword)
    · exact fun word hword => .inr (.inr hword)

theorem parseExponent_whole (magnitude : Magnitude) :
    (parseExponent magnitude).Whole exponents StopsExponent := by
  have hscale : (scale magnitude).Whole signedDigits StopsExponent :=
    ((parseSignedExp_whole magnitude.toDecimal.expFrac).map _).mono fun text htext =>
      htext.mono fun c hc => by simp [hc]
  refine Whole.union (Whole.empty ?_) (Whole.union (Whole.cons ?_ hscale) (Whole.cons ?_ hscale))
  · intro other value rest hother hread
    rw [parseExponent_of_headNot magnitude (hother.mono fun c hc => by simp [hc])] at hread
    cases hread
    rfl
  · exact parseExponent_letter magnitude rfl
  · exact parseExponent_letter magnitude rfl

end Stages

/-! Whole numerals. -/

section Numerals

theorem parseUnsigned_eq (minus : Bool) :
    parseUnsigned minus = (parseMagnitude minus).andThen fun magnitude =>
      (parseFraction magnitude).andThen fun magnitude =>
        (parseExponent magnitude).map (toNumber minus) := by
  funext text
  simp only [parseUnsigned, Reader.andThen, bind]
  congr 1
  funext taken
  congr 1
  funext taken
  cases hread : parseExponent taken.1 taken.2 <;> simp [Reader.map, hread]

theorem Stops.fraction {text : List Char} (hstops : Stops text) : StopsFraction text :=
  hstops.mono fun c hc => by
    rw [Bool.or_eq_true] at hc
    rcases hc with hc | hc <;> simp [goesOn, hc]

theorem Stops.exponent {text : List Char} (hstops : Stops text) : StopsExponent text :=
  hstops.mono fun c hc => by
    rw [Bool.or_eq_true] at hc
    rcases hc with hc | hc <;> simp [goesOn, hc]

theorem Stops.digit {text : List Char} (hstops : Stops text) : HeadNot isDigit text :=
  hstops.mono fun c hc => by simp [goesOn, hc]

theorem parseUnsigned_takes (minus : Bool) :
    (parseUnsigned minus).Takes unsignedNumerals Stops := by
  rw [parseUnsigned_eq]
  refine Takes.andThen ((parseMagnitude_takes minus).mono (fun _ => id) fun _ => Stops.digit) ?_
  intro magnitude
  refine Takes.andThen ((parseFraction_takes magnitude).mono (fun _ => id)
    fun _ => Stops.fraction) ?_
  intro magnitude
  exact ((parseExponent_takes magnitude).mono (fun _ => id) fun _ => Stops.exponent).map _

/-- An exponent does not begin as a fraction does. -/
theorem stopsFraction_of_exponents {word other : List Char} (hword : word ∈ exponents)
    (hother : StopsFraction other) : StopsFraction (word ++ other) := by
  rcases hword with rfl | hword | hword
  · exact hother
  · obtain ⟨_, rfl, back, -, rfl⟩ := Language.mem_mul.mp hword
    exact headNot_cons.mpr (by decide)
  · obtain ⟨_, rfl, back, -, rfl⟩ := Language.mem_mul.mp hword
    exact headNot_cons.mpr (by decide)

theorem headNot_of_fractions {word other : List Char} (hword : word ∈ fractions)
    (hother : HeadNot isDigit other) : HeadNot isDigit (word ++ other) := by
  rcases hword with rfl | hword
  · exact hother
  · obtain ⟨_, rfl, back, -, rfl⟩ := Language.mem_mul.mp hword
    exact headNot_cons.mpr (by decide)

theorem parseUnsigned_whole (minus : Bool) :
    (parseUnsigned minus).Whole unsignedNumerals Stops := by
  rw [parseUnsigned_eq]
  refine Whole.andThen (parseMagnitude_whole minus) (fun magnitude => ?_) ?_
  · refine Whole.andThen (parseFraction_whole magnitude) (fun magnitude => ?_) ?_
    · exact ((parseExponent_whole magnitude).map _).mono fun _ => Stops.exponent
    · exact fun word hword other hother => stopsFraction_of_exponents hword hother.fraction
  · intro word hword other hother
    obtain ⟨front, hfront, back, hback, rfl⟩ := Language.mem_mul.mp hword
    rw [List.append_assoc]
    apply headNot_of_fractions hfront
    exact (stopsFraction_of_exponents hback hother.fraction).mono fun c hc => by simp [hc]

theorem unsignedNumerals_head {word : List Char} (hword : word ∈ unsignedNumerals) :
    ∃ c rest, word = c :: rest ∧ isDigit c = true := by
  obtain ⟨front, hfront, back, -, rfl⟩ := Language.mem_mul.mp hword
  rcases hfront with rfl | ⟨c, rest, rfl, hc, -⟩
  · exact ⟨'0', back, rfl, by decide⟩
  · rw [isNonzero, Bool.and_eq_true] at hc
    exact ⟨c, rest ++ back, rfl, hc.2⟩

theorem parseNumber_of_ne {text : List Char} (htext : HeadNot (· == '-') text) :
    parseNumber text = parseUnsigned false text := by
  rw [parseNumber]
  rintro rest rfl
  exact absurd (headNot_cons.mp htext) (by decide)

theorem parseNumber_takes : parseNumber.Takes numerals Stops := by
  intro text
  by_cases hminus : HeadNot (· == '-') text
  · intro value rest hread
    rw [parseNumber_of_ne hminus] at hread
    obtain ⟨word, hword, happend, hother⟩ := parseUnsigned_takes false text value rest hread
    refine ⟨word, .inl hword, happend, fun other hstop => ?_⟩
    obtain ⟨c, word, rfl, hc⟩ := unsignedNumerals_head hword
    rw [List.cons_append, parseNumber_of_ne (headNot_cons.mpr ?_)]
    · exact hother other hstop
    · rw [beq_eq_false_iff_ne]
      rintro rfl
      exact absurd hc (by decide)
  · obtain ⟨rest, rfl⟩ : ∃ rest, text = '-' :: rest := by
      cases text with
      | nil => exact absurd (headNot_nil _) hminus
      | cons c rest => simpa using hminus
    exact (TakesAt.cons (fun _ => rfl) (parseUnsigned_takes true rest)).mono
      (fun word hword => .inr hword) fun _ h => h

theorem parseNumber_whole : parseNumber.Whole numerals Stops := by
  refine Whole.union ?_ (Whole.cons (fun _ => rfl) (parseUnsigned_whole true))
  intro word hword other value rest hother hread
  obtain ⟨c, more, rfl, hc⟩ := unsignedNumerals_head hword
  rw [List.cons_append, parseNumber_of_ne (headNot_cons.mpr ?_)] at hread
  · exact parseUnsigned_whole false _ hword other value rest hother hread
  · rw [beq_eq_false_iff_ne]
    rintro rfl
    exact absurd hc (by decide)

/-- The reader takes the numerals and no other words, each with its value, and none of
the text behind it. -/
theorem parseNumber_iff {word : List Char} {value : Number} :
    parseNumber word = some (value, []) ↔
      word ∈ numerals ∧ (parseNumber word).map Prod.fst = some value :=
  parseNumber_takes.word_iff parseNumber_whole (headNot_nil _)

/-- Integers are read exactly, as far as they fit. -/
theorem parseMagnitude_int {minus : Bool} {word : List Char} {i : Nat}
    (hword : word ∈ integers) :
    (∃ significandDigit rest,
        parseMagnitude minus word = some (.int i significandDigit, rest)) ↔
      decimal word 0 ≤ largest minus ∧ i = decimal word 0 := by
  rcases hword with rfl | ⟨c, word, rfl, hc, hdigits⟩
  · constructor
    · rintro ⟨significandDigit, rest, hread⟩
      cases hread
      exact ⟨Nat.zero_le _, rfl⟩
    · rintro ⟨-, rfl⟩
      exact ⟨0, [], rfl⟩
  obtain ⟨part, rest, -, hparse, hdecimal, hover⟩ := parseInt_digits minus hc hdigits
  have halone := hparse [] (headNot_nil _)
  rw [List.append_nil] at halone
  have hvalue : decimal (c :: word) 0 = decimal rest part.i := by
    rw [decimal_cons, hdecimal, Nat.zero_mul, Nat.zero_add]
  rw [hvalue]
  simp only [parseMagnitude, halone, bind, Option.bind_some]
  cases hoverflow : part.overflow with
  | false =>
      rw [hoverflow] at hover
      obtain ⟨rfl, hle⟩ := hover
      constructor
      · rintro ⟨significandDigit, rest, hread⟩
        cases hread
        exact ⟨hle, rfl⟩
      · rintro ⟨-, rfl⟩
        exact ⟨part.significandDigit, [], rfl⟩
  | true =>
      rw [hoverflow, if_pos rfl] at hover
      constructor
      · rintro ⟨significandDigit, rest', hread⟩
        rw [if_pos rfl] at hread
        obtain ⟨taken, -, hread⟩ := Option.bind_eq_some_iff.mp hread
        cases hread
      · rintro ⟨hle, -⟩
        omega

theorem parseFraction_int {magnitude : Magnitude} {i significandDigit : Nat}
    {text rest : List Char}
    (hread : parseFraction magnitude text = some (.int i significandDigit, rest)) :
    magnitude = .int i significandDigit ∧ rest = text := by
  by_cases hpoint : HeadNot (· == '.') text
  · rw [parseFraction_of_headNot magnitude hpoint] at hread
    cases hread
    exact ⟨rfl, rfl⟩
  · cases text with
    | nil => exact absurd (headNot_nil _) hpoint
    | cons c text =>
        obtain rfl : c = '.' := by simpa using hpoint
        cases text with
        | nil => cases hread
        | cons c text =>
            simp only [parseFraction, parseDecimals] at hread
            split at hread <;> cases hread

theorem parseExponent_int {magnitude : Magnitude} {i significandDigit : Nat} {exp : Int}
    {text rest : List Char}
    (hread : parseExponent magnitude text = some ((.int i significandDigit, exp), rest)) :
    magnitude = .int i significandDigit ∧ rest = text := by
  by_cases hsign : HeadNot isExponentSign text
  · rw [parseExponent_of_headNot magnitude hsign] at hread
    cases hread
    exact ⟨rfl, rfl⟩
  · cases text with
    | nil => exact absurd (headNot_nil _) hsign
    | cons c text =>
        rw [parseExponent_letter magnitude (by simpa using hsign)] at hread
        obtain ⟨taken, -, hpair⟩ := Option.map_eq_some_iff.mp hread
        cases hpair

def signed (minus : Bool) (i : Nat) : Int :=
  if minus then -(i : Int) else i

theorem parseUnsigned_int {minus : Bool} {word : List Char} {value : Int} :
    parseUnsigned minus word = some (.int value, []) ↔
      word ∈ integers ∧ decimal word 0 ≤ largest minus ∧
        value = signed minus (decimal word 0) := by
  rw [parseUnsigned_eq]
  constructor
  · intro hread
    obtain ⟨⟨whole, behind⟩, hwhole, hread⟩ := Option.bind_eq_some_iff.mp hread
    obtain ⟨⟨fractioned, left⟩, hfraction, hread⟩ := Option.bind_eq_some_iff.mp hread
    obtain ⟨⟨⟨scaled, exp⟩, rest⟩, hexponent, hpair⟩ := Option.map_eq_some_iff.mp hread
    cases scaled with
    | decimal d => cases hpair
    | int i significandDigit =>
        obtain ⟨rfl, rfl⟩ := parseExponent_int hexponent
        obtain ⟨rfl, rfl⟩ := parseFraction_int hfraction
        cases hpair
        obtain ⟨taken, htaken, rfl, -⟩ := parseMagnitude_takes minus word _ _ hwhole
        rw [List.append_nil] at hwhole ⊢
        obtain ⟨hle, rfl⟩ := (parseMagnitude_int htaken).mp ⟨_, _, hwhole⟩
        exact ⟨htaken, hle, rfl⟩
  · rintro ⟨hword, hle, rfl⟩
    obtain ⟨significandDigit, rest, hwhole⟩ := (parseMagnitude_int hword).mpr ⟨hle, rfl⟩
    have hrest := parseMagnitude_whole minus word hword [] _ rest (headNot_nil _)
      (by rwa [List.append_nil])
    rw [hrest] at hwhole
    simp only [Reader.andThen, hwhole, Option.bind_some]
    rfl

/-- The digits of an integer that fits. -/
def magnitudes (minus : Bool) (value : Int) : Language Char :=
  {word | word ∈ integers ∧ decimal word 0 ≤ largest minus ∧
    value = signed minus (decimal word 0)}

def integerNumerals (value : Int) : Language Char :=
  magnitudes false value + {['-']} * magnitudes true value

theorem mem_minus_mul {words : Language Char} {word : List Char} :
    '-' :: word ∈ ({['-']} : Language Char) * words ↔ word ∈ words := by
  constructor
  · intro hword
    obtain ⟨_, rfl, back, hback, heq⟩ := Language.mem_mul.mp hword
    rw [List.singleton_append, List.cons.injEq] at heq
    rwa [← heq.2]
  · exact Language.append_mem_mul (Set.mem_singleton _)

theorem integers_head {word : List Char} (hword : word ∈ integers) :
    HeadNot (· == '-') word := by
  rcases hword with rfl | ⟨c, rest, rfl, hc, -⟩
  · exact headNot_cons.mpr (by decide)
  · rw [headNot_cons, beq_eq_false_iff_ne]
    rintro rfl
    exact absurd hc (by decide)

/-- Exactly the integers that fit are read as integers, and exactly. -/
theorem parseNumber_int_iff {word : List Char} {value : Int} :
    parseNumber word = some (.int value, []) ↔ word ∈ integerNumerals value := by
  by_cases hminus : HeadNot (· == '-') word
  · rw [parseNumber_of_ne hminus, parseUnsigned_int]
    constructor
    · exact fun hword => .inl hword
    · rintro (hword | hword)
      · exact hword
      · obtain ⟨_, rfl, back, -, rfl⟩ := Language.mem_mul.mp hword
        exact absurd (headNot_cons.mp hminus) (by decide)
  · obtain ⟨rest, rfl⟩ : ∃ rest, word = '-' :: rest := by
      cases word with
      | nil => exact absurd (headNot_nil _) hminus
      | cons c rest => simpa using hminus
    rw [parseNumber, parseUnsigned_int]
    constructor
    · exact fun hword => .inr (mem_minus_mul.mpr hword)
    · rintro (hword | hword)
      · exact absurd (integers_head hword.1) hminus
      · exact mem_minus_mul.mp hword

end Numerals

end Json.Reader

end Uskit
