import Uskit.Json.Encode
import Uskit.Json.Spelling

namespace Uskit

open Uskit.Grammar Uskit.Grammar.Reader

/-! What the writer makes of a value is read as the value. -/

namespace Json

open Reader

section Integers

theorem isNonzero_digitChar {n : Nat} (hpos : 0 < n) (hlt : n < 10) :
    isNonzero n.digitChar = true := by
  have hdigits : ∀ d < 10, 0 < d → isNonzero d.digitChar = true := by decide
  exact hdigits n hlt hpos

/-- The decimal digits of a number do not begin with a zero, except those of zero. -/
theorem toDigits_headed {n : Nat} (hpos : 0 < n) :
    Nat.toDigits 10 n ∈ headed isNonzero Reader.isDigit := by
  induction n using Nat.strongRecOn with
  | ind n ih =>
      rw [Nat.toDigits_eq_if (by decide)]
      split
      · rename_i hlt
        exact ⟨_, [], rfl, isNonzero_digitChar hpos hlt, nofun⟩
      · rename_i hge
        obtain ⟨c, rest, heq, hc, hrest⟩ := ih (n / 10) (by omega) (by omega)
        refine ⟨c, rest ++ [(n % 10).digitChar], by rw [heq, List.cons_append], hc, ?_⟩
        intro x hx
        rw [List.mem_append, List.mem_singleton] at hx
        rcases hx with hx | rfl
        · exact hrest x hx
        · have hdigits : ∀ d < 10, Reader.isDigit d.digitChar = true := by decide
          exact hdigits (n % 10) (Nat.mod_lt n (by decide))

theorem toDigits_integers (n : Nat) : Nat.toDigits 10 n ∈ integers := by
  rcases Nat.eq_zero_or_pos n with rfl | hpos
  · exact .inl (Nat.toDigits_zero 10)
  · exact .inr (toDigits_headed hpos)

/-- What fits into 64 bits, signed or not. -/
def fits (value : Int) : Prop :=
  -2 ^ 63 ≤ value ∧ value < 2 ^ 64

theorem toString_integer {value : Int} (hfits : fits value) :
    (toString value).toList ∈ integerNumerals value := by
  rw [Int.toString_eq_repr, Int.repr_eq_if]
  obtain ⟨hlow, hhigh⟩ := hfits
  split
  · rename_i hpos
    left
    rw [Nat.toList_repr]
    refine ⟨toDigits_integers _, ?_, ?_⟩
    · rw [decimal, Nat.ofDigitChars_ten_toDigits, largest]
      simp only [Bool.false_eq_true, if_false]
      omega
    · rw [decimal, Nat.ofDigitChars_ten_toDigits, signed]
      simp only [Bool.false_eq_true, if_false]
      omega
  · rename_i hneg
    right
    have hminus : "-".toList = ['-'] := rfl
    rw [String.toList_append, Nat.toList_repr, hminus, List.singleton_append]
    refine mem_minus_mul.mpr ⟨toDigits_integers _, ?_, ?_⟩
    · rw [decimal, Nat.ofDigitChars_ten_toDigits, largest, if_pos rfl]
      omega
    · rw [decimal, Nat.ofDigitChars_ten_toDigits, signed, if_pos rfl]
      omega

end Integers

/-! The text of a value.  A number that is not finite ends the text; `null` stands for
it here, so that what would follow can be told. -/

section Text

variable (dtoa : Double → String) (reread : Double → Double)

def printedNumber : Number → List Char
  | .int value => (toString value).toList
  | .double value => if value.isNanOrInf then ['n', 'u', 'l', 'l'] else (dtoa value).toList

def comma (first : Bool) : List Char :=
  if first then [] else [',']

mutual
def printed : Json → List Char
  | .null => ['n', 'u', 'l', 'l']
  | .bool true => ['t', 'r', 'u', 'e']
  | .bool false => ['f', 'a', 'l', 's', 'e']
  | .number value => printedNumber dtoa value
  | .string text => (writeString text).toList
  | .array elements => '[' :: (printedElements elements true ++ [']'])
  | .object members => '\x7b' :: (printedMembers members true ++ ['\x7d'])

def printedElements : List Json → (first : Bool) → List Char
  | [], _ => []
  | value :: rest, first => comma first ++ (printed value ++ printedElements rest false)

def printedMembers : List (String × Json) → (first : Bool) → List Char
  | [], _ => []
  | (name, value) :: rest, first =>
      comma first ++ ((writeString name).toList ++ ':' ::
        (printed value ++ printedMembers rest false))
end

def shownNumber : Number → Json
  | .int value => .number (.int value)
  | .double value => if value.isNanOrInf then .null else .number (.double (reread value))

mutual
/-- The value with each double as it is read back. -/
def shown : Json → Json
  | .null => .null
  | .bool value => .bool value
  | .number value => shownNumber reread value
  | .string text => .string text
  | .array elements => .array (shownElements elements)
  | .object members => .object (shownMembers members)

def shownElements : List Json → List Json
  | [] => []
  | value :: rest => shown value :: shownElements rest

def shownMembers : List (String × Json) → List (String × Json)
  | [] => []
  | (name, value) :: rest => (name, shown value) :: shownMembers rest
end

mutual
def numbers : Json → List Number
  | .number value => [value]
  | .array elements => numbersElements elements
  | .object members => numbersMembers members
  | _ => []

def numbersElements : List Json → List Number
  | [] => []
  | value :: rest => numbers value ++ numbersElements rest

def numbersMembers : List (String × Json) → List Number
  | [] => []
  | (_, value) :: rest => numbers value ++ numbersMembers rest
end

def numberFinite : Number → Bool
  | .int _ => true
  | .double value => !value.isNanOrInf

def finite (value : Json) : Bool :=
  (numbers value).all numberFinite

def numberFits : Number → Prop
  | .int value => fits value
  | .double _ => True

/-- Every integer fits into 64 bits. -/
def intsFit (value : Json) : Prop :=
  ∀ number ∈ numbers value, numberFits number

instance (value : Int) : Decidable (fits value) :=
  inferInstanceAs (Decidable (_ ∧ _))

instance : DecidablePred numberFits
  | .int value => inferInstanceAs (Decidable (fits value))
  | .double _ => inferInstanceAs (Decidable True)

instance (value : Json) : Decidable (intsFit value) :=
  inferInstanceAs (Decidable (∀ number ∈ numbers value, numberFits number))

end Text

section Write

/-- The writer has put the text, or no more than a part of it before it stopped. -/
inductive Prints (written : Written) : List Char → (whole : Bool) → Written → Prop where
  | whole {text : List Char} : Prints written text true ⟨written.text ++ .ofList text, true⟩
  | cut {front back : List Char} (hback : back ≠ []) :
      Prints written (front ++ back) false ⟨written.text ++ .ofList front, false⟩

variable {dtoa : Double → String} {written middle last : Written} {text more : List Char}
  {whole whole' : Bool}

theorem Prints.append (hfirst : Prints written text whole middle)
    (hsecond : middle.accepted = true → Prints middle more whole' last)
    (hstopped : middle.accepted = false → last = middle) :
    Prints written (text ++ more) (whole && whole') last := by
  cases hfirst with
  | whole =>
      cases hsecond rfl with
      | whole =>
          rw [String.append_assoc, ← String.ofList_append]
          exact .whole
      | cut hback =>
          rw [String.append_assoc, ← String.ofList_append, ← List.append_assoc]
          exact .cut hback
  | cut hback =>
      rw [hstopped rfl, List.append_assoc]
      exact .cut fun hnil => hback (List.append_eq_nil_iff.mp hnil).1

theorem Prints.accepted_eq (hprints : Prints written text whole middle) :
    middle.accepted = whole := by
  cases hprints <;> rfl

theorem Prints.then (hfirst : Prints written text true middle)
    (hsecond : Prints middle more whole last) :
    Prints written (text ++ more) whole last := by
  have happend := hfirst.append (fun _ => hsecond)
    fun hstopped => absurd (hfirst.accepted_eq.symm.trans hstopped) Bool.noConfusion
  rwa [Bool.true_and] at happend

theorem put_of_stopped (hstopped : written.accepted = false) (text : String) :
    written.put text = written := by
  rw [Written.put, hstopped]
  rfl

theorem prints_put (haccepted : written.accepted = true) (text : String) :
    Prints written text.toList true (written.put text) := by
  rw [Written.put, if_pos haccepted]
  obtain ⟨before, accepted⟩ := written
  obtain rfl : accepted = true := haccepted
  have hprints : Prints ⟨before, true⟩ text.toList true _ := .whole
  rwa [String.ofList_toList] at hprints

theorem Prints.close (hprints : Prints written text whole middle) (mark : String) :
    Prints written (text ++ mark.toList) whole (middle.put mark) := by
  have happend := hprints.append (fun haccepted => prints_put haccepted mark)
    fun hstopped => put_of_stopped hstopped mark
  rwa [Bool.and_true] at happend

theorem prints_comma (haccepted : written.accepted = true) (first : Bool) :
    Prints written (comma first) true (if first then written else written.put ",") := by
  cases first with
  | true =>
      obtain ⟨before, accepted⟩ := written
      obtain rfl : accepted = true := haccepted
      have hprints : Prints ⟨before, true⟩ [] true _ := .whole
      rwa [String.ofList_nil, String.append_empty] at hprints
  | false => exact prints_put haccepted ","

theorem comma_of_stopped (hstopped : written.accepted = false) (first : Bool) :
    (if first then written else written.put ",") = written := by
  cases first with
  | true => rfl
  | false => exact put_of_stopped hstopped ","

theorem writeNumber_of_stopped (hstopped : written.accepted = false) (value : Number) :
    writeNumber dtoa written value = written := by
  cases value with
  | int value => exact put_of_stopped hstopped _
  | double value =>
      rw [writeNumber]
      split
      · obtain ⟨before, accepted⟩ := written
        obtain rfl : accepted = false := hstopped
        rfl
      · exact put_of_stopped hstopped _

theorem prints_writeNumber (haccepted : written.accepted = true) (value : Number) :
    Prints written (printedNumber dtoa value) (numberFinite value)
      (writeNumber dtoa written value) := by
  cases value with
  | int value => exact prints_put haccepted _
  | double value =>
      rw [printedNumber, numberFinite, writeNumber]
      cases value.isNanOrInf with
      | false => exact prints_put haccepted _
      | true =>
          have hprints : Prints written ([] ++ ['n', 'u', 'l', 'l']) false _ :=
            .cut (List.cons_ne_nil _ _)
          rwa [String.ofList_nil, String.append_empty] at hprints

mutual
theorem write_of_stopped : ∀ (value : Json) {written : Written},
    written.accepted = false → write dtoa value written = written
  | .null, _, hstopped => put_of_stopped hstopped _
  | .bool true, _, hstopped => put_of_stopped hstopped _
  | .bool false, _, hstopped => put_of_stopped hstopped _
  | .number value, _, hstopped => writeNumber_of_stopped hstopped value
  | .string text, _, hstopped => put_of_stopped hstopped _
  | .array elements, _, hstopped => by
      rw [write, put_of_stopped hstopped, writeElements_of_stopped elements true hstopped,
        put_of_stopped hstopped]
  | .object members, _, hstopped => by
      rw [write, put_of_stopped hstopped, writeMembers_of_stopped members true hstopped,
        put_of_stopped hstopped]

theorem writeElements_of_stopped : ∀ (elements : List Json) (first : Bool) {written : Written},
    written.accepted = false → writeElements dtoa elements first written = written
  | [], _, _, _ => rfl
  | value :: rest, first, _, hstopped => by
      rw [writeElements, comma_of_stopped hstopped, write_of_stopped value hstopped,
        writeElements_of_stopped rest false hstopped]

theorem writeMembers_of_stopped : ∀ (members : List (String × Json)) (first : Bool)
    {written : Written},
    written.accepted = false → writeMembers dtoa members first written = written
  | [], _, _, _ => rfl
  | (name, value) :: rest, first, _, hstopped => by
      rw [writeMembers, comma_of_stopped hstopped, put_of_stopped hstopped,
        write_of_stopped value hstopped, writeMembers_of_stopped rest false hstopped]
end

mutual
/-- The writer puts the text of a value, up to the first number that is not finite. -/
theorem prints_write : ∀ (value : Json) {written : Written}, written.accepted = true →
    Prints written (printed dtoa value) (finite value) (write dtoa value written)
  | .null, _, haccepted => prints_put haccepted "null"
  | .bool true, _, haccepted => prints_put haccepted "true"
  | .bool false, _, haccepted => prints_put haccepted "false"
  | .number value, written, haccepted => by
      have hprints : Prints written (printedNumber dtoa value) _ _ :=
        prints_writeNumber haccepted value
      rw [finite, numbers, List.all_cons, List.all_nil, Bool.and_true]
      exact hprints
  | .string text, _, haccepted => prints_put haccepted (writeString text)
  | .array elements, written, haccepted => by
      have hopen := prints_put haccepted "["
      have helements := prints_writeElements elements true hopen.accepted_eq
      exact hopen.then (helements.close "]")
  | .object members, written, haccepted => by
      have hopen := prints_put haccepted "\x7b"
      have hmembers := prints_writeMembers members true hopen.accepted_eq
      exact hopen.then (hmembers.close "\x7d")

theorem prints_writeElements : ∀ (elements : List Json) (first : Bool) {written : Written},
    written.accepted = true →
    Prints written (printedElements dtoa elements first)
      ((numbersElements elements).all numberFinite) (writeElements dtoa elements first written)
  | [], first, written, haccepted => prints_comma haccepted true
  | value :: rest, first, written, haccepted => by
      have hcomma := prints_comma haccepted first
      have hvalue := prints_write value hcomma.accepted_eq
      rw [printedElements, numbersElements, List.all_append, writeElements]
      exact hcomma.then (hvalue.append (fun hgoes => prints_writeElements rest false hgoes)
        fun hstopped => writeElements_of_stopped rest false hstopped)

theorem prints_writeMembers : ∀ (members : List (String × Json)) (first : Bool)
    {written : Written}, written.accepted = true →
    Prints written (printedMembers dtoa members first)
      ((numbersMembers members).all numberFinite) (writeMembers dtoa members first written)
  | [], first, written, haccepted => prints_comma haccepted true
  | (name, value) :: rest, first, written, haccepted => by
      have hcomma := prints_comma haccepted first
      have hname := prints_put hcomma.accepted_eq (writeString name ++ ":")
      have hvalue := prints_write value hname.accepted_eq
      have hmember := hname.then
        (hvalue.append (fun hgoes => prints_writeMembers rest false hgoes)
          fun hstopped => writeMembers_of_stopped rest false hstopped)
      have hcolon : ":".toList = [':'] := rfl
      rw [String.toList_append, List.append_assoc, hcolon, List.singleton_append] at hmember
      rw [printedMembers, numbersMembers, List.all_append, writeMembers]
      exact hcomma.then hmember
end

end Write

section Spelled

theorem parseHex4_control {n : Nat} (hcontrol : n < 32) :
    parseHex4 '0' '0' (hexDigit (n / 16)) (hexDigit (n % 16)) = some n := by
  have hall : ∀ m < 32,
      parseHex4 '0' '0' (hexDigit (m / 16)) (hexDigit (m % 16)) = some m := by decide
  exact hall n hcontrol

theorem spells_writeChar (c : Char) {body bytes : List Char} (hbody : Spells body bytes) :
    Spells (writeChar c ++ body) (c :: bytes) := by
  unfold writeChar
  split
  case h_8 hquote hslash _ _ _ _ _ =>
    split
    · rename_i hcontrol
      have hsingle : isHighSurrogate c.toNat = false := by
        rw [isHighSurrogate, decide_eq_false_iff_not]
        omega
      have hunit := Spells.unicode (parseHex4_control hcontrol) hsingle hbody
      rw [encodeUtf8, if_pos (by omega), Char.ofNat_toNat] at hunit
      exact hunit
    · rename_i hcontrol
      refine .plain ?_ hbody
      simp only [isPlain, Bool.and_eq_true, decide_eq_true_eq, bne_iff_ne]
      exact ⟨⟨by omega, hquote⟩, hslash⟩
  all_goals exact .escaped rfl hbody

theorem spells_flatMap (bytes : List Char) : Spells (bytes.flatMap writeChar) bytes := by
  induction bytes with
  | nil => exact .nil
  | cons c bytes ih =>
      rw [List.flatMap_cons]
      exact spells_writeChar c ih

theorem writeString_mem (text : String) : (writeString text).toList ∈ stringSpellings text := by
  have hmem := mem_stringSpellings (spells_flatMap text.toList)
  rw [String.ofList_toList] at hmem
  rw [writeString, String.toList_ofList]
  exact hmem

/-- Finite doubles are printed as numbers, which are read as doubles. -/
def Reads (dtoa : Double → String) (reread : Double → Double) : Prop :=
  ∀ value, value.isNanOrInf = false →
    parseNumber (dtoa value).toList = some (.double (reread value), [])

variable {dtoa : Double → String} {reread : Double → Double}

/-- An integer fits, and a finite double is printed as a number that is read as one. -/
def LegibleNumber (dtoa : Double → String) (reread : Double → Double) : Number → Prop
  | .int value => fits value
  | .double value => value.isNanOrInf = false →
      parseNumber (dtoa value).toList = some (.double (reread value), [])

/-- What is printed of the numbers is read. -/
def Legible (dtoa : Double → String) (reread : Double → Double) (value : Json) : Prop :=
  ∀ number ∈ numbers value, LegibleNumber dtoa reread number

theorem legible_of_reads (hreads : Reads dtoa reread) {value : Json} (hfits : intsFit value) :
    Legible dtoa reread value := by
  intro number hmem
  cases number with
  | int value => exact hfits _ hmem
  | double value => exact hreads value

theorem printedNumber_mem {value : Number} (hlegible : LegibleNumber dtoa reread value) :
    printedNumber dtoa value ∈ spellings (shownNumber reread value) := by
  cases value with
  | int value =>
      rw [printedNumber, shownNumber, spellings]
      exact parseNumber_iff.mp (parseNumber_int_iff.mpr (toString_integer hlegible))
  | double value =>
      rw [printedNumber, shownNumber]
      cases hspecial : value.isNanOrInf with
      | true => exact Set.mem_singleton _
      | false =>
          simp only [Bool.false_eq_true, if_false]
          rw [spellings]
          exact parseNumber_iff.mp (hlegible hspecial)

theorem nil_mem_blanks : [] ∈ blanks :=
  nofun

theorem mem_blanks {words : Language Char} {word : List Char} (hword : word ∈ words) :
    word ∈ words * blanks := by
  have hmem := Language.append_mem_mul hword nil_mem_blanks
  rwa [List.append_nil] at hmem

theorem blanks_mem {words : Language Char} {word : List Char} (hword : word ∈ words) :
    word ∈ blanks * words :=
  Language.append_mem_mul nil_mem_blanks hword

theorem enclosed_mem {opening closing : Char} {inside : Language Char} {word : List Char}
    (hword : word ∈ inside) : opening :: (word ++ [closing]) ∈ enclosed opening closing inside :=
  Language.append_mem_mul (Set.mem_singleton [opening])
    (blanks_mem (Language.append_mem_mul hword (Set.mem_singleton [closing])))

theorem spaced_mem {front back : Language Char} {mark : Char} {first second : List Char}
    (hfirst : first ∈ front) (hsecond : second ∈ back) :
    first ++ mark :: second ∈ spaced front mark back :=
  Language.append_mem_mul hfirst (blanks_mem
    (Language.append_mem_mul (Set.mem_singleton [mark]) (blanks_mem hsecond)))

mutual
/-- The text of a value is a spelling of it, without blanks. -/
theorem printed_mem : ∀ (value : Json), Legible dtoa reread value →
    printed dtoa value ∈ spellings (shown reread value)
  | .null, _ => by
      rw [printed, shown, spellings]
      exact Set.mem_singleton _
  | .bool true, _ => by
      rw [printed, shown, spellings]
      exact Set.mem_singleton _
  | .bool false, _ => by
      rw [printed, shown, spellings]
      exact Set.mem_singleton _
  | .number value, hlegible => by
      rw [printed, shown]
      exact printedNumber_mem (hlegible value (List.mem_singleton_self value))
  | .string text, _ => by
      rw [printed, shown, spellings]
      exact writeString_mem text
  | .array elements, hlegible => by
      rw [printed, shown, spellings]
      exact enclosed_mem (printedElements_mem elements hlegible)
  | .object members, hlegible => by
      rw [printed, shown, spellings]
      exact enclosed_mem (printedMembers_mem members hlegible)

theorem printedElements_mem : ∀ (elements : List Json),
    (∀ number ∈ numbersElements elements, LegibleNumber dtoa reread number) →
    printedElements dtoa elements true ∈ elementSpellings (shownElements reread elements)
  | [], _ => Language.nil_mem_one
  | [value], hlegible => by
      rw [numbersElements, List.forall_mem_append] at hlegible
      have hvalue := printed_mem value hlegible.1
      rw [shownElements, shownElements, elementSpellings, printedElements, printedElements,
        comma, if_pos rfl, List.nil_append, List.append_nil]
      exact mem_blanks hvalue
  | value :: next :: rest, hlegible => by
      rw [numbersElements, List.forall_mem_append] at hlegible
      have hvalue := printed_mem value hlegible.1
      have hrest := printedElements_mem (next :: rest) hlegible.2
      have hne : shownElements reread (next :: rest) ≠ [] := List.cons_ne_nil _ _
      rw [shownElements, elementSpellings_cons hne]
      exact spaced_mem hvalue hrest

theorem printedMembers_mem : ∀ (members : List (String × Json)),
    (∀ number ∈ numbersMembers members, LegibleNumber dtoa reread number) →
    printedMembers dtoa members true ∈ memberSpellings (shownMembers reread members)
  | [], _ => Language.nil_mem_one
  | [(name, value)], hlegible => by
      rw [numbersMembers, List.forall_mem_append] at hlegible
      have hvalue := printed_mem value hlegible.1
      rw [shownMembers, shownMembers, memberSpellings, printedMembers, printedMembers,
        comma, if_pos rfl, List.nil_append, List.append_nil]
      exact spaced_mem (writeString_mem name) (mem_blanks hvalue)
  | (name, value) :: (next, follows) :: rest, hlegible => by
      rw [numbersMembers, List.forall_mem_append] at hlegible
      have hvalue := printed_mem value hlegible.1
      have hrest := printedMembers_mem ((next, follows) :: rest) hlegible.2
      have hne : shownMembers reread ((next, follows) :: rest) ≠ [] := List.cons_ne_nil _ _
      rw [shownMembers, memberSpellings_cons hne, printedMembers, comma, if_pos rfl,
        List.nil_append]
      exact spaced_mem (writeString_mem name) (spaced_mem hvalue hrest)
end

end Spelled

/-! No spelling has a NUL. -/

section Free

/-- No word has a NUL. -/
def Free (words : Language Char) : Prop :=
  ∀ word ∈ words, '\x00' ∉ word

theorem Free.mul {front back : Language Char} (hfront : Free front) (hback : Free back) :
    Free (front * back) := by
  intro word hword
  obtain ⟨first, hfirst, second, hsecond, rfl⟩ := Language.mem_mul.mp hword
  rw [List.mem_append, not_or]
  exact ⟨hfront first hfirst, hback second hsecond⟩

theorem Free.add {front back : Language Char} (hfront : Free front) (hback : Free back) :
    Free (front + back) := by
  rintro word (hword | hword)
  · exact hfront word hword
  · exact hback word hword

theorem free_one : Free 1 := by
  rintro word rfl
  exact List.not_mem_nil

theorem free_singleton {word : List Char} (hword : '\x00' ∉ word) : Free {word} := by
  rintro other rfl
  exact hword

theorem free_of_class {inClass : Char → Bool} (hclass : inClass '\x00' = false)
    {word : List Char} (hword : ∀ c ∈ word, inClass c = true) : '\x00' ∉ word := by
  intro hmem
  rw [hword _ hmem] at hclass
  cases hclass

theorem free_headed {begins : Char → Bool} (hbegins : begins '\x00' = false) :
    Free (headed begins Reader.isDigit) := by
  rintro word ⟨c, rest, rfl, hc, hrest⟩
  rw [List.mem_cons, not_or]
  refine ⟨?_, free_of_class (by decide) hrest⟩
  rintro rfl
  rw [hc] at hbegins
  cases hbegins

theorem free_numerals : Free numerals := by
  have hdigits : Free digits := free_headed (by decide)
  have hintegers : Free integers := (free_singleton (by decide)).add (free_headed (by decide))
  have hfractions : Free fractions := free_one.add ((free_singleton (by decide)).mul hdigits)
  have hsigned : Free signedDigits := hdigits.add
    (((free_singleton (by decide)).mul hdigits).add ((free_singleton (by decide)).mul hdigits))
  have hexponents : Free exponents := free_one.add
    (((free_singleton (by decide)).mul hsigned).add ((free_singleton (by decide)).mul hsigned))
  have hunsigned : Free unsignedNumerals := hintegers.mul (hfractions.mul hexponents)
  exact hunsigned.add ((free_singleton (by decide)).mul hunsigned)

theorem free_blanks : Free blanks :=
  fun _ hword => free_of_class (by decide) hword

theorem hexValue_nul : hexValue '\x00' = none := by
  decide

theorem parseHex4_free {a b c d : Char} {codepoint : Nat}
    (hcode : parseHex4 a b c d = some codepoint) : '\x00' ∉ [a, b, c, d] := by
  intro hmem
  simp only [List.mem_cons, List.not_mem_nil, or_false] at hmem
  rcases hmem with rfl | rfl | rfl | rfl <;> simp [parseHex4, hexValue_nul] at hcode

theorem spells_free {body bytes : List Char} (hbody : Spells body bytes) : '\x00' ∉ body := by
  induction hbody with
  | nil => exact List.not_mem_nil
  | plain hc _ ih =>
      rw [List.mem_cons, not_or]
      refine ⟨?_, ih⟩
      rintro rfl
      exact absurd hc (by decide)
  | escaped he _ ih =>
      simp only [List.mem_cons, not_or]
      refine ⟨by decide, ?_, ih⟩
      rintro rfl
      cases he
  | unicode hcode _ _ ih =>
      have hfree := parseHex4_free hcode
      simp only [List.mem_cons, List.not_mem_nil, or_false, not_or] at hfree ⊢
      exact ⟨by decide, by decide, hfree.1, hfree.2.1, hfree.2.2.1, hfree.2.2.2, ih⟩
  | surrogates hcode _ hcode2 _ _ ih =>
      have hfree := parseHex4_free hcode
      have hfree2 := parseHex4_free hcode2
      simp only [List.mem_cons, List.not_mem_nil, or_false, not_or] at hfree hfree2 ⊢
      exact ⟨by decide, by decide, hfree.1, hfree.2.1, hfree.2.2.1, hfree.2.2.2, by decide,
        by decide, hfree2.1, hfree2.2.1, hfree2.2.2.1, hfree2.2.2.2, ih⟩

theorem free_strings (text : String) : Free (stringSpellings text) :=
  (free_singleton (by decide)).mul
    (Free.mul (fun _ hbody => spells_free hbody) (free_singleton (by decide)))

theorem Free.spaced {front back : Language Char} {mark : Char} (hfront : Free front)
    (hmark : '\x00' ∉ [mark]) (hback : Free back) : Free (spaced front mark back) :=
  hfront.mul (free_blanks.mul ((free_singleton hmark).mul (free_blanks.mul hback)))

theorem Free.enclosed {opening closing : Char} {inside : Language Char}
    (hopening : '\x00' ∉ [opening]) (hclosing : '\x00' ∉ [closing]) (hinside : Free inside) :
    Free (enclosed opening closing inside) :=
  (free_singleton hopening).mul (free_blanks.mul (hinside.mul (free_singleton hclosing)))

mutual
theorem free_spellings : ∀ (value : Json), Free (spellings value)
  | .null => by
      rw [spellings]
      exact free_singleton (by decide)
  | .bool true => by
      rw [spellings]
      exact free_singleton (by decide)
  | .bool false => by
      rw [spellings]
      exact free_singleton (by decide)
  | .number value => by
      rw [spellings]
      exact fun word hword => free_numerals word hword.1
  | .string text => by
      rw [spellings]
      exact free_strings text
  | .array elements => by
      rw [spellings]
      exact (free_elements elements).enclosed (by decide) (by decide)
  | .object members => by
      rw [spellings]
      exact (free_members members).enclosed (by decide) (by decide)

theorem free_elements : ∀ (elements : List Json), Free (elementSpellings elements)
  | [] => free_one
  | [value] => by
      rw [elementSpellings]
      exact (free_spellings value).mul free_blanks
  | value :: next :: rest => by
      rw [elementSpellings]
      exact (free_spellings value).spaced (by decide) (free_elements (next :: rest))

theorem free_members : ∀ (members : List (String × Json)), Free (memberSpellings members)
  | [] => free_one
  | [(name, value)] => by
      rw [memberSpellings]
      exact (free_strings name).spaced (by decide) ((free_spellings value).mul free_blanks)
  | (name, value) :: next :: rest => by
      rw [memberSpellings]
      exact (free_strings name).spaced (by decide)
        ((free_spellings value).spaced (by decide) (free_members (next :: rest)))
end

end Free

section Reading

/-- Numbers alone begin with a digit or a minus. -/
theorem spellings_head {value : Json} (hnumber : ∀ number, value ≠ .number number)
    {word : List Char} (hword : word ∈ spellings value) :
    HeadNot (fun c => Reader.isDigit c || c == '-') word := by
  cases value with
  | null =>
      rw [spellings] at hword
      rw [Set.mem_singleton_iff.mp hword]
      exact headNot_cons.mpr (by decide)
  | bool b =>
      cases b with
      | true =>
          rw [spellings] at hword
          rw [Set.mem_singleton_iff.mp hword]
          exact headNot_cons.mpr (by decide)
      | false =>
          rw [spellings] at hword
          rw [Set.mem_singleton_iff.mp hword]
          exact headNot_cons.mpr (by decide)
  | number value => exact absurd rfl (hnumber value)
  | string text =>
      rw [spellings] at hword
      obtain ⟨_, rfl, rest, -, rfl⟩ := Language.mem_mul.mp hword
      exact headNot_cons.mpr (by decide)
  | array elements =>
      rw [spellings] at hword
      obtain ⟨_, rfl, rest, -, rfl⟩ := Language.mem_mul.mp hword
      exact headNot_cons.mpr (by decide)
  | object members =>
      rw [spellings] at hword
      obtain ⟨_, rfl, rest, -, rfl⟩ := Language.mem_mul.mp hword
      exact headNot_cons.mpr (by decide)

/-- A text that is cut off is no text of a value, if the whole text is not a number. -/
theorem parse_truncated {front back : List Char} {value : Json}
    (hword : front ++ back ∈ spellings value) (hnumber : ∀ number, value ≠ .number number)
    (hback : back ≠ []) : parse front = none := by
  cases hread : parse front with
  | none => rfl
  | some found =>
      exfalso
      obtain ⟨gap, hgap, rest, hrest, rfl⟩ := Language.mem_mul.mp (parse_eq_some_iff.mp hread)
      obtain ⟨other, hother, gap', hgap', rfl⟩ := Language.mem_mul.mp hrest
      obtain ⟨c, more, hcons, hblank, -⟩ := begins_spellings value _ hword
      -- The text begins as the whole one does, with neither a blank nor a number.
      cases gap with
      | cons x gap =>
          obtain rfl : x = c := (List.cons.inj hcons).1
          rw [hgap x List.mem_cons_self] at hblank
          cases hblank
      | nil =>
          obtain ⟨x, word, rfl, -⟩ := begins_spellings found other hother
          simp only [List.nil_append, List.append_assoc] at hword
          have hhead : (Reader.isDigit x || x == '-') = false :=
            spellings_head hnumber hword x rfl
          have hfound : ∀ number, found ≠ .number number := by
            rintro number rfl
            rw [spellings] at hother
            obtain ⟨y, tail, heq, hy⟩ := numerals_head hother.1
            cases heq
            rw [Bool.or_eq_false_iff, beq_eq_false_iff_ne] at hhead
            rcases hy with hy | hy
            · rw [hy] at hhead
              cases hhead.1
            · exact hhead.2 hy
          let whole := x :: word ++ (gap' ++ back)
          have hfront : parseValue (2 * whole.length + 1) whole = some (found, gap' ++ back) :=
            (parse_complete _).1 hother (by simp only [whole, List.length_append]; omega)
              fun number heq => absurd heq (hfound number)
          have hwhole : parseValue (2 * whole.length + 1) (whole ++ []) = some (value, []) :=
            (parse_complete _).1 hword (by omega) fun _ _ => headNot_nil _
          rw [List.append_nil, hfront, Option.some.injEq, Prod.mk.injEq] at hwhole
          exact hback (List.append_eq_nil_iff.mp hwhole.2).2

variable {dtoa : Double → String} {reread : Double → Double}

theorem shown_not_number {value : Json} (hfinite : finite value = false) :
    ∀ number, shown reread value ≠ .number number := by
  intro number heq
  cases value with
  | number value =>
      cases value with
      | int value => cases hfinite
      | double value =>
          rw [finite, numbers, List.all_cons, numberFinite, List.all_nil, Bool.and_true,
            Bool.not_eq_false'] at hfinite
          rw [shown, shownNumber, hfinite] at heq
          cases heq
  | null | bool _ | string _ | array _ | object _ => cases heq

/-- What is written is read as the value, and is no text of a value if the writer stopped. -/
theorem parse_encode {value : Json} (hlegible : Legible dtoa reread value) :
    parseJson (encode dtoa value) =
      if finite value then some (shown reread value) else none := by
  have hword := printed_mem value hlegible
  have hfree := free_spellings _ _ hword
  have hprints : Prints ⟨"", true⟩ (printed dtoa value) (finite value)
      (write dtoa value ⟨"", true⟩) := prints_write value rfl
  rw [encode, parseJson]
  generalize htext : printed dtoa value = text at hprints hword hfree
  generalize hwhole : finite value = whole at hprints
  generalize write dtoa value ⟨"", true⟩ = written at hprints
  cases hprints with
  | whole =>
      rw [cStr_eq_self (by simpa using hfree), if_pos rfl, parse_eq_some_iff, String.empty_append,
        String.toList_ofList]
      exact blanks_mem (mem_blanks hword)
  | cut hback =>
      rw [List.mem_append, not_or] at hfree
      rw [cStr_eq_self (by simpa using hfree.1), if_neg Bool.false_ne_true, String.empty_append,
        String.toList_ofList]
      exact parse_truncated hword (shown_not_number hwhole) hback

/-! What is read fits into its type. -/

theorem fits_of_numeral {value : Int} {word : List Char} (hword : word ∈ integerNumerals value) :
    fits value := by
  rcases hword with hword | hword
  · obtain ⟨-, hle, heq⟩ := hword
    simp only [largest, signed, Bool.false_eq_true, if_false] at hle heq
    constructor <;> omega
  · obtain ⟨_, -, digits, ⟨-, hle, heq⟩, -⟩ := Language.mem_mul.mp hword
    simp only [largest, signed, if_true] at hle heq
    constructor <;> omega

theorem numberFits_of_spelled {value : Number} {word : List Char}
    (hword : word ∈ numberSpellings value) : numberFits value := by
  cases value with
  | int value =>
      rw [numberSpellings_int] at hword
      exact fits_of_numeral hword
  | double value => trivial

/-- Something is before the mark, and something behind it. -/
theorem spaced_parts {front back : Language Char} {mark : Char} {word : List Char}
    (hword : word ∈ spaced front mark back) :
    (∃ first, first ∈ front) ∧ ∃ second, second ∈ back := by
  obtain ⟨first, hfirst, rest, hrest, -⟩ := Language.mem_mul.mp hword
  obtain ⟨-, -, marked, hmarked, -⟩ := Language.mem_mul.mp hrest
  obtain ⟨-, -, spread, hspread, -⟩ := Language.mem_mul.mp hmarked
  obtain ⟨-, -, second, hsecond, -⟩ := Language.mem_mul.mp hspread
  exact ⟨⟨first, hfirst⟩, second, hsecond⟩

theorem enclosed_inside {opening closing : Char} {inside : Language Char} {word : List Char}
    (hword : word ∈ enclosed opening closing inside) : ∃ word, word ∈ inside := by
  obtain ⟨-, -, rest, hrest, -⟩ := Language.mem_mul.mp hword
  obtain ⟨-, -, closed, hclosed, -⟩ := Language.mem_mul.mp hrest
  obtain ⟨found, hfound, -⟩ := Language.mem_mul.mp hclosed
  exact ⟨found, hfound⟩

mutual
theorem intsFit_of_spelled : ∀ (value : Json), (∃ word, word ∈ spellings value) → intsFit value
  | .null, _ | .bool _, _ | .string _, _ => nofun
  | .number value, hspelled => by
      obtain ⟨word, hword⟩ := hspelled
      rw [spellings] at hword
      intro number hmem
      rw [numbers, List.mem_singleton] at hmem
      rw [hmem]
      exact numberFits_of_spelled hword
  | .array elements, hspelled => by
      obtain ⟨word, hword⟩ := hspelled
      rw [spellings] at hword
      exact intsFit_of_elements elements (enclosed_inside hword)
  | .object members, hspelled => by
      obtain ⟨word, hword⟩ := hspelled
      rw [spellings] at hword
      exact intsFit_of_members members (enclosed_inside hword)

theorem intsFit_of_elements : ∀ (elements : List Json),
    (∃ word, word ∈ elementSpellings elements) →
      ∀ number ∈ numbersElements elements, numberFits number
  | [], _ => nofun
  | [value], hspelled => by
      obtain ⟨word, hword⟩ := hspelled
      rw [elementSpellings] at hword
      obtain ⟨first, hfirst, -⟩ := Language.mem_mul.mp hword
      rw [numbersElements, numbersElements, List.append_nil]
      exact intsFit_of_spelled value ⟨first, hfirst⟩
  | value :: next :: rest, hspelled => by
      obtain ⟨word, hword⟩ := hspelled
      rw [elementSpellings] at hword
      obtain ⟨hfirst, hsecond⟩ := spaced_parts hword
      rw [numbersElements, List.forall_mem_append]
      exact ⟨intsFit_of_spelled value hfirst, intsFit_of_elements (next :: rest) hsecond⟩

theorem intsFit_of_members : ∀ (members : List (String × Json)),
    (∃ word, word ∈ memberSpellings members) →
      ∀ number ∈ numbersMembers members, numberFits number
  | [], _ => nofun
  | [(name, value)], hspelled => by
      obtain ⟨word, hword⟩ := hspelled
      rw [memberSpellings] at hword
      obtain ⟨-, back, hback⟩ := spaced_parts hword
      obtain ⟨first, hfirst, -⟩ := Language.mem_mul.mp hback
      rw [numbersMembers, numbersMembers, List.append_nil]
      exact intsFit_of_spelled value ⟨first, hfirst⟩
  | (name, value) :: next :: rest, hspelled => by
      obtain ⟨word, hword⟩ := hspelled
      rw [memberSpellings] at hword
      obtain ⟨-, back, hback⟩ := spaced_parts hword
      obtain ⟨hfirst, hsecond⟩ := spaced_parts hback
      rw [numbersMembers, List.forall_mem_append]
      exact ⟨intsFit_of_spelled value hfirst, intsFit_of_members (next :: rest) hsecond⟩
end

theorem intsFit_of_parse {text : String} {value : Json} (hread : parseJson text = some value) :
    intsFit value := by
  obtain ⟨-, -, rest, hrest, -⟩ := Language.mem_mul.mp (parse_eq_some_iff.mp hread)
  obtain ⟨word, hword, -⟩ := Language.mem_mul.mp hrest
  exact intsFit_of_spelled value ⟨word, hword⟩

end Reading

end Json

end Uskit
