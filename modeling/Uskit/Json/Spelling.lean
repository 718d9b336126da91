import Uskit.Json.Numeral

namespace Uskit

open Uskit.Grammar Uskit.Grammar.Reader

/-! The texts of a value: what is read, told by recursion on the value. -/

namespace Json.Reader

/-- What a string holds as it stands. -/
def isPlain (c : Char) : Bool :=
  decide (0x20 ≤ c.toNat) && c != '"' && c != '\\'

/-- The text between quotation marks, and the bytes that it stands for. -/
inductive Spells : List Char → List Char → Prop where
  | nil : Spells [] []
  | plain (hc : isPlain c = true) (hbody : Spells body bytes) :
      Spells (c :: body) (c :: bytes)
  | escaped (he : escape e = some c) (hbody : Spells body bytes) :
      Spells ('\\' :: e :: body) (c :: bytes)
  | unicode (hcode : parseHex4 a b c d = some codepoint)
      (hsingle : isHighSurrogate codepoint = false) (hbody : Spells body bytes) :
      Spells ('\\' :: 'u' :: a :: b :: c :: d :: body) (encodeUtf8 codepoint ++ bytes)
  | surrogates (hcode : parseHex4 a b c d = some codepoint)
      (hhigh : isHighSurrogate codepoint = true)
      (hcode2 : parseHex4 e f g h = some codepoint2)
      (hjoin : joinSurrogates codepoint codepoint2 = some joined)
      (hbody : Spells body bytes) :
      Spells ('\\' :: 'u' :: a :: b :: c :: d :: '\\' :: 'u' :: e :: f :: g :: h :: body)
        (encodeUtf8 joined ++ bytes)

section Strings

theorem parseString_escape {e c : Char} (he : escape e = some c) (rest : List Char) :
    parseStringToStream ('\\' :: e :: rest) =
      (parseStringToStream rest).map fun taken => (c :: taken.1, taken.2) := by
  rw [parseStringToStream]
  · rw [he]
    cases hread : parseStringToStream rest <;> simp
  · rintro a b c' d rest' rfl rfl
    cases he

theorem parseString_plain {c : Char} (hc : isPlain c = true) (rest : List Char) :
    parseStringToStream (c :: rest) =
      (parseStringToStream rest).map fun taken => (c :: taken.1, taken.2) := by
  simp only [isPlain, Bool.and_eq_true, decide_eq_true_eq, bne_iff_ne] at hc
  obtain ⟨⟨hcontrol, hquote⟩, hslash⟩ := hc
  rw [parseStringToStream, if_neg (by omega)]
  · cases hread : parseStringToStream rest <;> simp
  · exact fun h => hquote h
  · exact fun a b c' d rest' h => absurd h hslash
  · exact fun e rest' h => absurd h hslash

theorem parseString_of_spells {body bytes : List Char} (hbody : Spells body bytes)
    (rest : List Char) :
    parseStringToStream (body ++ '"' :: rest) = some (bytes, rest) := by
  induction hbody with
  | nil => rfl
  | plain hc _ ih =>
      rw [List.cons_append, parseString_plain hc, ih]
      rfl
  | escaped he _ ih =>
      rw [List.cons_append, List.cons_append, parseString_escape he, ih]
      rfl
  | unicode hcode hsingle _ ih =>
      simp [parseStringToStream, hcode, hsingle, ih]
  | surrogates hcode hhigh hcode2 hjoin _ ih =>
      simp [parseStringToStream, hcode, hhigh, hcode2, hjoin, ih]

theorem spells_of_parseString {text bytes rest : List Char}
    (hread : parseStringToStream text = some (bytes, rest)) :
    ∃ body, Spells body bytes ∧ text = body ++ '"' :: rest := by
  fun_induction parseStringToStream text generalizing bytes rest with
  | case1 => cases hread
  | case2 =>
      cases hread
      exact ⟨[], .nil, rfl⟩
  | case3 a b c d text ihPair ih =>
      obtain ⟨codepoint, hcode, hread⟩ := Option.bind_eq_some_iff.mp hread
      cases hhigh : isHighSurrogate codepoint with
      | false =>
          rw [hhigh, if_neg Bool.false_ne_true] at hread
          obtain ⟨⟨more, left⟩, hmore, hread⟩ := Option.bind_eq_some_iff.mp hread
          cases hread
          obtain ⟨body, hbody, rfl⟩ := ih hmore
          exact ⟨_, .unicode hcode hhigh hbody, rfl⟩
      | true =>
          rw [hhigh, if_pos rfl] at hread
          split at hread
          · obtain ⟨codepoint2, hcode2, hread⟩ := Option.bind_eq_some_iff.mp hread
            obtain ⟨joined, hjoin, hread⟩ := Option.bind_eq_some_iff.mp hread
            obtain ⟨⟨more, left⟩, hmore, hread⟩ := Option.bind_eq_some_iff.mp hread
            cases hread
            obtain ⟨body, hbody, rfl⟩ := ihPair hmore
            exact ⟨_, .surrogates hcode hhigh hcode2 hjoin hbody, rfl⟩
          · cases hread
  | case4 e text _ ih =>
      obtain ⟨c, he, hread⟩ := Option.bind_eq_some_iff.mp hread
      obtain ⟨⟨more, left⟩, hmore, hread⟩ := Option.bind_eq_some_iff.mp hread
      cases hread
      obtain ⟨body, hbody, rfl⟩ := ih hmore
      exact ⟨_, .escaped he hbody, rfl⟩
  | case5 => cases hread
  | case6 c text hquote _ hslash hcontrol ih =>
      obtain ⟨⟨more, left⟩, hmore, hread⟩ := Option.bind_eq_some_iff.mp hread
      cases hread
      -- A backslash at the very end has no quotation mark behind it.
      have hplain : c ≠ '\\' := by
        rintro rfl
        cases text with
        | nil => cases hmore
        | cons e rest => exact hslash e rest rfl rfl
      obtain ⟨body, hbody, rfl⟩ := ih hmore
      refine ⟨c :: body, .plain ?_ hbody, rfl⟩
      simp only [isPlain, Bool.and_eq_true, decide_eq_true_eq, bne_iff_ne]
      exact ⟨⟨by omega, hquote⟩, hplain⟩

end Strings

/-! Values. -/

def blanks : Language Char :=
  {word | ∀ c ∈ word, isWhitespace c = true}

def numberSpellings (value : Number) : Language Char :=
  {word | word ∈ numerals ∧ (parseNumber word).map Prod.fst = some value}

def bodies (bytes : List Char) : Language Char :=
  {body | Spells body bytes}

/-- A container, of which the members or elements are inside. -/
def enclosed (opening closing : Char) (inside : Language Char) : Language Char :=
  {[opening]} * (blanks * (inside * {[closing]}))

/-- What stands before and behind a mark, and blanks at both sides of it. -/
def spaced (front : Language Char) (mark : Char) (back : Language Char) : Language Char :=
  front * (blanks * ({[mark]} * (blanks * back)))

def stringSpellings (text : String) : Language Char :=
  {['"']} * (bodies text.toList * {['"']})

mutual
def spellings : Json → Language Char
  | .null => {['n', 'u', 'l', 'l']}
  | .bool true => {['t', 'r', 'u', 'e']}
  | .bool false => {['f', 'a', 'l', 's', 'e']}
  | .number value => numberSpellings value
  | .string text => stringSpellings text
  | .array elements => enclosed '[' ']' (elementSpellings elements)
  | .object members => enclosed '\x7b' '\x7d' (memberSpellings members)

def elementSpellings : List Json → Language Char
  | [] => 1
  | [value] => spellings value * blanks
  | value :: next :: rest =>
      spaced (spellings value) ',' (elementSpellings (next :: rest))

def memberSpellings : List (String × Json) → Language Char
  | [] => 1
  | [(name, value)] =>
      spaced (stringSpellings name) ':' (spellings value * blanks)
  | (name, value) :: next :: rest =>
      spaced (stringSpellings name) ':'
        (spaced (spellings value) ',' (memberSpellings (next :: rest)))
end

theorem elementSpellings_cons {value : Json} {others : List Json} (hothers : others ≠ []) :
    elementSpellings (value :: others) =
      spaced (spellings value) ',' (elementSpellings others) := by
  cases others with
  | nil => exact absurd rfl hothers
  | cons next rest => rw [elementSpellings]

theorem memberSpellings_cons {name : String} {value : Json} {others : List (String × Json)}
    (hothers : others ≠ []) :
    memberSpellings ((name, value) :: others) =
      spaced (stringSpellings name) ':'
        (spaced (spellings value) ',' (memberSpellings others)) := by
  cases others with
  | nil => exact absurd rfl hothers
  | cons next rest => rw [memberSpellings]

section Sound

theorem skipWhitespace_sound {text rest : List Char} (hskip : skipWhitespace text = rest) :
    ∃ gap ∈ blanks, gap ++ rest = text := by
  refine ⟨text.takeWhile isWhitespace, fun _ hc => List.mem_takeWhile_imp hc, ?_⟩
  rw [← hskip]
  exact List.takeWhile_append_dropWhile

theorem enclosed_sound {opening closing : Char} {inside : Language Char}
    {word rest text skipped : List Char} (hword : word ∈ inside)
    (hskip : skipWhitespace text = skipped) (hrest : word ++ closing :: rest = skipped) :
    ∃ word ∈ enclosed opening closing inside, word ++ rest = opening :: text := by
  obtain ⟨gap, hgap, rfl⟩ := skipWhitespace_sound hskip
  refine ⟨[opening] ++ (gap ++ (word ++ [closing])), ?_, ?_⟩
  · exact Language.append_mem_mul (Set.mem_singleton [opening])
      (Language.append_mem_mul hgap
        (Language.append_mem_mul hword (Set.mem_singleton [closing])))
  · simp only [← hrest, List.append_assoc, List.nil_append, List.cons_append]

theorem spaced_sound {front back : Language Char} {mark : Char}
    {word behind more skipped rest : List Char} (hword : word ∈ front)
    (hskip : skipWhitespace behind = mark :: more) (hmore : skipWhitespace more = skipped)
    (hback : ∃ word ∈ back, word ++ rest = skipped) :
    ∃ whole ∈ spaced front mark back, whole ++ rest = word ++ behind := by
  obtain ⟨gap, hgap, rfl⟩ := skipWhitespace_sound hskip
  obtain ⟨gap', hgap', rfl⟩ := skipWhitespace_sound hmore
  obtain ⟨tail, htail, rfl⟩ := hback
  refine ⟨word ++ (gap ++ ([mark] ++ (gap' ++ tail))), ?_, ?_⟩
  · exact Language.append_mem_mul hword (Language.append_mem_mul hgap
      (Language.append_mem_mul (Set.mem_singleton [mark]) (Language.append_mem_mul hgap' htail)))
  · simp only [List.append_assoc, List.cons_append, List.nil_append]

theorem last_sound {front : Language Char} {mark : Char} {word behind more : List Char}
    (hword : word ∈ front) (hskip : skipWhitespace behind = mark :: more) :
    ∃ whole ∈ front * blanks, whole ++ mark :: more = word ++ behind := by
  obtain ⟨gap, hgap, rfl⟩ := skipWhitespace_sound hskip
  exact ⟨word ++ gap, Language.append_mem_mul hword hgap, List.append_assoc _ _ _⟩

theorem consume_eq_some {expected text rest : List Char}
    (hread : consume expected text = some rest) : text = expected ++ rest := by
  induction expected generalizing text with
  | nil =>
      cases hread
      rfl
  | cons e expected ih =>
      cases text with
      | nil => cases hread
      | cons c text =>
          rw [consume] at hread
          split at hread
          · rename_i heq
            rw [heq, ih hread, List.cons_append]
          · cases hread

theorem mem_stringSpellings {body bytes : List Char} (hbody : Spells body bytes) :
    ['"'] ++ (body ++ ['"']) ∈ stringSpellings (.ofList bytes) := by
  have hbytes : body ∈ bodies (String.ofList bytes).toList := by
    rw [String.toList_ofList]
    exact hbody
  exact Language.append_mem_mul (Set.mem_singleton ['"'])
    (Language.append_mem_mul hbytes (Set.mem_singleton ['"']))

theorem string_sound {text bytes rest : List Char}
    (hread : parseStringToStream text = some (bytes, rest)) :
    ∃ word ∈ stringSpellings (.ofList bytes), word ++ rest = '"' :: text := by
  obtain ⟨body, hbody, rfl⟩ := spells_of_parseString hread
  refine ⟨_, mem_stringSpellings hbody, ?_⟩
  simp only [List.append_assoc, List.nil_append, List.cons_append]

theorem number_sound {text rest : List Char} {value : Number}
    (hread : parseNumber text = some (value, rest)) :
    ∃ word ∈ numberSpellings value, word ++ rest = text := by
  obtain ⟨word, hword, rfl, hother⟩ := parseNumber_takes text value rest hread
  have halone := hother [] (.inr (headNot_nil _))
  rw [List.append_nil] at halone
  exact ⟨word, ⟨hword, by rw [halone]; rfl⟩, rfl⟩

/-- What is read is a spelling, by induction on the bound. -/
theorem parse_sound (bound : Nat) :
    (∀ {text value rest}, parseValue bound text = some (value, rest) →
      ∃ word ∈ spellings value, word ++ rest = text) ∧
    (∀ {text elements rest}, parseElements bound text = some (elements, rest) →
      elements ≠ [] ∧ ∃ word ∈ elementSpellings elements, word ++ ']' :: rest = text) ∧
    (∀ {text members rest}, parseMembers bound text = some (members, rest) →
      members ≠ [] ∧ ∃ word ∈ memberSpellings members, word ++ '\x7d' :: rest = text) := by
  induction bound with
  | zero => exact ⟨nofun, nofun, nofun⟩
  | succ bound ih =>
      obtain ⟨ihValue, ihElements, ihMembers⟩ := ih
      refine ⟨?_, ?_, ?_⟩
      · intro text value rest hread
        unfold parseValue at hread
        split at hread
        case h_1 heq => cases heq
        case h_2 | h_3 | h_4 =>
          obtain ⟨left, hleft, hread⟩ := Option.bind_eq_some_iff.mp hread
          cases hread
          rw [consume_eq_some hleft]
          exact ⟨_, Set.mem_singleton _, rfl⟩
        case h_5 text heq =>
          obtain ⟨⟨bytes, left⟩, hbytes, hread⟩ := Option.bind_eq_some_iff.mp hread
          cases hread
          exact string_sound hbytes
        case h_6 bound' text heq =>
          cases heq
          split at hread
          · rename_i hskip
            cases hread
            exact enclosed_sound Language.nil_mem_one hskip rfl
          · obtain ⟨⟨members, left⟩, hmembers, hread⟩ := Option.bind_eq_some_iff.mp hread
            cases hread
            obtain ⟨-, word, hword, hrest⟩ := ihMembers hmembers
            exact enclosed_sound hword rfl hrest
        case h_7 bound' text heq =>
          cases heq
          split at hread
          · rename_i hskip
            cases hread
            exact enclosed_sound Language.nil_mem_one hskip rfl
          · obtain ⟨⟨elements, left⟩, helements, hread⟩ := Option.bind_eq_some_iff.mp hread
            cases hread
            obtain ⟨-, word, hword, hrest⟩ := ihElements helements
            exact enclosed_sound hword rfl hrest
        case h_8 =>
          obtain ⟨⟨number, left⟩, hnumber, hread⟩ := Option.bind_eq_some_iff.mp hread
          cases hread
          exact number_sound hnumber
      · intro text elements rest hread
        rw [parseElements] at hread
        obtain ⟨⟨value, left⟩, hvalue, hafter⟩ := Option.bind_eq_some_iff.mp hread
        obtain ⟨word, hword, rfl⟩ := ihValue hvalue
        dsimp only at hafter
        split at hafter
        · rename_i more hskip
          obtain ⟨⟨others, left'⟩, hothers, hpair⟩ := Option.bind_eq_some_iff.mp hafter
          cases hpair
          obtain ⟨hne, hback⟩ := ihElements hothers
          refine ⟨List.cons_ne_nil _ _, ?_⟩
          rw [elementSpellings_cons hne]
          exact spaced_sound hword hskip rfl hback
        · rename_i more hskip
          cases hafter
          exact ⟨List.cons_ne_nil _ _, last_sound hword hskip⟩
        · cases hafter
      · intro text members rest hread
        unfold parseMembers at hread
        split at hread
        case h_1 heq => cases heq
        case h_3 => cases hread
        case h_2 bound' text heq =>
          cases heq
          obtain ⟨⟨name, left⟩, hname, hafter⟩ := Option.bind_eq_some_iff.mp hread
          obtain ⟨spelled, hspelled, htext⟩ := string_sound hname
          dsimp only at hafter
          split at hafter
          case h_2 => cases hafter
          case h_1 more hskip =>
            obtain ⟨⟨value, behind⟩, hvalue, hafter⟩ := Option.bind_eq_some_iff.mp hafter
            obtain ⟨word, hword, hrest⟩ := ihValue hvalue
            rw [← htext]
            dsimp only at hafter
            split at hafter
            · rename_i further hskip'
              obtain ⟨⟨others, left'⟩, hothers, hpair⟩ := Option.bind_eq_some_iff.mp hafter
              cases hpair
              obtain ⟨hne, hback⟩ := ihMembers hothers
              refine ⟨List.cons_ne_nil _ _, ?_⟩
              rw [memberSpellings_cons hne]
              exact spaced_sound hspelled hskip hrest.symm
                (spaced_sound hword hskip' rfl hback)
            · rename_i further hskip'
              cases hafter
              exact ⟨List.cons_ne_nil _ _, spaced_sound hspelled hskip hrest.symm
                (last_sound hword hskip')⟩
            · cases hafter

end Sound

section Complete

theorem skipWhitespace_append {gap rest : List Char} (hgap : gap ∈ blanks)
    (hrest : HeadNot isWhitespace rest) : skipWhitespace (gap ++ rest) = rest :=
  dropWhile_append_of_headNot hgap hrest

/-- Neither a blank nor the end of a container. -/
def Begins (word : List Char) : Prop :=
  ∃ c rest, word = c :: rest ∧ isWhitespace c = false ∧ c ≠ ']' ∧ c ≠ '\x7d'

theorem Begins.append {word : List Char} (hword : Begins word) (other : List Char) :
    Begins (word ++ other) := by
  obtain ⟨c, rest, rfl, hc⟩ := hword
  exact ⟨c, rest ++ other, rfl, hc⟩

theorem Begins.headNot {word : List Char} (hword : Begins word) :
    HeadNot isWhitespace word := by
  obtain ⟨c, rest, rfl, hc, -⟩ := hword
  exact headNot_cons.mpr hc

theorem begins_mul {front back : Language Char} (hfront : ∀ word ∈ front, Begins word) :
    ∀ word ∈ front * back, Begins word := by
  intro word hword
  obtain ⟨first, hfirst, second, -, rfl⟩ := Language.mem_mul.mp hword
  exact (hfront first hfirst).append second

theorem stops_blanks {gap rest : List Char} (hgap : gap ∈ blanks) (hrest : Stops rest) :
    Stops (gap ++ rest) := by
  cases gap with
  | nil => exact hrest
  | cons c gap =>
      have hc := hgap c List.mem_cons_self
      simp only [isWhitespace, Bool.or_eq_true, beq_iff_eq] at hc
      refine headNot_cons.mpr ?_
      rcases hc with ((rfl | rfl) | rfl) | rfl <;> decide

/-- What begins a numeral is neither a blank nor the end of a container. -/
theorem numeral_char {c : Char} (hc : isDigit c = true ∨ c = '-') :
    isWhitespace c = false ∧ c ≠ ']' ∧ c ≠ '\x7d' := by
  refine ⟨?_, ?_, ?_⟩
  · cases hblank : isWhitespace c with
    | false => rfl
    | true =>
        simp only [isWhitespace, Bool.or_eq_true, beq_iff_eq] at hblank
        rcases hblank with ((rfl | rfl) | rfl) | rfl <;> exact absurd hc (by decide)
  · rintro rfl
    exact absurd hc (by decide)
  · rintro rfl
    exact absurd hc (by decide)

/-- A numeral begins with a digit or a minus. -/
theorem numerals_head {word : List Char} (hword : word ∈ numerals) :
    ∃ c rest, word = c :: rest ∧ (isDigit c = true ∨ c = '-') := by
  rcases hword with hword | hword
  · obtain ⟨c, rest, rfl, hc⟩ := unsignedNumerals_head hword
    exact ⟨c, rest, rfl, .inl hc⟩
  · obtain ⟨_, rfl, back, -, rfl⟩ := Language.mem_mul.mp hword
    exact ⟨'-', back, rfl, .inr rfl⟩

theorem begins_string (text : String) : ∀ word ∈ stringSpellings text, Begins word :=
  begins_mul fun word hword => ⟨'"', [], hword, by decide⟩

theorem begins_enclosed {opening closing : Char} {inside : Language Char}
    (hopening : Begins [opening]) :
    ∀ word ∈ enclosed opening closing inside, Begins word := by
  refine begins_mul fun word hword => ?_
  rw [Set.mem_singleton_iff.mp hword]
  exact hopening

theorem begins_spellings (value : Json) : ∀ word ∈ spellings value, Begins word := by
  intro word hword
  cases value with
  | null =>
      rw [spellings] at hword
      exact ⟨'n', ['u', 'l', 'l'], hword, by decide⟩
  | bool b =>
      cases b with
      | true =>
          rw [spellings] at hword
          exact ⟨'t', ['r', 'u', 'e'], hword, by decide⟩
      | false =>
          rw [spellings] at hword
          exact ⟨'f', ['a', 'l', 's', 'e'], hword, by decide⟩
  | number value =>
      rw [spellings] at hword
      obtain ⟨c, rest, rfl, hc⟩ := numerals_head hword.1
      exact ⟨c, rest, rfl, numeral_char hc⟩
  | string text =>
      rw [spellings] at hword
      exact begins_string text word hword
  | array elements =>
      rw [spellings] at hword
      exact begins_enclosed ⟨'[', [], rfl, by decide⟩ word hword
  | object members =>
      rw [spellings] at hword
      exact begins_enclosed ⟨'\x7b', [], rfl, by decide⟩ word hword

theorem begins_elements {elements : List Json} (hne : elements ≠ []) :
    ∀ word ∈ elementSpellings elements, Begins word := by
  cases elements with
  | nil => exact absurd rfl hne
  | cons value rest =>
      cases rest with
      | nil =>
          rw [elementSpellings]
          exact begins_mul (begins_spellings value)
      | cons next rest =>
          rw [elementSpellings]
          exact begins_mul (begins_spellings value)

theorem begins_members {members : List (String × Json)} (hne : members ≠ []) :
    ∀ word ∈ memberSpellings members, Begins word := by
  cases members with
  | nil => exact absurd rfl hne
  | cons member rest =>
      obtain ⟨name, value⟩ := member
      cases rest with
      | nil =>
          rw [memberSpellings]
          exact begins_mul (begins_string name)
      | cons next rest =>
          rw [memberSpellings]
          exact begins_mul (begins_string name)

/-- The word before a mark, and the word behind it. -/
theorem mem_spaced {front back : Language Char} {mark : Char} {whole : List Char}
    (hmark : isWhitespace mark = false) (hgoes : goesOn mark = false)
    (hback : ∀ word ∈ back, Begins word) (hwhole : whole ∈ spaced front mark back) :
    ∃ first ∈ front, ∃ second ∈ back, first.length + second.length < whole.length ∧
      ∀ other, ∃ behind more, whole ++ other = first ++ behind ∧ Stops behind ∧
        skipWhitespace behind = mark :: more ∧ skipWhitespace more = second ++ other := by
  obtain ⟨first, hfirst, back', hback', rfl⟩ := Language.mem_mul.mp hwhole
  obtain ⟨gap, hgap, marked, hmarked, rfl⟩ := Language.mem_mul.mp hback'
  obtain ⟨_, rfl, spread, hspread, rfl⟩ := Language.mem_mul.mp hmarked
  obtain ⟨gap', hgap', second, hsecond, rfl⟩ := Language.mem_mul.mp hspread
  refine ⟨first, hfirst, second, hsecond, ?_, fun other => ?_⟩
  · simp only [List.length_append, List.length_singleton]
    omega
  · refine ⟨gap ++ ([mark] ++ (gap' ++ second)) ++ other, gap' ++ (second ++ other), ?_, ?_,
      ?_, ?_⟩
    · simp only [List.append_assoc]
    · rw [List.append_assoc]
      exact stops_blanks hgap (headNot_cons.mpr hgoes)
    · simp only [List.append_assoc, List.cons_append, List.nil_append]
      exact skipWhitespace_append hgap (headNot_cons.mpr hmark)
    · exact skipWhitespace_append hgap' ((hback second hsecond).append other).headNot

theorem mem_last {front : Language Char} {whole : List Char} (mark : Char)
    (hmark : isWhitespace mark = false) (hgoes : goesOn mark = false)
    (hwhole : whole ∈ front * blanks) :
    ∃ first ∈ front, first.length ≤ whole.length ∧
      ∀ other, ∃ behind, whole ++ mark :: other = first ++ behind ∧ Stops behind ∧
        skipWhitespace behind = mark :: other := by
  obtain ⟨first, hfirst, gap, hgap, rfl⟩ := Language.mem_mul.mp hwhole
  refine ⟨first, hfirst, ?_, fun other => ⟨gap ++ mark :: other, ?_, ?_, ?_⟩⟩
  · rw [List.length_append]
    exact Nat.le_add_right _ _
  · exact List.append_assoc _ _ _
  · exact stops_blanks hgap (headNot_cons.mpr hgoes)
  · exact skipWhitespace_append hgap (headNot_cons.mpr hmark)

theorem string_complete {text : String} {word : List Char} (hword : word ∈ stringSpellings text) :
    ∃ body, word = '"' :: body ∧
      ∀ other, parseStringToStream (body ++ other) = some (text.toList, other) := by
  obtain ⟨_, rfl, rest, hrest, rfl⟩ := Language.mem_mul.mp hword
  obtain ⟨body, hbody, _, rfl, rfl⟩ := Language.mem_mul.mp hrest
  refine ⟨body ++ ['"'], rfl, fun other => ?_⟩
  rw [List.append_assoc]
  exact parseString_of_spells hbody other

theorem number_complete {value : Number} {word : List Char}
    (hword : word ∈ numberSpellings value) {other : List Char} (hother : Stops other) :
    parseNumber (word ++ other) = some (value, other) :=
  parseNumber_takes.append (parseNumber_iff.mpr hword) hother

theorem mem_enclosed {opening closing : Char} {inside : Language Char} {whole : List Char}
    (hinside : ∀ word ∈ inside, ∀ rest, HeadNot isWhitespace (word ++ closing :: rest))
    (hwhole : whole ∈ enclosed opening closing inside) :
    ∃ word ∈ inside, word.length + 2 ≤ whole.length ∧
      ∀ other, ∃ text, whole ++ other = opening :: text ∧
        skipWhitespace text = word ++ closing :: other := by
  obtain ⟨_, rfl, rest, hrest, rfl⟩ := Language.mem_mul.mp hwhole
  obtain ⟨gap, hgap, rest', hrest', rfl⟩ := Language.mem_mul.mp hrest
  obtain ⟨word, hword, _, rfl, rfl⟩ := Language.mem_mul.mp hrest'
  refine ⟨word, hword, ?_, fun other => ⟨gap ++ (word ++ closing :: other), ?_, ?_⟩⟩
  · simp only [List.length_append, List.length_singleton]
    omega
  · simp only [List.append_assoc, List.cons_append, List.nil_append]
  · exact skipWhitespace_append hgap (hinside word hword other)

theorem parseValue_array {bound : Nat} {text skipped : List Char}
    (hskip : skipWhitespace text = skipped) (hbegins : Begins skipped) :
    parseValue (bound + 1) ('[' :: text) =
      (parseElements bound skipped).map fun taken => (.array taken.1, taken.2) := by
  obtain ⟨c, rest, rfl, -, hclose, -⟩ := hbegins
  rw [parseValue, hskip]
  split
  · rename_i heq
    cases heq
    exact absurd rfl hclose
  · cases parseElements bound (c :: rest) <;> rfl

theorem parseValue_object {bound : Nat} {text skipped : List Char}
    (hskip : skipWhitespace text = skipped) (hbegins : Begins skipped) :
    parseValue (bound + 1) ('\x7b' :: text) =
      (parseMembers bound skipped).map fun taken => (.object taken.1, taken.2) := by
  obtain ⟨c, rest, rfl, -, -, hclose⟩ := hbegins
  rw [parseValue, hskip]
  split
  · rename_i heq
    cases heq
    exact absurd rfl hclose
  · cases parseMembers bound (c :: rest) <;> rfl

theorem parseValue_number {bound : Nat} {c : Char} {rest : List Char}
    (hc : isDigit c = true ∨ c = '-') :
    parseValue (bound + 1) (c :: rest) =
      (parseNumber (c :: rest)).map fun taken => (.number taken.1, taken.2) := by
  rw [parseValue]
  · cases parseNumber (c :: rest) <;> rfl
  all_goals
    rintro text heq
    cases heq
    exact absurd hc (by decide)

theorem nothing_headNot {closing : Char} (hclosing : isWhitespace closing = false := by decide) :
    ∀ word ∈ (1 : Language Char), ∀ rest, HeadNot isWhitespace (word ++ closing :: rest) := by
  rintro word rfl rest
  exact headNot_cons.mpr hclosing

/-- Every spelling is read, by induction on the bound.  Only a number could go on in the
text behind it. -/
theorem parse_complete (bound : Nat) :
    (∀ {value word other}, word ∈ spellings value → 2 * word.length < bound →
      (∀ number, value = .number number → Stops other) →
      parseValue bound (word ++ other) = some (value, other)) ∧
    (∀ {elements word other}, elements ≠ [] → word ∈ elementSpellings elements →
      2 * word.length + 1 < bound →
      parseElements bound (word ++ ']' :: other) = some (elements, other)) ∧
    (∀ {members word other}, members ≠ [] → word ∈ memberSpellings members →
      2 * word.length + 1 < bound →
      parseMembers bound (word ++ '\x7d' :: other) = some (members, other)) := by
  induction bound with
  | zero => exact ⟨nofun, nofun, nofun⟩
  | succ bound ih =>
      obtain ⟨ihValue, ihElements, ihMembers⟩ := ih
      refine ⟨?_, ?_, ?_⟩
      · intro value word other hword hbound hother
        cases value with
        | null =>
            rw [spellings] at hword
            rw [Set.mem_singleton_iff.mp hword]
            rfl
        | bool b =>
            cases b with
            | true =>
                rw [spellings] at hword
                rw [Set.mem_singleton_iff.mp hword]
                rfl
            | false =>
                rw [spellings] at hword
                rw [Set.mem_singleton_iff.mp hword]
                rfl
        | number value =>
            rw [spellings] at hword
            obtain ⟨c, rest, rfl, hc⟩ := numerals_head hword.1
            rw [List.cons_append, parseValue_number hc, ← List.cons_append,
              number_complete hword (hother value rfl)]
            rfl
        | string text =>
            rw [spellings] at hword
            obtain ⟨body, rfl, hread⟩ := string_complete hword
            rw [List.cons_append, parseValue, hread]
            simp
        | array elements =>
            rw [spellings] at hword
            by_cases hne : elements = []
            · subst hne
              obtain ⟨inside, rfl, -, htext⟩ := mem_enclosed nothing_headNot hword
              obtain ⟨text, heq, hskip⟩ := htext other
              rw [heq, parseValue, hskip]
              rfl
            · have hbegins := begins_elements hne
              obtain ⟨inside, hinside, hlength, htext⟩ := mem_enclosed
                (fun inside hinside rest => ((hbegins inside hinside).append _).headNot) hword
              obtain ⟨text, heq, hskip⟩ := htext other
              rw [heq, parseValue_array hskip ((hbegins inside hinside).append _),
                ihElements hne hinside (by omega)]
              rfl
        | object members =>
            rw [spellings] at hword
            by_cases hne : members = []
            · subst hne
              obtain ⟨inside, rfl, -, htext⟩ := mem_enclosed nothing_headNot hword
              obtain ⟨text, heq, hskip⟩ := htext other
              rw [heq, parseValue, hskip]
              rfl
            · have hbegins := begins_members hne
              obtain ⟨inside, hinside, hlength, htext⟩ := mem_enclosed
                (fun inside hinside rest => ((hbegins inside hinside).append _).headNot) hword
              obtain ⟨text, heq, hskip⟩ := htext other
              rw [heq, parseValue_object hskip ((hbegins inside hinside).append _),
                ihMembers hne hinside (by omega)]
              rfl
      · intro elements word other hne hword hbound
        obtain ⟨value, others, rfl⟩ := List.exists_cons_of_ne_nil hne
        rw [parseElements]
        by_cases hothers : others = []
        · subst hothers
          rw [elementSpellings] at hword
          obtain ⟨first, hfirst, hlength, htext⟩ := mem_last ']' (by decide) (by decide) hword
          obtain ⟨behind, heq, hstops, hskip⟩ := htext other
          rw [heq, ihValue hfirst (by omega) fun _ _ => hstops]
          simp only [bind, Option.bind_some, hskip]
        · rw [elementSpellings_cons hothers] at hword
          obtain ⟨first, hfirst, second, hsecond, hlength, htext⟩ :=
            mem_spaced (by decide) (by decide) (begins_elements hothers) hword
          obtain ⟨behind, more, heq, hstops, hskip, hmore⟩ := htext (']' :: other)
          rw [heq, ihValue hfirst (by omega) fun _ _ => hstops]
          simp only [bind, Option.bind_some, hskip, hmore, ihElements hothers hsecond (by omega)]
      · intro members word other hne hword hbound
        obtain ⟨⟨name, value⟩, others, rfl⟩ := List.exists_cons_of_ne_nil hne
        by_cases hothers : others = []
        · subst hothers
          rw [memberSpellings] at hword
          obtain ⟨spelled, hspelled, back, hback, hlength, htext⟩ := mem_spaced (by decide)
            (by decide) (begins_mul (begins_spellings value)) hword
          obtain ⟨first, hfirst, hlength', htext'⟩ :=
            mem_last '\x7d' (by decide) (by decide) hback
          obtain ⟨behind, more, heq, -, hskip, hmore⟩ := htext ('\x7d' :: other)
          obtain ⟨behind', heq', hstops, hskip'⟩ := htext' other
          obtain ⟨body, rfl, hread⟩ := string_complete hspelled
          rw [heq, List.cons_append, parseMembers, hread]
          simp only [bind, Option.bind_some, hskip, hmore, heq',
            ihValue hfirst (by omega) (fun _ _ => hstops), hskip', String.ofList_toList]
        · rw [memberSpellings_cons hothers] at hword
          obtain ⟨spelled, hspelled, back, hback, hlength, htext⟩ := mem_spaced (by decide)
            (by decide) (begins_mul (begins_spellings value)) hword
          obtain ⟨first, hfirst, second, hsecond, hlength', htext'⟩ :=
            mem_spaced (by decide) (by decide) (begins_members hothers) hback
          obtain ⟨behind, more, heq, -, hskip, hmore⟩ := htext ('\x7d' :: other)
          obtain ⟨behind', more', heq', hstops, hskip', hmore'⟩ := htext' ('\x7d' :: other)
          obtain ⟨body, rfl, hread⟩ := string_complete hspelled
          rw [heq, List.cons_append, parseMembers, hread]
          simp only [bind, Option.bind_some, hskip, hmore, heq',
            ihValue hfirst (by omega) (fun _ _ => hstops), hskip', hmore',
            ihMembers hothers hsecond (by omega), String.ofList_toList]

end Complete

section Text

/-- The texts of a document. -/
def texts (value : Json) : Language Char :=
  blanks * (spellings value * blanks)

theorem skipWhitespace_eq_nil {text : List Char} :
    skipWhitespace text = [] ↔ text ∈ blanks := by
  constructor
  · intro hskip
    obtain ⟨gap, hgap, rfl⟩ := skipWhitespace_sound hskip
    rwa [List.append_nil]
  · intro htext
    rw [← List.append_nil text, skipWhitespace_append htext (headNot_nil _)]

/-- The texts of a value are those that are read as the value. -/
theorem parse_eq_some_iff {text : List Char} {value : Json} :
    parse text = some value ↔ text ∈ texts value := by
  constructor
  · intro hread
    unfold parse at hread
    split at hread
    · cases hread
    · obtain ⟨⟨found, rest⟩, hfound, hread⟩ := Option.bind_eq_some_iff.mp hread
      dsimp only at hread
      split at hread
      · rename_i hrest
        cases hread
        obtain ⟨word, hword, happend⟩ := (parse_sound _).1 hfound
        obtain ⟨gap, hgap, hskip⟩ := skipWhitespace_sound (rfl : skipWhitespace text = _)
        rw [← hskip, ← happend]
        exact Language.append_mem_mul hgap
          (Language.append_mem_mul hword (skipWhitespace_eq_nil.mp hrest))
      · cases hread
  · intro htext
    obtain ⟨gap, hgap, rest, hrest, rfl⟩ := Language.mem_mul.mp htext
    obtain ⟨word, hword, gap', hgap', rfl⟩ := Language.mem_mul.mp hrest
    have hbegins := (begins_spellings value word hword).append gap'
    have hstops : Stops gap' := by
      rw [← List.append_nil gap']
      exact stops_blanks hgap' (headNot_nil _)
    have hread := (parse_complete (2 * (gap ++ (word ++ gap')).length + 1)).1 hword
      (by simp only [List.length_append]; omega) fun _ _ => hstops
    rw [parse, skipWhitespace_append hgap hbegins.headNot]
    obtain ⟨c, more, hcons, -⟩ := hbegins
    rw [hcons] at hread ⊢
    simp only [hread, bind, Option.bind_some, skipWhitespace_eq_nil.mpr hgap', if_true]

end Text

section Documents

theorem numberSpellings_int (value : Int) :
    numberSpellings (.int value) = integerNumerals value := by
  ext word
  exact parseNumber_iff.symm.trans parseNumber_int_iff

/-- A document is read as an integer exactly if it is an optional minus and digits, of a
value that fits into 64 bits, and then it is read as that integer. -/
theorem parseJson_integer (text : String) (value : Int) :
    parseJson text = some (.number (.int value)) ↔
      (cStr text).toList ∈ blanks * (integerNumerals value * blanks) := by
  rw [parseJson, parse_eq_some_iff, texts, spellings, numberSpellings_int]

end Documents

end Json.Reader

end Uskit
