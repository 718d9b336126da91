import Uskit.Expression.Lexer
import Mathlib.Tactic.IntervalCases

namespace Uskit.Expression

open Uskit.Grammar

/-! Scanning the text of a list of tokens. -/

namespace Token

def text : Token → String
  | .mark kind => kind.text
  | .identifier text => text
  | .string text => text
  | .integer text => text
  | .double text => text

def word (token : Token) : List Char :=
  token.text.toList

/-- The text of the token is one of its rule, and no keyword. -/
def Valid : Token → Prop
  | .mark _ => True
  | .identifier text =>
      text.toList ∈ Lexer.identifier.language ∧
        text ∉ ["null", "true", "false"]
  | .string text => text.toList ∈ Lexer.string.language
  | .integer text => text.toList ∈ Lexer.integer.language
  | .double text => text.toList ∈ Lexer.double.language

/-- The token that the lexer makes of the text of a token. -/
def reread : Token → Token
  | .mark .or => .mark .bitOr
  | .string text => .string (cStr text)
  | token => token

end Token

/-- A text that begins with a blank, or is at its end. -/
def Separated (rest : List Char) : Prop :=
  ∀ char ∈ rest.head?, char = ' '

def following : List Token → List Char
  | [] => []
  | token :: rest => ' ' :: (token.word ++ following rest)

/-- The text of the tokens, separated by blanks. -/
def spaced : List Token → List Char
  | [] => []
  | token :: rest => token.word ++ following rest

namespace Lexer

theorem separated_following (tokens : List Token) :
    Separated (following tokens) := by
  cases tokens with
  | nil => rintro char ⟨⟩
  | cons token rest =>
      rintro char ⟨⟩
      rfl

theorem blank_mem_of_isPrefix {rest more : List Char} (hseparated : Separated rest)
    (hmore : more ≠ []) (hbegins : more <+: rest) : ' ' ∈ more := by
  cases more with
  | nil => exact absurd rfl hmore
  | cons char more =>
      obtain ⟨after, rfl⟩ := hbegins
      rw [hseparated char rfl]
      exact .head _

def otherRules : List (Rule Char Scanned) :=
  rules.take 4 ++ rules.drop 5

theorem mem_rules {rule : Rule Char Scanned} (hrule : rule ∈ rules) :
    rule = textRule string .string ∨ rule ∈ otherRules := by
  have hsplit : rules =
      rules.take 4 ++ textRule string .string :: rules.drop 5 := rfl
  rw [hsplit, List.mem_append, List.mem_cons] at hrule
  rw [otherRules, List.mem_append]
  tauto

theorem isOne_or_avoids_blank :
    otherRules.all (fun rule =>
      rule.pattern.isOne || rule.pattern.avoids ' ') = true := by
  decide

theorem isOne_or_not_heads_quote :
    otherRules.all (fun rule =>
      rule.pattern.isOne || !rule.pattern.heads quote) = true := by
  decide

theorem not_mem_of_isOne {rule : Rule Char Scanned}
    (hone : rule.pattern.isOne = true) {word more : List Char}
    (hword : word ≠ []) (hmore : more ≠ []) :
    word ++ more ∉ rule.pattern.language := by
  intro hmatch
  have hlength := Regex.length_of_isOne hone hmatch
  rw [List.length_append] at hlength
  have hwordLength := List.length_pos_iff.mpr hword
  have hmoreLength := List.length_pos_iff.mpr hmore
  omega

/-- A word that is not the beginning of a string ends at the next blank. -/
theorem confined_of_not_quote {char : Char} {word rest : List Char}
    (hchar : char ≠ quote) (hseparated : Separated rest) :
    Rule.Confined rules (char :: word) rest := by
  intro rule hrule more hmore hbegins hmatch
  cases mem_rules hrule with
  | inl heq =>
      subst heq
      have hheads : (char == quote) = true := by
        have hcons := Regex.heads_of_cons_mem hmatch
        simpa [textRule, string, Regex.heads, Regex.nullable] using hcons
      exact hchar (beq_iff_eq.mp hheads)
  | inr hother =>
      have hcheck := List.all_eq_true.mp isOne_or_avoids_blank rule hother
      rw [Bool.or_eq_true] at hcheck
      cases hcheck with
      | inl hone => exact not_mem_of_isOne hone (by simp) hmore hmatch
      | inr havoids =>
          apply Regex.not_mem_of_avoids havoids hmatch
          exact List.mem_append_right _ (blank_mem_of_isPrefix hseparated hmore hbegins)

/-! A string ends at its first quote that is not escaped. -/

theorem mem_stringPart {part : List Char} (hpart : part ∈ stringPart.language) :
    (∃ char, part = [backslash, char]) ∨
      ∃ char, part = [char] ∧ char ≠ quote ∧ char ≠ backslash := by
  cases (Language.mem_add _ _ part).mp hpart with
  | inl hescaped =>
      obtain ⟨first, ⟨slash, hslash, rfl⟩, second, ⟨char, -, rfl⟩, rfl⟩ :=
        Language.mem_mul.mp hescaped
      rw [beq_iff_eq] at hslash
      subst hslash
      exact .inl ⟨char, rfl⟩
  | inr hplain =>
      obtain ⟨char, hclass, rfl⟩ := hplain
      rw [Bool.and_eq_true, bne_iff_ne, bne_iff_ne] at hclass
      exact .inr ⟨char, rfl, hclass⟩

theorem parts_append_quote {parts others : List (List Char)} {more : List Char}
    (hparts : ∀ part ∈ parts, part ∈ stringPart.language)
    (hothers : ∀ part ∈ others, part ∈ stringPart.language)
    (heq : parts.flatten ++ quote :: more = others.flatten ++ [quote]) :
    more = [] := by
  have hne : quote ≠ backslash := by decide
  induction parts generalizing others with
  | nil =>
      cases others with
      | nil => exact (List.cons.inj heq).2
      | cons other rest =>
          rcases mem_stringPart (hothers other (.head _)) with
            ⟨char, rfl⟩ | ⟨char, rfl, hquote, -⟩
          · exact absurd (List.cons.inj heq).1 hne
          · exact absurd (List.cons.inj heq).1 (Ne.symm hquote)
  | cons part parts ih =>
      have hrest : ∀ part ∈ parts, part ∈ stringPart.language :=
        fun part hmem => hparts part (.tail _ hmem)
      cases others with
      | nil =>
          rcases mem_stringPart (hparts part (.head _)) with
            ⟨char, rfl⟩ | ⟨char, rfl, hquote, -⟩
          · exact absurd (List.cons.inj heq).1 (Ne.symm hne)
          · exact absurd (List.cons.inj heq).1 hquote
      | cons other others =>
          have hothersRest : ∀ part ∈ others, part ∈ stringPart.language :=
            fun part hmem => hothers part (.tail _ hmem)
          rcases mem_stringPart (hparts part (.head _)) with
            ⟨char, rfl⟩ | ⟨char, rfl, hquote, hslash⟩
          · rcases mem_stringPart (hothers other (.head _)) with
              ⟨second, rfl⟩ | ⟨second, rfl, -, hslash⟩
            · simp only [List.flatten_cons, List.cons_append, List.nil_append,
                List.cons.injEq] at heq
              exact ih hrest hothersRest heq.2.2
            · simp only [List.flatten_cons, List.cons_append, List.nil_append,
                List.cons.injEq] at heq
              exact absurd heq.1.symm hslash
          · rcases mem_stringPart (hothers other (.head _)) with
              ⟨second, rfl⟩ | ⟨second, rfl, -, -⟩
            · simp only [List.flatten_cons, List.cons_append, List.nil_append,
                List.cons.injEq] at heq
              exact absurd heq.1 hslash
            · simp only [List.flatten_cons, List.cons_append, List.nil_append,
                List.cons.injEq] at heq
              exact ih hrest hothersRest heq.2

theorem mem_string {text : List Char} (htext : text ∈ string.language) :
    ∃ parts : List (List Char), (∀ part ∈ parts, part ∈ stringPart.language) ∧
      text = quote :: (parts.flatten ++ [quote]) := by
  obtain ⟨first, ⟨char, hchar, rfl⟩, rest, hrest, rfl⟩ :=
    Language.mem_mul.mp htext
  obtain ⟨body, hbody, last, ⟨other, hother, rfl⟩, rfl⟩ :=
    Language.mem_mul.mp hrest
  obtain ⟨parts, rfl, hparts⟩ := Language.mem_kstar.mp hbody
  rw [beq_iff_eq] at hchar hother
  subst hchar hother
  exact ⟨parts, hparts, rfl⟩

theorem confined_of_string {word rest : List Char}
    (hword : word ∈ string.language) : Rule.Confined rules word rest := by
  intro rule hrule more hmore _ hmatch
  obtain ⟨parts, hparts, rfl⟩ := mem_string hword
  cases mem_rules hrule with
  | inl heq =>
      subst heq
      obtain ⟨others, hothers, heq⟩ := mem_string hmatch
      rw [List.cons_append, List.cons.injEq, List.append_assoc,
        List.singleton_append] at heq
      exact hmore (parts_append_quote hparts hothers heq.2)
  | inr hother =>
      have hcheck := List.all_eq_true.mp isOne_or_not_heads_quote rule hother
      rw [Bool.or_eq_true, Bool.not_eq_true'] at hcheck
      cases hcheck with
      | inl hone => exact not_mem_of_isOne hone (by simp) hmore hmatch
      | inr hheads =>
          rw [List.cons_append] at hmatch
          rw [Regex.heads_of_cons_mem hmatch] at hheads
          cases hheads

/-! The first rule that matches the text of a token. -/

/-- What the first rule that matches a word makes of it. -/
def firstScanned (word : List Char) : Option Scanned :=
  (rules.find? fun rule => rule.pattern.accepts word).map
    fun rule => rule.action word

theorem firstScanned_mark (kind : Mark) :
    firstScanned (Token.mark kind).word =
      some (.token (Token.mark kind).reread) := by
  cases kind <;> decide

theorem accepts_eq_false {regex : Regex Char} {text : List Char}
    (htext : text ∉ regex.language) : regex.accepts text = false := by
  rw [← Bool.not_eq_true, Regex.accepts_iff]
  exact htext

theorem firstScanned_of_split {before after : List (Rule Char Scanned)}
    {rule : Rule Char Scanned} {word : List Char}
    (hrules : rules = before ++ rule :: after)
    (hword : word ∈ rule.pattern.language)
    (hbefore : ∀ other ∈ before, word ∉ other.pattern.language) :
    firstScanned word = some (rule.action word) := by
  have hfind : rules.find? (fun rule => rule.pattern.accepts word) =
      some rule := by
    apply List.find?_eq_some_iff_append.mpr
    refine ⟨Regex.accepts_iff.mpr hword, before, after, hrules, ?_⟩
    intro other hother
    rw [accepts_eq_false (hbefore other hother)]
    rfl
  rw [firstScanned, hfind]
  rfl

theorem firstScanned_identifier {text : String}
    (hvalid : (Token.identifier text).Valid) :
    firstScanned text.toList =
      some (.token (.identifier (yytext text.toList))) := by
  obtain ⟨hword, hkeyword⟩ := hvalid
  have hsplit : rules = [markRule "null" .null, markRule "true" .true,
      markRule "false" .false] ++ textRule identifier .identifier ::
        rules.drop 4 := rfl
  have hliteral : ∀ keyword ∈ ["null", "true", "false"], ∀ kind,
      text.toList ∉ (markRule keyword kind).pattern.language := by
    intro keyword hmem kind hmatch
    apply hkeyword
    rw [String.toList_inj.mp (Regex.mem_literal.mp hmatch)]
    exact hmem
  apply firstScanned_of_split hsplit hword
  intro other hother
  simp only [List.mem_cons, List.not_mem_nil, or_false] at hother
  rcases hother with rfl | rfl | rfl
  · exact hliteral "null" (by decide) .null
  · exact hliteral "true" (by decide) .true
  · exact hliteral "false" (by decide) .false

theorem digit_cases {char : Char} (hdigit : isDigit char = true) :
    char ∈ "0123456789".toList := by
  simp only [isDigit, Bool.and_eq_true, decide_eq_true_eq, Char.le_def,
    UInt32.le_iff_toNat_le] at hdigit
  have hlow : 48 ≤ char.toNat := hdigit.1
  have hhigh : char.toNat ≤ 57 := hdigit.2
  rw [← Char.ofNat_toNat char]
  generalize char.toNat = code at *
  interval_cases code <;> decide

theorem not_heads_digit {char : Char} (hdigit : isDigit char = true) :
    ∀ rule ∈ rules.take 5, rule.pattern.heads char = false := by
  have hall : ("0123456789".toList.all fun digit =>
      (rules.take 5).all fun rule => !rule.pattern.heads digit) = true := by
    decide
  intro rule hrule
  have hdigits := List.all_eq_true.mp hall char (digit_cases hdigit)
  have hcheck := List.all_eq_true.mp hdigits rule hrule
  rwa [Bool.not_eq_true'] at hcheck

theorem integer_head {text : List Char} (htext : text ∈ integer.language) :
    ∃ char rest, text = char :: rest ∧ isDigit char = true := by
  obtain ⟨first, ⟨char, hdigit, rfl⟩, rest, -, rfl⟩ := Language.mem_mul.mp htext
  exact ⟨char, rest, rfl, hdigit⟩

theorem double_head {text : List Char} (htext : text ∈ double.language) :
    ∃ char rest, text = char :: rest ∧ isDigit char = true := by
  obtain ⟨left, hleft, right, -, rfl⟩ := Language.mem_mul.mp htext
  obtain ⟨char, rest, rfl, hdigit⟩ := integer_head hleft
  exact ⟨char, rest ++ right, rfl, hdigit⟩

theorem not_mem_of_not_heads {rule : Rule Char Scanned} {char : Char}
    {text : List Char} (hheads : rule.pattern.heads char = false) :
    char :: text ∉ rule.pattern.language := by
  intro hmatch
  rw [Regex.heads_of_cons_mem hmatch] at hheads
  cases hheads

theorem firstScanned_integer {text : List Char}
    (htext : text ∈ integer.language) :
    firstScanned text = some (.token (.integer (yytext text))) := by
  have hsplit : rules = rules.take 5 ++ textRule integer .integer ::
      rules.drop 6 := rfl
  apply firstScanned_of_split hsplit htext
  intro other hother
  obtain ⟨char, rest, rfl, hdigit⟩ := integer_head htext
  exact not_mem_of_not_heads (not_heads_digit hdigit other hother)

theorem dot_mem_double {text : List Char} (htext : text ∈ double.language) :
    '.' ∈ text := by
  obtain ⟨left, -, right, hright, rfl⟩ := Language.mem_mul.mp htext
  obtain ⟨point, ⟨char, hchar, rfl⟩, fraction, -, rfl⟩ :=
    Language.mem_mul.mp hright
  rw [beq_iff_eq] at hchar
  subst hchar
  simp

theorem firstScanned_double {text : List Char} (htext : text ∈ double.language) :
    firstScanned text = some (.token (.double (yytext text))) := by
  have hsplit : rules = (rules.take 5 ++ [textRule integer .integer]) ++
      textRule double .double :: rules.drop 7 := rfl
  apply firstScanned_of_split hsplit htext
  intro other hother
  rw [List.mem_append, List.mem_singleton] at hother
  cases hother with
  | inl hbefore =>
      obtain ⟨char, rest, rfl, hdigit⟩ := double_head htext
      exact not_mem_of_not_heads (not_heads_digit hdigit other hbefore)
  | inr heq =>
      subst heq
      intro hinteger
      have havoids : integer.avoids '.' = true := by decide
      exact Regex.not_mem_of_avoids havoids hinteger (dot_mem_double htext)

theorem firstScanned_string {text : List Char} (htext : text ∈ string.language) :
    firstScanned text = some (.token (.string (yytext text))) := by
  have hsplit : rules = rules.take 4 ++ textRule string .string ::
      rules.drop 5 := rfl
  have hbefore : (rules.take 4).all
      (fun rule => !rule.pattern.heads quote) = true := by
    decide
  apply firstScanned_of_split hsplit htext
  intro other hother
  obtain ⟨parts, -, rfl⟩ := mem_string htext
  apply not_mem_of_not_heads
  have hcheck := List.all_eq_true.mp hbefore other hother
  rwa [Bool.not_eq_true'] at hcheck

theorem yytext_eq {regex : Regex Char} {text : String}
    (havoids : regex.avoids '\x00' = true) (htext : text.toList ∈ regex.language) :
    yytext text.toList = text := by
  rw [yytext, String.ofList_toList]
  exact cStr_eq_self (Regex.not_mem_of_avoids havoids htext)

theorem firstScanned_word {token : Token} (hvalid : token.Valid) :
    firstScanned token.word = some (.token token.reread) := by
  cases token with
  | mark kind => exact firstScanned_mark kind
  | identifier text =>
      refine (firstScanned_identifier hvalid).trans ?_
      rw [yytext_eq (by decide) hvalid.1]
      rfl
  | string text =>
      refine (firstScanned_string hvalid).trans ?_
      rw [yytext, String.ofList_toList]
      rfl
  | integer text =>
      refine (firstScanned_integer hvalid).trans ?_
      rw [yytext_eq (by decide) hvalid]
      rfl
  | double text =>
      refine (firstScanned_double hvalid).trans ?_
      rw [yytext_eq (by decide) hvalid]
      rfl

/-- The word of a token is a word of some rule, and no rule matches more. -/
theorem confined_word {token : Token} (hvalid : token.Valid) {rest : List Char}
    (hseparated : Separated rest) :
    token.word ≠ [] ∧ Rule.Confined rules token.word rest := by
  have hdigit : ∀ char word, isDigit char = true →
      Rule.Confined rules (char :: word) rest := by
    intro char word hchar
    apply confined_of_not_quote _ hseparated
    rintro rfl
    exact absurd hchar (by decide)
  cases token with
  | mark kind =>
      have hhead : ∃ char word, (Token.mark kind).word = char :: word ∧
          char ≠ quote := by
        cases kind <;> exact ⟨_, _, rfl, by decide⟩
      obtain ⟨char, word, hword, hchar⟩ := hhead
      rw [hword]
      exact ⟨by simp, confined_of_not_quote hchar hseparated⟩
  | identifier text =>
      obtain ⟨first, ⟨char, hletter, rfl⟩, after, -, hword⟩ :=
        Language.mem_mul.mp hvalid.1
      rw [show (Token.identifier text).word = char :: after from hword.symm]
      refine ⟨by simp, confined_of_not_quote ?_ hseparated⟩
      rintro rfl
      exact absurd hletter (by decide)
  | string text =>
      refine ⟨?_, confined_of_string hvalid⟩
      obtain ⟨parts, -, hword⟩ := mem_string hvalid
      rw [show (Token.string text).word = _ from hword]
      simp
  | integer text =>
      obtain ⟨char, word, hword, hchar⟩ := integer_head hvalid
      rw [show (Token.integer text).word = _ from hword]
      exact ⟨by simp, hdigit char word hchar⟩
  | double text =>
      obtain ⟨char, word, hword, hchar⟩ := double_head hvalid
      rw [show (Token.double text).word = _ from hword]
      exact ⟨by simp, hdigit char word hchar⟩

theorem scan_of_firstScanned {word rest : List Char} {scanned : Scanned}
    (hword : word ≠ []) (hfirst : firstScanned word = some scanned)
    (hconfined : Rule.Confined rules word rest) :
    scan (word ++ rest) = scanned :: scan rest := by
  obtain ⟨rule, hfind, rfl⟩ := Option.map_eq_some_iff.mp hfirst
  exact Rule.scan_append hword hfind hconfined

theorem scan_blank (rest : List Char) : scan (' ' :: rest) = .space :: scan rest := by
  have hall : rules.all (fun rule =>
      rule.pattern.isOne || !rule.pattern.heads ' ') = true := by
    decide
  have hconfined : Rule.Confined rules [' '] rest := by
    intro rule hrule more hmore _ hmatch
    have hcheck := List.all_eq_true.mp hall rule hrule
    rw [Bool.or_eq_true, Bool.not_eq_true'] at hcheck
    cases hcheck with
    | inl hone => exact not_mem_of_isOne hone (by simp) hmore hmatch
    | inr hheads => exact not_mem_of_not_heads hheads hmatch
  have hfirst : firstScanned [' '] = some .space := by decide
  exact scan_of_firstScanned (by simp) hfirst hconfined

theorem tokens_word {token : Token} (hvalid : token.Valid) {rest : List Char}
    (hseparated : Separated rest) :
    tokens (token.word ++ rest) = token.reread :: tokens rest := by
  obtain ⟨hword, hconfined⟩ := confined_word hvalid hseparated
  rw [tokens, scan_of_firstScanned hword (firstScanned_word hvalid) hconfined]
  rfl

theorem tokens_blank (rest : List Char) : tokens (' ' :: rest) = tokens rest := by
  rw [tokens, scan_blank]
  rfl

theorem tokens_following {list : List Token}
    (hvalid : ∀ token ∈ list, token.Valid) :
    tokens (following list) = list.map Token.reread := by
  induction list with
  | nil => rfl
  | cons token rest ih =>
      rw [following, tokens_blank,
        tokens_word (hvalid token (.head _)) (separated_following rest),
        ih fun other hother => hvalid other (.tail _ hother)]
      rfl

/-- The lexer gives back the tokens of a text, but for what it makes of some. -/
theorem tokens_spaced {list : List Token}
    (hvalid : ∀ token ∈ list, token.Valid) :
    tokens (spaced list) = list.map Token.reread := by
  cases list with
  | nil => rfl
  | cons token rest =>
      rw [spaced, tokens_word (hvalid token (.head _)) (separated_following rest),
        tokens_following fun other hother => hvalid other (.tail _ hother)]
      rfl

/-- The texts that are read back: not that of `||`, and no string with a NUL. -/
def Intact : Token → Prop
  | .mark kind => kind ≠ .or
  | .string text => '\x00' ∉ text.toList
  | _ => True

theorem reread_eq_iff {token : Token} : token.reread = token ↔ Intact token := by
  cases token with
  | mark kind => cases kind <;> simp [Token.reread, Intact]
  | string text =>
      simp only [Token.reread, Intact, Token.string.injEq]
      constructor
      · intro heq
        rw [← heq]
        exact cStr_free text
      · exact cStr_eq_self
  | identifier text | integer text | double text =>
      simp [Token.reread, Intact]

theorem tokens_spaced_eq_iff {list : List Token}
    (hvalid : ∀ token ∈ list, token.Valid) :
    tokens (spaced list) = list ↔ ∀ token ∈ list, Intact token := by
  rw [tokens_spaced hvalid]
  simp only [← reread_eq_iff]
  constructor
  · intro heq token hmem
    have hmap : list.map Token.reread = list.map id := by
      rw [heq, List.map_id]
    exact List.map_inj_left.mp hmap token hmem
  · intro hall
    exact (List.map_congr_left hall).trans (List.map_id list)

theorem token_ne_or (word : List Char) :
    ∀ rule ∈ rules, rule.action word ≠ .token (.mark .or) := by
  simp [rules, markRule, textRule, spaceRule]

/-- No text has the token of the logical or. -/
theorem or_not_mem_tokens (text : List Char) : .mark .or ∉ tokens text := by
  intro hmem
  obtain ⟨scanned, hscanned, htoken⟩ := List.mem_filterMap.mp hmem
  obtain ⟨rule, hrule, word, rfl⟩ := Rule.exists_rule_of_mem_scan hscanned
  cases haction : rule.action word with
  | token token =>
      rw [haction] at htoken
      cases htoken
      exact token_ne_or word rule hrule haction
  | space =>
      rw [haction] at htoken
      cases htoken
  | error message =>
      rw [haction] at htoken
      cases htoken

end Lexer

end Uskit.Expression
