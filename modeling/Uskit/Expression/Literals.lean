import Uskit.Expression.Driver
import Uskit.Expression.Tame

namespace Uskit.Expression.Driver

open Uskit.Grammar

/-! Numerals of any length in the text of an expression. -/

/-- The text is an integer in decimal, with an optional leading minus. -/
def IsDecimal (text : List Char) (value : Int) : Prop :=
  ∃ digits : List Char, digits ≠ [] ∧ (∀ char ∈ digits, Lexer.isDigit char = true) ∧
    (text = digits ∧ value = Parser.digitsValue digits ∨
      text = '-' :: digits ∧ value = -Parser.digitsValue digits)

/-- An expression may end in the token, and a minus behind it is no sign. -/
def endsExpr : Token → Bool
  | .mark .rightPar | .mark .rightSquare | .mark .rightBrace | .mark .null
  | .mark .true | .mark .false | .identifier _ | .string _ | .integer _
  | .double _ => true
  | _ => false

/-- What follows on the tokens has a sign. -/
def Signed (before : List Token) : Prop :=
  ∃ earlier, before = earlier ++ [.mark .minus] ∧
    ∀ last ∈ earlier.getLast?, endsExpr last = false

/-- A literal of the tokens, with its sign, is outside the range of its type. -/
def LiteralOutside (runtime : Runtime) (tokens : List Token) : Prop :=
  ∃ before token after, tokens = before ++ token :: after ∧
    match token with
    | .integer text =>
        2 ^ 31 < Parser.digitsValue text.toList ∨
          Parser.digitsValue text.toList = 2 ^ 31 ∧ ¬ Signed before
    | .double text => runtime.stod text = none
    | _ => False

/-- No exception leaves the parser: an `int` in decimal is read, and a literal
that is outside its range is an error. -/
structure BuildsSafely (runtime : Runtime) (text : List Char) : Prop where
  noException : parse runtime text ≠ .thrown
  integer : ∀ value : Int, -(2 ^ 31) ≤ value → value ≤ 2 ^ 31 - 1 →
    IsDecimal text value → parse runtime text = .accepted (.integer value)
  outside : LiteralOutside runtime (Lexer.tokens text) →
    parse runtime text = .rejected

theorem stoi_isSome (text : String) :
    (Parser.stoi text).isSome = true ↔ Parser.digitsValue text.toList < 2 ^ 31 := by
  simp [Parser.stoi]

theorem not_inRange_of_outside {runtime : Runtime} {tokens : List Token}
    (houtside : LiteralOutside runtime tokens) :
    ¬ ∀ token ∈ tokens, Parser.InRange runtime token := by
  obtain ⟨before, token, after, rfl, houtside⟩ := houtside
  intro hall
  have hrange := hall token (by simp)
  cases token with
  | integer text =>
      rw [Parser.InRange, stoi_isSome] at hrange
      simp only at houtside
      omega
  | double text =>
      rw [Parser.InRange, houtside] at hrange
      cases hrange
  | mark | identifier | string => exact houtside

section Decimal

variable {digits : List Char}

theorem mem_integer (hnonempty : digits ≠ [])
    (hdigits : ∀ char ∈ digits, Lexer.isDigit char = true) :
    digits ∈ Lexer.integer.language := by
  cases digits with
  | nil => exact absurd rfl hnonempty
  | cons char rest =>
      rw [List.forall_mem_cons] at hdigits
      refine Language.mem_mul.mpr ⟨[char], ⟨char, hdigits.1, rfl⟩, rest, ?_, rfl⟩
      refine Language.mem_kstar.mpr ⟨rest.map fun digit => [digit], ?_, ?_⟩
      · rw [← List.flatMap_def, List.flatMap_singleton']
      · intro word hword
        obtain ⟨digit, hdigit, rfl⟩ := List.mem_map.mp hword
        exact ⟨digit, hdigits.2 digit hdigit, rfl⟩

theorem tokens_digits (hnonempty : digits ≠ [])
    (hdigits : ∀ char ∈ digits, Lexer.isDigit char = true) :
    Lexer.tokens digits = [.integer (.ofList digits)] := by
  have hvalid : (Token.integer (.ofList digits)).Valid := by
    rw [Token.Valid, String.toList_ofList]
    exact mem_integer hnonempty hdigits
  have hend : Separated [] := by rintro char ⟨⟩
  have hone := Lexer.tokens_word hvalid hend
  rwa [List.append_nil, Token.word, Token.text, String.toList_ofList] at hone

/-- A minus is a word of its own, whatever follows. -/
theorem tokens_minus (rest : List Char) :
    Lexer.tokens ('-' :: rest) = .mark .minus :: Lexer.tokens rest := by
  have hsplit : Lexer.rules = Lexer.rules.take 24 ++
      Lexer.markRule "-" .minus :: Lexer.rules.drop 25 := rfl
  have hall : (Lexer.rules.take 24 ++ Lexer.rules.drop 25).all (fun rule =>
      rule.pattern.isOne || !rule.pattern.heads '-') = true := by
    decide
  have hconfined : Rule.Confined Lexer.rules ['-'] rest := by
    intro rule hrule more hmore _ hmatch
    rw [hsplit, List.mem_append, List.mem_cons] at hrule
    by_cases hmark : rule = Lexer.markRule "-" .minus
    · subst hmark
      have hword := Regex.mem_literal.mp hmatch
      exact hmore (List.cons.inj hword).2
    · have hother : rule ∈ Lexer.rules.take 24 ++ Lexer.rules.drop 25 := by
        rw [List.mem_append]
        exact hrule.imp_right fun hlater => hlater.resolve_left hmark
      have hcheck := List.all_eq_true.mp hall rule hother
      rw [Bool.or_eq_true, Bool.not_eq_true'] at hcheck
      cases hcheck with
      | inl hone => exact Lexer.not_mem_of_isOne hone (by simp) hmore hmatch
      | inr hheads => exact Lexer.not_mem_of_not_heads hheads hmatch
  have hfirst : Lexer.firstScanned ['-'] = some (.token (.mark .minus)) := by decide
  have hscan := Lexer.scan_of_firstScanned (by simp) hfirst hconfined
  rw [List.singleton_append] at hscan
  rw [Lexer.tokens, hscan]
  rfl

variable {runtime : Runtime}

theorem accepted_of_runsOperand {tokens : List Token} {expr : Expr}
    (hruns : Parser.RunsOperand runtime tokens expr) :
    Parser.parse runtime tokens = .accepted expr := by
  have halone := hruns [] [] rfl (by simp)
  rw [List.append_nil] at halone
  exact Parser.parse_eq_iff.mpr
    ⟨⟨[.program expr], []⟩, .trans halone (Parser.runs_reduce rfl), rfl⟩

/-- An integer is read, if its digits alone are in range. -/
theorem parse_decimal {text : List Char} {value : Int} (hdecimal : IsDecimal text value)
    (hrange : NumeralsInRange runtime text) :
    parse runtime text = .accepted (.integer value) := by
  obtain ⟨digits, hnonempty, hdigits, htext⟩ := hdecimal
  have hstoi : Parser.InRange runtime (.integer (.ofList digits)) →
      Parser.stoi (.ofList digits) = some (Parser.digitsValue digits : Int) := by
    intro hfits
    rw [Parser.InRange, stoi_isSome, String.toList_ofList] at hfits
    rw [Parser.stoi, String.toList_ofList]
    exact if_pos hfits
  rcases htext with ⟨rfl, rfl⟩ | ⟨rfl, rfl⟩
  · have htokens := tokens_digits hnonempty hdigits
    rw [NumeralsInRange, htokens] at hrange
    rw [parse, htokens]
    exact accepted_of_runsOperand (.integer (hstoi (hrange _ List.mem_cons_self)))
  · have htokens : Lexer.tokens ('-' :: digits) =
        [.mark .minus, .integer (.ofList digits)] := by
      rw [tokens_minus, tokens_digits hnonempty hdigits]
    rw [NumeralsInRange, htokens] at hrange
    rw [parse, htokens]
    exact accepted_of_runsOperand
      (.negativeInteger (hstoi (hrange _ (.tail _ List.mem_cons_self))))

end Decimal

/-- Building the tree is safe exactly if the conversions take every numeral: the
digits of an integer are converted without their sign. -/
theorem buildsSafely_iff (runtime : Runtime) (text : List Char)
    (hderivable : Derivable (Lexer.tokens text)) :
    BuildsSafely runtime text ↔ NumeralsInRange runtime text := by
  have hthrown := Parser.parse_eq_thrown_iff runtime hderivable
  constructor
  · intro hsafe
    by_contra hnot
    exact hsafe.noException (hthrown.mpr hnot)
  · intro hrange
    constructor
    · intro hparse
      exact hthrown.mp hparse hrange
    · intro value _ _ hdecimal
      exact parse_decimal hdecimal hrange
    · intro houtside
      exact absurd hrange (not_inRange_of_outside houtside)

theorem buildsSafely_least :
    BuildsSafely .plain "-2147483647".toList := by
  have htokens : Lexer.tokens "-2147483647".toList =
      [.mark .minus, .integer "2147483647"] := by
    decide
  have haccepted : parse .plain "-2147483647".toList =
      .accepted (.integer (-2147483647)) := by
    rw [parse, htokens]
    rfl
  apply (buildsSafely_iff .plain _ (Parser.mem_language_of_accepted haccepted)).mpr
  rw [NumeralsInRange, htokens]
  simp only [List.forall_mem_cons, List.not_mem_nil, false_implies, implies_true,
    and_true, Parser.InRange, true_and]
  decide

/-- The least `int` has digits that are no `int`. -/
theorem leastInt_throws :
    ¬ ∀ runtime text, Derivable (Lexer.tokens text) → BuildsSafely runtime text := by
  intro hall
  have hone : parse .plain "-1".toList = .accepted (.integer (-1)) := rfl
  have hterminals : (Lexer.tokens "-2147483648".toList).map Token.terminal =
      (Lexer.tokens "-1".toList).map Token.terminal := by
    decide
  have hderivable : Derivable (Lexer.tokens "-2147483648".toList) := by
    rw [Derivable, hterminals]
    exact Parser.mem_language_of_accepted hone
  have hthrown : parse .plain "-2147483648".toList = .thrown := rfl
  exact (hall .plain _ hderivable).noException hthrown

end Uskit.Expression.Driver
