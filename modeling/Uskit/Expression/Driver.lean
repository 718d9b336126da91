import Uskit.Expression.ParserComplete
import Uskit.Expression.Relex

namespace Uskit.Expression

open Uskit.Grammar

/-! Parsing the text of an expression. -/

/-- `Driver::parse` of a string: the parser gets the tokens of the lexer, and
errors of the lexer are only logged. -/
def Driver.parse (runtime : Runtime) (text : List Char) : ParseResult :=
  Parser.parse runtime (Lexer.tokens text)

namespace Driver

/-- The whole text is cut into these tokens, and blanks. -/
def Tokenizes (text : List Char) (tokens : List Token) : Prop :=
  ∃ scanned, Rule.Scans Lexer.rules text scanned ∧
    (∀ message, .error message ∉ scanned) ∧
      scanned.filterMap Scanned.token? = tokens

def Derivable (tokens : List Token) : Prop :=
  tokens.map Token.terminal ∈ grammar.language

def WellFormed (text : List Char) : Prop :=
  ∃ tokens, Tokenizes text tokens ∧ Derivable tokens

def NumeralsInRange (runtime : Runtime) (text : List Char) : Prop :=
  ∀ token ∈ Lexer.tokens text, Parser.InRange runtime token

/-- A character is left out, and what remains is derivable. -/
def SkipsInvalid (text : List Char) : Prop :=
  Lexer.errors text ≠ [] ∧ Derivable (Lexer.tokens text)

theorem scans (text : List Char) :
    Rule.Scans Lexer.rules text (Lexer.scan text) := by
  apply Rule.scans_scan
  intro char
  by_cases hnewline : char = '\n'
  · refine ⟨Lexer.spaceRule (.one (· == '\n')), by simp [Lexer.rules], ?_⟩
    exact ⟨char, beq_iff_eq.mpr hnewline, rfl⟩
  · refine ⟨Lexer.rules.getLast (by simp [Lexer.rules]),
      List.getLast_mem _, ?_⟩
    exact ⟨char, bne_iff_ne.mpr hnewline, rfl⟩

theorem errors_eq_nil_iff {text : List Char} :
    Lexer.errors text = [] ↔ ∀ message, .error message ∉ Lexer.scan text := by
  rw [Lexer.errors, List.filterMap_eq_nil_iff]
  constructor
  · intro hnone message hmem
    cases hnone _ hmem
  · intro hnone scanned hmem
    cases scanned with
    | error message => exact absurd hmem (hnone message)
    | token token => rfl
    | space => rfl

theorem tokenizes_iff {text : List Char} {tokens : List Token} :
    Tokenizes text tokens ↔
      Lexer.errors text = [] ∧ Lexer.tokens text = tokens := by
  rw [errors_eq_nil_iff, Lexer.tokens]
  constructor
  · intro htokenizes
    obtain ⟨scanned, hscans, herrors, htokens⟩ := htokenizes
    obtain rfl := hscans.scan_eq
    exact ⟨herrors, htokens⟩
  · intro hscanned
    obtain ⟨herrors, htokens⟩ := hscanned
    exact ⟨Lexer.scan text, scans text, herrors, htokens⟩

theorem wellFormed_iff {text : List Char} :
    WellFormed text ↔
      Lexer.errors text = [] ∧ Derivable (Lexer.tokens text) := by
  constructor
  · intro hparses
    obtain ⟨tokens, htokenizes, hderivable⟩ := hparses
    obtain ⟨herrors, rfl⟩ := tokenizes_iff.mp htokenizes
    exact ⟨herrors, hderivable⟩
  · intro hparses
    obtain ⟨herrors, hderivable⟩ := hparses
    exact ⟨_, tokenizes_iff.mpr ⟨herrors, rfl⟩, hderivable⟩

theorem accepted_iff_derivable {runtime : Runtime} {text : List Char}
    (hrange : NumeralsInRange runtime text) :
    (∃ expr, parse runtime text = .accepted expr) ↔
      Derivable (Lexer.tokens text) :=
  Parser.accepted_iff hrange

/-- The texts that are accepted are the well formed ones, unless characters that
are left out make the difference. -/
theorem acceptsWellFormed_iff {runtime : Runtime} {text : List Char}
    (hrange : NumeralsInRange runtime text) :
    ((∃ expr, parse runtime text = .accepted expr) ↔ WellFormed text) ↔
      ¬ SkipsInvalid text := by
  rw [accepted_iff_derivable hrange, wellFormed_iff, SkipsInvalid]
  tauto

def sumText : List Char := "1 + 2".toList

theorem sumText_accepted :
    (∃ expr, parse .plain sumText = .accepted expr) ↔
      WellFormed sumText := by
  have hrange : NumeralsInRange .plain sumText := by
    have htokens : Lexer.tokens sumText =
        [.integer "1", .mark .plus, .integer "2"] := by
      decide
    rw [NumeralsInRange, htokens]
    simp only [List.forall_mem_cons, List.not_mem_nil, false_implies,
      implies_true, and_true, Parser.InRange, true_and]
    decide
  have herrors : Lexer.errors sumText = [] := by decide
  apply (acceptsWellFormed_iff hrange).mpr
  intro hskips
  obtain ⟨hskips, -⟩ := hskips
  exact hskips herrors

/-- An invalid character after a number is not noticed. -/
theorem atSign_accepted :
    ¬ ∀ runtime text, NumeralsInRange runtime text →
      ((∃ expr, parse runtime text = .accepted expr) ↔ WellFormed text) := by
  intro hall
  have htokens : Lexer.tokens "1 @".toList = [.integer "1"] := by decide
  have hrange : NumeralsInRange .plain "1 @".toList := by
    rw [NumeralsInRange, htokens]
    simp only [List.mem_singleton, forall_eq, Parser.InRange]
    decide
  have haccepted : parse .plain "1 @".toList = .accepted (.integer 1) := by
    rw [parse, htokens]
    rfl
  have hwellFormed := (hall .plain _ hrange).mp ⟨_, haccepted⟩
  have herrors := (wellFormed_iff.mp hwellFormed).1
  exact absurd herrors (by decide)

/-- The operator `||` is lost in the text of any tokens, and in any tree. -/
theorem logicalOr_lost (runtime : Runtime) :
    (∀ list : List Token, (∀ token ∈ list, token.Valid) →
      (Lexer.tokens (spaced list) = list ↔
        ∀ token ∈ list, Lexer.Intact token)) ∧
    ∀ text expr, parse runtime text = .accepted expr →
      expr.avoids .logicalOr = true :=
  ⟨fun _ hvalid => Lexer.tokens_spaced_eq_iff hvalid,
    fun text _ haccepted =>
      Parser.avoids_of_accepted haccepted (Lexer.or_not_mem_tokens text)⟩

theorem bitOr_kept :
    Lexer.tokens (spaced [.mark .bitOr]) = [.mark .bitOr] ∧
      (Expr.binary .bitOr (.integer 1) (.integer 2)).avoids .logicalOr = true := by
  obtain ⟨hread, havoids⟩ := logicalOr_lost .plain
  constructor
  · exact (hread [.mark .bitOr] (by simp [Token.Valid])).mpr
      (by simp [Lexer.Intact])
  · exact havoids "1 | 2".toList _ rfl

theorem oneOrTwo_isBitOr :
    (¬ ∀ list : List Token, (∀ token ∈ list, token.Valid) →
      Lexer.tokens (spaced list) = list) ∧
    ¬ ∀ runtime first second,
      (∃ lhs, parse runtime first = .accepted lhs) →
        (∃ rhs, parse runtime second = .accepted rhs) →
          ∃ expr, parse runtime (first ++ " || ".toList ++ second) =
            .accepted expr ∧ expr.avoids .logicalOr = false := by
  constructor
  · intro hall
    have hread := hall [.mark .or] (by simp [Token.Valid])
    exact absurd hread (by decide)
  · intro hall
    obtain ⟨expr, haccepted, hor⟩ := hall .plain "1".toList "2".toList
      ⟨.integer 1, rfl⟩ ⟨.integer 2, rfl⟩
    have htree : parse .plain ("1".toList ++ " || ".toList ++ "2".toList) =
        .accepted (.binary .bitOr (.integer 1) (.integer 2)) := rfl
    rw [htree] at haccepted
    cases haccepted
    cases hor

end Driver

end Uskit.Expression
