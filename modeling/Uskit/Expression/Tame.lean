import Uskit.Expression.ParserComplete

namespace Uskit.Expression

open Uskit.Data

/-! The parser on numerals that are out of range: up to the first that it reads,
it goes as on numerals that are in range. -/

/-- An integer that is out of range is replaced by one that is not. -/
def Token.tame : Token → Token
  | .integer text =>
      if (Parser.stoi text).isSome then .integer text else .integer "0"
  | token => token

/-- The same on every double that is in range. -/
def Runtime.tame (runtime : Runtime) : Runtime :=
  { runtime with
    stod := fun text => some ((runtime.stod text).getD (Double.zero false)) }

def Entry.tame : Entry → Entry
  | .literal token => .literal token.tame
  | entry => entry

namespace Parser

def tameStack (stack : Stack) : Stack :=
  stack.map Entry.tame

def Reduced.tame : Reduced → Reduced
  | .to stack => .to (tameStack stack)
  | reduced => reduced

def State.tame (state : State) : State :=
  ⟨tameStack state.stack, state.input.map Token.tame⟩

variable {runtime : Runtime}

theorem tame_integer (text : String) :
    ∃ other, (Token.integer text).tame = .integer other := by
  rw [Token.tame]
  split
  · exact ⟨_, rfl⟩
  · exact ⟨_, rfl⟩

/-- What holds of any two numerals, and of every token with itself, holds of a token
and the one in its place. -/
theorem tame_cases {motive : Token → Token → Prop}
    (numerals : ∀ text other, motive (.integer text) (.integer other))
    (same : ∀ token, motive token token) (token : Token) : motive token token.tame := by
  cases token with
  | integer text =>
      obtain ⟨other, hother⟩ := tame_integer text
      rw [hother]
      exact numerals text other
  | mark | identifier | string | double => exact same _

theorem tame_terminal (token : Token) : token.tame.terminal = token.terminal :=
  tame_cases (motive := fun token other => other.terminal = token.terminal)
    (fun _ _ => rfl) (fun _ => rfl) token

theorem inRange_tame (token : Token) : InRange runtime.tame token.tame := by
  cases token with
  | integer text =>
      rw [Token.tame]
      split
      · assumption
      · exact rfl
  | double text => exact rfl
  | mark | identifier | string => trivial

theorem tame_eq {entry other : Entry} (hother : ∀ token, other ≠ .literal token) :
    entry.tame = other ↔ entry = other := by
  cases entry with
  | literal token =>
      constructor
      · intro heq
        exact absurd heq.symm (hother _)
      · intro heq
        exact absurd heq.symm (hother _)
  | _ => exact Iff.rfl

theorem continues_tame (lookahead : Option Token) :
    continues (lookahead.map Token.tame) = continues lookahead := by
  cases lookahead with
  | none => rfl
  | some token =>
      exact tame_cases
        (motive := fun token other => continues (some other) = continues (some token))
        (fun _ _ => rfl) (fun _ => rfl) token

theorem shiftsOver_tame (rule : Mark) (lookahead : Option Token) :
    shiftsOver rule (lookahead.map Token.tame) = shiftsOver rule lookahead := by
  cases lookahead with
  | none => rfl
  | some token =>
      exact tame_cases (motive := fun token other =>
        shiftsOver rule (some other) = shiftsOver rule (some token))
        (fun _ _ => rfl) (fun _ => rfl) token

theorem shiftOperand_tame (token : Token) :
    shiftOperand token.tame = (shiftOperand token).map Entry.tame := by
  cases token with
  | mark kind => cases kind <;> rfl
  | integer text =>
      obtain ⟨other, hother⟩ := tame_integer text
      rw [hother, shiftOperand, shiftOperand, Option.map_some, Entry.tame, hother]
  | identifier | string | double => rfl

theorem tameStack_eq_cons {entry : Entry} (hentry : ∀ token, entry ≠ .literal token)
    {stack below : Stack} :
    tameStack stack = entry :: below ↔
      ∃ rest, stack = entry :: rest ∧ tameStack rest = below := by
  rw [tameStack, List.map_eq_cons_iff]
  simp only [tame_eq hentry]
  constructor
  · intro hstack
    obtain ⟨first, rest, hstack, rfl, hrest⟩ := hstack
    exact ⟨rest, hstack, hrest⟩
  · intro hstack
    obtain ⟨rest, hstack, hrest⟩ := hstack
    exact ⟨entry, rest, hstack, rfl, hrest⟩

theorem tame_ite (condition : Prop) [Decidable condition] (stack : Stack) :
    (if condition then Reduced.none else .to stack).tame =
      if condition then .none else .to (tameStack stack) := by
  split
  · rfl
  · rfl

theorem reduceExpr_tame (lookahead : Option Token) (expr : Expr) (below : Stack) :
    reduceExpr (lookahead.map Token.tame) expr (tameStack below) =
      (reduceExpr lookahead expr below).tame := by
  generalize htamed : tameStack below = tamed
  unfold reduceExpr
  simp only [shiftsOver_tame, continues_tame]
  split
  · simp (disch := simp) only [tameStack_eq_cons] at htamed
    obtain ⟨_, rfl, _, rfl, rfl⟩ := htamed
    simp only [tame_ite]
    rfl
  · simp (disch := simp) only [tameStack_eq_cons] at htamed
    obtain ⟨_, rfl, _, rfl, _, rfl, _, rfl, rfl⟩ := htamed
    simp only [tame_ite]
    rfl
  · simp (disch := simp) only [tameStack_eq_cons] at htamed
    obtain ⟨_, rfl, rfl⟩ := htamed
    simp only [tame_ite]
    rfl
  · simp (disch := simp) only [tameStack_eq_cons] at htamed
    obtain ⟨_, rfl, _, rfl, rfl⟩ := htamed
    simp only [tame_ite]
    rfl
  · simp (disch := simp) only [tameStack_eq_cons] at htamed
    obtain ⟨_, rfl, rfl⟩ := htamed
    simp only [tame_ite]
    rfl
  · simp (disch := simp) only [tameStack_eq_cons] at htamed
    obtain ⟨_, rfl, rfl⟩ := htamed
    simp only [tame_ite]
    rfl
  · simp (disch := simp) only [tameStack_eq_cons] at htamed
    obtain ⟨_, rfl, _, rfl, rfl⟩ := htamed
    simp only [tame_ite]
    rfl
  · obtain rfl : below = [] := List.map_eq_nil_iff.mp htamed
    simp only [tame_ite]
    rfl
  · subst htamed
    split
    all_goals first | rfl | (exfalso; simp_all [tameStack, Entry.tame])

theorem reduceClose_tame (kind : Mark) (below : Stack) :
    reduceClose kind (tameStack below) = (reduceClose kind below).tame := by
  generalize htamed : tameStack below = tamed
  unfold reduceClose
  split
  · simp (disch := simp) only [tameStack_eq_cons] at htamed
    obtain ⟨_, rfl, _, rfl, rfl⟩ := htamed
    rfl
  · simp (disch := simp) only [tameStack_eq_cons] at htamed
    obtain ⟨_, rfl, _, rfl, _, rfl, rfl⟩ := htamed
    rfl
  · simp (disch := simp) only [tameStack_eq_cons] at htamed
    obtain ⟨_, rfl, _, rfl, rfl⟩ := htamed
    rfl
  · simp (disch := simp) only [tameStack_eq_cons] at htamed
    obtain ⟨_, rfl, _, rfl, rfl⟩ := htamed
    rfl
  · subst htamed
    split
    all_goals first | rfl | (exfalso; simp_all [tameStack, Entry.tame])

theorem reduceLiteral_unsigned {below : Stack}
    (hunsigned : ∀ rest, below ≠ .minus :: rest) (text : String) :
    reduceLiteral runtime (.integer text) below =
        .ofValue .integer (stoi text) below ∧
      reduceLiteral runtime (.double text) below =
        .ofValue .double (runtime.stod text) below := by
  constructor
  · rw [reduceLiteral]
    exact fun rest hbelow => hunsigned rest hbelow
  · rw [reduceLiteral]
    exact fun rest hbelow => hunsigned rest hbelow

theorem ofValue_tame {value other : Option α}
    (hsame : ∀ found, value = some found → other = some found) (make : α → Expr)
    (below : Stack) :
    Reduced.ofValue make value below = .thrown ∨
      Reduced.ofValue make other (tameStack below) =
        (Reduced.ofValue make value below).tame := by
  cases value with
  | none => exact .inl rfl
  | some found =>
      right
      rw [hsame found rfl]
      rfl

theorem tame_integer_of_inRange (text : String) :
    ∃ other, (Token.integer text).tame = .integer other ∧
      ∀ value, stoi text = some value → stoi other = some value := by
  cases hvalue : stoi text with
  | none =>
      obtain ⟨other, hother⟩ := tame_integer text
      exact ⟨other, hother, by simp⟩
  | some value =>
      refine ⟨text, ?_, fun _ hsame => hvalue.trans hsame⟩
      rw [Token.tame, hvalue]
      rfl

/-- A literal is converted when it is reduced. -/
theorem reduceLiteral_tame (token : Token) (below : Stack) :
    reduceLiteral runtime token below = .thrown ∨
      reduceLiteral runtime.tame token.tame (tameStack below) =
        (reduceLiteral runtime token below).tame := by
  have hsigned : (∃ rest, below = .minus :: rest) ∨
      (∀ rest, below ≠ .minus :: rest) ∧ ∀ rest, tameStack below ≠ .minus :: rest := by
    simp (disch := simp) only [ne_eq, tameStack_eq_cons, not_exists]
    by_cases hminus : ∃ rest, below = .minus :: rest
    · exact .inl hminus
    · rw [not_exists] at hminus
      exact .inr ⟨hminus, fun rest other hother => hminus other hother.1⟩
  cases token with
  | integer text =>
      obtain ⟨other, htame, hvalue⟩ := tame_integer_of_inRange text
      rw [htame]
      rcases hsigned with ⟨rest, rfl⟩ | ⟨hunsigned, htamed⟩
      · exact ofValue_tame hvalue _ rest
      · rw [(reduceLiteral_unsigned hunsigned text).1,
          (reduceLiteral_unsigned htamed other).1]
        exact ofValue_tame hvalue _ below
  | double text =>
      have hvalue : ∀ value, runtime.stod text = some value →
          runtime.tame.stod text = some value := by
        intro value hvalue
        rw [Runtime.tame]
        simp only [hvalue, Option.getD_some]
      have htame : (Token.double text).tame = .double text := rfl
      rw [htame]
      rcases hsigned with ⟨rest, rfl⟩ | ⟨hunsigned, htamed⟩
      · exact ofValue_tame hvalue _ rest
      · rw [(reduceLiteral_unsigned hunsigned text).2,
          (reduceLiteral_unsigned htamed text).2]
        exact ofValue_tame hvalue _ below
  | mark kind => cases kind <;> exact .inr rfl
  | identifier | string => exact .inr rfl

theorem reduceEmptyList_tame (lookahead : Option Token) (stack : Stack) :
    reduceEmptyList (lookahead.map Token.tame) (tameStack stack) =
      (reduceEmptyList lookahead stack).tame := by
  cases lookahead with
  | none => rfl
  | some token =>
      simp only [reduceEmptyList, Option.map_some, Option.bind_some, shiftOperand_tame]
      cases shiftOperand token with
      | none => rfl
      | some entry => rfl

theorem reduceEmptyMap_tame (lookahead : Option Token) (stack : Stack) :
    reduceEmptyMap (lookahead.map Token.tame) (tameStack stack) =
      (reduceEmptyMap lookahead stack).tame := by
  cases lookahead with
  | none => rfl
  | some token =>
      refine tame_cases (motive := fun token other =>
        reduceEmptyMap (some other) (tameStack stack) =
          (reduceEmptyMap (some token) stack).tame) (fun _ _ => rfl) ?_ token
      intro token
      cases token <;> rfl

theorem tame_eq_dot {lookahead : Option Token} :
    lookahead.map Token.tame = some (.mark .dot) ↔ lookahead = some (.mark .dot) := by
  cases lookahead with
  | none => simp
  | some token =>
      exact tame_cases (motive := fun token other =>
        some other = some (.mark .dot) ↔ some token = some (.mark .dot))
        (by simp) (fun _ => .rfl) token

theorem reduce_tame (runtime : Runtime) (lookahead : Option Token) (stack : Stack) :
    reduce runtime lookahead stack = .thrown ∨
      reduce runtime.tame (lookahead.map Token.tame) (tameStack stack) =
        (reduce runtime lookahead stack).tame := by
  cases stack with
  | nil => exact .inr rfl
  | cons top below =>
      cases top with
      | literal token => exact reduceLiteral_tame token below
      | close kind => exact .inr (reduceClose_tame kind below)
      | expr expr => exact .inr (reduceExpr_tame lookahead expr below)
      | arguments => exact .inr (reduceEmptyList_tame lookahead (.arguments :: below))
      | square => exact .inr (reduceEmptyList_tame lookahead (.square :: below))
      | brace => exact .inr (reduceEmptyMap_tame lookahead (.brace :: below))
      | fluentInterface funcName args next =>
          right
          simp only [tameStack, List.map_cons, Entry.tame, reduce, tame_eq_dot, tame_ite]
      | «variable» text =>
          cases below with
          | nil => exact .inr rfl
          | cons next below => cases next <;> exact .inr rfl
      | keyValue key expr =>
          cases below with
          | nil => exact .inr rfl
          | cons next below =>
              cases next with
              | keyComma =>
                  cases below with
                  | nil => exact .inr rfl
                  | cons next below => cases next <;> exact .inr rfl
              | _ => exact .inr rfl
      | funcCall funcName args =>
          cases below with
          | nil => exact .inr rfl
          | cons next below =>
              cases next with
              | dot =>
                  cases below with
                  | nil => exact .inr rfl
                  | cons next below => cases next <;> exact .inr rfl
              | _ => exact .inr rfl
      | _ => exact .inr rfl

/-! Shifts do not look at numerals. -/

theorem beforeExpr_tame (stack : Stack) :
    beforeExpr (tameStack stack) = beforeExpr stack := by
  cases stack with
  | nil => rfl
  | cons top below => cases top <;> rfl

theorem shiftAfterExpr_tame (below : Stack) (token : Token) :
    shiftAfterExpr (tameStack below) token.tame =
      (shiftAfterExpr below token).map Entry.tame := by
  cases token with
  | mark kind =>
      cases below with
      | nil => cases kind <;> rfl
      | cons next below => cases kind <;> cases next <;> rfl
  | integer text =>
      obtain ⟨other, hother⟩ := tame_integer text
      rw [hother]
      rfl
  | identifier | string | double => rfl

theorem shiftInList_tame (below : Stack) (token : Token) :
    shiftInList (tameStack below) token.tame =
      (shiftInList below token).map Entry.tame := by
  cases token with
  | mark kind =>
      cases below with
      | nil => cases kind <;> rfl
      | cons next below => cases kind <;> cases next <;> rfl
  | integer text =>
      obtain ⟨other, hother⟩ := tame_integer text
      rw [hother]
      rfl
  | identifier | string | double => rfl

theorem shift_tame (stack : Stack) (token : Token) :
    shift (tameStack stack) token.tame = (shift stack token).map Entry.tame := by
  unfold shift
  rw [beforeExpr_tame]
  split
  · exact shiftOperand_tame token
  · cases stack with
    | nil => rfl
    | cons top below =>
        cases top with
        | expr expr => exact shiftAfterExpr_tame below token
        | exprList items => exact shiftInList_tame below token
        | minus =>
            cases token with
            | integer text =>
                have hentry : (Entry.literal (.integer text)).tame =
                    .literal (Token.integer text).tame := rfl
                obtain ⟨other, hother⟩ := tame_integer text
                rw [hother] at hentry ⊢
                exact congrArg some hentry.symm
            | mark | identifier | string | double => rfl
        | _ =>
            cases token with
            | mark kind => cases kind <;> rfl
            | integer text =>
                obtain ⟨other, hother⟩ := tame_integer text
                rw [hother]
                rfl
            | identifier | string | double => rfl

/-- A turn reads a numeral that is out of range, or goes as on tame ones. -/
theorem turn_tame (state : State) :
    turn runtime state = .inr .thrown ∨
      turn runtime.tame state.tame = (turn runtime state).map State.tame id := by
  obtain ⟨stack, input⟩ := state
  have hhead : (input.map Token.tame).head? = input.head?.map Token.tame :=
    List.head?_map
  simp only [turn, State.tame, hhead]
  rcases reduce_tame runtime input.head? stack with hthrown | hreduce
  · rw [hthrown]
    exact .inl rfl
  · rw [hreduce]
    cases hreduced : reduce runtime input.head? stack with
    | «to» reduced => exact .inr rfl
    | thrown => exact .inl rfl
    | none =>
        right
        cases input with
        | nil =>
            cases stack with
            | nil => rfl
            | cons top below =>
                cases below with
                | nil => cases top <;> rfl
                | cons next below => cases top <;> rfl
        | cons token rest =>
            simp only [Reduced.tame, List.map_cons, shift_tame]
            cases shift stack token with
            | none => rfl
            | some entry => rfl

/-- A derivable list of tokens is accepted, unless it has a numeral that is out of
range, which throws. -/
theorem parse_eq_thrown_iff (runtime : Runtime) {tokens : List Token}
    (hderivable : tokens.map Token.terminal ∈ grammar.language) :
    parse runtime tokens = .thrown ↔ ¬ ∀ token ∈ tokens, InRange runtime token := by
  constructor
  · intro hthrown hrange
    obtain ⟨expr, haccepted⟩ := (accepted_iff hrange).mpr hderivable
    rw [hthrown] at haccepted
    cases haccepted
  · intro hnot
    have hterminals : (tokens.map Token.tame).map Token.terminal =
        tokens.map Token.terminal := by
      rw [List.map_map]
      exact List.map_congr_left fun token _ => tame_terminal token
    have hrange : ∀ token ∈ tokens.map Token.tame, InRange runtime.tame token := by
      rw [List.forall_mem_map]
      exact fun token _ => inRange_tame token
    obtain ⟨expr, haccepted⟩ := (accepted_iff hrange).mpr (hterminals ▸ hderivable)
    have hreturns := parse_eq_iff.mp (rfl : parse runtime tokens = _)
    rcases hreturns.follow turn_tame with hthrown | hfollows
    · exact hthrown
    · have hsame := parse_eq_iff.mpr hfollows
      rw [haccepted] at hsame
      have hall := (inRange_of_returns (hsame ▸ hreturns)).1
      exact absurd hall hnot

end Parser

end Uskit.Expression
