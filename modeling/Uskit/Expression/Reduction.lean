import Uskit.Expression.Parser

namespace Uskit.Expression

open Uskit.Data Uskit.Grammar

namespace Parser

/-! The reductions of the parser are the rules of the grammar with their
actions. -/

inductive Reduction (runtime : Runtime) : Stack → Stack → Prop
  | program (expr : Expr) : Reduction runtime [.expr expr] [.program expr]
  | binary (op : BinaryOp) (lhs rhs : Expr) (below : Stack) :
      Reduction runtime (.expr rhs :: .binary op :: .expr lhs :: below)
        (.expr (.binary op lhs rhs) :: below)
  | ternary (cond lhs rhs : Expr) (below : Stack) :
      Reduction runtime
        (.expr rhs :: .colon :: .expr lhs :: .question :: .expr cond :: below)
        (.expr (.ternary cond lhs rhs) :: below)
  | group (expr : Expr) (below : Stack) :
      Reduction runtime (.close .rightPar :: .expr expr :: .group :: below)
        (.expr expr :: below)
  | not (expr : Expr) (below : Stack) :
      Reduction runtime (.expr expr :: .not :: below) (.expr (.not expr) :: below)
  | variable (text : String) (below : Stack) :
      Reduction runtime (.variable text :: .dollar :: below)
        (.expr (.variable text) :: below)
  | nullLiteral (below : Stack) :
      Reduction runtime (.literal (.mark .null) :: below) (.expr .null :: below)
  | integer (text : String) (value : Int) (below : Stack)
      (hvalue : stoi text = some value) :
      Reduction runtime (.literal (.integer text) :: below)
        (.expr (.integer value) :: below)
  | negativeInteger (text : String) (value : Int) (below : Stack)
      (hvalue : stoi text = some value) :
      Reduction runtime (.literal (.integer text) :: .minus :: below)
        (.expr (.integer (-value)) :: below)
  | double (text : String) (value : Double) (below : Stack)
      (hvalue : runtime.stod text = some value) :
      Reduction runtime (.literal (.double text) :: below)
        (.expr (.double value) :: below)
  | negativeDouble (text : String) (value : Double) (below : Stack)
      (hvalue : runtime.stod text = some value) :
      Reduction runtime (.literal (.double text) :: .minus :: below)
        (.expr (.double value.neg) :: below)
  | string (text : String) (below : Stack) :
      Reduction runtime (.literal (.string text) :: below)
        (.expr (.string (unquote text)) :: below)
  | boolean (value : Bool) (below : Stack) :
      Reduction runtime (.boolean value :: below) (.expr (.boolean value) :: below)
  | dictExpr (entries : List (String × Expr)) (below : Stack) :
      Reduction runtime (.dict entries :: below)
        (.expr (.dict (runtime.order entries)) :: below)
  | arrayExpr (items : List Expr) (below : Stack) :
      Reduction runtime (.array items :: below) (.expr (.array items) :: below)
  | call (funcName : String) (args : List Expr)
      (next : List (String × List Expr)) (below : Stack) :
      Reduction runtime (.fluentInterface funcName args next :: below)
        (.expr (.call funcName args next) :: below)
  | trueLiteral (below : Stack) :
      Reduction runtime (.literal (.mark .true) :: below) (.boolean true :: below)
  | falseLiteral (below : Stack) :
      Reduction runtime (.literal (.mark .false) :: below)
        (.boolean false :: below)
  | array (items : List Expr) (below : Stack) :
      Reduction runtime
        (.close .rightSquare :: .exprList items :: .square :: below)
        (.array items :: below)
  | fluentInterface (funcName : String) (args : List Expr) (below : Stack) :
      Reduction runtime (.funcCall funcName args :: below)
        (.fluentInterface funcName args [] :: below)
  | setNext (funcName : String) (args : List Expr) (first : String)
      (firstArgs : List Expr) (next : List (String × List Expr))
      (below : Stack) :
      Reduction runtime
        (.funcCall funcName args :: .dot ::
          .fluentInterface first firstArgs next :: below)
        (.fluentInterface first firstArgs [(funcName, args)] :: below)
  | funcCall (funcName : String) (args : List Expr) (below : Stack) :
      Reduction runtime
        (.close .rightPar :: .exprList args :: .arguments :: .name funcName ::
          below)
        (.funcCall funcName args :: below)
  | noArguments (below : Stack) :
      Reduction runtime (.arguments :: below) (.exprList [] :: .arguments :: below)
  | noItems (below : Stack) :
      Reduction runtime (.square :: below) (.exprList [] :: .square :: below)
  | firstArgument (expr : Expr) (below : Stack) :
      Reduction runtime (.expr expr :: .arguments :: below)
        (.exprList [expr] :: .arguments :: below)
  | firstItem (expr : Expr) (below : Stack) :
      Reduction runtime (.expr expr :: .square :: below)
        (.exprList [expr] :: .square :: below)
  | nextItem (expr : Expr) (items : List Expr) (below : Stack) :
      Reduction runtime (.expr expr :: .comma :: .exprList items :: below)
        (.exprList (items ++ [expr]) :: below)
  | dict (entries : List (String × Expr)) (below : Stack) :
      Reduction runtime
        (.close .rightBrace :: .keyValueMap entries :: .brace :: below)
        (.dict entries :: below)
  | noEntries (below : Stack) :
      Reduction runtime (.brace :: below) (.keyValueMap [] :: .brace :: below)
  | firstEntry (key : String) (expr : Expr) (below : Stack) :
      Reduction runtime (.keyValue key expr :: .brace :: below)
        (.keyValueMap [(key, expr)] :: .brace :: below)
  | nextEntry (key : String) (expr : Expr) (entries : List (String × Expr))
      (below : Stack) :
      Reduction runtime
        (.keyValue key expr :: .keyComma :: .keyValueMap entries :: below)
        (.keyValueMap (Members.emplace entries key expr) :: below)
  | keyValue (text : String) (expr : Expr) (below : Stack) :
      Reduction runtime (.expr expr :: .keyColon :: .key text :: below)
        (.keyValue (unquote text) expr :: below)

theorem ofValue_eq_to {make : α → Expr} {value : Option α} {below after : Stack}
    (hto : Reduced.ofValue make value below = .to after) :
    ∃ found, value = some found ∧ after = .expr (make found) :: below := by
  cases value with
  | none => cases hto
  | some found =>
      cases hto
      exact ⟨found, rfl, rfl⟩

theorem reduceLiteral_to {runtime : Runtime} {token : Token} {below after : Stack}
    (hto : reduceLiteral runtime token below = .to after) :
    Reduction runtime (.literal token :: below) after := by
  unfold reduceLiteral at hto
  split at hto
  · cases hto
    exact .nullLiteral below
  · cases hto
    exact .trueLiteral below
  · cases hto
    exact .falseLiteral below
  · obtain ⟨value, hvalue, rfl⟩ := ofValue_eq_to hto
    exact .negativeInteger _ value _ hvalue
  · obtain ⟨value, hvalue, rfl⟩ := ofValue_eq_to hto
    exact .integer _ value _ hvalue
  · obtain ⟨value, hvalue, rfl⟩ := ofValue_eq_to hto
    exact .negativeDouble _ value _ hvalue
  · obtain ⟨value, hvalue, rfl⟩ := ofValue_eq_to hto
    exact .double _ value _ hvalue
  · cases hto
    exact .string _ below
  · cases hto

theorem eq_of_ite_to {condition : Prop} [Decidable condition]
    {reduced after : Stack}
    (hto : (if condition then Reduced.none else .to reduced) = .to after) :
    reduced = after := by
  split at hto
  · cases hto
  · exact Reduced.to.inj hto

theorem reduceExpr_to {runtime : Runtime} {lookahead : Option Token} {expr : Expr}
    {below after : Stack} (hto : reduceExpr lookahead expr below = .to after) :
    Reduction runtime (.expr expr :: below) after := by
  unfold reduceExpr at hto
  split at hto
  · exact eq_of_ite_to hto ▸ .binary _ _ _ _
  · exact eq_of_ite_to hto ▸ .ternary _ _ _ _
  · exact eq_of_ite_to hto ▸ .not _ _
  · exact eq_of_ite_to hto ▸ .keyValue _ _ _
  · exact eq_of_ite_to hto ▸ .firstArgument _ _
  · exact eq_of_ite_to hto ▸ .firstItem _ _
  · exact eq_of_ite_to hto ▸ .nextItem _ _ _
  · exact eq_of_ite_to hto ▸ .program _
  · cases hto

theorem reduceClose_to {runtime : Runtime} {kind : Mark} {below after : Stack}
    (hto : reduceClose kind below = .to after) :
    Reduction runtime (.close kind :: below) after := by
  unfold reduceClose at hto
  split at hto
  · cases hto
    exact .group _ _
  · cases hto
    exact .funcCall _ _ _
  · cases hto
    exact .array _ _
  · cases hto
    exact .dict _ _
  · cases hto

theorem reduceEmptyList_to {lookahead : Option Token} {stack after : Stack}
    (hto : reduceEmptyList lookahead stack = .to after) :
    after = .exprList [] :: stack := by
  unfold reduceEmptyList at hto
  split at hto
  · cases hto
  · exact (Reduced.to.inj hto).symm

theorem reduceEmptyMap_to {lookahead : Option Token} {stack after : Stack}
    (hto : reduceEmptyMap lookahead stack = .to after) :
    after = .keyValueMap [] :: stack := by
  unfold reduceEmptyMap at hto
  split at hto
  · cases hto
  · exact (Reduced.to.inj hto).symm

/-- Every reduction is one of a rule. -/
theorem reduction_of_to {runtime : Runtime} {lookahead : Option Token}
    {stack after : Stack} (hto : reduce runtime lookahead stack = .to after) :
    Reduction runtime stack after := by
  unfold reduce at hto
  split at hto
  · exact reduceLiteral_to hto
  · cases hto
    exact .variable _ _
  · exact reduceClose_to hto
  · exact reduceExpr_to hto
  · cases hto
    exact .boolean _ _
  · cases hto
    exact .arrayExpr _ _
  · cases hto
    exact .dictExpr _ _
  · cases hto
    exact .setNext _ _ _ _ _ _
  · cases hto
    exact .fluentInterface _ _ _
  · exact eq_of_ite_to hto ▸ .call _ _ _ _
  · exact reduceEmptyList_to hto ▸ .noArguments _
  · exact reduceEmptyList_to hto ▸ .noItems _
  · exact reduceEmptyMap_to hto ▸ .noEntries _
  · cases hto
    exact .firstEntry _ _ _
  · cases hto
    exact .nextEntry _ _ _ _
  · cases hto

/-! The run ends. -/

def Stack.size (stack : Stack) : Nat :=
  stackWeight stack + opening stack

theorem Reduction.size_lt {runtime : Runtime} {stack after : Stack}
    (hreduction : Reduction runtime stack after) :
    Stack.size after < Stack.size stack := by
  cases hreduction <;>
    simp [Stack.size, stackWeight, Entry.weight, opening] <;> omega

/-- The symbol of the grammar that a state is entered with. -/
def Entry.symbol : Entry → Grammar.Sym
  | .group | .arguments => Grammar.mark .leftPar
  | .square => Grammar.mark .leftSquare
  | .brace => Grammar.mark .leftBrace
  | .binary op => Grammar.mark op.mark
  | .question => Grammar.mark .question
  | .colon | .keyColon => Grammar.mark .colon
  | .comma | .keyComma => Grammar.mark .comma
  | .not => Grammar.mark .not
  | .minus => Grammar.mark .minus
  | .dollar => Grammar.mark .dollar
  | .dot => Grammar.mark .dot
  | .name _ | .variable _ => Grammar.identifier
  | .key _ => Grammar.string
  | .literal token => .terminal token.terminal
  | .close kind => Grammar.mark kind
  | .program _ => Grammar.sym .program
  | .expr _ => Grammar.sym .expr
  | .boolean _ => Grammar.sym .boolean
  | .array _ => Grammar.sym .array
  | .fluentInterface _ _ _ => Grammar.sym .fluentInterface
  | .funcCall _ _ => Grammar.sym .funcCall
  | .exprList _ => Grammar.sym .exprList
  | .dict _ => Grammar.sym .dict
  | .keyValueMap _ => Grammar.sym .keyValueMap
  | .keyValue _ _ => Grammar.sym .keyValue

/-- What a shift pushes: a state entered with the token, which holds the token if
it is a numeral. -/
structure Shifts (token : Token) (entry : Entry) : Prop where
  symbol : Entry.symbol entry = .terminal token.terminal
  numeral : token.terminal ∈ [Terminal.integer, .double] → entry = .literal token

theorem shiftOperand_shifts {token : Token} {entry : Entry}
    (hshift : shiftOperand token = some entry) : Shifts token entry := by
  unfold shiftOperand at hshift
  split at hshift <;> cases hshift <;>
    exact ⟨rfl, by simp [Token.terminal]⟩

theorem shiftAfterExpr_shifts {below : Stack} {token : Token} {entry : Entry}
    (hshift : shiftAfterExpr below token = some entry) : Shifts token entry := by
  unfold shiftAfterExpr at hshift
  split at hshift
  · cases hshift
    exact ⟨rfl, by simp [Token.terminal]⟩
  · split at hshift
    · rename_i hop
      cases hshift
      rw [BinaryOp.mark_of_binaryOp hop]
      exact ⟨rfl, by simp [Token.terminal]⟩
    · split at hshift <;> cases hshift <;>
        exact ⟨rfl, by simp [Token.terminal]⟩
  · cases hshift

theorem shiftInList_shifts {below : Stack} {token : Token} {entry : Entry}
    (hshift : shiftInList below token = some entry) : Shifts token entry := by
  unfold shiftInList at hshift
  split at hshift <;> cases hshift <;>
    exact ⟨rfl, by simp [Token.terminal]⟩

theorem shift_shifts {stack : Stack} {token : Token} {entry : Entry}
    (hshift : shift stack token = some entry) : Shifts token entry := by
  unfold shift at hshift
  split at hshift
  · exact shiftOperand_shifts hshift
  · split at hshift
    case h_8 => exact shiftAfterExpr_shifts hshift
    case h_10 => exact shiftInList_shifts hshift
    all_goals
      first
      | cases hshift
      | split at hshift <;> cases hshift <;>
          exact ⟨rfl, by simp [Token.terminal]⟩

theorem size_cons_le (entry : Entry) (stack : Stack) :
    Stack.size (entry :: stack) ≤ 6 + Stack.size stack := by
  cases entry <;>
    simp [Stack.size, stackWeight, Entry.weight, opening] <;> omega

theorem measure_lt {runtime : Runtime} (state next : State)
    (hturn : turn runtime state = .inl next) : next.measure < state.measure := by
  obtain ⟨stack, input⟩ := state
  simp only [turn] at hturn
  split at hturn
  · rename_i reduced hreduce
    cases hturn
    have hsize := (reduction_of_to hreduce).size_lt
    simp only [Stack.size] at hsize
    simp only [State.measure]
    omega
  · cases hturn
  · split at hturn
    · split at hturn
      · cases hturn
      · cases hturn
    · rename_i token rest
      split at hturn
      · rename_i entry hshift
        cases hturn
        have hsize := size_cons_le entry stack
        simp only [Stack.size] at hsize
        simp only [State.measure, List.length_cons]
        omega
      · cases hturn

/-- What the parser answers is what its run returns. -/
theorem returns_parse (runtime : Runtime) (tokens : List Token) :
    (turn runtime).Returns ⟨[], tokens⟩ (parse runtime tokens) := by
  obtain ⟨result, hrun, hreturns⟩ := Loop.exists_run measure_lt
    (Nat.lt_succ_self (State.measure ⟨[], tokens⟩))
  have hparse : parse runtime tokens = result := by
    rw [parse, hrun, Option.getD_some]
  rw [hparse]
  exact hreturns

theorem parse_eq_iff {runtime : Runtime} {tokens : List Token}
    {result : ParseResult} :
    parse runtime tokens = result ↔
      (turn runtime).Returns ⟨[], tokens⟩ result := by
  constructor
  · intro heq
    rw [← heq]
    exact returns_parse runtime tokens
  · exact (returns_parse runtime tokens).unique

end Parser

end Uskit.Expression
