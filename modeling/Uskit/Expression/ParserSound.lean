import Uskit.Expression.Reduction

namespace Uskit.Expression

open Uskit.Data Uskit.Grammar

namespace Parser

/-! What the parser accepts is derivable: read from the end, a run replaces the
left sides of rules by their right sides. -/

/-- The symbols of a stack, from the bottom on. -/
def stackForm (stack : Stack) : List Grammar.Sym :=
  (stack.map Entry.symbol).reverse

def inputForm (tokens : List Token) : List Grammar.Sym :=
  (tokens.map Token.terminal).map .terminal

def State.form (state : State) : List Grammar.Sym :=
  stackForm state.stack ++ inputForm state.input

@[simp] theorem stackForm_cons (entry : Entry) (stack : Stack) :
    stackForm (entry :: stack) = stackForm stack ++ [Entry.symbol entry] := by
  simp [stackForm]

@[simp] theorem inputForm_cons (token : Token) (tokens : List Token) :
    inputForm (token :: tokens) = .terminal token.terminal :: inputForm tokens :=
  rfl

/-- A reduction puts the left side of a rule in the place of its right side. -/
structure Replaces (production : Grammar.Production) (stack after below : Stack) :
    Prop where
  mem : production ∈ Grammar.productions
  stack : stackForm stack = stackForm below ++ production.output
  after : stackForm after = stackForm below ++ [.nonterminal production.input]

theorem replaces_of_handle (production : Grammar.Production) (handle below : Stack)
    {left : Entry} (hmem : production ∈ Grammar.productions)
    (houtput : (handle.map Entry.symbol).reverse = production.output)
    (hleft : Entry.symbol left = .nonterminal production.input) :
    ∃ production rest, Replaces production (handle ++ below) (left :: below) rest := by
  refine ⟨production, below, hmem, ?_, ?_⟩
  · simp [stackForm, ← houtput]
  · simp [hleft]

theorem Reduction.replaces {runtime : Runtime} {stack after : Stack}
    (hreduction : Reduction runtime stack after) :
    ∃ production below, Replaces production stack after below := by
  cases hreduction with
  | program expr =>
      exact replaces_of_handle
        ⟨.program, [Grammar.sym .expr]⟩
        [.expr expr] [] (by decide) rfl rfl
  | binary op lhs rhs below =>
      exact replaces_of_handle
        (Grammar.binary op.mark)
        [.expr rhs, .binary op, .expr lhs] below (by cases op <;> decide) rfl rfl
  | ternary cond lhs rhs below =>
      exact replaces_of_handle
        ⟨.expr, [Grammar.sym .expr, Grammar.mark .question, Grammar.sym .expr,
          Grammar.mark .colon, Grammar.sym .expr]⟩
        [.expr rhs, .colon, .expr lhs, .question, .expr cond] below (by decide) rfl rfl
  | group expr below =>
      exact replaces_of_handle
        ⟨.expr, [Grammar.mark .leftPar, Grammar.sym .expr, Grammar.mark .rightPar]⟩
        [.close .rightPar, .expr expr, .group] below (by decide) rfl rfl
  | not expr below =>
      exact replaces_of_handle
        ⟨.expr, [Grammar.mark .not, Grammar.sym .expr]⟩
        [.expr expr, .not] below (by decide) rfl rfl
  | «variable» text below =>
      exact replaces_of_handle
        ⟨.expr, [Grammar.mark .dollar, Grammar.identifier]⟩
        [.variable text, .dollar] below (by decide) rfl rfl
  | nullLiteral below =>
      exact replaces_of_handle
        ⟨.expr, [Grammar.mark .null]⟩
        [.literal (.mark .null)] below (by decide) rfl rfl
  | integer text value below =>
      exact replaces_of_handle
        ⟨.expr, [Grammar.integer]⟩
        [.literal (.integer text)] below (by decide) rfl rfl
  | negativeInteger text value below =>
      exact replaces_of_handle
        ⟨.expr, [Grammar.mark .minus, Grammar.integer]⟩
        [.literal (.integer text), .minus] below (by decide) rfl rfl
  | double text value below =>
      exact replaces_of_handle
        ⟨.expr, [Grammar.double]⟩
        [.literal (.double text)] below (by decide) rfl rfl
  | negativeDouble text value below =>
      exact replaces_of_handle
        ⟨.expr, [Grammar.mark .minus, Grammar.double]⟩
        [.literal (.double text), .minus] below (by decide) rfl rfl
  | string text below =>
      exact replaces_of_handle
        ⟨.expr, [Grammar.string]⟩
        [.literal (.string text)] below (by decide) rfl rfl
  | boolean value below =>
      exact replaces_of_handle
        ⟨.expr, [Grammar.sym .boolean]⟩
        [.boolean value] below (by decide) rfl rfl
  | dictExpr entries below =>
      exact replaces_of_handle
        ⟨.expr, [Grammar.sym .dict]⟩
        [.dict entries] below (by decide) rfl rfl
  | arrayExpr items below =>
      exact replaces_of_handle
        ⟨.expr, [Grammar.sym .array]⟩
        [.array items] below (by decide) rfl rfl
  | call funcName args next below =>
      exact replaces_of_handle
        ⟨.expr, [Grammar.sym .fluentInterface]⟩
        [.fluentInterface funcName args next] below (by decide) rfl rfl
  | trueLiteral below =>
      exact replaces_of_handle
        ⟨.boolean, [Grammar.mark .true]⟩
        [.literal (.mark .true)] below (by decide) rfl rfl
  | falseLiteral below =>
      exact replaces_of_handle
        ⟨.boolean, [Grammar.mark .false]⟩
        [.literal (.mark .false)] below (by decide) rfl rfl
  | array items below =>
      exact replaces_of_handle
        ⟨.array, [Grammar.mark .leftSquare, Grammar.sym .exprList,
          Grammar.mark .rightSquare]⟩
        [.close .rightSquare, .exprList items, .square] below (by decide) rfl rfl
  | fluentInterface funcName args below =>
      exact replaces_of_handle
        ⟨.fluentInterface, [Grammar.sym .funcCall]⟩
        [.funcCall funcName args] below (by decide) rfl rfl
  | setNext funcName args first firstArgs next below =>
      exact replaces_of_handle
        ⟨.fluentInterface, [Grammar.sym .fluentInterface, Grammar.mark .dot,
          Grammar.sym .funcCall]⟩
        [.funcCall funcName args, .dot, .fluentInterface first firstArgs next]
        below (by decide) rfl rfl
  | funcCall funcName args below =>
      exact replaces_of_handle
        ⟨.funcCall, [Grammar.identifier, Grammar.mark .leftPar,
          Grammar.sym .exprList, Grammar.mark .rightPar]⟩
        [.close .rightPar, .exprList args, .arguments, .name funcName]
        below (by decide) rfl rfl
  | noArguments below =>
      exact replaces_of_handle
        ⟨.exprList, []⟩
        [] (.arguments :: below) (by decide) rfl rfl
  | noItems below =>
      exact replaces_of_handle
        ⟨.exprList, []⟩
        [] (.square :: below) (by decide) rfl rfl
  | firstArgument expr below =>
      exact replaces_of_handle
        ⟨.exprList, [Grammar.sym .expr]⟩
        [.expr expr] (.arguments :: below) (by decide) rfl rfl
  | firstItem expr below =>
      exact replaces_of_handle
        ⟨.exprList, [Grammar.sym .expr]⟩
        [.expr expr] (.square :: below) (by decide) rfl rfl
  | nextItem expr items below =>
      exact replaces_of_handle
        ⟨.exprList, [Grammar.sym .exprList, Grammar.mark .comma,
          Grammar.sym .expr]⟩
        [.expr expr, .comma, .exprList items] below (by decide) rfl rfl
  | dict entries below =>
      exact replaces_of_handle
        ⟨.dict, [Grammar.mark .leftBrace, Grammar.sym .keyValueMap,
          Grammar.mark .rightBrace]⟩
        [.close .rightBrace, .keyValueMap entries, .brace] below (by decide) rfl rfl
  | noEntries below =>
      exact replaces_of_handle
        ⟨.keyValueMap, []⟩
        [] (.brace :: below) (by decide) rfl rfl
  | firstEntry key expr below =>
      exact replaces_of_handle
        ⟨.keyValueMap, [Grammar.sym .keyValue]⟩
        [.keyValue key expr] (.brace :: below) (by decide) rfl rfl
  | nextEntry key expr entries below =>
      exact replaces_of_handle
        ⟨.keyValueMap, [Grammar.sym .keyValueMap, Grammar.mark .comma,
          Grammar.sym .keyValue]⟩
        [.keyValue key expr, .keyComma, .keyValueMap entries] below (by decide) rfl rfl
  | keyValue text expr below =>
      exact replaces_of_handle
        ⟨.keyValue, [Grammar.string, Grammar.mark .colon, Grammar.sym .expr]⟩
        [.expr expr, .keyColon, .key text] below (by decide) rfl rfl

theorem turn_accepted {runtime : Runtime} {state : State} {expr : Expr}
    (hturn : turn runtime state = .inr (.accepted expr)) :
    state = ⟨[.program expr], []⟩ := by
  obtain ⟨stack, input⟩ := state
  simp only [turn] at hturn
  split at hturn
  · cases hturn
  · cases hturn
  · split at hturn
    · split at hturn
      · cases hturn
        rfl
      · cases hturn
    · split at hturn
      · cases hturn
      · cases hturn

theorem goesOn_cases {runtime : Runtime} {state next : State}
    (hgoes : (turn runtime).GoesOn state next) :
    (Reduction runtime state.stack next.stack ∧ next.input = state.input) ∨
      ∃ token entry, shift state.stack token = some entry ∧
        state.input = token :: next.input ∧
          next.stack = entry :: state.stack := by
  obtain ⟨stack, input⟩ := state
  simp only [Loop.GoesOn, turn] at hgoes
  split at hgoes
  · rename_i hreduce
    cases hgoes
    exact .inl ⟨reduction_of_to hreduce, rfl⟩
  · cases hgoes
  · split at hgoes
    · split at hgoes
      · cases hgoes
      · cases hgoes
    · split at hgoes
      · rename_i hshift
        cases hgoes
        exact .inr ⟨_, _, hshift, rfl, rfl⟩
      · cases hgoes

theorem derives_of_goesOn {runtime : Runtime} {state next : State}
    (hgoes : (turn runtime).GoesOn state next)
    (hderives : grammar.Derives [Grammar.sym .program] next.form) :
    grammar.Derives [Grammar.sym .program] state.form := by
  rw [State.form] at hderives ⊢
  rcases goesOn_cases hgoes with
    ⟨hreduction, hinput⟩ | ⟨token, entry, hshift, hinput, hstack⟩
  · obtain ⟨production, below, hreplaces⟩ := hreduction.replaces
    have hrule : production ∈ grammar.rules :=
      List.mem_toFinset.mpr hreplaces.mem
    rw [hreplaces.after, hinput, List.append_assoc,
      List.singleton_append] at hderives
    rw [hreplaces.stack]
    exact derives_of_rule hrule hderives
  · rw [hstack, stackForm_cons, (shift_shifts hshift).symbol, List.append_assoc,
      List.singleton_append] at hderives
    rw [hinput, inputForm_cons]
    exact hderives

theorem derives_of_returns {runtime : Runtime} {state : State} {expr : Expr}
    (hreturns : (turn runtime).Returns state (.accepted expr)) :
    grammar.Derives [Grammar.sym .program] state.form := by
  obtain ⟨last, hreaches, hlast⟩ := hreturns
  induction hreaches using Relation.ReflTransGen.head_induction_on with
  | refl =>
      rw [turn_accepted hlast]
      exact Relation.ReflTransGen.refl
  | head hstep _ ih => exact derives_of_goesOn hstep ih

theorem mem_language_of_accepted {runtime : Runtime} {tokens : List Token}
    {expr : Expr} (haccepted : parse runtime tokens = .accepted expr) :
    tokens.map Token.terminal ∈ grammar.language :=
  derives_of_returns (parse_eq_iff.mp haccepted)

end Parser

end Uskit.Expression

namespace Uskit.Expr

/-! Trees without a binary operator. -/

mutual
def avoids (op : BinaryOp) : Expr → Bool
  | .array items => avoidsItems op items
  | .dict entries => avoidsEntries op entries
  | .binary other lhs rhs => other != op && avoids op lhs && avoids op rhs
  | .ternary cond lhs rhs => avoids op cond && avoids op lhs && avoids op rhs
  | .not expr => avoids op expr
  | .call _ args next => avoidsItems op args && avoidsNext op next
  | .null | .integer _ | .double _ | .string _ | .boolean _ | .variable _ => true

def avoidsItems (op : BinaryOp) : List Expr → Bool
  | [] => true
  | item :: rest => avoids op item && avoidsItems op rest

def avoidsEntries (op : BinaryOp) : List (String × Expr) → Bool
  | [] => true
  | (_, expr) :: rest => avoids op expr && avoidsEntries op rest

def avoidsNext (op : BinaryOp) : List (String × List Expr) → Bool
  | [] => true
  | (_, args) :: rest => avoidsItems op args && avoidsNext op rest
end

theorem avoidsItems_append (op : BinaryOp) (first second : List Expr) :
    avoidsItems op (first ++ second) =
      (avoidsItems op first && avoidsItems op second) := by
  induction first with
  | nil => rfl
  | cons item rest ih => simp [avoidsItems, ih, Bool.and_assoc]

theorem avoidsEntries_iff {op : BinaryOp} {entries : List (String × Expr)} :
    avoidsEntries op entries = true ↔
      ∀ entry ∈ entries, avoids op entry.2 = true := by
  induction entries with
  | nil => simp [avoidsEntries]
  | cons entry rest ih => simp [avoidsEntries, ih]

end Uskit.Expr

namespace Uskit.Expression

open Uskit.Data

namespace Parser

def Entry.avoids (op : BinaryOp) : Entry → Bool
  | .binary other => other != op
  | .program expr | .expr expr | .keyValue _ expr => expr.avoids op
  | .array items | .exprList items | .funcCall _ items => Expr.avoidsItems op items
  | .fluentInterface _ args next =>
      Expr.avoidsItems op args && Expr.avoidsNext op next
  | .dict entries | .keyValueMap entries => Expr.avoidsEntries op entries
  | _ => true

def State.Avoids (op : BinaryOp) (state : State) : Prop :=
  (∀ entry ∈ state.stack, Entry.avoids op entry = true) ∧
    .mark op.mark ∉ state.input

theorem avoidsEntries_emplace {op : BinaryOp} {entries : List (String × Expr)}
    {key : String} {expr : Expr} (hentries : Expr.avoidsEntries op entries = true)
    (hexpr : expr.avoids op = true) :
    Expr.avoidsEntries op (Members.emplace entries key expr) = true := by
  rw [Expr.avoidsEntries_iff] at hentries ⊢
  intro entry hentry
  rw [Members.emplace] at hentry
  split at hentry
  · exact hentries entry hentry
  · rw [List.mem_append, List.mem_singleton] at hentry
    cases hentry with
    | inl hold => exact hentries entry hold
    | inr hnew =>
        rw [hnew]
        exact hexpr

theorem Reduction.avoids {op : BinaryOp} {runtime : Runtime} {stack after : Stack}
    (hreduction : Reduction runtime stack after)
    (hstack : ∀ entry ∈ stack, Entry.avoids op entry = true) :
    ∀ entry ∈ after, Entry.avoids op entry = true := by
  cases hreduction with
  | dictExpr entries below =>
      rw [List.forall_mem_cons] at hstack ⊢
      refine ⟨?_, hstack.2⟩
      have hentries := Expr.avoidsEntries_iff.mp hstack.1
      apply Expr.avoidsEntries_iff.mpr
      intro entry hentry
      exact hentries entry ((runtime.order_perm entries).mem_iff.mp hentry)
  | nextEntry key expr entries below =>
      simp only [List.forall_mem_cons] at hstack ⊢
      exact ⟨avoidsEntries_emplace hstack.2.2.1 hstack.1, hstack.2.2.2⟩
  | _ =>
      simp_all [Entry.avoids, Expr.avoids, Expr.avoidsItems, Expr.avoidsEntries,
        Expr.avoidsNext, Expr.avoidsItems_append]

theorem shift_avoids {op : BinaryOp} {stack : Stack} {token : Token} {entry : Entry}
    (hshift : shift stack token = some entry) (htoken : token ≠ .mark op.mark) :
    Entry.avoids op entry = true := by
  have hsymbol := (shift_shifts hshift).symbol
  cases entry with
  | binary other =>
      cases token with
      | mark kind =>
          have hkind : other.mark = kind :=
            Terminal.mark.inj (Symbol.terminal.inj hsymbol)
          rw [Entry.avoids, bne_iff_ne]
          rintro rfl
          exact htoken (congrArg Token.mark hkind.symm)
      | identifier | string | integer | double =>
          cases Symbol.terminal.inj hsymbol
  | program | expr | boolean | array | fluentInterface | funcCall | exprList
  | dict | keyValueMap | keyValue => cases hsymbol
  | _ => rfl

theorem avoids_of_goesOn {op : BinaryOp} {runtime : Runtime} {state next : State}
    (hgoes : (turn runtime).GoesOn state next) (havoids : state.Avoids op) :
    next.Avoids op := by
  obtain ⟨hstack, hinput⟩ := havoids
  rcases goesOn_cases hgoes with
    ⟨hreduction, hsame⟩ | ⟨token, entry, hshift, htokens, hpushed⟩
  · exact ⟨hreduction.avoids hstack, hsame ▸ hinput⟩
  · rw [htokens, List.mem_cons, not_or] at hinput
    refine ⟨?_, hinput.2⟩
    rw [hpushed, List.forall_mem_cons]
    exact ⟨shift_avoids hshift (Ne.symm hinput.1), hstack⟩

/-- No rule makes an operator that is not among the tokens. -/
theorem avoids_of_accepted {op : BinaryOp} {runtime : Runtime}
    {tokens : List Token} {expr : Expr}
    (haccepted : parse runtime tokens = .accepted expr)
    (htokens : .mark op.mark ∉ tokens) : expr.avoids op = true := by
  obtain ⟨last, hreaches, hlast⟩ := parse_eq_iff.mp haccepted
  have hall : last.Avoids op := by
    clear hlast
    induction hreaches with
    | refl => exact ⟨by simp, htokens⟩
    | tail _ hstep ih => exact avoids_of_goesOn hstep ih
  rw [turn_accepted hlast] at hall
  exact hall.1 _ (.head _)

end Parser

end Uskit.Expression
