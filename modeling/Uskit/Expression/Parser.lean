import Uskit.Expression.Grammar
import Uskit.Data.Loop

namespace Uskit.Expression

open Uskit.Data

/-! The parser that bison makes of the grammar: a stack of states with their
values, and one token of lookahead. -/

/-- What the actions use of the standard library: `std::stod`, which throws out
of range, and the order in which a table lists what was inserted. -/
structure Runtime where
  stod : String → Option Double
  order : List (String × Expr) → List (String × Expr)
  order_perm : ∀ entries, (order entries).Perm entries

/-- No double is read, and a table lists what was inserted in that order. -/
def Runtime.plain : Runtime where
  stod _ := none
  order entries := entries
  order_perm entries := .refl entries

/-- A state on the stack: the symbol that led to it, with its value.  Tokens that
mean different things at different places lead to different states. -/
inductive Entry where
  | group
  | arguments
  | square
  | brace
  | binary (op : BinaryOp)
  | question
  | colon
  | keyColon
  | comma
  | keyComma
  | not
  | minus
  | dollar
  | dot
  | name (text : String)
  | variable (text : String)
  | key (text : String)
  | literal (token : Token)
  | close (kind : Mark)
  | program (expr : Expr)
  | expr (expr : Expr)
  | boolean (value : Bool)
  | array (items : List Expr)
  | fluentInterface (funcName : String) (args : List Expr)
      (next : List (String × List Expr))
  | funcCall (funcName : String) (args : List Expr)
  | exprList (items : List Expr)
  | dict (entries : List (String × Expr))
  | keyValueMap (entries : List (String × Expr))
  | keyValue (key : String) (expr : Expr)

/-- The top comes first. -/
abbrev Stack := List Entry

inductive ParseResult where
  | accepted (expr : Expr)
  | rejected
  /-- `std::out_of_range`, from a numeral. -/
  | thrown

namespace Parser

def digitsValue (digits : List Char) : Nat :=
  digits.foldl (fun value digit => 10 * value + (digit.toNat - '0'.toNat)) 0

/-- `std::stoi` of digits. -/
def stoi (text : String) : Option Int :=
  let value := digitsValue text.toList
  if value < 2 ^ 31 then some value else none

/-- `text.substr(1, text.length() - 2)`. -/
def unquote (text : String) : String :=
  String.ofList ((text.toList.drop 1).take (text.toList.length - 2))

/-! Shifts. -/

def beforeExpr : Stack → Bool
  | [] => true
  | .group :: _ | .arguments :: _ | .square :: _ | .binary _ :: _
  | .question :: _ | .colon :: _ | .keyColon :: _ | .comma :: _ | .not :: _ => true
  | _ => false

def shiftOperand : Token → Option Entry
  | .mark .leftPar => some .group
  | .mark .leftSquare => some .square
  | .mark .leftBrace => some .brace
  | .mark .not => some .not
  | .mark .minus => some .minus
  | .mark .dollar => some .dollar
  | .mark .null => some (.literal (.mark .null))
  | .mark .true => some (.literal (.mark .true))
  | .mark .false => some (.literal (.mark .false))
  | .identifier text => some (.name text)
  | .string text => some (.literal (.string text))
  | .integer text => some (.literal (.integer text))
  | .double text => some (.literal (.double text))
  | _ => none

/-- The token that follows an expression, which stands above the given states. -/
def shiftAfterExpr (below : Stack) (token : Token) : Option Entry :=
  match token with
  | .mark .question => some .question
  | .mark kind =>
      match kind.binaryOp with
      | some op => some (.binary op)
      | none =>
          match kind, below with
          | .rightPar, .group :: _ => some (.close .rightPar)
          | .colon, .question :: _ => some .colon
          | _, _ => none
  | _ => none

def shiftInList (below : Stack) (token : Token) : Option Entry :=
  match token, below with
  | .mark .comma, _ => some .comma
  | .mark .rightPar, .arguments :: _ => some (.close .rightPar)
  | .mark .rightSquare, .square :: _ => some (.close .rightSquare)
  | _, _ => none

def shift (stack : Stack) (token : Token) : Option Entry :=
  if beforeExpr stack then shiftOperand token
  else
    match stack with
    | .minus :: _ =>
        match token with
        | .integer text => some (.literal (.integer text))
        | .double text => some (.literal (.double text))
        | _ => none
    | .dollar :: _ =>
        match token with
        | .identifier text => some (.variable text)
        | _ => none
    | .name _ :: _ =>
        match token with
        | .mark .leftPar => some .arguments
        | _ => none
    | .dot :: _ =>
        match token with
        | .identifier text => some (.name text)
        | _ => none
    | .brace :: _ | .keyComma :: _ =>
        match token with
        | .string text => some (.key text)
        | _ => none
    | .key _ :: _ =>
        match token with
        | .mark .colon => some .keyColon
        | _ => none
    | .expr _ :: below => shiftAfterExpr below token
    | .fluentInterface _ _ _ :: _ =>
        match token with
        | .mark .dot => some .dot
        | _ => none
    | .exprList _ :: below => shiftInList below token
    | .keyValueMap _ :: _ =>
        match token with
        | .mark .comma => some .keyComma
        | .mark .rightBrace => some (.close .rightBrace)
        | _ => none
    | _ => none

/-! Reductions. -/

inductive Reduced where
  | none
  | to (stack : Stack)
  | thrown

def Reduced.ofValue (make : α → Expr) (value : Option α) (below : Stack) :
    Reduced :=
  match value with
  | some value => .to (.expr (make value) :: below)
  | Option.none => .thrown

/-- The lookahead is an operator, and can be shifted after any expression. -/
def continues : Option Token → Bool
  | some (.mark kind) => kind == .question || kind.binaryOp.isSome
  | _ => false

/-- The conflict of a rule with the token of an operator. -/
def shiftsOver (rule : Mark) : Option Token → Bool
  | some (.mark kind) =>
      continues (some (.mark kind)) && !rule.reducesOver kind
  | _ => false

def reduceLiteral (runtime : Runtime) : Token → Stack → Reduced
  | .mark .null, below => .to (.expr .null :: below)
  | .mark .true, below => .to (.boolean true :: below)
  | .mark .false, below => .to (.boolean false :: below)
  | .integer text, .minus :: below =>
      .ofValue (fun value => .integer (-value)) (stoi text) below
  | .integer text, below => .ofValue .integer (stoi text) below
  | .double text, .minus :: below =>
      .ofValue (fun value => .double value.neg) (runtime.stod text) below
  | .double text, below => .ofValue .double (runtime.stod text) below
  | .string text, below => .to (.expr (.string (unquote text)) :: below)
  | _, _ => .none

def reduceExpr (lookahead : Option Token) (expr : Expr) : Stack → Reduced
  | .binary op :: .expr lhs :: below =>
      if shiftsOver op.mark lookahead then .none
      else .to (.expr (.binary op lhs expr) :: below)
  | .colon :: .expr lhs :: .question :: .expr cond :: below =>
      if shiftsOver .question lookahead then .none
      else .to (.expr (.ternary cond lhs expr) :: below)
  | .not :: below =>
      if shiftsOver .not lookahead then .none
      else .to (.expr (.not expr) :: below)
  | .keyColon :: .key text :: below =>
      if continues lookahead then .none
      else .to (.keyValue (unquote text) expr :: below)
  | .arguments :: below =>
      if continues lookahead then .none
      else .to (.exprList [expr] :: .arguments :: below)
  | .square :: below =>
      if continues lookahead then .none
      else .to (.exprList [expr] :: .square :: below)
  | .comma :: .exprList items :: below =>
      if continues lookahead then .none
      else .to (.exprList (items ++ [expr]) :: below)
  | [] => if continues lookahead then .none else .to [.program expr]
  | _ => .none

def reduceClose : Mark → Stack → Reduced
  | .rightPar, .expr expr :: .group :: below => .to (.expr expr :: below)
  | .rightPar, .exprList args :: .arguments :: .name funcName :: below =>
      .to (.funcCall funcName args :: below)
  | .rightSquare, .exprList items :: .square :: below =>
      .to (.array items :: below)
  | .rightBrace, .keyValueMap entries :: .brace :: below =>
      .to (.dict entries :: below)
  | _, _ => .none

/-- The empty list, unless an expression begins. -/
def reduceEmptyList (lookahead : Option Token) (stack : Stack) : Reduced :=
  match lookahead.bind shiftOperand with
  | some _ => .none
  | none => .to (.exprList [] :: stack)

def reduceEmptyMap (lookahead : Option Token) (stack : Stack) : Reduced :=
  match lookahead with
  | some (.string _) => .none
  | _ => .to (.keyValueMap [] :: stack)

def reduce (runtime : Runtime) (lookahead : Option Token) : Stack → Reduced
  | .literal token :: below => reduceLiteral runtime token below
  | .variable text :: .dollar :: below => .to (.expr (.variable text) :: below)
  | .close kind :: below => reduceClose kind below
  | .expr expr :: below => reduceExpr lookahead expr below
  | .boolean value :: below => .to (.expr (.boolean value) :: below)
  | .array items :: below => .to (.expr (.array items) :: below)
  | .dict entries :: below => .to (.expr (.dict (runtime.order entries)) :: below)
  -- `set_next` on the first call replaces the link that it had
  | .funcCall funcName args :: .dot :: .fluentInterface first firstArgs _ :: below =>
      .to (.fluentInterface first firstArgs [(funcName, args)] :: below)
  | .funcCall funcName args :: below =>
      .to (.fluentInterface funcName args [] :: below)
  | .fluentInterface funcName args next :: below =>
      if lookahead = some (.mark .dot) then .none
      else .to (.expr (.call funcName args next) :: below)
  | .arguments :: below => reduceEmptyList lookahead (.arguments :: below)
  | .square :: below => reduceEmptyList lookahead (.square :: below)
  | .brace :: below => reduceEmptyMap lookahead (.brace :: below)
  | .keyValue key expr :: .brace :: below =>
      .to (.keyValueMap [(key, expr)] :: .brace :: below)
  | .keyValue key expr :: .keyComma :: .keyValueMap entries :: below =>
      .to (.keyValueMap (Members.emplace entries key expr) :: below)
  | _ => .none

/-! The run. -/

structure State where
  stack : Stack
  input : List Token

def turn (runtime : Runtime) : Loop State ParseResult
  | ⟨stack, input⟩ =>
      match reduce runtime input.head? stack with
      | .to reduced => .inl ⟨reduced, input⟩
      | .thrown => .inr .thrown
      | .none =>
          match input with
          | [] =>
              match stack with
              | [.program expr] => .inr (.accepted expr)
              | _ => .inr .rejected
          | token :: rest =>
              match shift stack token with
              | some entry => .inl ⟨entry :: stack, rest⟩
              | none => .inr .rejected

def Entry.weight : Entry → Nat
  | .literal _ | .close _ => 6
  | .boolean _ | .array _ | .dict _ | .funcCall _ _ => 5
  | .variable _ | .fluentInterface _ _ _ => 4
  | .expr _ => 3
  | .keyValue _ _ => 2
  | .exprList _ | .keyValueMap _ | .program _ | .not => 1
  | _ => 0

/-- An open list is still reduced to a list. -/
def opening : Stack → Nat
  | .arguments :: _ | .square :: _ | .brace :: _ => 2
  | _ => 0

def stackWeight : Stack → Nat
  | [] => 0
  | entry :: below => Entry.weight entry + stackWeight below

/-- Lowered by every turn. -/
def State.measure (state : State) : Nat :=
  8 * state.input.length + stackWeight state.stack + opening state.stack

/-- `Parser::parse`: 0 for acceptance. -/
def parse (runtime : Runtime) (tokens : List Token) : ParseResult :=
  let start : State := ⟨[], tokens⟩
  ((turn runtime).run (start.measure + 1) start).getD .rejected

end Parser

end Uskit.Expression
