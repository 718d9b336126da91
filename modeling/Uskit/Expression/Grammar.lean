import Uskit.Expression.Token
import Uskit.Grammar.Derivation

namespace Uskit.Expression

/-! The grammar of expressions: its rules, and the declared precedences. -/

inductive Nonterminal where
  | program
  | expr
  | boolean
  | array
  | fluentInterface
  | funcCall
  | exprList
  | dict
  | keyValueMap
  | keyValue
deriving DecidableEq, Repr

namespace Grammar

abbrev Sym := Symbol Terminal Nonterminal

abbrev Production := ContextFreeRule Terminal Nonterminal

def mark (kind : Mark) : Sym := .terminal (.mark kind)

def identifier : Sym := .terminal .identifier

def string : Sym := .terminal .string

def integer : Sym := .terminal .integer

def double : Sym := .terminal .double

def sym (nonterminal : Nonterminal) : Sym := .nonterminal nonterminal

def binary (operator : Mark) : Production :=
  ⟨.expr, [sym .expr, mark operator, sym .expr]⟩

def productions : List Production :=
  [⟨.program, [sym .expr]⟩,
    binary .plus,
    binary .minus,
    binary .mul,
    binary .div,
    binary .bitAnd,
    binary .bitOr,
    binary .and,
    binary .or,
    binary .eq,
    binary .ne,
    binary .gt,
    binary .lt,
    binary .ge,
    binary .le,
    ⟨.expr, [sym .expr, mark .question, sym .expr, mark .colon, sym .expr]⟩,
    ⟨.expr, [mark .leftPar, sym .expr, mark .rightPar]⟩,
    ⟨.expr, [mark .not, sym .expr]⟩,
    ⟨.expr, [mark .dollar, identifier]⟩,
    ⟨.expr, [mark .null]⟩,
    ⟨.expr, [integer]⟩,
    ⟨.expr, [mark .minus, integer]⟩,
    ⟨.expr, [double]⟩,
    ⟨.expr, [mark .minus, double]⟩,
    ⟨.expr, [string]⟩,
    ⟨.expr, [sym .boolean]⟩,
    ⟨.expr, [sym .dict]⟩,
    ⟨.expr, [sym .array]⟩,
    ⟨.expr, [sym .fluentInterface]⟩,
    ⟨.boolean, [mark .true]⟩,
    ⟨.boolean, [mark .false]⟩,
    ⟨.array, [mark .leftSquare, sym .exprList, mark .rightSquare]⟩,
    ⟨.fluentInterface, [sym .funcCall]⟩,
    ⟨.fluentInterface, [sym .fluentInterface, mark .dot, sym .funcCall]⟩,
    ⟨.funcCall,
      [identifier, mark .leftPar, sym .exprList, mark .rightPar]⟩,
    ⟨.exprList, []⟩,
    ⟨.exprList, [sym .expr]⟩,
    ⟨.exprList, [sym .exprList, mark .comma, sym .expr]⟩,
    ⟨.dict, [mark .leftBrace, sym .keyValueMap, mark .rightBrace]⟩,
    ⟨.keyValueMap, []⟩,
    ⟨.keyValueMap, [sym .keyValue]⟩,
    ⟨.keyValueMap, [sym .keyValueMap, mark .comma, sym .keyValue]⟩,
    ⟨.keyValue, [string, mark .colon, sym .expr]⟩]

end Grammar

def grammar : ContextFreeGrammar Terminal where
  NT := Nonterminal
  initial := .program
  rules := Grammar.productions.toFinset

/-! Conflicts between a shift and a reduction are resolved by precedences. -/

inductive Associativity where
  | left
  | right
deriving DecidableEq, Repr

/-- The declarations, from the loosest one on.  The rule of a number with a sign
has the precedence of the last. -/
def precedences : List (Associativity × List Mark) :=
  [(.right, [.question]),
    (.left, [.bitOr]),
    (.left, [.bitAnd]),
    (.left, [.or]),
    (.left, [.and]),
    (.left, [.eq, .ne]),
    (.left, [.gt, .lt, .ge, .le]),
    (.left, [.plus, .minus]),
    (.left, [.mul, .div]),
    (.right, [.not])]

namespace Mark

def precedence (kind : Mark) : Nat :=
  precedences.findIdx fun declaration => kind ∈ declaration.2

def associativity (kind : Mark) : Option Associativity :=
  (precedences.find? fun declaration => kind ∈ declaration.2).map Prod.fst

/-- A rule is reduced rather than the token shifted: it binds tighter, or as
tight and to the left. -/
def reducesOver (rule lookahead : Mark) : Bool :=
  lookahead.precedence < rule.precedence ||
    (lookahead.precedence == rule.precedence &&
      rule.associativity == some .left)

/-- The operator of a token between two expressions. -/
def binaryOp : Mark → Option BinaryOp
  | .plus => some .add
  | .minus => some .sub
  | .mul => some .mul
  | .div => some .div
  | .bitAnd => some .bitAnd
  | .bitOr => some .bitOr
  | .and => some .logicalAnd
  | .or => some .logicalOr
  | .eq => some .equal
  | .ne => some .notEqual
  | .gt => some .greater
  | .lt => some .less
  | .ge => some .greaterEq
  | .le => some .lessEq
  | _ => none

end Mark

end Uskit.Expression

namespace Uskit.BinaryOp

open Uskit.Expression

def mark : BinaryOp → Mark
  | .add => .plus
  | .sub => .minus
  | .mul => .mul
  | .div => .div
  | .greater => .gt
  | .less => .lt
  | .greaterEq => .ge
  | .lessEq => .le
  | .logicalOr => .or
  | .logicalAnd => .and
  | .bitOr => .bitOr
  | .bitAnd => .bitAnd
  | .equal => .eq
  | .notEqual => .ne

@[simp] theorem binaryOp_mark (op : BinaryOp) : op.mark.binaryOp = some op := by
  cases op <;> rfl

theorem mark_of_binaryOp {kind : Mark} {op : BinaryOp}
    (hop : kind.binaryOp = some op) : kind = op.mark := by
  cases kind <;> cases hop <;> rfl

end Uskit.BinaryOp
