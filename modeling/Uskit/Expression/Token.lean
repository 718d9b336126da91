import Uskit.Expression.Expression

namespace Uskit.Expression

/-! The tokens of the expression language. -/

/-- The tokens without a value. -/
inductive Mark where
  | leftPar | rightPar | leftSquare | rightSquare | leftBrace | rightBrace
  | eq | ne | ge | le | gt | lt | and | or | bitAnd | bitOr
  | plus | minus | mul | div
  | colon | comma | dollar | not | question | dot
  | null | true | false
deriving DecidableEq, Repr

/-- A token with the text that it was made of. -/
inductive Token where
  | mark (kind : Mark)
  | identifier (text : String)
  | string (text : String)
  | integer (text : String)
  | double (text : String)
deriving DecidableEq, Repr

/-- The tokens as the grammar sees them. -/
inductive Terminal where
  | mark (kind : Mark)
  | identifier
  | string
  | integer
  | double
deriving DecidableEq, Repr

def Token.terminal : Token → Terminal
  | .mark kind => .mark kind
  | .identifier _ => .identifier
  | .string _ => .string
  | .integer _ => .integer
  | .double _ => .double

namespace Mark

def text : Mark → String
  | .leftPar => "("
  | .rightPar => ")"
  | .leftSquare => "["
  | .rightSquare => "]"
  | .leftBrace => "\x7b"
  | .rightBrace => "\x7d"
  | .eq => "=="
  | .ne => "!="
  | .ge => ">="
  | .le => "<="
  | .gt => ">"
  | .lt => "<"
  | .and => "&&"
  | .or => "||"
  | .bitAnd => "&"
  | .bitOr => "|"
  | .plus => "+"
  | .minus => "-"
  | .mul => "*"
  | .div => "/"
  | .colon => ":"
  | .comma => ","
  | .dollar => "$"
  | .not => "!"
  | .question => "?"
  | .dot => "."
  | .null => "null"
  | .true => "true"
  | .false => "false"

end Mark

end Uskit.Expression
