import Uskit.Expression.Token
import Uskit.Grammar.Scanner

namespace Uskit.Expression

open Uskit.Grammar

/-! The scanner of the expression language.  Texts are lists of characters, or
of bytes; no rule tells the characters beyond ASCII apart. -/

inductive Scanned where
  | token (made : Token)
  | space
  /-- A call of `Driver::error`, which logs its message. -/
  | error (message : String)
deriving DecidableEq, Repr

def Scanned.token? : Scanned → Option Token
  | .token made => some made
  | _ => none

namespace Lexer

def isLetter (char : Char) : Bool :=
  ('a' ≤ char && char ≤ 'z') || ('A' ≤ char && char ≤ 'Z') || char == '_'

def isDigit (char : Char) : Bool :=
  '0' ≤ char && char ≤ '9'

def isBlank (char : Char) : Bool :=
  char == '\t' || char == ' '

def quote : Char := '\x27'

def backslash : Char := '\x5c'

def anyChar : Regex Char :=
  .one (· != '\n')

def identifier : Regex Char :=
  .seq (.one isLetter) (.star (.one fun char => isLetter char || isDigit char))

/-- One character, or a backslash with the character after it. -/
def stringPart : Regex Char :=
  .alt (.seq (.one (· == backslash)) anyChar)
    (.one fun char => char != quote && char != backslash)

def string : Regex Char :=
  .seq (.one (· == quote)) (.seq (.star stringPart) (.one (· == quote)))

def integer : Regex Char :=
  .plus (.one isDigit)

def double : Regex Char :=
  .seq integer (.seq (.one (· == '.')) integer)

def yytext (text : List Char) : String :=
  cStr (String.ofList text)

def markRule (text : String) (mark : Mark) : Rule Char Scanned where
  pattern := .literal text.toList
  action _ := .token (.mark mark)

def textRule (pattern : Regex Char) (make : String → Token) :
    Rule Char Scanned where
  pattern := pattern
  action text := .token (make (yytext text))

def spaceRule (pattern : Regex Char) : Rule Char Scanned where
  pattern := pattern
  action _ := .space

def rules : List (Rule Char Scanned) :=
  [markRule "null" .null,
    markRule "true" .true,
    markRule "false" .false,
    textRule identifier .identifier,
    textRule string .string,
    textRule integer .integer,
    textRule double .double,
    markRule "(" .leftPar,
    markRule ")" .rightPar,
    markRule "[" .leftSquare,
    markRule "]" .rightSquare,
    markRule "\x7b" .leftBrace,
    markRule "\x7d" .rightBrace,
    markRule "==" .eq,
    markRule "!=" .ne,
    markRule ">=" .ge,
    markRule "<=" .le,
    markRule ">" .gt,
    markRule "<" .lt,
    markRule "&&" .and,
    -- the rule of the source makes the token of "|"
    markRule "||" .bitOr,
    markRule "&" .bitAnd,
    markRule "|" .bitOr,
    markRule "+" .plus,
    markRule "-" .minus,
    markRule "*" .mul,
    markRule "/" .div,
    markRule ":" .colon,
    markRule "," .comma,
    markRule "$" .dollar,
    markRule "!" .not,
    markRule "?" .question,
    markRule "." .dot,
    spaceRule (.one isBlank),
    spaceRule (.one (· == '\n')),
    { pattern := anyChar
      action := fun text => .error ("invalid character: " ++ yytext text) }]

def scan (text : List Char) : List Scanned :=
  Rule.scan rules text

/-- The tokens that the parser gets, one call of `get_next_token` each. -/
def tokens (text : List Char) : List Token :=
  (scan text).filterMap Scanned.token?

/-- The messages that are logged on the way. -/
def errors (text : List Char) : List String :=
  (scan text).filterMap fun
    | .error message => some message
    | _ => none

example : tokens "f('a b') || 2".toList =
    [.identifier "f", .mark .leftPar, .string "'a b'", .mark .rightPar,
      .mark .bitOr, .integer "2"] := by
  decide +kernel

end Lexer

end Uskit.Expression
