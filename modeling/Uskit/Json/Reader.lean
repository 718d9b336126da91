import Uskit.Grammar.Prefix
import Uskit.Json.Value

namespace Uskit

open Uskit.Grammar

/-! `GenericReader::Parse` of the vendored library with its default flags.  The
stream of a text ends at the NUL, which is the end of the list here. -/

namespace Json.Reader

def isWhitespace (c : Char) : Bool :=
  c == ' ' || c == '\n' || c == '\r' || c == '\t'

def skipWhitespace (text : List Char) : List Char :=
  text.dropWhile isWhitespace

/-- `Consume`, of one character after the other. -/
def consume : (expected : List Char) → List Char → Option (List Char)
  | [], text => some text
  | expect :: others, c :: rest => if c = expect then consume others rest else none
  | _ :: _, [] => none

/-! Strings. -/

def hexValue (c : Char) : Option Nat :=
  if '0' ≤ c ∧ c ≤ '9' then some (c.toNat - '0'.toNat)
  else if 'A' ≤ c ∧ c ≤ 'F' then some (c.toNat - 'A'.toNat + 10)
  else if 'a' ≤ c ∧ c ≤ 'f' then some (c.toNat - 'a'.toNat + 10)
  else none

def parseHex4 (a b c d : Char) : Option Nat := do
  let first ← hexValue a
  let second ← hexValue b
  let third ← hexValue c
  let fourth ← hexValue d
  some (((first * 16 + second) * 16 + third) * 16 + fourth)

/-- The table `escape`. -/
def escape : Char → Option Char
  | '"' => some '"'
  | '/' => some '/'
  | '\\' => some '\\'
  | 'b' => some '\x08'
  | 'f' => some '\x0c'
  | 'n' => some '\n'
  | 'r' => some '\r'
  | 't' => some '\t'
  | _ => none

/-- `UTF8::Encode`. -/
def encodeUtf8 (codepoint : Nat) : List Char :=
  if codepoint ≤ 0x7f then [Char.ofNat codepoint]
  else if codepoint ≤ 0x7ff then
    [Char.ofNat (0xc0 + codepoint / 2 ^ 6), Char.ofNat (0x80 + codepoint % 2 ^ 6)]
  else if codepoint ≤ 0xffff then
    [Char.ofNat (0xe0 + codepoint / 2 ^ 12),
      Char.ofNat (0x80 + codepoint / 2 ^ 6 % 2 ^ 6),
      Char.ofNat (0x80 + codepoint % 2 ^ 6)]
  else
    [Char.ofNat (0xf0 + codepoint / 2 ^ 18),
      Char.ofNat (0x80 + codepoint / 2 ^ 12 % 2 ^ 6),
      Char.ofNat (0x80 + codepoint / 2 ^ 6 % 2 ^ 6),
      Char.ofNat (0x80 + codepoint % 2 ^ 6)]

def isHighSurrogate (codepoint : Nat) : Bool :=
  decide (0xd800 ≤ codepoint ∧ codepoint ≤ 0xdbff)

/-- The code point of a surrogate pair. -/
def joinSurrogates (codepoint codepoint2 : Nat) : Option Nat :=
  if codepoint2 < 0xdc00 ∨ 0xdfff < codepoint2 then none
  else some ((codepoint - 0xd800) * 2 ^ 10 + (codepoint2 - 0xdc00) + 0x10000)

/-- The loop of `ParseStringToStream`, behind the opening quotation mark.  The bytes
of a string are not validated. -/
def parseStringToStream : Reader Char (List Char)
  | [] => none
  | '"' :: rest => some ([], rest)
  | '\\' :: 'u' :: a :: b :: c :: d :: rest => do
      let codepoint ← parseHex4 a b c d
      if isHighSurrogate codepoint then
        match rest with
        | '\\' :: 'u' :: e :: f :: g :: h :: rest => do
            let codepoint2 ← parseHex4 e f g h
            let joined ← joinSurrogates codepoint codepoint2
            let (bytes, rest) ← parseStringToStream rest
            some (encodeUtf8 joined ++ bytes, rest)
        | _ => none
      else do
        let (bytes, rest) ← parseStringToStream rest
        some (encodeUtf8 codepoint ++ bytes, rest)
  | '\\' :: e :: rest => do
      let c ← escape e
      let (bytes, rest) ← parseStringToStream rest
      some (c :: bytes, rest)
  | c :: rest =>
      if c.toNat < 0x20 then none
      else do
        let (bytes, rest) ← parseStringToStream rest
        some (c :: bytes, rest)

/-! Numbers: `ParseNumber`, one loop after the other. -/

def isDigit (c : Char) : Bool :=
  '0' ≤ c && c ≤ '9'

def digit (c : Char) : Nat :=
  c.toNat - '0'.toNat

/-- The integer part as far as it is read. -/
structure IntPart where
  i : Nat
  significandDigit : Nat := 0
  /-- The next digit does not fit. -/
  overflow : Bool := false
deriving DecidableEq

/-- A loop that stops before the integer could leave its type. -/
def takeInt (limit : Nat) (last : Char) (part : IntPart) :
    List Char → IntPart × List Char
  | [] => (part, [])
  | c :: rest =>
      if !isDigit c then (part, c :: rest)
      else if limit ≤ part.i ∧ (part.i ≠ limit ∨ last < c) then
        ({ part with overflow := true }, c :: rest)
      else
        takeInt limit last
          { part with
            i := part.i * 10 + digit c
            significandDigit := part.significandDigit + 1 } rest

/-- The loop for 32 bits, and the one for 64 bits. -/
def parseInt (minus : Bool) : Reader Char IntPart
  | [] => none
  | c :: rest =>
      if c = '0' then some ({ i := 0 }, rest)
      else if isDigit c then
        let last := if minus then '8' else '5'
        let (part, rest) := takeInt (if minus then 214748364 else 429496729) last
          { i := digit c } rest
        if part.overflow then
          some (takeInt (if minus then 0x0ccccccccccccccc else 0x1999999999999999) last
            { part with overflow := false } rest)
        else some (part, rest)
      else none

/-- The variables of a number that is read as a double. -/
structure Decimal where
  d : Double
  expFrac : Int := 0
  significandDigit : Nat
deriving DecidableEq

inductive Magnitude where
  | int (i significandDigit : Nat)
  /-- `useDouble`. -/
  | decimal (value : Decimal)
deriving DecidableEq

def Magnitude.toDecimal : Magnitude → Decimal
  | .int i significandDigit =>
      { d := Double.ofInt i, significandDigit := significandDigit }
  | .decimal value => value

def shiftDigit (d : Double) (c : Char) : Double :=
  (d.mul (Double.ofInt 10)).add (Double.ofInt (digit c))

/-- The largest double, divided by ten. -/
def maxOverTen : Double :=
  Double.ofRat (17976931348623157 * 10 ^ 291) false

/-- "Force double for big integer". -/
def takeBigInt (d : Double) : Reader Char Double
  | [] => some (d, [])
  | c :: rest =>
      if !isDigit c then some (d, c :: rest)
      else if maxOverTen.le d then none
      else takeBigInt (shiftDigit d c) rest

def parseMagnitude (minus : Bool) : Reader Char Magnitude := fun text => do
  let (part, rest) ← parseInt minus text
  if part.overflow then do
    let (d, rest) ← takeBigInt (Double.ofInt part.i) rest
    some (.decimal { d := d, significandDigit := part.significandDigit }, rest)
  else some (.int part.i part.significandDigit, rest)

/-- The digits of a fraction that still go into the integer `i64`. -/
structure Fraction where
  i : Nat
  expFrac : Int := 0
  significandDigit : Nat
deriving DecidableEq

def takeFraction (fraction : Fraction) : List Char → Fraction × List Char
  | [] => (fraction, [])
  | c :: rest =>
      if !isDigit c || decide (2 ^ 53 - 1 < fraction.i) then (fraction, c :: rest)
      else
        let i := fraction.i * 10 + digit c
        takeFraction
          { i := i
            expFrac := fraction.expFrac - 1
            significandDigit := fraction.significandDigit + if i ≠ 0 then 1 else 0 } rest

/-- The other digits, of which only 17 are significant. -/
def takeDecimals (value : Decimal) : List Char → Decimal × List Char
  | [] => (value, [])
  | c :: rest =>
      if !isDigit c then (value, c :: rest)
      else if value.significandDigit < 17 then
        let d := shiftDigit value.d c
        takeDecimals
          { d := d
            expFrac := value.expFrac - 1
            significandDigit :=
              value.significandDigit + if (Double.zero false).lt d then 1 else 0 } rest
      else takeDecimals value rest

def startFraction : Magnitude → List Char → Decimal × List Char
  | .int i significandDigit, text =>
      let (fraction, rest) :=
        takeFraction { i := i, significandDigit := significandDigit } text
      ({ d := Double.ofInt fraction.i
         expFrac := fraction.expFrac
         significandDigit := fraction.significandDigit }, rest)
  | .decimal value, text => (value, text)

def parseDecimals (magnitude : Magnitude) : Reader Char Magnitude
  | [] => none
  | c :: rest =>
      if isDigit c then
        let (value, rest) := startFraction magnitude (c :: rest)
        let (value, rest) := takeDecimals value rest
        some (.decimal value, rest)
      else none

def parseFraction (magnitude : Magnitude) : Reader Char Magnitude
  | '.' :: rest => parseDecimals magnitude rest
  | text => some (magnitude, text)

def takeNegativeExp (exp : Nat) : List Char → Nat × List Char
  | [] => (exp, [])
  | c :: rest =>
      if !isDigit c then (exp, c :: rest)
      else if 214748364 ≤ exp * 10 + digit c then
        (exp * 10 + digit c, rest.dropWhile isDigit)
      else takeNegativeExp (exp * 10 + digit c) rest

def takePositiveExp (maxExp : Int) (exp : Nat) : Reader Char Nat
  | [] => some (exp, [])
  | c :: rest =>
      if !isDigit c then some (exp, c :: rest)
      else if maxExp < (exp * 10 + digit c : Nat) then none
      else takePositiveExp maxExp (exp * 10 + digit c) rest

def takeExp (expFrac : Int) (minus : Bool) : Reader Char Int
  | [] => none
  | c :: rest =>
      if !isDigit c then none
      else if minus then
        let (exp, rest) := takeNegativeExp (digit c) rest
        some (-(exp : Int), rest)
      else do
        let (exp, rest) ← takePositiveExp (308 - expFrac) (digit c) rest
        some ((exp : Int), rest)

def isExponentSign (c : Char) : Bool :=
  c == 'e' || c == 'E'

/-- The exponent after its letter. -/
def parseSignedExp (expFrac : Int) : Reader Char Int
  | '+' :: rest => takeExp expFrac false rest
  | '-' :: rest => takeExp expFrac true rest
  | rest => takeExp expFrac false rest

def parseExponent (magnitude : Magnitude) : Reader Char (Magnitude × Int)
  | [] => some ((magnitude, 0), [])
  | c :: rest =>
      if isExponentSign c then do
        let (exp, rest) ← parseSignedExp magnitude.toDecimal.expFrac rest
        some ((.decimal magnitude.toDecimal, exp), rest)
      else some ((magnitude, 0), c :: rest)

/-- The table `Pow10`. -/
def pow10 (n : Nat) : Double :=
  Double.ofRat (10 ^ n) false

def fastPath (significand : Double) (exp : Int) : Double :=
  if exp < -308 then Double.zero false
  else if 0 ≤ exp then significand.mul (pow10 exp.toNat)
  else significand.div (pow10 (-exp).toNat)

def strtodNormalPrecision (d : Double) (p : Int) : Double :=
  if p < -308 then fastPath (fastPath d (-308)) (p + 308)
  else fastPath d p

def toNumber (minus : Bool) : Magnitude × Int → Number
  | (.int i _, _) => .int (if minus then -(i : Int) else i)
  | (.decimal value, exp) =>
      let d := strtodNormalPrecision value.d (exp + value.expFrac)
      .double (if minus then d.neg else d)

def parseUnsigned (minus : Bool) : Reader Char Number := fun text => do
  let (magnitude, rest) ← parseMagnitude minus text
  let (magnitude, rest) ← parseFraction magnitude rest
  let (value, rest) ← parseExponent magnitude rest
  some (toNumber minus value, rest)

def parseNumber : Reader Char Number
  | '-' :: rest => parseUnsigned true rest
  | text => parseUnsigned false text

/-! Values.  The recursion is bounded by twice the length of the text. -/

mutual
def parseValue : (bound : Nat) → Reader Char Json
  | 0, _ => none
  | _ + 1, 'n' :: rest => do
      let rest ← consume ['u', 'l', 'l'] rest
      some (.null, rest)
  | _ + 1, 't' :: rest => do
      let rest ← consume ['r', 'u', 'e'] rest
      some (.bool true, rest)
  | _ + 1, 'f' :: rest => do
      let rest ← consume ['a', 'l', 's', 'e'] rest
      some (.bool false, rest)
  | _ + 1, '"' :: rest => do
      let (bytes, rest) ← parseStringToStream rest
      some (.string (.ofList bytes), rest)
  | bound + 1, '\x7b' :: rest =>
      match skipWhitespace rest with
      | '\x7d' :: rest => some (.object [], rest)
      | rest => do
          let (members, rest) ← parseMembers bound rest
          some (.object members, rest)
  | bound + 1, '[' :: rest =>
      match skipWhitespace rest with
      | ']' :: rest => some (.array [], rest)
      | rest => do
          let (elements, rest) ← parseElements bound rest
          some (.array elements, rest)
  | _ + 1, text => do
      let (value, rest) ← parseNumber text
      some (.number value, rest)

/-- The loop of `ParseArray`. -/
def parseElements : (bound : Nat) → Reader Char (List Json)
  | 0, _ => none
  | bound + 1, text => do
      let (value, rest) ← parseValue bound text
      match skipWhitespace rest with
      | ',' :: rest => do
          let (others, rest) ← parseElements bound (skipWhitespace rest)
          some (value :: others, rest)
      | ']' :: rest => some ([value], rest)
      | _ => none

/-- The loop of `ParseObject`. -/
def parseMembers : (bound : Nat) → Reader Char (List (String × Json))
  | 0, _ => none
  | bound + 1, '"' :: rest => do
      let (name, rest) ← parseStringToStream rest
      match skipWhitespace rest with
      | ':' :: rest => do
          let (value, rest) ← parseValue bound (skipWhitespace rest)
          match skipWhitespace rest with
          | ',' :: rest => do
              let (others, rest) ← parseMembers bound (skipWhitespace rest)
              some ((.ofList name, value) :: others, rest)
          | '\x7d' :: rest => some ([(.ofList name, value)], rest)
          | _ => none
      | _ => none
  | _ + 1, _ => none
end

/-- `Parse` of a document. -/
def parse (text : List Char) : Option Json :=
  match skipWhitespace text with
  | [] => none
  | rest => do
      let (value, rest) ← parseValue (2 * text.length + 1) rest
      if skipWhitespace rest = [] then some value else none

end Json.Reader

/-- `Document::Parse` of a string. -/
def parseJson (text : String) : Option Json :=
  Json.Reader.parse (cStr text).toList

end Uskit
