import Uskit.Data.Trim
import Uskit.Function.Access

namespace Uskit.Function

open Uskit.Data

/-! Strings as the functions use them: `std::string`, a few helpers on strings, and
what is outside the modelled sources.  Texts are bytes, one character each. -/

/-- `npos`, the largest `size_t`. -/
def npos : Nat :=
  2 ^ 64 - 1

/-- The conversion of an `int` to `size_t`. -/
def asSize (value : Int) : Nat :=
  (value % 2 ^ 64).toNat

def occursAt (text target : String) (index : Nat) : Bool :=
  target.toList.isPrefixOf (text.toList.drop index)

/-- The first occurrence that begins at `pos` or later. -/
def find (text target : String) (pos : Nat) : Option Nat :=
  (List.range (text.toList.length + 1)).find? fun index =>
    decide (pos ≤ index) && occursAt text target index

/-- The last occurrence that begins at `pos` or earlier. -/
def rfind (text target : String) (pos : Nat) : Option Nat :=
  (List.range (text.toList.length + 1)).reverse.find? fun index =>
    decide (index ≤ pos) && occursAt text target index

/-- A position behind the end throws an exception, which nothing catches. -/
def substr (text : String) (pos count : Nat) : Call String :=
  if text.toList.length < pos then .undefined
  else .ok (.ofList ((text.toList.drop pos).take count))

def isSpace (char : Char) : Bool :=
  char == ' ' || ('\t' ≤ char && char ≤ '\r')

/-- `std::stoi`: none for an invalid argument and for a number out of range. -/
def stoi (text : String) : Option Int :=
  let (sign, digits) : Int × List Char :=
    match text.toList.dropWhile isSpace with
    | '-' :: rest => (-1, rest)
    | '+' :: rest => (1, rest)
    | rest => (1, rest)
  let digits := digits.takeWhile Char.isDigit
  let value := sign * digits.foldl
    (fun value digit => 10 * value + (digit.toNat - '0'.toNat : Nat)) 0
  if digits.isEmpty || !fitsInt value then none else some value

/-- What is documented of `TrimString` of butil: the characters are removed from both
ends. -/
def TrimsEnds (trimString : String → String → String) : Prop :=
  ∀ input trimChars, (trimString input trimChars).toList =
    trimEnds trimChars.toList input.toList

def trimBoth (input trimChars : String) : String :=
  .ofList (trimEnds trimChars.toList input.toList)

theorem trimBoth_trimsEnds : TrimsEnds trimBoth :=
  fun _ _ => String.toList_ofList

/-- `reverse_index` of the utilities. -/
def reverseIndex (rIndex size : Int) : Call Int :=
  let index := if rIndex < 0 then rIndex + size else rIndex
  if !fitsInt index then .undefined
  else
    let index := if index < 0 then 0 else index
    .ok (if size < index then size else index)

inductive Digest where
  | md5 | sha1
deriving DecidableEq, Repr

/-- What the functions use from outside the modelled sources: the JSON parser, the
printing of doubles, OpenSSL, curl, butil, the clock and random bytes. -/
structure Host where
  dtoa : Double → String
  parseJson : String → Option Json
  evpDigest : Digest → (data : String) → String
  hmacSha1 : (key data : String) → String
  base64Encode : String → String
  /-- None if curl has no memory. -/
  curlEscape : String → Option String
  splitStringUsingSubstr : (text delimiter : String) → List String
  trimString : (input trimChars : String) → String
  fastRandBytes : (length : Nat) → String
  time : Int
  /-- None if the text does not fit into the buffer, which is not initialized. -/
  strftime : (format : String) → Option String

namespace Host

def jsonEncode (host : Host) (value : Json) : String :=
  value.encode host.dtoa

/-- The content of a string, and the JSON text of another value. -/
def textOf (host : Host) : Json → String
  | .string text => cStr text
  | value => host.jsonEncode value

end Host

def hexDigit (value : Nat) : Char :=
  "0123456789abcdef".toList.getD value '0'

def digestToBase16 (data : String) : String :=
  .ofList (data.toList.flatMap fun byte =>
    [hexDigit (byte.toNat / 16), hexDigit (byte.toNat % 16)])

def digestFromChar (host : Host) (type : Digest) (data : String) : String :=
  digestToBase16 (host.evpDigest type data)

theorem not_faults_substr (text : String) (pos count : Nat) :
    ¬ (substr text pos count).Faults := by
  unfold substr
  split
  · exact Checked.not_faults_undefined
  · exact Checked.not_faults_ok _

theorem not_faults_reverseIndex (rIndex size : Int) :
    ¬ (reverseIndex rIndex size).Faults := by
  unfold reverseIndex
  generalize (if rIndex < 0 then rIndex + size else rIndex) = index
  simp only
  split
  · exact Checked.not_faults_undefined
  · exact Checked.not_faults_ok _

end Uskit.Function
