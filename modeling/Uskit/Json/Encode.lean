import Uskit.Json.Value

namespace Uskit

namespace Json

/-! `json_encode`: the text the vendored writer leaves in its buffer.  A number
that is not finite stops the writer, and the text written so far remains. -/

/-- Text written so far and whether the writer still accepts events. -/
structure Written where
  text : String
  accepted : Bool

namespace Written

def put (written : Written) (text : String) : Written :=
  if written.accepted then { written with text := written.text ++ text }
  else written

def stop (written : Written) : Written :=
  { written with accepted := false }

end Written

def hexDigit (digit : Nat) : Char :=
  if digit < 10 then Char.ofNat ('0'.toNat + digit)
  else Char.ofNat ('A'.toNat + (digit - 10))

/-- The table `escape` of `WriteString`. -/
def writeChar (c : Char) : List Char :=
  match c with
  | '"' => ['\\', '"']
  | '\\' => ['\\', '\\']
  | '\x08' => ['\\', 'b']
  | '\t' => ['\\', 't']
  | '\n' => ['\\', 'n']
  | '\x0c' => ['\\', 'f']
  | '\r' => ['\\', 'r']
  | c =>
      if c.toNat < 32 then
        ['\\', 'u', '0', '0', hexDigit (c.toNat / 16), hexDigit (c.toNat % 16)]
      else [c]

def writeString (text : String) : String :=
  String.ofList ('"' :: text.toList.flatMap writeChar ++ ['"'])

def writeNumber (dtoa : Double → String) (written : Written) : Number → Written
  | .int value => written.put (toString value)
  | .double value =>
      if value.isNanOrInf then written.stop else written.put (dtoa value)

mutual
def write (dtoa : Double → String) : Json → Written → Written
  | .null, written => written.put "null"
  | .bool true, written => written.put "true"
  | .bool false, written => written.put "false"
  | .number value, written => writeNumber dtoa written value
  | .string text, written => written.put (writeString text)
  | .array elements, written =>
      (writeElements dtoa elements true (written.put "[")).put "]"
  | .object members, written =>
      (writeMembers dtoa members true (written.put "\x7b")).put "\x7d"

def writeElements (dtoa : Double → String) :
    List Json → (first : Bool) → Written → Written
  | [], _, written => written
  | value :: rest, first, written =>
      writeElements dtoa rest false
        (write dtoa value (if first then written else written.put ","))

def writeMembers (dtoa : Double → String) :
    List (String × Json) → (first : Bool) → Written → Written
  | [], _, written => written
  | (name, value) :: rest, first, written =>
      writeMembers dtoa rest false
        (write dtoa value
          ((if first then written else written.put ",").put
            (writeString name ++ ":")))
end

/-- `dtoa` stands for the shortest decimal printing of a finite double. -/
def encode (dtoa : Double → String) (value : Json) : String :=
  (write dtoa value ⟨"", true⟩).text

end Json

end Uskit
