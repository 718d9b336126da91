import Uskit.Expression.Context
import Uskit.Json.Encode

namespace Uskit

/-! The expression language: syntax trees and their evaluation in a context. -/

inductive BinaryOp where
  | add | sub | mul | div
  | greater | less | greaterEq | lessEq
  | logicalOr | logicalAnd
  | bitOr | bitAnd
  | equal | notEqual
deriving DecidableEq, Repr

inductive Expr where
  | null
  | integer (value : Int)
  | double (value : Double)
  | string (str : String)
  | boolean (value : Bool)
  | array (items : List Expr)
  /-- The entries in the iteration order of the table. -/
  | dict (entries : List (String × Expr))
  | binary (op : BinaryOp) (lhs rhs : Expr)
  | ternary (cond lhs rhs : Expr)
  | not (expr : Expr)
  /-- A call and the calls chained to it, each a name and its arguments. -/
  | call (funcName : String) (args : List Expr)
      (next : List (String × List Expr))
  | variable (name : String)
deriving Repr, Inhabited

/-- What the code uses from outside the modelled sources: the table of
functions, the printing of doubles inside `json_encode`, the JSON parser, and
regular expressions given by their pattern. -/
structure Library where
  callFunction : String → List Json → Result Json
  dtoa : Double → String
  parseJson : String → Option Json
  regexMatch : (pattern text : String) → Bool
  regexSearch : (pattern text : String) → Bool

namespace Library

def jsonEncode (library : Library) (value : Json) : String :=
  value.encode library.dtoa

end Library

/-- No function is registered, and no pattern fits. -/
def Library.bare : Library where
  callFunction := fun _ _ => .failed
  dtoa := fun _ => "0.0"
  parseJson := fun _ => none
  regexMatch := fun _ _ => false
  regexSearch := fun _ _ => false

def fitsInt (value : Int) : Bool :=
  decide (-(2 ^ 31) ≤ value ∧ value < 2 ^ 31)

theorem fitsInt_iff {value : Int} :
    fitsInt value = true ↔ -(2 ^ 31) ≤ value ∧ value < 2 ^ 31 :=
  decide_eq_true_iff

theorem bmod_eq_self {value : Int} :
    value.bmod (2 ^ 32) = value ↔ fitsInt value = true := by
  rw [fitsInt_iff]
  constructor
  · intro hsame
    have hlow := Int.le_bmod (x := value) (m := 2 ^ 32) (by decide)
    have hhigh := Int.bmod_lt (x := value) (m := 2 ^ 32) (by decide)
    omega
  · intro hfits
    apply Int.bmod_eq_of_le
    · omega
    · omega

/-- The result of an operation on `int`. -/
def setInt (value : Int) : Result Json :=
  if fitsInt value then .ok (.number (.int value)) else .undefined

def setDouble (value : Double) : Result Json :=
  .ok (.number (.double value))

def setBool (value : Bool) : Result Json :=
  .ok (.bool value)

namespace BinaryOp

def runInt (op : BinaryOp) (l r : Int) : Result Json :=
  match op with
  | .add => setInt (l + r)
  | .sub => setInt (l - r)
  | .mul => setInt (l * r)
  | .div => if r = 0 then .undefined else setInt (l.tdiv r)
  | .greater => setBool (decide (r < l))
  | .less => setBool (decide (l < r))
  | .greaterEq => setBool (decide (r ≤ l))
  | .lessEq => setBool (decide (l ≤ r))
  | _ => .failed

def runDouble (op : BinaryOp) (l r : Double) : Result Json :=
  match op with
  | .add => setDouble (l.add r)
  | .sub => setDouble (l.sub r)
  | .mul => setDouble (l.mul r)
  | .div => setDouble (l.div r)
  | .greater => setBool (r.lt l)
  | .less => setBool (l.lt r)
  | .greaterEq => setBool (r.le l)
  | .lessEq => setBool (l.le r)
  | _ => .failed

def runNumber (op : BinaryOp) : (lvalue rvalue : Json) → Result Json
  | .number (.int l), .number (.int r) =>
      if fitsInt l && fitsInt r then op.runInt l r
      else op.runDouble (Double.ofInt l) (Double.ofInt r)
  | .number l, .number r => op.runDouble l.getDouble r.getDouble
  | _, _ => .failed

/-- One pass over the elements, with the texts met so far: `emit` says from
whether the text is among them if the element is copied. -/
def hashPass (library : Library) (emit : Bool → Bool) :
    (hash : List String) → List Json → List String × List Json
  | hash, [] => (hash, [])
  | hash, v :: rest =>
      let text := library.jsonEncode v
      let (final, copied) := hashPass library emit (text :: hash) rest
      (final, if emit (hash.contains text) then v :: copied else copied)

def setDifference (library : Library) (l r : List Json) : List Json :=
  (hashPass library (!·) (r.map library.jsonEncode) l).2

def setUnion (library : Library) (l r : List Json) : List Json :=
  let (hash, left) := hashPass library (!·) [] l
  left ++ (hashPass library (!·) hash r).2

def setIntersection (library : Library) (l r : List Json) : List Json :=
  let (hash, _) := hashPass library (fun _ => false) [] l
  (hashPass library (·) hash r).2

/-- Bitwise operators on arrays, booleans and `int`. -/
def runBits (onArrays : List Json → List Json → List Json)
    (onBools : Bool → Bool → Bool) (onInts : BitVec 32 → BitVec 32 → BitVec 32) :
    (lvalue rvalue : Json) → Result Json
  | .array l, .array r => .ok (.array (onArrays l r))
  | .bool l, .bool r => setBool (onBools l r)
  | .number (.int l), .number (.int r) =>
      if fitsInt l && fitsInt r then
        .ok (.number (.int
          (onInts (BitVec.ofInt 32 l) (BitVec.ofInt 32 r)).toInt))
      else .failed
  | _, _ => .failed

def runBool (onBools : Bool → Bool → Bool) : (lvalue rvalue : Json) → Result Json
  | .bool l, .bool r => setBool (onBools l r)
  | _, _ => .failed

/-- `BinaryExpression::run` once both operands are evaluated.  Strings are
concatenated through `GetString`, up to their first NUL. -/
def run (library : Library) (op : BinaryOp) (lvalue rvalue : Json) :
    Result Json :=
  match op, lvalue, rvalue with
  | .add, .string l, .string r => .ok (.string (cStr l ++ cStr r))
  | .add, .array l, .array r => .ok (.array (l ++ r))
  | .sub, .array l, .array r => .ok (.array (setDifference library l r))
  | .logicalOr, l, r => runBool (· || ·) l r
  | .logicalAnd, l, r => runBool (· && ·) l r
  | .bitOr, l, r => runBits (setUnion library) (· || ·) (· ||| ·) l r
  | .bitAnd, l, r => runBits (setIntersection library) (· && ·) (· &&& ·) l r
  | .equal, l, r => setBool (l.valueEq r)
  | .notEqual, l, r => setBool (!l.valueEq r)
  | op, l, r => op.runNumber l r

end BinaryOp

namespace Expr

/-- A null result of the link before is not passed on. -/
def chainInput : Json → List Json
  | .null => []
  | input => [input]

def requireBool : Json → Result Bool
  | .bool value => .ok value
  | _ => .failed

mutual
def run (library : Library) (context : Context) : Expr → Result Json
  | .null => .ok .null
  | .integer value => .ok (.number (.int value))
  | .double value => .ok (.number (.double value))
  | .string str => .ok (.string str)
  | .boolean value => .ok (.bool value)
  | .array items => do
      let values ← runArgs library context items
      .ok (.array values)
  | .dict entries => do
      let members ← runDict library context entries
      .ok (.object members)
  | .binary op lhs rhs => do
      let lvalue ← run library context lhs
      let rvalue ← run library context rhs
      op.run library lvalue rvalue
  | .ternary cond lhs rhs => do
      let condValue ← run library context cond
      let chosen ← requireBool condValue
      if chosen then run library context lhs else run library context rhs
  | .not expr => do
      let negateValue ← run library context expr
      let value ← requireBool negateValue
      .ok (.bool (!value))
  | .call funcName args next => do
      let argValues ← runArgs library context args
      let middleValue ← library.callFunction funcName argValues
      runNext library context next middleValue
  | .variable name =>
      match context.getVariable name with
      | some value => .ok value
      | none => .failed

def runArgs (library : Library) (context : Context) :
    List Expr → Result (List Json)
  | [] => .ok []
  | arg :: rest => do
      let argValue ← run library context arg
      let argValues ← runArgs library context rest
      .ok (argValue :: argValues)

def runDict (library : Library) (context : Context) :
    List (String × Expr) → Result JsonMembers
  | [] => .ok []
  | (key, expr) :: rest => do
      let value ← run library context expr
      let members ← runDict library context rest
      .ok ((key, value) :: members)

/-- The links of a chain after the first, each called with the value of the
link before as its first argument. -/
def runNext (library : Library) (context : Context) :
    List (String × List Expr) → Json → Result Json
  | [], middleValue => .ok middleValue
  | (funcName, args) :: next, input => do
      let argValues ← runArgs library context args
      let middleValue ←
        library.callFunction funcName (chainInput input ++ argValues)
      runNext library context next middleValue
end

end Expr

end Uskit
