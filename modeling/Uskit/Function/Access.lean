import Uskit.Data.Checked
import Uskit.Expression.Expression

namespace Uskit

open Uskit.Data

/-! What the functions of the expression language do with the values that they
are given: every step that reads one is checked. -/

namespace Function

inductive Fault where
  /-- A position is read that was not supplied. -/
  | unsuppliedPosition
  /-- The result of a path lookup that found nothing is dereferenced. -/
  | nullDereference
  /-- A typed accessor is applied to a value of another type. -/
  | wrongType
deriving DecidableEq, Repr

/-- The result of a function.  It is undefined where the call has no result for
a reason that is no fault, as an endless loop or an exception. -/
abbrev Call (α : Type u) := Checked Fault α

/-- `rapidjson::Type`. -/
inductive JsonType where
  | null | boolFalse | boolTrue | object | array | string | number
deriving DecidableEq, Repr

def getType : Json → JsonType
  | .null => .null
  | .bool false => .boolFalse
  | .bool true => .boolTrue
  | .object _ => .object
  | .array _ => .array
  | .string _ => .string
  | .number _ => .number

def isArray (value : Json) : Bool :=
  getType value == .array

def isString (value : Json) : Bool :=
  getType value == .string

def isBool (value : Json) : Bool :=
  getType value == .boolTrue || getType value == .boolFalse

def isInt : Json → Bool
  | .number (.int value) => fitsInt value
  | _ => false

/-! The accessors.  Their types are not checked by the vendored library. -/

/-- An element of an array by its position, as `args[index]`. -/
def position (values : List Json) (index : Nat) : Call Json :=
  match values[index]? with
  | some value => .ok value
  | none => .fault .unsuppliedPosition

def dereference : Option Json → Call Json
  | some value => .ok value
  | none => .fault .nullDereference

def getString : Json → Call String
  | .string text => .ok (cStr text)
  | _ => .fault .wrongType

def getInt : Json → Call Int
  | .number (.int value) => if fitsInt value then .ok value else .fault .wrongType
  | _ => .fault .wrongType

def getBool : Json → Call Bool
  | .bool value => .ok value
  | _ => .fault .wrongType

def getArray : Json → Call (List Json)
  | .array elements => .ok elements
  | _ => .fault .wrongType

def getObject : Json → Call JsonMembers
  | .object members => .ok members
  | _ => .fault .wrongType

/-- 0: there are as many arguments as types, and each is of its type. -/
def parameterCheck (args : List Json) (defineTypes : List JsonType) : Bool :=
  args.map getType == defineTypes

/-- A path that is normalized, parsed and resolved.  An invalid pointer has no
tokens and resolves to the root. -/
@[irreducible] def getValueByPointer (root : Json) (path : String) : Option Json :=
  Pointer.get ((pathTokens path).getD []) root

/-- Writes through the pointer that `GetValueByPointer` returned. -/
def setFound (path : String) (value root : Json) : Json :=
  Pointer.set value ((pathTokens path).getD []) root

/-- The conversion of a size to `int`. -/
def asInt (size : Int) : Int :=
  size.bmod (2 ^ 32)

def setInt (value : Int) : Json :=
  .number (.int value)

theorem getType_eq_array {value : Json} :
    getType value = .array ↔ ∃ elements, value = .array elements := by
  cases value with
  | bool value => cases value <;> simp [getType]
  | null | number | string | array | object => simp [getType]

theorem getType_eq_string {value : Json} :
    getType value = .string ↔ ∃ text, value = .string text := by
  cases value with
  | bool value => cases value <;> simp [getType]
  | null | number | string | array | object => simp [getType]

theorem getType_eq_object {value : Json} :
    getType value = .object ↔ ∃ members, value = .object members := by
  cases value with
  | bool value => cases value <;> simp [getType]
  | null | number | string | array | object => simp [getType]

theorem getType_eq_number {value : Json} :
    getType value = .number ↔ ∃ number, value = .number number := by
  cases value with
  | bool value => cases value <;> simp [getType]
  | null | number | string | array | object => simp [getType]

theorem getType_eq_boolTrue {value : Json} :
    getType value = .boolTrue ↔ value = .bool true := by
  cases value with
  | bool value => cases value <;> simp [getType]
  | null | number | string | array | object => simp [getType]

theorem getType_eq_boolFalse {value : Json} :
    getType value = .boolFalse ↔ value = .bool false := by
  cases value with
  | bool value => cases value <;> simp [getType]
  | null | number | string | array | object => simp [getType]

theorem parameterCheck_iff {args : List Json} {defineTypes : List JsonType} :
    parameterCheck args defineTypes = true ↔ args.map getType = defineTypes :=
  beq_iff_eq

theorem parameterCheck_nil {args : List Json} :
    parameterCheck args [] = true ↔ args = [] := by
  rw [parameterCheck_iff, List.map_eq_nil_iff]

theorem parameterCheck_cons {args : List Json} {type : JsonType}
    {defineTypes : List JsonType} :
    parameterCheck args (type :: defineTypes) = true ↔
      ∃ value rest, args = value :: rest ∧ getType value = type ∧
        parameterCheck rest defineTypes = true := by
  simp only [parameterCheck_iff, List.map_eq_cons_iff]

theorem isString_iff {value : Json} :
    isString value = true ↔ ∃ text, value = .string text := by
  rw [isString, beq_iff_eq, getType_eq_string]

theorem isArray_iff {value : Json} :
    isArray value = true ↔ ∃ elements, value = .array elements := by
  rw [isArray, beq_iff_eq, getType_eq_array]

theorem isBool_iff {value : Json} :
    isBool value = true ↔ ∃ truth, value = .bool truth := by
  cases value with
  | bool value => cases value <;> simp [isBool, getType]
  | null | number | string | array | object => simp [isBool, getType]

theorem isInt_iff {value : Json} :
    isInt value = true ↔
      ∃ number, value = .number (.int number) ∧ fitsInt number = true := by
  cases value with
  | number number =>
      cases number with
      | int value => simp [isInt]
      | double value => simp [isInt]
  | null | bool | string | array | object => simp [isInt]

end Function

end Uskit
