import Mathlib.Data.List.TakeWhile
import Uskit.Data.Members
import Uskit.Json.Double

namespace Uskit

open Uskit.Data

/-! JSON values as the vendored library holds them.  An object is the list of
its members in insertion order, and a member name may occur more than once. -/

inductive Number where
  | int (value : Int)
  | double (value : Double)
deriving DecidableEq, Repr

inductive Json where
  | null
  | bool (value : Bool)
  | number (value : Number)
  | string (value : String)
  | array (elements : List Json)
  | object (members : List (String × Json))
deriving Repr, Inhabited

abbrev JsonMembers := Members String Json

namespace Json

mutual
def decEq : (left right : Json) → Decidable (left = right)
  | .null, .null => isTrue rfl
  | .bool a, .bool b =>
      if h : a = b then isTrue (by rw [h]) else isFalse (by simpa using h)
  | .number a, .number b =>
      if h : a = b then isTrue (by rw [h]) else isFalse (by simpa using h)
  | .string a, .string b =>
      if h : a = b then isTrue (by rw [h]) else isFalse (by simpa using h)
  | .array a, .array b =>
      match decEqElements a b with
      | isTrue h => isTrue (by rw [h])
      | isFalse h => isFalse (by simpa using h)
  | .object a, .object b =>
      match decEqMembers a b with
      | isTrue h => isTrue (by rw [h])
      | isFalse h => isFalse (by simpa using h)
  | .null, .bool _ | .null, .number _ | .null, .string _ | .null, .array _
  | .null, .object _ | .bool _, .null | .bool _, .number _
  | .bool _, .string _ | .bool _, .array _ | .bool _, .object _
  | .number _, .null | .number _, .bool _ | .number _, .string _
  | .number _, .array _ | .number _, .object _ | .string _, .null
  | .string _, .bool _ | .string _, .number _ | .string _, .array _
  | .string _, .object _ | .array _, .null | .array _, .bool _
  | .array _, .number _ | .array _, .string _ | .array _, .object _
  | .object _, .null | .object _, .bool _ | .object _, .number _
  | .object _, .string _ | .object _, .array _ => isFalse (by simp)

def decEqElements : (left right : List Json) → Decidable (left = right)
  | [], [] => isTrue rfl
  | [], _ :: _ | _ :: _, [] => isFalse (by simp)
  | x :: xs, y :: ys =>
      match decEq x y, decEqElements xs ys with
      | isTrue h, isTrue h' => isTrue (by rw [h, h'])
      | isFalse h, _ => isFalse (by simp [h])
      | _, isFalse h => isFalse (by simp [h])

def decEqMembers :
    (left right : List (String × Json)) → Decidable (left = right)
  | [], [] => isTrue rfl
  | [], _ :: _ | _ :: _, [] => isFalse (by simp)
  | (k, x) :: xs, (l, y) :: ys =>
      if hname : k = l then
        match decEq x y, decEqMembers xs ys with
        | isTrue h, isTrue h' => isTrue (by rw [hname, h, h'])
        | isFalse h, _ => isFalse (by simp [h])
        | _, isFalse h => isFalse (by simp [h])
      else isFalse (by simp [hname])
end

instance : DecidableEq Json := decEq

def isObject : Json → Bool
  | .object _ => true
  | _ => false

def isNull : Json → Bool
  | .null => true
  | _ => false

/-- Member lookup on a value that may not be an object. -/
def findMember? (name : String) : Json → Option Json
  | .object members => members.lookup name
  | _ => none

@[simp] theorem findMember?_object (name : String) (members : JsonMembers) :
    (Json.object members).findMember? name = members.lookup name := rfl

@[simp] theorem isObject_object (members : JsonMembers) :
    (Json.object members).isObject = true := rfl

theorem isObject_iff {value : Json} :
    value.isObject = true ↔ ∃ members, value = .object members := by
  cases value <;> simp [isObject]

end Json

namespace Number

def getDouble : Number → Double
  | .int value => Double.ofInt value
  | .double value => value

/-- Integers are compared as their 64 stored bits. -/
def valueEq (a b : Number) : Bool :=
  match a, b with
  | .int a, .int b => (a - b) % 2 ^ 64 == 0
  | _, _ => b.getDouble.le a.getDouble && a.getDouble.le b.getDouble

end Number

namespace Json

mutual
/-- `GenericValue::operator==`: objects are equal up to member order. -/
def valueEq : Json → Json → Bool
  | .null, .null => true
  | .bool a, .bool b => a == b
  | .number a, .number b => a.valueEq b
  | .string a, .string b => a == b
  | .array a, .array b => elementsEq a b
  | .object a, .object b => a.length == b.length && membersEq a b
  | _, _ => false

def elementsEq : List Json → List Json → Bool
  | [], [] => true
  | x :: xs, y :: ys => valueEq x y && elementsEq xs ys
  | _, _ => false

def membersEq : List (String × Json) → List (String × Json) → Bool
  | [], _ => true
  | (name, value) :: rest, other =>
      (match other.lookup name with
        | some found => valueEq value found
        | none => false) && membersEq rest other
end

end Json

/-- What `c_str` shows of a string: the part before the first NUL. -/
def cStr (text : String) : String :=
  String.ofList (text.toList.takeWhile (· != '\x00'))

theorem cStr_eq_self {text : String} (hfree : '\x00' ∉ text.toList) :
    cStr text = text := by
  have hall : ∀ c ∈ text.toList, (c != '\x00') = true := by
    intro c hc
    have hne : c ≠ '\x00' := fun heq => hfree (heq ▸ hc)
    simpa using hne
  rw [cStr, List.takeWhile_eq_self_iff.mpr hall, String.ofList_toList]

theorem cStr_free (text : String) : '\x00' ∉ (cStr text).toList := by
  rw [cStr, String.toList_ofList]
  intro hmem
  have hne := List.mem_takeWhile_imp hmem
  simp at hne

theorem toList_cStr_append {first : String} (hfree : '\x00' ∉ first.toList)
    (second : String) :
    (cStr (first ++ second)).toList = first.toList ++ (cStr second).toList := by
  have hall : ∀ c ∈ first.toList, (c != '\x00') = true := by
    intro c hc
    have hne : c ≠ '\x00' := fun heq => hfree (heq ▸ hc)
    simpa using hne
  rw [cStr, cStr, String.toList_ofList, String.toList_ofList,
    String.toList_append, List.takeWhile_append_of_pos hall]

end Uskit
