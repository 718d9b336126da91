import Uskit.Function.Builtin
import Uskit.Function.StrFunction

namespace Uskit

open Uskit.Data

/-! `FunctionManager` with the functions that `register_function` adds.  Two of them
call functions by name, with arguments from within their own; so calls are nested
less deep than their arguments. -/

namespace Json

mutual
def depth : Json → Nat
  | .array elements => depthElements elements + 1
  | .object members => depthMembers members + 1
  | _ => 0

def depthElements : List Json → Nat
  | [] => 0
  | element :: rest => max (depth element) (depthElements rest)

def depthMembers : List (String × Json) → Nat
  | [] => 0
  | (_, value) :: rest => max (depth value) (depthMembers rest)
end

theorem depth_le_depthElements {elements : List Json} {element : Json}
    (hmem : element ∈ elements) : element.depth ≤ depthElements elements := by
  induction elements with
  | nil => cases hmem
  | cons first rest ih =>
      rw [depthElements]
      cases hmem with
      | head => exact Nat.le_max_left _ _
      | tail _ hmem => exact (ih hmem).trans (Nat.le_max_right _ _)

end Json

namespace Function

inductive Builtin where
  | getValueByPath | setValueByPath | getIndexByKey | forEachGetByPath
  | forEachSetByPath | replaceValueByPathAndDict | arrayFunc | stringContain
  | getSubStr | normalized | jsonEncode | jsonDecode | replaceAll | hasKey
  | arrayLength | arraySlice | intValue | boolValue | md5Hash | sha1Hash | time
  | hmacSha1 | base64Encode | randStr | queryEncode
  | strSplit | strSlice | arrayJoin | strLength | strFind
deriving DecidableEq, Repr

/-- `register_function`. -/
def registered : Members String Builtin :=
  [("get", .getValueByPath), ("set", .setValueByPath),
    ("index_at", .getIndexByKey), ("foreach_get", .forEachGetByPath),
    ("foreach_set", .forEachSetByPath),
    ("translate", .replaceValueByPathAndDict), ("array_func", .arrayFunc),
    ("strhas", .stringContain), ("substr", .getSubStr),
    ("normalize", .normalized), ("json_encode", .jsonEncode),
    ("json_decode", .jsonDecode), ("replace_all", .replaceAll), ("has", .hasKey),
    ("len", .arrayLength), ("slice", .arraySlice), ("int", .intValue),
    ("bool", .boolValue), ("md5", .md5Hash), ("sha1", .sha1Hash),
    ("time", .time), ("hmac_sha1", .hmacSha1),
    ("base64_encode", .base64Encode), ("nonce", .randStr),
    ("query_encode", .queryEncode), ("split", .strSplit),
    ("str_slice", .strSlice), ("join", .arrayJoin), ("str_length", .strLength),
    ("str_find", .strFind)]

def Builtin.run (host : Host) (callFunction : String → List Json → Call Json)
    (args : List Json) : Builtin → Call Json
  | .getValueByPath => Function.getValueByPath args
  | .setValueByPath => Function.setValueByPath args
  | .getIndexByKey => Function.getIndexByKey args
  | .forEachGetByPath => Function.forEachGetByPath args
  | .forEachSetByPath => Function.forEachSetByPath args
  | .replaceValueByPathAndDict => Function.replaceValueByPathAndDict args
  | .arrayFunc => Function.arrayFunc callFunction args
  | .stringContain => Function.stringContain args
  | .getSubStr => Function.getSubStr args
  | .normalized => Function.normalized callFunction args
  | .jsonEncode => Function.jsonEncode host args
  | .jsonDecode => Function.jsonDecode host args
  | .replaceAll => Function.replaceAll args
  | .hasKey => Function.hasKey args
  | .arrayLength => Function.arrayLength args
  | .arraySlice => Function.arraySlice host args
  | .intValue => Function.intValue args
  | .boolValue => Function.boolValue args
  | .md5Hash => Function.md5Hash host args
  | .sha1Hash => Function.sha1Hash host args
  | .time => Function.time host args
  | .hmacSha1 => Function.hmacSha1 host args
  | .base64Encode => Function.base64Encode host args
  | .randStr => Function.randStr host args
  | .queryEncode => Function.queryEncode host args
  | .strSplit => Function.strSplit host args
  | .strSlice => Function.strSlice args
  | .arrayJoin => Function.arrayJoin host args
  | .strLength => Function.strLength args
  | .strFind => Function.strFind args

/-- `FunctionManager::call_function`, with a bound on the nesting of calls. -/
def callNested (host : Host) : (bound : Nat) → String → List Json → Call Json
  | 0, _, _ => .undefined
  | bound + 1, funcName, args =>
      match registered.lookup funcName with
      | some builtin => builtin.run host (callNested host bound) args
      | none => .failed

def callFunction (host : Host) (funcName : String) (args : List Json) : Call Json :=
  callNested host (Json.depthElements args + 1) funcName args

/-- What the evaluation of expressions sees of a call. -/
def toResult : Call α → Result α
  | .ok value => .ok value
  | .failed => .failed
  | .fault _ | .undefined => .undefined

/-- The functions as the table that expressions call. -/
def Host.library (host : Host) (regexMatch regexSearch : String → String → Bool) :
    Library where
  callFunction := fun funcName args => toResult (callFunction host funcName args)
  dtoa := host.dtoa
  parseJson := host.parseJson
  regexMatch := regexMatch
  regexSearch := regexSearch

/-! The nested calls, and why the bound on them is never reached. -/

/-- The call that an array of a name and arguments stands for. -/
def nestedCall : List Json → Option (String × List Json)
  | [.string name, .array extra] => some (cStr name, extra)
  | _ => none

section Nested

variable {call : String → List Json → Call Json}

theorem nestedCall_eq_some {values extra : List Json} {funcName : String} :
    nestedCall values = some (funcName, extra) ↔
      ∃ name, values = [.string name, .array extra] ∧ cStr name = funcName := by
  constructor
  · intro hcall
    unfold nestedCall at hcall
    split at hcall
    · rename_i name other
      cases hcall
      exact ⟨name, rfl, rfl⟩
    · cases hcall
  · intro hcall
    obtain ⟨name, rfl, rfl⟩ := hcall
    rfl

theorem callOn_eq (call : String → List Json → Call Json) (values : List Json)
    (value : Json) :
    callOn call values value =
      match nestedCall values with
      | some (funcName, extra) => call funcName (value :: extra)
      | none => .failed := by
  cases hnested : nestedCall values with
  | some entry =>
      obtain ⟨funcName, extra⟩ := entry
      obtain ⟨name, rfl, rfl⟩ := nestedCall_eq_some.mp hnested
      rfl
  | none =>
      have hcheck : parameterCheck values [.string, .array] = false := by
        rw [Bool.eq_false_iff, ne_eq, parameterCheck_iff]
        intro htypes
        simp only [List.map_eq_cons_iff, List.map_eq_nil_iff, getType_eq_string,
          getType_eq_array] at htypes
        obtain ⟨_, _, rfl, ⟨name, rfl⟩, _, _, rfl, ⟨extra, rfl⟩, rfl⟩ := htypes
        cases hnested
      rw [callOn, hcheck]
      rfl

theorem arrayFuncElement_eq (call : String → List Json → Call Json)
    (elements values : List Json) (element : Json) :
    arrayFuncElement call [.array elements, .array values] element =
      if values.length ≠ 2 then .fault .unsuppliedPosition
      else
        match nestedCall values with
        | some (funcName, extra) => call funcName (element :: extra)
        | none => .failed := by
  by_cases hlength : values.length = 2
  · obtain ⟨name, extra, rfl⟩ := List.length_eq_two.mp hlength
    cases name with
    | string text =>
        cases extra with
        | array extra => rfl
        | bool value => cases value <;> rfl
        | null | number | string | object => rfl
    | bool value => cases value <;> rfl
    | null | number | array | object => rfl
  · simp only [arrayFuncElement, position, getArray, List.getElem?_cons_succ,
      List.getElem?_cons_zero, Checked.ok_bind, if_pos hlength]
    rfl

/-- A value in front of the arguments of a call is nested less deep than a list that
holds it and the call. -/
theorem depth_nested_lt {args values extra : List Json} {value : Json}
    {funcName : String} (hcall : nestedCall values = some (funcName, extra))
    (hvalues : .array values ∈ args) (hvalue : value.depth < Json.depthElements args) :
    Json.depthElements (value :: extra) < Json.depthElements args := by
  obtain ⟨name, rfl, -⟩ := nestedCall_eq_some.mp hcall
  have hle := Json.depth_le_depthElements hvalues
  simp only [Json.depth, Json.depthElements] at hle ⊢
  omega

theorem depth_element_lt {args elements : List Json} {element : Json}
    (helement : element ∈ elements) (helements : .array elements ∈ args) :
    element.depth < Json.depthElements args := by
  have hle := Json.depth_le_depthElements helements
  have helement := Json.depth_le_depthElements helement
  rw [Json.depth] at hle
  omega

theorem arrayFunc_congr {first second : String → List Json → Call Json}
    {args : List Json}
    (hagree : ∀ funcName nested,
      Json.depthElements nested < Json.depthElements args →
        first funcName nested = second funcName nested) :
    arrayFunc first args = arrayFunc second args := by
  unfold arrayFunc
  cases hcheck : parameterCheck args [.array, .array] with
  | false => simp only [Checked.require_false, Checked.failed_bind]
  | true =>
      simp only [parameterCheck_cons, parameterCheck_nil, getType_eq_array] at hcheck
      obtain ⟨_, _, rfl, ⟨elements, rfl⟩, _, _, rfl, ⟨values, rfl⟩, rfl⟩ := hcheck
      have htraverse : Checked.traverse
            (arrayFuncElement first [.array elements, .array values]) elements =
          Checked.traverse
            (arrayFuncElement second [.array elements, .array values]) elements := by
        apply Checked.traverse_congr
        intro element helement
        rw [arrayFuncElement_eq, arrayFuncElement_eq]
        cases hnested : nestedCall values with
        | none => rfl
        | some entry =>
            obtain ⟨funcName, extra⟩ := entry
            have hdepth : Json.depthElements (element :: extra) <
                Json.depthElements [.array elements, .array values] :=
              depth_nested_lt hnested (by simp) (depth_element_lt helement (by simp))
            simp only [hagree funcName _ hdepth]
      simp only [position, getArray, List.getElem?_cons_zero, Checked.ok_bind,
        htraverse]

theorem normalizeElement_congr {first second : String → List Json → Call Json}
    {path : String} {contain replace : List Json}
    (hcontain : ∀ text,
      callOn first contain (.string text) = callOn second contain (.string text))
    (hreplace : ∀ text,
      callOn first replace (.string text) = callOn second replace (.string text))
    (element : Json) :
    normalizeElement first path contain replace element =
      normalizeElement second path contain replace element := by
  unfold normalizeElement
  generalize getValueByPointer element path = found
  cases found with
  | none => rfl
  | some value =>
      cases value with
      | string text => simp only [hcontain, hreplace]
      | null | bool | number | array | object => rfl

theorem normalized_congr {first second : String → List Json → Call Json}
    {args : List Json}
    (hagree : ∀ funcName nested,
      Json.depthElements nested < Json.depthElements args →
        first funcName nested = second funcName nested) :
    normalized first args = normalized second args := by
  unfold normalized
  cases hcheck : parameterCheck args [.array, .string, .array, .array] with
  | false => simp only [Checked.require_false, Checked.failed_bind]
  | true =>
      simp only [parameterCheck_cons, parameterCheck_nil, getType_eq_array,
        getType_eq_string] at hcheck
      obtain ⟨_, _, rfl, ⟨elements, rfl⟩, _, _, rfl, ⟨path, rfl⟩, _, _, rfl,
        ⟨contain, rfl⟩, _, _, rfl, ⟨replace, rfl⟩, rfl⟩ := hcheck
      have hcall : ∀ values, values = contain ∨ values = replace → ∀ text,
          callOn first values (.string text) = callOn second values (.string text) := by
        intro values hvalues text
        rw [callOn_eq, callOn_eq]
        cases hnested : nestedCall values with
        | none => rfl
        | some entry =>
            obtain ⟨funcName, extra⟩ := entry
            have hmem : Json.array values ∈
                [.array elements, .string path, .array contain, .array replace] := by
              rcases hvalues with rfl | rfl <;> simp
            have hpositive : (Json.string text).depth < Json.depthElements
                [.array elements, .string path, .array contain, .array replace] := by
              simp only [Json.depth, Json.depthElements]
              omega
            have hdepth := depth_nested_lt hnested hmem hpositive
            simp only [hagree funcName _ hdepth]
      have helement : normalizeElement first (cStr path) contain replace =
          normalizeElement second (cStr path) contain replace :=
        funext (normalizeElement_congr (hcall contain (.inl rfl))
          (hcall replace (.inr rfl)))
      simp only [position, getArray, getString, List.getElem?_cons_zero,
        List.getElem?_cons_succ, Checked.ok_bind, helement]

theorem Builtin.run_congr (host : Host) {first second : String → List Json → Call Json}
    {args : List Json} (builtin : Builtin)
    (hagree : ∀ funcName nested,
      Json.depthElements nested < Json.depthElements args →
        first funcName nested = second funcName nested) :
    builtin.run host first args = builtin.run host second args := by
  cases builtin with
  | arrayFunc => exact arrayFunc_congr hagree
  | normalized => exact normalized_congr hagree
  | _ => rfl

theorem callNested_eq (host : Host) {bound other : Nat} {args : List Json}
    (hbound : Json.depthElements args < bound) (hother : Json.depthElements args < other)
    (funcName : String) :
    callNested host bound funcName args = callNested host other funcName args := by
  induction bound generalizing other funcName args with
  | zero => exact absurd hbound (Nat.not_lt_zero _)
  | succ bound ih =>
      cases other with
      | zero => exact absurd hother (Nat.not_lt_zero _)
      | succ other =>
          rw [callNested, callNested]
          cases registered.lookup funcName with
          | none => rfl
          | some builtin =>
              apply builtin.run_congr host
              intro funcName nested hnested
              apply ih
              · omega
              · omega

/-- The bound on the nesting plays no part. -/
theorem callFunction_eq (host : Host) (funcName : String) (args : List Json) :
    callFunction host funcName args =
      match registered.lookup funcName with
      | some builtin => builtin.run host (callFunction host) args
      | none => .failed := by
  rw [callFunction, callNested]
  cases registered.lookup funcName with
  | none => rfl
  | some builtin =>
      apply builtin.run_congr host
      intro funcName nested hnested
      exact callNested_eq host hnested (Nat.lt_succ_self _) funcName

end Nested

end Function

end Uskit
