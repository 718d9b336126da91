import Uskit.Function.Faults

namespace Uskit.Function

open Uskit.Data Checked

/-! The arguments that the functions are meant for, and the calls with others. -/

/-- What may stand at a position of the arguments. -/
inductive Shape where
  | any | bool | int | string | array | object
  /-- An object or an array. -/
  | container
  /-- The array without elements. -/
  | empty
  /-- An array of indexes. -/
  | ints
  /-- The name of a function, with its other arguments. -/
  | call
  /-- An object with `method`, `path` and `keys`. -/
  | sliceArgs
deriving DecidableEq, Repr

def hasMember (members : JsonMembers) (name : String) (ofType : Json → Bool) : Bool :=
  (members.lookup name).any ofType

def Shape.fits : Shape → Json → Bool
  | .any, _ => true
  | .bool, value => isBool value
  | .int, value => isInt value
  | .string, value => isString value
  | .array, value => isArray value
  | .object, value => value.isObject
  | .container, value => value.isObject || isArray value
  | .empty, .array elements => elements.isEmpty
  | .ints, .array indexes => indexes.all isInt
  | .call, .array values => parameterCheck values [.string, .array]
  | .sliceArgs, .object members =>
      hasMember members "method" isString && hasMember members "path" isString &&
        hasMember members "keys" isArray
  | _, _ => false

/-- The arguments of the functions, by their documentation and the types that they
check.  Without an element `array_func` and `normalize` make no call. -/
def Builtin.signatures : Builtin → List (List Shape)
  | .getValueByPath => [[.container, .string], [.container, .string, .any]]
  | .setValueByPath => [[.container, .string, .any]]
  | .getIndexByKey => [[.array, .string, .string]]
  | .forEachGetByPath => [[.array, .string], [.array, .string, .any]]
  | .forEachSetByPath => [[.array, .string, .array]]
  | .replaceValueByPathAndDict => [[.array, .string, .object]]
  | .arrayFunc => [[.array, .call], [.empty, .array]]
  | .stringContain => [[.string, .string]]
  | .getSubStr =>
      [[.string, .string], [.string, .string, .bool],
        [.string, .string, .bool, .bool]]
  | .normalized =>
      [[.array, .string, .call, .array], [.empty, .string, .array, .array]]
  | .jsonEncode => [[.any]]
  | .jsonDecode => [[.string]]
  | .replaceAll => [[.string, .string, .string]]
  | .hasKey => [[.object, .string], [.array, .any]]
  | .arrayLength => [[.array]]
  | .arraySlice =>
      [[.array], [.array, .int], [.array, .int, .int], [.array, .ints],
        [.array, .sliceArgs]]
  | .intValue => [[.bool], [.string]]
  | .boolValue => [[.any]]
  | .md5Hash => [[.string]]
  | .sha1Hash => [[.string]]
  | .time => [[], [.string]]
  | .hmacSha1 => [[.string, .string, .bool]]
  | .base64Encode => [[.string]]
  | .randStr => [[.int]]
  | .queryEncode => [[.string]]
  | .strSplit => [[.string], [.string, .string]]
  | .strSlice => [[.string, .int], [.string, .int, .int]]
  | .arrayJoin => [[.array, .string]]
  | .strLength => [[.string]]
  | .strFind =>
      [[.string, .string], [.string, .string, .int],
        [.string, .string, .int, .bool]]

/-- As many arguments as the signature has positions, each of which fits. -/
abbrev Fits (signature : List Shape) (args : List Json) : Prop :=
  List.Forall₂ (fun shape value => shape.fits value = true) signature args

def Admitted (builtin : Builtin) (args : List Json) : Prop :=
  ∃ signature ∈ builtin.signatures, Fits signature args

/-- Calls with arguments that fit no signature, which are not checked for it. -/
inductive Overlooked : Builtin → List Json → Prop
  /-- A value of another type is left null. -/
  | intValue {value : Json} (hbool : isBool value = false)
      (hstring : isString value = false) : Overlooked .intValue [value]
  /-- An end that is no `int` gives the empty string. -/
  | strSlice {input : String} {index : Json} {last : Number}
      (hindex : isInt index = true) (hlast : isInt (.number last) = false) :
      Overlooked .strSlice [.string input, index, .number last]
  | sha1Hash {text : String} {second : Json} {rest : List Json} :
      Overlooked .sha1Hash (.string text :: second :: rest)
  | time {first second : Json} {rest : List Json} :
      Overlooked .time (first :: second :: rest)
  /-- The sum of a negative index and a size from 2^31 on overflows. -/
  | arraySliceOverflow {elements rest : List Json} {index : Int} {last : Json}
      (hindex : fitsInt index = true) (hnegative : index < 0)
      (hsum : fitsInt (index + asInt elements.length) = false)
      (hlast : isInt last = false) :
      Overlooked .arraySlice
        (.array elements :: .number (.int index) :: last :: rest)
  /-- Arguments behind the last one that is looked at. -/
  | arraySliceThree {elements rest : List Json} {index last fourth : Json}
      (hindex : isInt index = true) (hlast : isInt last = true) :
      Overlooked .arraySlice (.array elements :: index :: last :: fourth :: rest)
  | arraySliceTwo {elements rest : List Json} {second third : Json}
      (hsecond : Shape.ints.fits second = true ∨ Shape.sliceArgs.fits second = true) :
      Overlooked .arraySlice (.array elements :: second :: third :: rest)

section Admitted

variable {args : List Json}

def Shape.ofType : JsonType → Shape
  | .string => .string
  | .array => .array
  | .object => .object
  | .boolTrue | .boolFalse => .bool
  | .null | .number => .any

theorem Shape.fits_ofType (value : Json) : (ofType (getType value)).fits value = true := by
  cases value with
  | bool value => cases value <;> rfl
  | null | number | string | array | object => rfl

theorem fits_of_parameterCheck {types : List JsonType}
    (hcheck : parameterCheck args types = true) : Fits (types.map Shape.ofType) args := by
  rw [parameterCheck_iff] at hcheck
  rw [← hcheck, List.map_map, Fits, List.forall₂_map_left_iff, List.forall₂_same]
  exact fun value _ => Shape.fits_ofType value

/-- A function whose check of the types is a signature. -/
theorem admitted_of_check {builtin : Builtin} {types : List JsonType}
    {next : Unit → Call Json}
    (hrun : (require (parameterCheck args types) >>= next) ≠ .failed)
    (hsignature : types.map Shape.ofType ∈ builtin.signatures) :
    Admitted builtin args :=
  ⟨_, hsignature, fits_of_parameterCheck (require_bind_ne_failed_iff.mp hrun).1⟩

theorem admitted_getValueByPath (hrun : getValueByPath args ≠ .failed) :
    Admitted .getValueByPath args := by
  obtain ⟨hlength, hrun⟩ := require_bind_ne_failed_iff.mp hrun
  simp only [Bool.or_eq_true, beq_iff_eq] at hlength
  rcases hlength with hlength | hlength
  · obtain ⟨json, path, rfl⟩ := List.length_eq_two.mp hlength
    obtain ⟨hjson, hrun⟩ := require_bind_ne_failed_iff.mp hrun
    obtain ⟨hpath, -⟩ := require_bind_ne_failed_iff.mp hrun
    exact ⟨[.container, .string], by decide, .cons hjson (.cons hpath .nil)⟩
  · obtain ⟨json, path, default, rfl⟩ := List.length_eq_three.mp hlength
    obtain ⟨hjson, hrun⟩ := require_bind_ne_failed_iff.mp hrun
    obtain ⟨hpath, -⟩ := require_bind_ne_failed_iff.mp hrun
    exact ⟨[.container, .string, .any], by decide,
      .cons hjson (.cons hpath (.cons rfl .nil))⟩

theorem admitted_setValueByPath (hrun : setValueByPath args ≠ .failed) :
    Admitted .setValueByPath args := by
  obtain ⟨hlength, hrun⟩ := require_bind_ne_failed_iff.mp hrun
  obtain ⟨json, path, value, rfl⟩ := List.length_eq_three.mp (beq_iff_eq.mp hlength)
  obtain ⟨hjson, hrun⟩ := require_bind_ne_failed_iff.mp hrun
  obtain ⟨hpath, -⟩ := require_bind_ne_failed_iff.mp hrun
  exact ⟨_, List.mem_singleton_self _, .cons hjson (.cons hpath (.cons rfl .nil))⟩

theorem admitted_forEachGetByPath (hrun : forEachGetByPath args ≠ .failed) :
    Admitted .forEachGetByPath args := by
  obtain ⟨hlength, hrun⟩ := require_bind_ne_failed_iff.mp hrun
  simp only [Bool.or_eq_true, beq_iff_eq] at hlength
  rcases hlength with hlength | hlength
  · obtain ⟨json, path, rfl⟩ := List.length_eq_two.mp hlength
    obtain ⟨hjson, hrun⟩ := require_bind_ne_failed_iff.mp hrun
    obtain ⟨hpath, -⟩ := require_bind_ne_failed_iff.mp hrun
    exact ⟨[.array, .string], by decide, .cons hjson (.cons hpath .nil)⟩
  · obtain ⟨json, path, default, rfl⟩ := List.length_eq_three.mp hlength
    obtain ⟨hjson, hrun⟩ := require_bind_ne_failed_iff.mp hrun
    obtain ⟨hpath, -⟩ := require_bind_ne_failed_iff.mp hrun
    exact ⟨[.array, .string, .any], by decide,
      .cons hjson (.cons hpath (.cons rfl .nil))⟩

theorem optionalBool_ne_failed {index : Nat} {value : Json}
    (hvalue : args[index]? = some value) {next : Bool → Call Json}
    (hrun : (optionalBool args index >>= next) ≠ .failed) :
    isBool value = true ∧ ∃ truth, next truth ≠ .failed := by
  obtain ⟨hindex, -⟩ := List.getElem?_eq_some_iff.mp hvalue
  rw [optionalBool, if_neg (by omega), position, hvalue, ok_bind] at hrun
  cases hbool : isBool value with
  | false =>
      rw [hbool] at hrun
      exact absurd rfl hrun
  | true =>
      obtain ⟨truth, rfl⟩ := isBool_iff.mp hbool
      rw [hbool] at hrun
      exact ⟨rfl, truth, hrun⟩

theorem admitted_getSubStr (hrun : getSubStr args ≠ .failed) :
    Admitted .getSubStr args := by
  obtain ⟨hlength, hrun⟩ := require_bind_ne_failed_iff.mp hrun
  simp only [Bool.or_eq_true, beq_iff_eq] at hlength
  rcases hlength with (hlength | hlength) | hlength
  · obtain ⟨source, target, rfl⟩ := List.length_eq_two.mp hlength
    obtain ⟨hsource, hrun⟩ := require_bind_ne_failed_iff.mp hrun
    obtain ⟨htarget, -⟩ := require_bind_ne_failed_iff.mp hrun
    exact ⟨[.string, .string], by decide, .cons hsource (.cons htarget .nil)⟩
  · obtain ⟨source, target, isContain, rfl⟩ := List.length_eq_three.mp hlength
    obtain ⟨hsource, hrun⟩ := require_bind_ne_failed_iff.mp hrun
    obtain ⟨htarget, hrun⟩ := require_bind_ne_failed_iff.mp hrun
    obtain ⟨hcontain, -⟩ := optionalBool_ne_failed rfl hrun
    exact ⟨[.string, .string, .bool], by decide,
      .cons hsource (.cons htarget (.cons hcontain .nil))⟩
  · obtain ⟨source, target, isContain, isReverse, rfl⟩ := List.length_eq_four.mp hlength
    obtain ⟨hsource, hrun⟩ := require_bind_ne_failed_iff.mp hrun
    obtain ⟨htarget, hrun⟩ := require_bind_ne_failed_iff.mp hrun
    obtain ⟨hcontain, truth, hrun⟩ := optionalBool_ne_failed rfl hrun
    obtain ⟨hreverse, -⟩ := optionalBool_ne_failed rfl hrun
    exact ⟨[.string, .string, .bool, .bool], by decide,
      .cons hsource (.cons htarget (.cons hcontain (.cons hreverse .nil)))⟩

/-- A check for the number of arguments and one for their types. -/
theorem admitted_one {builtin : Builtin} {shape : Shape} {next : Json → Call Json}
    (hrun : (do
      require (args.length == 1)
      let value ← position args 0
      next value : Call Json) ≠ .failed)
    (hsignature : [shape] ∈ builtin.signatures)
    (hfits : ∀ value, next value ≠ .failed → shape.fits value = true) :
    Admitted builtin args := by
  obtain ⟨hlength, hrun⟩ := require_bind_ne_failed_iff.mp hrun
  obtain ⟨value, rfl⟩ := List.length_eq_one_iff.mp (beq_iff_eq.mp hlength)
  exact ⟨_, hsignature, .cons (hfits value hrun) .nil⟩

theorem admitted_hasKey (hrun : hasKey args ≠ .failed) : Admitted .hasKey args := by
  obtain ⟨hlength, hrun⟩ := require_bind_ne_failed_iff.mp hrun
  obtain ⟨json, key, rfl⟩ := List.length_eq_two.mp (beq_iff_eq.mp hlength)
  cases json with
  | object members =>
      obtain ⟨hkey, -⟩ := require_bind_ne_failed_iff.mp hrun
      exact ⟨[.object, .string], by decide, .cons rfl (.cons hkey .nil)⟩
  | array elements => exact ⟨[.array, .any], by decide, .cons rfl (.cons rfl .nil)⟩
  | null | bool | number | string => exact absurd rfl hrun

theorem admitted_hmacSha1 {host : Host} (hrun : hmacSha1 host args ≠ .failed) :
    Admitted .hmacSha1 args := by
  obtain ⟨hlength, hrun⟩ := require_bind_ne_failed_iff.mp hrun
  obtain ⟨data, key, isSha1, rfl⟩ := List.length_eq_three.mp (beq_iff_eq.mp hlength)
  obtain ⟨hstrings, hrun⟩ := require_bind_ne_failed_iff.mp hrun
  obtain ⟨hbool, -⟩ := require_bind_ne_failed_iff.mp hrun
  rw [Bool.and_eq_true] at hstrings
  exact ⟨_, List.mem_singleton_self _,
    .cons hstrings.1 (.cons hstrings.2 (.cons hbool .nil))⟩

theorem admitted_intValue (hrun : intValue args ≠ .failed) :
    Admitted .intValue args ∨ Overlooked .intValue args := by
  obtain ⟨hlength, -⟩ := require_bind_ne_failed_iff.mp hrun
  obtain ⟨value, rfl⟩ := List.length_eq_one_iff.mp (beq_iff_eq.mp hlength)
  cases hbool : isBool value with
  | true => exact .inl ⟨[.bool], by decide, .cons hbool .nil⟩
  | false =>
      cases hstring : isString value with
      | true => exact .inl ⟨[.string], by decide, .cons hstring .nil⟩
      | false => exact .inr (.intValue hbool hstring)

theorem admitted_sha1Hash {host : Host} (hrun : sha1Hash host args ≠ .failed) :
    Admitted .sha1Hash args ∨ Overlooked .sha1Hash args := by
  obtain ⟨hlength, hrun⟩ := require_bind_ne_failed_iff.mp hrun
  cases args with
  | nil => cases hlength
  | cons value rest =>
      obtain ⟨hstring, -⟩ := require_bind_ne_failed_iff.mp hrun
      cases rest with
      | nil => exact .inl ⟨_, List.mem_singleton_self _, .cons hstring .nil⟩
      | cons second rest =>
          obtain ⟨text, rfl⟩ := isString_iff.mp hstring
          exact .inr .sha1Hash

theorem admitted_time {host : Host} (hrun : Function.time host args ≠ .failed) :
    Admitted .time args ∨ Overlooked .time args := by
  cases args with
  | nil => exact .inl ⟨[], by decide, .nil⟩
  | cons format rest =>
      cases rest with
      | nil =>
          obtain ⟨hstring, -⟩ := require_bind_ne_failed_iff.mp hrun
          exact .inl ⟨[.string], by decide, .cons hstring .nil⟩
      | cons second rest => exact .inr .time

theorem admitted_arrayFunc {call : String → List Json → Call Json}
    (hrun : arrayFunc call args ≠ .failed) :
    Admitted .arrayFunc args ∨ Unchecked .arrayFunc args := by
  obtain ⟨hcheck, hrun⟩ := require_bind_ne_failed_iff.mp hrun
  simp only [parameterCheck_cons, parameterCheck_nil, getType_eq_array] at hcheck
  obtain ⟨_, _, rfl, ⟨elements, rfl⟩, _, _, rfl, ⟨values, rfl⟩, rfl⟩ := hcheck
  cases elements with
  | nil => exact .inl ⟨[.empty, .array], by decide, .cons rfl (.cons rfl .nil)⟩
  | cons element rest =>
      by_cases hlength : values.length = 2
      · cases hnested : nestedCall values with
        | none =>
            simp only [position, getArray, List.getElem?_cons_zero, ok_bind,
              Checked.traverse, arrayFuncElement_eq, hnested, hlength, ne_eq,
              not_true_eq_false, if_false, failed_bind] at hrun
        | some entry =>
            obtain ⟨name, rfl, -⟩ := nestedCall_eq_some.mp hnested
            exact .inl ⟨[.array, .call], by decide, .cons rfl (.cons rfl .nil)⟩
      · exact .inr (.arrayFunc (by simp) hlength)

theorem admitted_normalized {call : String → List Json → Call Json}
    (hrun : normalized call args ≠ .failed) : Admitted .normalized args := by
  obtain ⟨hcheck, hrun⟩ := require_bind_ne_failed_iff.mp hrun
  simp only [parameterCheck_cons, parameterCheck_nil, getType_eq_array,
    getType_eq_string] at hcheck
  obtain ⟨_, _, rfl, ⟨elements, rfl⟩, _, _, rfl, ⟨path, rfl⟩, _, _, rfl,
    ⟨contain, rfl⟩, _, _, rfl, ⟨replace, rfl⟩, rfl⟩ := hcheck
  cases elements with
  | nil =>
      exact ⟨[.empty, .string, .array, .array], by decide,
        .cons rfl (.cons rfl (.cons rfl (.cons rfl .nil)))⟩
  | cons element rest =>
      cases hnested : nestedCall contain with
      | none =>
          have hfailed : normalizeElement call (cStr path) contain replace element =
              .failed := by
            unfold normalizeElement
            split
            · rw [callOn_eq, hnested]
              rfl
            · rfl
          simp only [position, getArray, getString, List.getElem?_cons_zero,
            List.getElem?_cons_succ, ok_bind, Checked.traverse, hfailed,
            failed_bind] at hrun
          exact absurd rfl hrun
      | some entry =>
          obtain ⟨name, rfl, -⟩ := nestedCall_eq_some.mp hnested
          exact ⟨[.array, .string, .call, .array], by decide,
            .cons rfl (.cons rfl (.cons rfl (.cons rfl .nil)))⟩

theorem admitted_randStr {host : Host} (hrun : randStr host args ≠ .failed) :
    Admitted .randStr args ∨ Unchecked .randStr args := by
  obtain ⟨hcheck, -⟩ := require_bind_ne_failed_iff.mp hrun
  simp only [parameterCheck_cons, parameterCheck_nil, getType_eq_number] at hcheck
  obtain ⟨_, _, rfl, ⟨length, rfl⟩, rfl⟩ := hcheck
  cases hint : isInt (.number length) with
  | true => exact .inl ⟨_, List.mem_singleton_self _, .cons hint .nil⟩
  | false => exact .inr (.nonce hint)

theorem admitted_strFind (hrun : strFind args ≠ .failed) :
    Admitted .strFind args ∨ Unchecked .strFind args := by
  obtain ⟨hcheck, -⟩ := require_bind_ne_failed_iff.mp hrun
  obtain ⟨input, target, rest, rfl, hrest⟩ := strFind_shape hcheck
  rcases hrest with rfl | ⟨pos, reverse, rfl, hreverse⟩
  · exact .inl ⟨[.string, .string], by decide, .cons rfl (.cons rfl .nil)⟩
  · cases hint : isInt (.number pos) with
    | false => exact .inr (.strFind hreverse hint)
    | true =>
        rcases hreverse with rfl | ⟨value, rfl⟩
        · exact .inl ⟨[.string, .string, .int], by decide,
            .cons rfl (.cons rfl (.cons hint .nil))⟩
        · exact .inl ⟨[.string, .string, .int, .bool], by decide,
            .cons rfl (.cons rfl (.cons hint
              (.cons (isBool_iff.mpr ⟨value, rfl⟩) .nil)))⟩

theorem admitted_strSplit {host : Host} (hrun : strSplit host args ≠ .failed) :
    Admitted .strSplit args := by
  obtain ⟨hcheck, -⟩ := require_bind_ne_failed_iff.mp hrun
  rcases Bool.or_eq_true_iff.mp hcheck with hcheck | hcheck
  · exact ⟨[.string, .string], by decide, fits_of_parameterCheck hcheck⟩
  · exact ⟨[.string], by decide, fits_of_parameterCheck hcheck⟩

theorem admitted_strSlice (hrun : strSlice args ≠ .failed) :
    Admitted .strSlice args ∨ Overlooked .strSlice args := by
  obtain ⟨hcheck, hrun⟩ := require_bind_ne_failed_iff.mp hrun
  simp only [Bool.or_eq_true, parameterCheck_cons, parameterCheck_nil,
    getType_eq_string, getType_eq_number] at hcheck
  rcases hcheck with ⟨_, _, rfl, ⟨input, rfl⟩, _, _, rfl, ⟨index, rfl⟩, _, _, rfl,
    ⟨last, rfl⟩, rfl⟩ | ⟨_, _, rfl, ⟨input, rfl⟩, _, _, rfl, ⟨index, rfl⟩, rfl⟩
  · obtain ⟨hindex, -⟩ := require_bind_ne_failed_iff.mp hrun
    cases hlast : isInt (.number last) with
    | true =>
        exact .inl ⟨[.string, .int, .int], by decide,
          .cons rfl (.cons hindex (.cons hlast .nil))⟩
    | false => exact .inr (.strSlice hindex hlast)
  · obtain ⟨hindex, -⟩ := require_bind_ne_failed_iff.mp hrun
    exact .inl ⟨[.string, .int], by decide, .cons rfl (.cons hindex .nil)⟩

theorem requiredMember_ne_failed {members : JsonMembers} {name : String}
    {ofType : Json → Bool} {next : Json → Call Json}
    (hrun : (requiredMember members name ofType >>= next) ≠ .failed) :
    hasMember members name ofType = true ∧
      ∃ value, ofType value = true ∧ next value ≠ .failed := by
  unfold requiredMember at hrun
  unfold hasMember
  cases hvalue : members.lookup name with
  | none =>
      rw [hvalue] at hrun
      exact absurd rfl hrun
  | some value =>
      rw [hvalue] at hrun
      cases htype : ofType value with
      | true =>
          simp only [htype] at hrun
          exact ⟨htype, value, htype, hrun⟩
      | false =>
          simp only [htype] at hrun
          exact absurd rfl hrun

theorem fits_sliceArgs {host : Host} {members : JsonMembers} {elements : List Json}
    (hrun : sliceByKeys host members elements ≠ .failed) :
    Shape.sliceArgs.fits (.object members) = true := by
  obtain ⟨hmethod, value, htype, hrun⟩ := requiredMember_ne_failed hrun
  obtain ⟨method, rfl⟩ := isString_iff.mp htype
  obtain ⟨hpath, value, htype, hrun⟩ := requiredMember_ne_failed hrun
  obtain ⟨path, rfl⟩ := isString_iff.mp htype
  obtain ⟨hkeys, -⟩ := requiredMember_ne_failed hrun
  rw [Shape.fits, hmethod, hpath, hkeys]
  rfl

section Equations

variable {elements rest : List Json}

theorem arraySlice_ints_eq (host : Host) (indexes : List Json) :
    arraySlice host (.array elements :: .array indexes :: rest) = (do
      let indexToMv ← Checked.traverse getInt indexes
      .ok (.array (removeIndexes indexToMv elements))) := by
  have htwo : ¬ (Json.array elements :: .array indexes :: rest).length < 2 := by simp
  rw [arraySlice]
  simp only [position, List.getElem?_cons_zero, List.getElem?_cons_succ, ok_bind,
    getArray, if_neg htwo]
  rfl

theorem arraySlice_object_eq (host : Host) (members : JsonMembers) :
    arraySlice host (.array elements :: .object members :: rest) =
      sliceByKeys host members elements := by
  have htwo : ¬ (Json.array elements :: .object members :: rest).length < 2 := by simp
  rw [arraySlice]
  simp only [position, List.getElem?_cons_zero, List.getElem?_cons_succ, ok_bind,
    getArray, if_neg htwo]
  rfl

theorem arraySlice_int_eq (host : Host) {index : Int} (hindex : fitsInt index = true)
    (last : Json) :
    arraySlice host (.array elements :: .number (.int index) :: last :: rest) = (do
      let start ← reverseIndex index (asInt elements.length)
      require (isInt last)
      let last ← reverseIndex (← getInt last) (asInt elements.length)
      window start last elements) := by
  have htwo : ¬ (Json.array elements :: .number (.int index) :: last :: rest).length < 2 := by
    simp
  have hthree :
      ¬ (Json.array elements :: .number (.int index) :: last :: rest).length < 3 := by
    simp
  rw [arraySlice]
  simp only [position, List.getElem?_cons_zero, List.getElem?_cons_succ, ok_bind,
    getArray, if_neg htwo, if_neg hthree, isInt, getInt, hindex]
  rfl

theorem arraySlice_other_eq (host : Host) {second : Json}
    (harray : isArray second = false) (hobject : second.isObject = false)
    (hint : isInt second = false) :
    arraySlice host (.array elements :: second :: rest) = .failed := by
  have htwo : ¬ (Json.array elements :: second :: rest).length < 2 := by simp
  rw [arraySlice]
  simp only [position, List.getElem?_cons_zero, List.getElem?_cons_succ, ok_bind,
    getArray, if_neg htwo]
  cases second with
  | array | object => contradiction
  | null | bool | number | string =>
      simp only [hint]
      rfl

end Equations

/-- Two arguments, and what is behind them. -/
theorem admitted_arraySlice_two {elements rest : List Json} {second : Json}
    (hsecond : Shape.ints.fits second = true ∨ Shape.sliceArgs.fits second = true) :
    Admitted .arraySlice (.array elements :: second :: rest) ∨
      Overlooked .arraySlice (.array elements :: second :: rest) := by
  cases rest with
  | nil =>
      apply Or.inl
      rcases hsecond with hints | hsliceArgs
      · exact ⟨[.array, .ints], by decide, .cons rfl (.cons hints .nil)⟩
      · exact ⟨[.array, .sliceArgs], by decide, .cons rfl (.cons hsliceArgs .nil)⟩
  | cons third rest => exact .inr (.arraySliceTwo hsecond)

theorem reverseIndex_eq_undefined {index size : Int} (hnegative : index < 0)
    (hsum : fitsInt (index + size) = false) : reverseIndex index size = .undefined := by
  simp only [reverseIndex, if_pos hnegative, hsum]
  rfl

theorem reverseIndex_cases {index : Int} (hindex : fitsInt index = true) (size : Int) :
    (∃ start, reverseIndex index size = .ok start) ∨
      index < 0 ∧ fitsInt (index + size) = false := by
  unfold reverseIndex
  by_cases hnegative : index < 0
  · cases hsum : fitsInt (index + size) with
    | false => exact .inr ⟨hnegative, rfl⟩
    | true =>
        simp only [if_pos hnegative, hsum]
        exact .inl ⟨_, rfl⟩
  · simp only [if_neg hnegative, hindex]
    exact .inl ⟨_, rfl⟩

theorem admitted_arraySlice_int {host : Host} {elements rest : List Json} {index : Int}
    (hindex : isInt (.number (.int index)) = true)
    (hrun : arraySlice host (.array elements :: .number (.int index) :: rest) ≠ .failed) :
    Admitted .arraySlice (.array elements :: .number (.int index) :: rest) ∨
      Overlooked .arraySlice (.array elements :: .number (.int index) :: rest) := by
  cases rest with
  | nil =>
      exact .inl ⟨[.array, .int], by decide, .cons rfl (.cons hindex .nil)⟩
  | cons last rest =>
      cases hlast : isInt last with
      | true =>
          cases rest with
          | nil =>
              exact .inl ⟨[.array, .int, .int], by decide,
                .cons rfl (.cons hindex (.cons hlast .nil))⟩
          | cons fourth rest => exact .inr (.arraySliceThree hindex hlast)
      | false =>
          have hfits : fitsInt index = true := hindex
          rcases reverseIndex_cases hfits (asInt elements.length) with
            ⟨start, hstart⟩ | ⟨hnegative, hsum⟩
          · rw [arraySlice_int_eq host hfits, hstart, hlast] at hrun
            exact absurd rfl hrun
          · exact .inr (.arraySliceOverflow hfits hnegative hsum hlast)

theorem admitted_arraySlice {host : Host} (hrun : arraySlice host args ≠ .failed) :
    Admitted .arraySlice args ∨ Unchecked .arraySlice args ∨
      Overlooked .arraySlice args := by
  cases args with
  | nil => exact .inr (.inl .sliceNothing)
  | cons json rest =>
      obtain ⟨harray, -⟩ := require_bind_ne_failed_iff.mp hrun
      obtain ⟨elements, rfl⟩ := isArray_iff.mp harray
      cases rest with
      | nil => exact .inl ⟨[.array], by decide, .cons rfl .nil⟩
      | cons second rest =>
          cases harray : isArray second with
          | true =>
              obtain ⟨indexes, rfl⟩ := isArray_iff.mp harray
              cases hints : indexes.all isInt with
              | true =>
                  have hsecond : Shape.ints.fits (.array indexes) = true := hints
                  exact (admitted_arraySlice_two (.inl hsecond)).imp_right .inr
              | false =>
                  obtain ⟨index, hindex, htype⟩ := List.all_eq_false.mp hints
                  exact .inr (.inl (.slice hindex (Bool.not_eq_true _ ▸ htype)))
          | false =>
              cases hint : isInt second with
              | true =>
                  obtain ⟨index, rfl, -⟩ := isInt_iff.mp hint
                  exact (admitted_arraySlice_int hint hrun).imp_right .inr
              | false =>
                  cases hobject : second.isObject with
                  | false => exact absurd (arraySlice_other_eq host harray hobject hint) hrun
                  | true =>
                      obtain ⟨members, rfl⟩ := Json.isObject_iff.mp hobject
                      rw [arraySlice_object_eq] at hrun
                      exact (admitted_arraySlice_two (.inr (fits_sliceArgs hrun))).imp_right
                        .inr

/-- A call that does not end in -1 is admitted, makes a fault or is overlooked. -/
theorem Builtin.admitted_or (builtin : Builtin) (host : Host)
    {call : String → List Json → Call Json} (hrun : builtin.run host call args ≠ .failed) :
    Admitted builtin args ∨ Unchecked builtin args ∨ Overlooked builtin args := by
  cases builtin with
  | arraySlice => exact admitted_arraySlice hrun
  | arrayFunc => exact (admitted_arrayFunc hrun).imp_right .inl
  | randStr => exact (admitted_randStr hrun).imp_right .inl
  | strFind => exact (admitted_strFind hrun).imp_right .inl
  | intValue => exact (admitted_intValue hrun).imp_right .inr
  | sha1Hash => exact (admitted_sha1Hash hrun).imp_right .inr
  | time => exact (admitted_time hrun).imp_right .inr
  | strSlice => exact (admitted_strSlice hrun).imp_right .inr
  | getValueByPath => exact .inl (admitted_getValueByPath hrun)
  | setValueByPath => exact .inl (admitted_setValueByPath hrun)
  | forEachGetByPath => exact .inl (admitted_forEachGetByPath hrun)
  | getSubStr => exact .inl (admitted_getSubStr hrun)
  | normalized => exact .inl (admitted_normalized hrun)
  | hasKey => exact .inl (admitted_hasKey hrun)
  | hmacSha1 => exact .inl (admitted_hmacSha1 hrun)
  | strSplit => exact .inl (admitted_strSplit hrun)
  | jsonEncode => exact .inl (admitted_one hrun (.head _) fun _ _ => rfl)
  | boolValue => exact .inl (admitted_one hrun (.head _) fun _ _ => rfl)
  | jsonDecode =>
      exact .inl (admitted_one hrun (.head _)
        fun _ hnext => (require_bind_ne_failed_iff.mp hnext).1)
  | arrayLength =>
      exact .inl (admitted_one hrun (.head _)
        fun _ hnext => (require_bind_ne_failed_iff.mp hnext).1)
  | md5Hash =>
      exact .inl (admitted_one hrun (.head _)
        fun _ hnext => (require_bind_ne_failed_iff.mp hnext).1)
  | getIndexByKey => exact .inl (admitted_of_check hrun (.head _))
  | forEachSetByPath => exact .inl (admitted_of_check hrun (.head _))
  | replaceValueByPathAndDict => exact .inl (admitted_of_check hrun (.head _))
  | stringContain => exact .inl (admitted_of_check hrun (.head _))
  | replaceAll => exact .inl (admitted_of_check hrun (.head _))
  | base64Encode => exact .inl (admitted_of_check hrun (.head _))
  | queryEncode => exact .inl (admitted_of_check hrun (.head _))
  | arrayJoin => exact .inl (admitted_of_check hrun (.head _))
  | strLength => exact .inl (admitted_of_check hrun (.head _))

end Admitted

section Overlooked

variable {args : List Json}

theorem isInt_eq_false_of_fits {value : Json}
    (hfits : Shape.ints.fits value = true ∨ Shape.sliceArgs.fits value = true) :
    isInt value = false := by
  rcases hfits with hints | hsliceArgs
  · cases value with
    | array => rfl
    | null | bool | number | string | object => cases hints
  · cases value with
    | object => rfl
    | null | bool | number | string | array => cases hsliceArgs

/-- Three arguments or more, for which `slice` needs two indexes. -/
theorem ints_of_admitted {elements rest : List Json} {second third : Json}
    (hadmitted : Admitted .arraySlice (.array elements :: second :: third :: rest)) :
    isInt second = true ∧ isInt third = true ∧ rest = [] := by
  obtain ⟨signature, hmem, hfits⟩ := hadmitted
  have hlength := hfits.length_eq
  simp only [Builtin.signatures, List.mem_cons, List.not_mem_nil, or_false] at hmem
  rcases hmem with rfl | rfl | rfl | rfl | rfl
  · cases hlength
  · cases hlength
  · simp only [List.forall₂_cons, List.forall₂_nil_left_iff] at hfits
    exact hfits.2
  · cases hlength
  · cases hlength

theorem Overlooked.not_admitted {builtin : Builtin} (hover : Overlooked builtin args) :
    ¬ Admitted builtin args := by
  intro hadmitted
  cases hover with
  | @intValue value hbool hstring =>
      obtain ⟨signature, hmem, hfits⟩ := hadmitted
      simp only [Builtin.signatures, List.mem_cons, List.not_mem_nil, or_false] at hmem
      rcases hmem with rfl | rfl
      · obtain ⟨hvalue, -⟩ := List.forall₂_cons.mp hfits
        exact absurd (hbool.symm.trans hvalue) Bool.false_ne_true
      · obtain ⟨hvalue, -⟩ := List.forall₂_cons.mp hfits
        exact absurd (hstring.symm.trans hvalue) Bool.false_ne_true
  | @strSlice input index last hindex hlast =>
      obtain ⟨signature, hmem, hfits⟩ := hadmitted
      have hlength := hfits.length_eq
      simp only [Builtin.signatures, List.mem_cons, List.not_mem_nil, or_false] at hmem
      rcases hmem with rfl | rfl
      · cases hlength
      · simp only [List.forall₂_cons] at hfits
        exact absurd (hlast.symm.trans hfits.2.2.1) Bool.false_ne_true
  | sha1Hash =>
      obtain ⟨signature, hmem, hfits⟩ := hadmitted
      rw [List.mem_singleton.mp hmem] at hfits
      cases hfits.length_eq
  | time =>
      obtain ⟨signature, hmem, hfits⟩ := hadmitted
      have hlength := hfits.length_eq
      simp only [Builtin.signatures, List.mem_cons, List.not_mem_nil, or_false] at hmem
      rcases hmem with rfl | rfl <;> cases hlength
  | arraySliceOverflow hindex hnegative hsum hlast =>
      obtain ⟨-, hint, -⟩ := ints_of_admitted hadmitted
      exact absurd (hlast.symm.trans hint) Bool.false_ne_true
  | arraySliceThree hindex hlast =>
      obtain ⟨-, -, hrest⟩ := ints_of_admitted hadmitted
      cases hrest
  | arraySliceTwo hsecond =>
      obtain ⟨hint, -⟩ := ints_of_admitted hadmitted
      exact absurd ((isInt_eq_false_of_fits hsecond).symm.trans hint) Bool.false_ne_true

theorem reverseIndex_ne_failed (index size : Int) :
    reverseIndex index size ≠ .failed := by
  unfold reverseIndex
  generalize (if index < 0 then index + size else index) = sum
  simp only
  split
  · exact fun heq => by cases heq
  · exact ok_ne_failed _

theorem getInt_ne_failed (value : Json) : getInt value ≠ .failed := by
  unfold getInt
  split
  · split
    · exact ok_ne_failed _
    · exact fun heq => by cases heq
  · exact fun heq => by cases heq

theorem window_ne_failed (start last : Int) (elements : List Json) :
    window start last elements ≠ .failed := by
  unfold window
  split
  · exact fun heq => by cases heq
  · exact ok_ne_failed _

theorem requiredMember_of_hasMember {members : JsonMembers} {name : String}
    {ofType : Json → Bool} (hmember : hasMember members name ofType = true) :
    ∃ value, requiredMember members name ofType = .ok value ∧ ofType value = true := by
  unfold hasMember at hmember
  unfold requiredMember
  cases hvalue : members.lookup name with
  | none =>
      rw [hvalue] at hmember
      cases hmember
  | some value =>
      rw [hvalue] at hmember
      have htype : ofType value = true := hmember
      refine ⟨value, ?_, htype⟩
      simp only [htype]
      rfl

theorem sliceByKeys_ne_failed {host : Host} {members : JsonMembers}
    {elements : List Json} (hfits : Shape.sliceArgs.fits (.object members) = true) :
    sliceByKeys host members elements ≠ .failed := by
  simp only [Shape.fits, Bool.and_eq_true] at hfits
  obtain ⟨⟨hmethod, hpath⟩, hkeys⟩ := hfits
  obtain ⟨method, hmethod, htype⟩ := requiredMember_of_hasMember hmethod
  obtain ⟨method, rfl⟩ := isString_iff.mp htype
  obtain ⟨path, hpath, htype⟩ := requiredMember_of_hasMember hpath
  obtain ⟨path, rfl⟩ := isString_iff.mp htype
  obtain ⟨keys, hkeys, htype⟩ := requiredMember_of_hasMember hkeys
  obtain ⟨keys, rfl⟩ := isArray_iff.mp htype
  simp only [sliceByKeys, hmethod, hpath, hkeys, ok_bind, getString, getArray]
  exact ok_ne_failed _

theorem Overlooked.run_ne_failed {builtin : Builtin} (hover : Overlooked builtin args)
    (host : Host) (call : String → List Json → Call Json) :
    builtin.run host call args ≠ .failed := by
  cases hover with
  | @intValue value hbool hstring =>
      cases value with
      | bool => exact absurd hbool (by simp [isBool_iff])
      | string => cases hstring
      | null | number | array | object => exact ok_ne_failed _
  | @strSlice input index last hindex hlast =>
      obtain ⟨index, rfl, hfits⟩ := isInt_iff.mp hindex
      refine require_bind_ne_failed_iff.mpr ⟨rfl, ?_⟩
      simp only [position, getString, getInt, List.getElem?_cons_zero,
        List.getElem?_cons_succ, ok_bind, hindex, require_true, if_pos hfits]
      apply bind_ne_failed (reverseIndex_ne_failed _ _)
      intro start _
      simp only [hlast]
      exact ok_ne_failed _
  | sha1Hash => exact ok_ne_failed _
  | time => exact ok_ne_failed _
  | @arraySliceOverflow elements rest index last hindex hnegative hsum hlast =>
      rw [Builtin.run, arraySlice_int_eq host hindex,
        reverseIndex_eq_undefined hnegative hsum]
      exact fun heq => by cases heq
  | @arraySliceThree elements rest index last fourth hindex hlast =>
      obtain ⟨index, rfl, hfits⟩ := isInt_iff.mp hindex
      rw [Builtin.run, arraySlice_int_eq host hfits, hlast]
      apply bind_ne_failed (reverseIndex_ne_failed _ _)
      intro start _
      apply bind_ne_failed (ok_ne_failed _)
      intro _ _
      apply bind_ne_failed (getInt_ne_failed _)
      intro last _
      apply bind_ne_failed (reverseIndex_ne_failed _ _)
      intro last _
      exact window_ne_failed _ _ _
  | @arraySliceTwo elements rest second third hsecond =>
      rcases hsecond with hints | hsliceArgs
      · cases second with
        | array indexes =>
            rw [Builtin.run, arraySlice_ints_eq]
            apply bind_ne_failed (traverse_ne_failed fun index _ => getInt_ne_failed index)
            intro _ _
            exact ok_ne_failed _
        | null | bool | number | string | object => cases hints
      · cases second with
        | object members =>
            rw [Builtin.run, arraySlice_object_eq]
            exact sliceByKeys_ne_failed hsliceArgs
        | null | bool | number | string | array => cases hsliceArgs

end Overlooked

end Uskit.Function
