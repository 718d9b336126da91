import Uskit.Function.FunctionManager

namespace Uskit.Function

open Uskit.Data Checked

/-! The functions whose checks cover all that they read. -/

/-! The accessors make no fault on what the checks let through. -/

section Rules

variable {value : Json}

theorem not_faults_position {args : List Json} {index : Nat}
    (hindex : index < args.length) : ¬ (position args index).Faults := by
  rw [position, List.getElem?_eq_getElem hindex]
  exact not_faults_ok _

theorem not_faults_getString (hstring : isString value = true) :
    ¬ (getString value).Faults := by
  obtain ⟨text, rfl⟩ := isString_iff.mp hstring
  exact not_faults_ok _

theorem not_faults_getArray (harray : isArray value = true) :
    ¬ (getArray value).Faults := by
  obtain ⟨elements, rfl⟩ := isArray_iff.mp harray
  exact not_faults_ok _

theorem not_faults_getBool (hbool : isBool value = true) :
    ¬ (getBool value).Faults := by
  obtain ⟨truth, rfl⟩ := isBool_iff.mp hbool
  exact not_faults_ok _

theorem not_faults_getInt (hint : isInt value = true) : ¬ (getInt value).Faults := by
  obtain ⟨number, rfl, hfits⟩ := isInt_iff.mp hint
  rw [getInt, if_pos hfits]
  exact not_faults_ok _

theorem faults_getInt_iff : (getInt value).Faults ↔ isInt value = false := by
  constructor
  · intro hfault
    rw [← Bool.not_eq_true]
    exact fun hint => not_faults_getInt hint hfault
  · intro hint
    cases value with
    | number number =>
        cases number with
        | int number =>
            have hfits : ¬ fitsInt number = true := by
              rw [isInt] at hint
              simp [hint]
            rw [getInt, if_neg hfits]
            exact faults_fault _
        | double number => exact faults_fault _
    | null | bool | string | array | object => exact faults_fault _

/-- The check for an exact number of arguments. -/
theorem not_faults_requireLength {args : List Json} {count : Nat} {next : Unit → Call α}
    (hnext : args.length = count → ¬ (next ()).Faults) :
    ¬ (require (args.length == count) >>= next).Faults :=
  not_faults_require fun hlength => hnext (beq_iff_eq.mp hlength)

/-- An argument that is checked to be a string and read as one. -/
theorem not_faults_readString {args : List Json} {index : Nat}
    {next : Json → String → Call α} (hindex : index < args.length)
    (hnext : ∀ value text, ¬ (next value text).Faults) :
    ¬ (do
      let value ← position args index
      require (isString value)
      let text ← getString value
      next value text : Call α).Faults := by
  apply not_faults_bind (not_faults_position hindex)
  intro value _
  apply not_faults_require
  intro hstring
  apply not_faults_bind (not_faults_getString hstring)
  intro text _
  exact hnext value text

end Rules

section Safe

variable (host : Host) (args : List Json)

theorem not_faults_getValueByPath : ¬ (getValueByPath args).Faults := by
  apply not_faults_require
  intro hlength
  have hlength : args.length = 2 ∨ args.length = 3 := by simpa using hlength
  apply not_faults_bind (not_faults_position (by omega))
  intro json _
  apply not_faults_require
  intro _
  apply not_faults_readString (by omega)
  intro _ path
  split
  · exact not_faults_ok _
  · split
    · exact not_faults_ok _
    · exact not_faults_position (by omega)

theorem not_faults_setValueByPath : ¬ (setValueByPath args).Faults := by
  apply not_faults_requireLength
  intro hlength
  apply not_faults_bind (not_faults_position (by omega))
  intro json _
  apply not_faults_require
  intro _
  apply not_faults_readString (by omega)
  intro _ path
  apply not_faults_bind (not_faults_position (by omega))
  intro value _
  apply not_faults_require
  intro _
  exact not_faults_ok _

theorem not_faults_forEachSetByPath : ¬ (forEachSetByPath args).Faults := by
  apply not_faults_require
  intro hcheck
  simp only [parameterCheck_cons, parameterCheck_nil, getType_eq_array,
    getType_eq_string] at hcheck
  obtain ⟨_, _, rfl, ⟨elements, rfl⟩, _, _, rfl, ⟨path, rfl⟩, _, _, rfl,
    ⟨values, rfl⟩, rfl⟩ := hcheck
  simp only [position, getArray, getString, List.getElem?_cons_zero,
    List.getElem?_cons_succ, ok_bind]
  apply not_faults_require
  intro _
  exact not_faults_ok _

theorem not_faults_stringContain : ¬ (stringContain args).Faults := by
  apply not_faults_require
  intro hcheck
  simp only [parameterCheck_cons, parameterCheck_nil, getType_eq_string] at hcheck
  obtain ⟨_, _, rfl, ⟨source, rfl⟩, _, _, rfl, ⟨target, rfl⟩, rfl⟩ := hcheck
  simp [position, getString]

theorem not_faults_optionalBool (index : Nat) :
    ¬ (optionalBool args index).Faults := by
  unfold optionalBool
  split
  · exact not_faults_ok _
  · apply not_faults_bind (not_faults_position (by omega))
    intro value _
    apply not_faults_require
    intro hbool
    exact not_faults_getBool hbool

theorem not_faults_getSubStr : ¬ (getSubStr args).Faults := by
  apply not_faults_require
  intro hlength
  have hlength : (args.length = 2 ∨ args.length = 3) ∨ args.length = 4 := by
    simpa using hlength
  apply not_faults_bind (not_faults_position (by omega))
  intro source _
  apply not_faults_require
  intro hsource
  apply not_faults_bind (not_faults_position (by omega))
  intro target _
  apply not_faults_require
  intro htarget
  apply not_faults_bind (not_faults_optionalBool args 2)
  intro isContain _
  apply not_faults_bind (not_faults_optionalBool args 3)
  intro isReverse _
  apply not_faults_bind (not_faults_getString hsource)
  intro source _
  apply not_faults_bind (not_faults_getString htarget)
  intro target _
  split
  · apply not_faults_bind (not_faults_substr _ _ _)
    intro text _
    exact not_faults_ok _
  · exact not_faults_ok _

theorem not_faults_forEachGetByPath : ¬ (forEachGetByPath args).Faults := by
  apply not_faults_require
  intro hlength
  have hlength : args.length = 2 ∨ args.length = 3 := by simpa using hlength
  apply not_faults_bind (not_faults_position (by omega))
  intro json _
  apply not_faults_require
  intro harray
  apply not_faults_readString (by omega)
  intro _ path
  apply not_faults_bind (not_faults_getArray harray)
  intro elements _
  simp only
  split
  · exact not_faults_ok _
  · apply not_faults_bind (not_faults_position (by omega))
    intro default _
    exact not_faults_ok _

theorem not_faults_jsonEncode : ¬ (jsonEncode host args).Faults := by
  apply not_faults_requireLength
  intro hlength
  apply not_faults_bind (not_faults_position (by omega))
  intro value _
  exact not_faults_ok _

theorem not_faults_jsonDecode : ¬ (jsonDecode host args).Faults := by
  apply not_faults_requireLength
  intro hlength
  apply not_faults_readString (by omega)
  intro _ text
  split
  · exact not_faults_ok _
  · exact not_faults_failed

theorem not_faults_replaceAll : ¬ (replaceAll args).Faults := by
  apply not_faults_require
  intro hcheck
  simp only [parameterCheck_cons, parameterCheck_nil, getType_eq_string] at hcheck
  obtain ⟨_, _, rfl, ⟨source, rfl⟩, _, _, rfl, ⟨old, rfl⟩, _, _, rfl, ⟨new, rfl⟩,
    rfl⟩ := hcheck
  simp only [position, getString, List.getElem?_cons_zero, List.getElem?_cons_succ,
    ok_bind]
  split
  · exact not_faults_ok _
  · exact not_faults_undefined

theorem not_faults_hasKey : ¬ (hasKey args).Faults := by
  apply not_faults_requireLength
  intro hlength
  apply not_faults_bind (not_faults_position (by omega))
  intro json _
  apply not_faults_bind (not_faults_position (by omega))
  intro key _
  split
  · apply not_faults_require
    intro hstring
    apply not_faults_bind (not_faults_getString hstring)
    intro name _
    exact not_faults_ok _
  · exact not_faults_ok _
  · exact not_faults_failed

theorem not_faults_arrayLength : ¬ (arrayLength args).Faults := by
  apply not_faults_requireLength
  intro hlength
  apply not_faults_bind (not_faults_position (by omega))
  intro json _
  apply not_faults_require
  intro harray
  apply not_faults_bind (not_faults_getArray harray)
  intro elements _
  exact not_faults_ok _

theorem not_faults_intValue : ¬ (intValue args).Faults := by
  apply not_faults_requireLength
  intro hlength
  apply not_faults_bind (not_faults_position (by omega))
  intro value _
  split
  · exact not_faults_ok _
  · split
    · exact not_faults_ok _
    · exact not_faults_failed
  · exact not_faults_ok _

theorem not_faults_boolValue : ¬ (boolValue args).Faults := by
  apply not_faults_requireLength
  intro hlength
  apply not_faults_bind (not_faults_position (by omega))
  intro value _
  cases value with
  | null | bool | number | string | array | object => exact not_faults_ok _

/-- A digest of the first argument, which is there. -/
theorem not_faults_digest (type : Digest) (hlength : 0 < args.length) :
    ¬ (do
      let value ← position args 0
      require (isString value)
      let rawStr ← getString value
      .ok (.string (digestFromChar host type rawStr)) : Call Json).Faults := by
  apply not_faults_readString hlength
  intro _ rawStr
  exact not_faults_ok _

theorem not_faults_md5Hash : ¬ (md5Hash host args).Faults := by
  apply not_faults_requireLength
  intro hlength
  exact not_faults_digest host args .md5 (by omega)

theorem not_faults_sha1Hash : ¬ (sha1Hash host args).Faults := by
  apply not_faults_require
  intro hlength
  exact not_faults_digest host args .sha1 (of_decide_eq_true hlength)

theorem not_faults_time : ¬ (time host args).Faults := by
  unfold time
  split
  · rename_i hlength
    apply not_faults_readString (by omega)
    intro _ format
    split
    · exact not_faults_ok _
    · exact not_faults_undefined
  · exact not_faults_ok _

theorem not_faults_hmacSha1 : ¬ (hmacSha1 host args).Faults := by
  apply not_faults_requireLength
  intro hlength
  apply not_faults_bind (not_faults_position (by omega))
  intro data _
  apply not_faults_bind (not_faults_position (by omega))
  intro key _
  apply not_faults_require
  intro hstrings
  rw [Bool.and_eq_true] at hstrings
  apply not_faults_bind (not_faults_position (by omega))
  intro isSha1 _
  apply not_faults_require
  intro hbool
  apply not_faults_bind (not_faults_getString hstrings.2)
  intro key _
  apply not_faults_bind (not_faults_getString hstrings.1)
  intro data _
  apply not_faults_bind (not_faults_getBool hbool)
  intro isSha1 _
  split
  · exact not_faults_ok _
  · exact not_faults_ok _

/-- The checks for a string as the only argument. -/
theorem not_faults_oneString {next : String → Call Json}
    (hnext : ∀ text, ¬ (next text).Faults) :
    ¬ (do
      require (parameterCheck args [.string])
      let text ← getString (← position args 0)
      next text : Call Json).Faults := by
  apply not_faults_require
  intro hcheck
  simp only [parameterCheck_cons, parameterCheck_nil, getType_eq_string] at hcheck
  obtain ⟨_, _, rfl, ⟨text, rfl⟩, rfl⟩ := hcheck
  exact hnext (cStr text)

theorem not_faults_base64Encode : ¬ (base64Encode host args).Faults :=
  not_faults_oneString args fun _ => not_faults_ok _

theorem not_faults_strLength : ¬ (strLength args).Faults :=
  not_faults_oneString args fun _ => not_faults_ok _

theorem not_faults_queryEncode : ¬ (queryEncode host args).Faults := by
  apply not_faults_oneString args
  intro source
  split
  · exact not_faults_ok _
  · exact not_faults_undefined

theorem not_faults_strSplit : ¬ (strSplit host args).Faults := by
  apply not_faults_require
  intro hcheck
  simp only [Bool.or_eq_true, parameterCheck_cons, parameterCheck_nil,
    getType_eq_string] at hcheck
  rcases hcheck with ⟨_, _, rfl, ⟨text, rfl⟩, _, _, rfl, ⟨delimiter, rfl⟩, rfl⟩ |
    ⟨_, _, rfl, ⟨text, rfl⟩, rfl⟩
  · simp [position, getString]
  · simp [position, getString]

theorem not_faults_strSlice : ¬ (strSlice args).Faults := by
  apply not_faults_require
  intro hcheck
  have hshape : ∃ input index rest, args = .string input :: index :: rest ∧
      (rest = [] ∨ ∃ last, rest = [last]) := by
    simp only [Bool.or_eq_true, parameterCheck_cons, parameterCheck_nil,
      getType_eq_string] at hcheck
    rcases hcheck with ⟨_, _, rfl, ⟨input, rfl⟩, index, _, rfl, -, last, _, rfl, -,
      rfl⟩ | ⟨_, _, rfl, ⟨input, rfl⟩, index, _, rfl, -, rfl⟩
    · exact ⟨input, index, [last], rfl, .inr ⟨last, rfl⟩⟩
    · exact ⟨input, index, [], rfl, .inl rfl⟩
  obtain ⟨input, index, rest, rfl, hrest⟩ := hshape
  simp only [position, getString, List.getElem?_cons_zero, List.getElem?_cons_succ,
    ok_bind]
  apply not_faults_require
  intro hint
  apply not_faults_bind (not_faults_getInt hint)
  intro number _
  apply not_faults_bind (not_faults_reverseIndex _ _)
  intro start _
  rcases hrest with rfl | ⟨last, rfl⟩
  · rw [if_pos (by simp)]
    apply not_faults_bind (not_faults_substr _ _ _)
    intro output _
    exact not_faults_ok _
  · rw [if_neg (by simp)]
    simp only [List.getElem?_cons_zero, ok_bind]
    split
    · rename_i hint
      apply not_faults_bind (not_faults_getInt hint)
      intro number _
      apply not_faults_bind (not_faults_reverseIndex _ _)
      intro last _
      apply not_faults_require
      intro _
      apply not_faults_bind (not_faults_substr _ _ _)
      intro output _
      exact not_faults_ok _
    · exact not_faults_ok _

theorem not_faults_arrayJoin : ¬ (arrayJoin host args).Faults := by
  apply not_faults_require
  intro hcheck
  simp only [parameterCheck_cons, parameterCheck_nil, getType_eq_array,
    getType_eq_string] at hcheck
  obtain ⟨_, _, rfl, ⟨items, rfl⟩, _, _, rfl, ⟨delimiter, rfl⟩, rfl⟩ := hcheck
  simp [position, getArray, getString]

end Safe

end Uskit.Function
