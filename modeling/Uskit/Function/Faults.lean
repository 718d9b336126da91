import Uskit.Function.ArgumentChecks

namespace Uskit.Function

open Uskit.Data Checked

/-! Which calls of the functions read an argument that is not there, dereference a
lookup that found nothing, or apply an accessor to a value of another type. -/

/-- The value at the path is a string, and the string is `key`. -/
def hasKeyAt (path key : String) (element : Json) : Bool :=
  match getValueByPointer element path with
  | some (.string text) => cStr text == key
  | _ => false

def hasStringAt (path : String) (element : Json) : Bool :=
  match getValueByPointer element path with
  | some value => isString value
  | none => false

/-- The calls that the checks of a function let through to a faulty step. -/
inductive Unchecked : Builtin → List Json → Prop
  /-- An element before the first match has no string at the path. -/
  | indexAt {before after : List Json} {element : Json} {path key : String}
      (hbefore : ∀ other ∈ before, hasKeyAt (cStr path) (cStr key) other = false)
      (helement : hasStringAt (cStr path) element = false) :
      Unchecked .getIndexByKey
        [.array (before ++ element :: after), .string path, .string key]
  /-- The dictionary maps the string of an element to another type. -/
  | translate {elements : List Json} {element value : Json} {path key : String}
      {dict : JsonMembers} (helement : element ∈ elements)
      (hkey : getValueByPointer element (cStr path) = some (.string key))
      (hvalue : dict.lookup (cStr key) = some value)
      (htype : isString value = false) :
      Unchecked .replaceValueByPathAndDict
        [.array elements, .string path, .object dict]
  /-- The call is no array of two elements. -/
  | arrayFunc {elements values : List Json} (helements : elements ≠ [])
      (hlength : values.length ≠ 2) :
      Unchecked .arrayFunc [.array elements, .array values]
  | sliceNothing : Unchecked .arraySlice []
  /-- An index is no `int`. -/
  | slice {elements indexes rest : List Json} {index : Json}
      (hindex : index ∈ indexes) (htype : isInt index = false) :
      Unchecked .arraySlice (.array elements :: .array indexes :: rest)
  | nonce {length : Number} (htype : isInt (.number length) = false) :
      Unchecked .randStr [.number length]
  | strFind {input target : String} {pos : Number} {reverse : List Json}
      (hreverse : reverse = [] ∨ ∃ value, reverse = [.bool value])
      (htype : isInt (.number pos) = false) :
      Unchecked .strFind
        (.string input :: .string target :: .number pos :: reverse)

/-- The calls that a function makes, each after all others before it have
succeeded. -/
inductive Makes (call : String → List Json → Call Json) :
    Builtin → List Json → String → List Json → Prop
  | element {before after values extra : List Json} {element : Json}
      {funcName : String} (hcall : nestedCall values = some (funcName, extra))
      (hbefore : ∀ other ∈ before, (call funcName (other :: extra)).Succeeds) :
      Makes call .arrayFunc [.array (before ++ element :: after), .array values]
        funcName (element :: extra)
  | contain {before after contain replace extra : List Json} {element : Json}
      {path text funcName : String}
      (hvalue : getValueByPointer element (cStr path) = some (.string text))
      (hcall : nestedCall contain = some (funcName, extra))
      (hbefore : ∀ other ∈ before,
        (normalizeElement call (cStr path) contain replace other).Succeeds) :
      Makes call .normalized
        [.array (before ++ element :: after), .string path, .array contain,
          .array replace]
        funcName (.string text :: extra)
  | replace {before after contain replace extra : List Json} {element : Json}
      {path text funcName : String}
      (hvalue : getValueByPointer element (cStr path) = some (.string text))
      (hcontain : callOn call contain (.string text) = .ok (.bool true))
      (hcall : nestedCall replace = some (funcName, extra))
      (hbefore : ∀ other ∈ before,
        (normalizeElement call (cStr path) contain replace other).Succeeds) :
      Makes call .normalized
        [.array (before ++ element :: after), .string path, .array contain,
          .array replace]
        funcName (.string text :: extra)

/-! The other functions make a fault exactly when they are unchecked or a call of theirs
makes one. -/

section Faults

variable {path key : String} {elements : List Json} {args : List Json}

theorem faults_indexFrom_iff {index : Nat} :
    (indexFrom path key index elements).Faults ↔
      ∃ before element after, elements = before ++ element :: after ∧
        (∀ other ∈ before, hasKeyAt path key other = false) ∧
          hasStringAt path element = false := by
  induction elements generalizing index with
  | nil => simp [indexFrom]
  | cons element rest ih =>
      rw [indexFrom, exists_split_cons_iff, ← @ih (index + 1), hasStringAt, hasKeyAt]
      cases hfound : getValueByPointer element path with
      | none => exact iff_of_true (faults_fault _) (.inl rfl)
      | some value =>
          cases hstring : isString value with
          | false =>
              refine iff_of_true ?_ (.inl hstring)
              cases value with
              | string text => cases hstring
              | null | bool | number | array | object => exact faults_fault _
          | true =>
              obtain ⟨text, rfl⟩ := isString_iff.mp hstring
              simp only [dereference, getString, ok_bind]
              by_cases hkey : cStr text = key
              · simp [hkey, hstring]
              · simp [hkey, hstring]

theorem faults_getIndexByKey_iff :
    (getIndexByKey args).Faults ↔ Unchecked .getIndexByKey args := by
  unfold getIndexByKey
  rw [faults_require_bind_iff]
  constructor
  · intro hfault
    obtain ⟨hcheck, hfault⟩ := hfault
    simp only [parameterCheck_cons, parameterCheck_nil, getType_eq_array,
      getType_eq_string] at hcheck
    obtain ⟨_, _, rfl, ⟨elements, rfl⟩, _, _, rfl, ⟨path, rfl⟩, _, _, rfl,
      ⟨key, rfl⟩, rfl⟩ := hcheck
    obtain ⟨before, element, after, rfl, hbefore, helement⟩ :=
      faults_indexFrom_iff.mp hfault
    exact .indexAt hbefore helement
  · intro hunchecked
    cases hunchecked with
    | indexAt hbefore helement =>
        exact ⟨rfl, faults_indexFrom_iff.mpr ⟨_, _, _, rfl, hbefore, helement⟩⟩

theorem faults_replaceElement_iff {dict : JsonMembers} {element : Json} :
    (replaceElement path dict element).Faults ↔
      ∃ key value, getValueByPointer element path = some (.string key) ∧
        dict.lookup (cStr key) = some value ∧ isString value = false := by
  unfold replaceElement
  constructor
  · intro hfault
    split at hfault
    · rename_i key hkey
      split at hfault
      · rename_i value hvalue
        refine ⟨key, value, hkey, hvalue, ?_⟩
        rw [faults_bind_ok_iff] at hfault
        rw [← Bool.not_eq_true]
        exact fun hstring => not_faults_getString hstring hfault
      · exact absurd hfault (not_faults_ok _)
    · exact absurd hfault (not_faults_ok _)
  · intro hunchecked
    obtain ⟨key, value, hkey, hvalue, htype⟩ := hunchecked
    simp only [hkey, hvalue]
    rw [faults_bind_ok_iff]
    cases value with
    | string text => cases htype
    | null | bool | number | array | object => exact faults_fault _

theorem replaceElement_total (path : String) (dict : JsonMembers) (element : Json) :
    (replaceElement path dict element).Succeeds ∨
      (replaceElement path dict element).Faults := by
  unfold replaceElement
  split
  · split
    · rename_i value _
      cases value with
      | string text => exact .inl ⟨_, rfl⟩
      | null | bool | number | array | object => exact .inr (faults_fault _)
    · exact .inl ⟨_, rfl⟩
  · exact .inl ⟨_, rfl⟩

theorem faults_replaceValueByPathAndDict_iff :
    (replaceValueByPathAndDict args).Faults ↔
      Unchecked .replaceValueByPathAndDict args := by
  have htraverse : ∀ elements path dict,
      (Checked.traverse (replaceElement path dict) elements).Faults ↔
        ∃ element ∈ elements, (replaceElement path dict element).Faults :=
    fun elements path dict =>
      faults_traverse_iff_exists (replaceElement_total path dict)
  unfold replaceValueByPathAndDict
  rw [faults_require_bind_iff]
  constructor
  · intro hfault
    obtain ⟨hcheck, hfault⟩ := hfault
    simp only [parameterCheck_cons, parameterCheck_nil, getType_eq_array,
      getType_eq_string, getType_eq_object] at hcheck
    obtain ⟨_, _, rfl, ⟨elements, rfl⟩, _, _, rfl, ⟨path, rfl⟩, _, _, rfl,
      ⟨dict, rfl⟩, rfl⟩ := hcheck
    obtain ⟨element, helement, hfault⟩ :=
      (htraverse elements (cStr path) dict).mp (faults_bind_ok_iff.mp hfault)
    obtain ⟨key, value, hkey, hvalue, htype⟩ := faults_replaceElement_iff.mp hfault
    exact .translate helement hkey hvalue htype
  · intro hunchecked
    cases hunchecked with
    | translate helement hkey hvalue htype =>
        refine ⟨rfl, faults_bind_ok_iff.mpr ((htraverse _ _ _).mpr ?_)⟩
        exact ⟨_, helement, faults_replaceElement_iff.mpr ⟨_, _, hkey, hvalue, htype⟩⟩

theorem faults_randStr_iff (host : Host) :
    (randStr host args).Faults ↔ Unchecked .randStr args := by
  have hlast : ∀ value : Json, (do
      let strLength ← getInt value
      if strLength < 1 then .undefined
      else .ok (.string (host.fastRandBytes strLength.toNat)) : Call Json).Faults ↔
        isInt value = false := by
    intro value
    rw [faults_bind_iff, faults_getInt_iff]
    constructor
    · intro hfault
      rcases hfault with htype | ⟨strLength, -, hfault⟩
      · exact htype
      · split at hfault
        · exact absurd hfault not_faults_undefined
        · exact absurd hfault (not_faults_ok _)
    · exact .inl
  unfold randStr
  rw [faults_require_bind_iff]
  constructor
  · intro hfault
    obtain ⟨hcheck, hfault⟩ := hfault
    simp only [parameterCheck_cons, parameterCheck_nil, getType_eq_number] at hcheck
    obtain ⟨_, _, rfl, ⟨length, rfl⟩, rfl⟩ := hcheck
    exact .nonce ((hlast _).mp hfault)
  · intro hunchecked
    cases hunchecked with
    | nonce htype => exact ⟨rfl, (hlast _).mpr htype⟩

theorem not_faults_requiredMember (members : JsonMembers) (name : String)
    (ofType : Json → Bool) : ¬ (requiredMember members name ofType).Faults := by
  unfold requiredMember
  split
  · apply not_faults_require
    intro _
    exact not_faults_ok _
  · exact not_faults_failed

theorem requiredMember_eq_ok {members : JsonMembers} {name : String}
    {ofType : Json → Bool} {value : Json}
    (hmember : requiredMember members name ofType = .ok value) :
    ofType value = true := by
  unfold requiredMember at hmember
  split at hmember
  · rename_i found _
    cases htype : ofType found with
    | false =>
        rw [htype] at hmember
        cases hmember
    | true =>
        rw [htype] at hmember
        cases hmember
        exact htype
  · cases hmember

theorem not_faults_sliceByKeys (host : Host) (sliceArgs : JsonMembers)
    (elements : List Json) : ¬ (sliceByKeys host sliceArgs elements).Faults := by
  apply not_faults_bind (not_faults_requiredMember _ _ _)
  intro method hmethod
  apply not_faults_bind (not_faults_getString (requiredMember_eq_ok hmethod))
  intro method _
  apply not_faults_bind (not_faults_requiredMember _ _ _)
  intro path hpath
  apply not_faults_bind (not_faults_getString (requiredMember_eq_ok hpath))
  intro path _
  apply not_faults_bind (not_faults_requiredMember _ _ _)
  intro keys hkeys
  apply not_faults_bind (not_faults_getArray (requiredMember_eq_ok hkeys))
  intro keys _
  exact not_faults_ok _

theorem not_faults_window (start last : Int) (elements : List Json) :
    ¬ (window start last elements).Faults := by
  unfold window
  split
  · exact not_faults_undefined
  · exact not_faults_ok _

/-- With bounds that are neither an array nor an object. -/
theorem not_faults_sliceBetween {args elements : List Json} {index : Json}
    {size : Int} :
    ¬ (do
      require (isInt index)
      let start ← reverseIndex (← getInt index) size
      if args.length < 3 then window start size elements
      else do
        let index ← position args 2
        require (isInt index)
        let last ← reverseIndex (← getInt index) size
        window start last elements : Call Json).Faults := by
  apply not_faults_require
  intro hint
  apply not_faults_bind (not_faults_getInt hint)
  intro number _
  apply not_faults_bind (not_faults_reverseIndex _ _)
  intro start _
  split
  · exact not_faults_window _ _ _
  · apply not_faults_bind (not_faults_position (by omega))
    intro index _
    apply not_faults_require
    intro hint
    apply not_faults_bind (not_faults_getInt hint)
    intro number _
    apply not_faults_bind (not_faults_reverseIndex _ _)
    intro last _
    exact not_faults_window _ _ _

theorem getInt_total (value : Json) :
    (getInt value).Succeeds ∨ (getInt value).Faults := by
  cases hint : isInt value with
  | false => exact .inr (faults_getInt_iff.mpr hint)
  | true =>
      obtain ⟨number, rfl, hfits⟩ := isInt_iff.mp hint
      exact .inl ⟨number, if_pos hfits⟩

theorem faults_arraySlice_iff (host : Host) :
    (arraySlice host args).Faults ↔ Unchecked .arraySlice args := by
  have hindexes : ∀ indexes, (Checked.traverse getInt indexes).Faults ↔
      ∃ index ∈ indexes, isInt index = false := by
    intro indexes
    rw [faults_traverse_iff_exists getInt_total]
    simp only [faults_getInt_iff]
  constructor
  · intro hfault
    cases args with
    | nil => exact .sliceNothing
    | cons json rest =>
        cases harray : isArray json with
        | false =>
            simp only [arraySlice, position, List.getElem?_cons_zero, ok_bind, harray,
              require_false, failed_bind] at hfault
            exact absurd hfault not_faults_failed
        | true =>
            obtain ⟨elements, rfl⟩ := isArray_iff.mp harray
            simp only [arraySlice, position, List.getElem?_cons_zero, ok_bind, harray,
              require_true, getArray] at hfault
            cases rest with
            | nil =>
                rw [if_pos (by simp)] at hfault
                exact absurd hfault (not_faults_window _ _ _)
            | cons bound rest =>
                rw [if_neg (by simp)] at hfault
                simp only [List.getElem?_cons_succ, List.getElem?_cons_zero,
                  ok_bind] at hfault
                cases bound with
                | array indexes =>
                    obtain ⟨index, hindex, htype⟩ :=
                      (hindexes indexes).mp (faults_bind_ok_iff.mp hfault)
                    exact .slice hindex htype
                | object sliceArgs =>
                    exact absurd hfault (not_faults_sliceByKeys _ _ _)
                | null | bool | number | string =>
                    exact absurd hfault not_faults_sliceBetween
  · intro hunchecked
    cases hunchecked with
    | sliceNothing => exact faults_fault _
    | slice hindex htype =>
        simp only [arraySlice, position, List.getElem?_cons_zero,
          List.getElem?_cons_succ, ok_bind, getArray]
        refine faults_require_bind_iff.mpr ⟨rfl, ?_⟩
        rw [if_neg (by simp)]
        exact faults_bind_ok_iff.mpr ((hindexes _).mpr ⟨_, hindex, htype⟩)

/-- The arguments that `str_find` accepts. -/
theorem strFind_shape
    (hcheck : (parameterCheck args [.string, .string] ||
      parameterCheck args [.string, .string, .number] ||
      parameterCheck args [.string, .string, .number, .boolTrue] ||
      parameterCheck args [.string, .string, .number, .boolFalse]) = true) :
    ∃ input target rest, args = .string input :: .string target :: rest ∧
      (rest = [] ∨ ∃ pos reverse, rest = .number pos :: reverse ∧
        (reverse = [] ∨ ∃ value, reverse = [.bool value])) := by
  simp only [Bool.or_eq_true, parameterCheck_cons, parameterCheck_nil,
    getType_eq_string, getType_eq_number, getType_eq_boolTrue,
    getType_eq_boolFalse] at hcheck
  rcases hcheck with (((⟨_, _, rfl, ⟨input, rfl⟩, _, _, rfl, ⟨target, rfl⟩, rfl⟩ |
    ⟨_, _, rfl, ⟨input, rfl⟩, _, _, rfl, ⟨target, rfl⟩, _, _, rfl, ⟨pos, rfl⟩, rfl⟩) |
    ⟨_, _, rfl, ⟨input, rfl⟩, _, _, rfl, ⟨target, rfl⟩, _, _, rfl, ⟨pos, rfl⟩,
      _, _, rfl, rfl, rfl⟩) |
    ⟨_, _, rfl, ⟨input, rfl⟩, _, _, rfl, ⟨target, rfl⟩, _, _, rfl, ⟨pos, rfl⟩,
      _, _, rfl, rfl, rfl⟩)
  · exact ⟨input, target, [], rfl, .inl rfl⟩
  · exact ⟨input, target, _, rfl, .inr ⟨pos, [], rfl, .inl rfl⟩⟩
  · exact ⟨input, target, _, rfl, .inr ⟨pos, _, rfl, .inr ⟨true, rfl⟩⟩⟩
  · exact ⟨input, target, _, rfl, .inr ⟨pos, _, rfl, .inr ⟨false, rfl⟩⟩⟩

theorem faults_findIndex_iff {first second pos : Json} {reverse : List Json}
    {input target : String}
    (hreverse : reverse = [] ∨ ∃ value, reverse = [.bool value]) :
    (findIndex (first :: second :: pos :: reverse) input target).Faults ↔
      isInt pos = false := by
  have hend : ¬ (fromEnd (first :: second :: pos :: reverse)).Faults := by
    rcases hreverse with rfl | ⟨value, rfl⟩
    · exact not_faults_ok _
    · exact not_faults_ok _
  rw [findIndex, if_neg (by simp)]
  simp only [position, List.getElem?_cons_succ, List.getElem?_cons_zero, ok_bind]
  rw [faults_bind_iff, faults_getInt_iff]
  constructor
  · intro hfault
    rcases hfault with htype | ⟨number, -, hfault⟩
    · exact htype
    · exact absurd (faults_bind_ok_iff.mp hfault) hend
  · exact .inl

theorem faults_strFind_iff : (strFind args).Faults ↔ Unchecked .strFind args := by
  constructor
  · intro hfault
    obtain ⟨hcheck, hfault⟩ := faults_require_bind_iff.mp hfault
    obtain ⟨input, target, rest, rfl, hrest⟩ := strFind_shape hcheck
    have hfault := faults_bind_ok_iff.mp hfault
    rcases hrest with rfl | ⟨pos, reverse, rfl, hreverse⟩
    · exact absurd hfault (not_faults_ok _)
    · exact .strFind hreverse ((faults_findIndex_iff hreverse).mp hfault)
  · intro hunchecked
    cases hunchecked with
    | @strFind input target pos reverse hreverse htype =>
        refine faults_require_bind_iff.mpr ⟨?_, faults_bind_ok_iff.mpr
          ((faults_findIndex_iff hreverse).mpr htype)⟩
        rcases hreverse with rfl | ⟨value, rfl⟩
        · rfl
        · cases value with
          | false => rfl
          | true => rfl

section Nested

variable {call : String → List Json → Call Json}

theorem faults_callOn_iff {values : List Json} {value : Json} :
    (callOn call values value).Faults ↔
      ∃ funcName extra, nestedCall values = some (funcName, extra) ∧
        (call funcName (value :: extra)).Faults := by
  rw [callOn_eq]
  cases hnested : nestedCall values with
  | none => simp
  | some entry =>
      constructor
      · intro hfault
        exact ⟨entry.1, entry.2, rfl, hfault⟩
      · intro hfault
        obtain ⟨funcName, extra, heq, hfault⟩ := hfault
        cases heq
        exact hfault

theorem faults_arrayFunc_iff :
    (arrayFunc call args).Faults ↔
      Unchecked .arrayFunc args ∨
        ∃ funcName nested, Makes call .arrayFunc args funcName nested ∧
          (call funcName nested).Faults := by
  unfold arrayFunc
  rw [faults_require_bind_iff]
  constructor
  · intro hfault
    obtain ⟨hcheck, hfault⟩ := hfault
    simp only [parameterCheck_cons, parameterCheck_nil, getType_eq_array] at hcheck
    obtain ⟨_, _, rfl, ⟨elements, rfl⟩, _, _, rfl, ⟨values, rfl⟩, rfl⟩ := hcheck
    obtain ⟨before, element, after, rfl, hbefore, hfault⟩ :=
      faults_traverse_iff.mp (faults_bind_ok_iff.mp hfault)
    simp only [arrayFuncElement_eq] at hbefore hfault
    by_cases hlength : values.length = 2
    · simp only [hlength, ne_eq, not_true_eq_false, if_false] at hbefore hfault
      cases hnested : nestedCall values with
      | none =>
          rw [hnested] at hfault
          exact absurd hfault not_faults_failed
      | some entry =>
          rw [hnested] at hfault hbefore
          exact .inr ⟨entry.1, _, .element hnested hbefore, hfault⟩
    · exact .inl (.arrayFunc (by simp) hlength)
  · intro hfault
    rcases hfault with hunchecked | ⟨funcName, nested, hmakes, hfault⟩
    · cases hunchecked with
      | @arrayFunc elements values helements hlength =>
          refine ⟨rfl, faults_bind_ok_iff.mpr (faults_traverse_iff.mpr ?_)⟩
          obtain ⟨element, rest, rfl⟩ := List.exists_cons_of_ne_nil helements
          refine ⟨[], element, rest, rfl, by simp, ?_⟩
          rw [arrayFuncElement_eq, if_pos hlength]
          exact faults_fault _
    · cases hmakes with
      | @element before after values extra element _ hcall hbefore =>
          have hlength : values.length = 2 := by
            obtain ⟨name, rfl, -⟩ := nestedCall_eq_some.mp hcall
            rfl
          have heach : ∀ other,
              arrayFuncElement call [.array (before ++ element :: after), .array values]
                other = call funcName (other :: extra) := by
            intro other
            rw [arrayFuncElement_eq, if_neg (not_not.mpr hlength), hcall]
          refine ⟨rfl, faults_bind_ok_iff.mpr (faults_traverse_iff.mpr ?_)⟩
          refine ⟨before, element, after, rfl, ?_, ?_⟩
          · intro other hother
            rw [heach]
            exact hbefore other hother
          · rw [heach]
            exact hfault

theorem faults_normalizeElement_iff {contain replace : List Json} {element : Json} :
    (normalizeElement call path contain replace element).Faults ↔
      ∃ text, getValueByPointer element path = some (.string text) ∧
        ((callOn call contain (.string text)).Faults ∨
          callOn call contain (.string text) = .ok (.bool true) ∧
            (callOn call replace (.string text)).Faults) := by
  have hreplaced : ∀ text, (do
      let value ← callOn call replace (.string text)
      require (isString value)
      .ok (setFound path value element) : Call Json).Faults ↔
        (callOn call replace (.string text)).Faults := by
    intro text
    rw [faults_bind_iff]
    constructor
    · intro hfault
      rcases hfault with hfault | ⟨value, -, hfault⟩
      · exact hfault
      · obtain ⟨-, hok⟩ := faults_require_bind_iff.mp hfault
        exact absurd hok (not_faults_ok _)
    · exact .inl
  unfold normalizeElement
  constructor
  · intro hfault
    split at hfault
    · rename_i text hvalue
      refine ⟨text, hvalue, ?_⟩
      rcases faults_bind_iff.mp hfault with hfault | ⟨containKey, hcontain, hfault⟩
      · exact .inl hfault
      · obtain ⟨hbool, hfault⟩ := faults_require_bind_iff.mp hfault
        obtain ⟨contained, rfl⟩ := isBool_iff.mp hbool
        cases contained with
        | false => exact absurd hfault (not_faults_ok _)
        | true => exact .inr ⟨hcontain, (hreplaced text).mp hfault⟩
    · exact absurd hfault not_faults_failed
  · intro hfault
    obtain ⟨text, hvalue, hfault⟩ := hfault
    simp only [hvalue]
    rcases hfault with hfault | ⟨hcontain, hfault⟩
    · exact faults_bind_iff.mpr (.inl hfault)
    · rw [hcontain]
      exact (hreplaced text).mpr hfault

theorem faults_normalized_iff :
    (normalized call args).Faults ↔
      ∃ funcName nested, Makes call .normalized args funcName nested ∧
        (call funcName nested).Faults := by
  unfold normalized
  rw [faults_require_bind_iff]
  constructor
  · intro hfault
    obtain ⟨hcheck, hfault⟩ := hfault
    simp only [parameterCheck_cons, parameterCheck_nil, getType_eq_array,
      getType_eq_string] at hcheck
    obtain ⟨_, _, rfl, ⟨elements, rfl⟩, _, _, rfl, ⟨path, rfl⟩, _, _, rfl,
      ⟨contain, rfl⟩, _, _, rfl, ⟨replace, rfl⟩, rfl⟩ := hcheck
    obtain ⟨before, element, after, rfl, hbefore, hfault⟩ :=
      faults_traverse_iff.mp (faults_bind_ok_iff.mp hfault)
    obtain ⟨text, hvalue, hfault⟩ := faults_normalizeElement_iff.mp hfault
    rcases hfault with hfault | ⟨hcontain, hfault⟩
    · obtain ⟨funcName, extra, hcall, hfault⟩ := faults_callOn_iff.mp hfault
      exact ⟨funcName, _, .contain hvalue hcall hbefore, hfault⟩
    · obtain ⟨funcName, extra, hcall, hfault⟩ := faults_callOn_iff.mp hfault
      exact ⟨funcName, _, .replace hvalue hcontain hcall hbefore, hfault⟩
  · intro hfault
    obtain ⟨funcName, nested, hmakes, hfault⟩ := hfault
    cases hmakes with
    | contain hvalue hcall hbefore =>
        refine ⟨rfl, faults_bind_ok_iff.mpr (faults_traverse_iff.mpr ?_)⟩
        refine ⟨_, _, _, rfl, hbefore, faults_normalizeElement_iff.mpr ?_⟩
        exact ⟨_, hvalue, .inl (faults_callOn_iff.mpr ⟨_, _, hcall, hfault⟩)⟩
    | replace hvalue hcontain hcall hbefore =>
        refine ⟨rfl, faults_bind_ok_iff.mpr (faults_traverse_iff.mpr ?_)⟩
        refine ⟨_, _, _, rfl, hbefore, faults_normalizeElement_iff.mpr ?_⟩
        exact ⟨_, hvalue, .inr ⟨hcontain, faults_callOn_iff.mpr ⟨_, _, hcall, hfault⟩⟩⟩

/-- A function that makes no calls, by its own faults. -/
theorem faults_run_iff_of_own {host : Host} {builtin : Builtin}
    (hfaults : (builtin.run host call args).Faults ↔ Unchecked builtin args)
    (hmakes : ∀ funcName nested, ¬ Makes call builtin args funcName nested) :
    (builtin.run host call args).Faults ↔
      Unchecked builtin args ∨
        ∃ funcName nested, Makes call builtin args funcName nested ∧
          (call funcName nested).Faults := by
  rw [hfaults]
  constructor
  · exact .inl
  · intro hfault
    rcases hfault with hunchecked | ⟨funcName, nested, hcall, -⟩
    · exact hunchecked
    · exact absurd hcall (hmakes funcName nested)

theorem faults_run_iff_of_safe {host : Host} {builtin : Builtin}
    (hsafe : ¬ (builtin.run host call args).Faults) (hcovered : ¬ Unchecked builtin args)
    (hmakes : ∀ funcName nested, ¬ Makes call builtin args funcName nested) :
    (builtin.run host call args).Faults ↔
      Unchecked builtin args ∨
        ∃ funcName nested, Makes call builtin args funcName nested ∧
          (call funcName nested).Faults :=
  faults_run_iff_of_own (iff_of_false hsafe hcovered) hmakes

theorem Builtin.faults_run_iff (host : Host) (builtin : Builtin) :
    (builtin.run host call args).Faults ↔
      Unchecked builtin args ∨
        ∃ funcName nested, Makes call builtin args funcName nested ∧
          (call funcName nested).Faults := by
  cases builtin with
  | arrayFunc => exact faults_arrayFunc_iff
  | normalized =>
      refine faults_normalized_iff.trans ⟨.inr, fun hfault => ?_⟩
      exact hfault.resolve_left fun hunchecked => by cases hunchecked
  | getIndexByKey => exact faults_run_iff_of_own faults_getIndexByKey_iff nofun
  | replaceValueByPathAndDict =>
      exact faults_run_iff_of_own faults_replaceValueByPathAndDict_iff nofun
  | arraySlice => exact faults_run_iff_of_own (faults_arraySlice_iff host) nofun
  | randStr => exact faults_run_iff_of_own (faults_randStr_iff host) nofun
  | strFind => exact faults_run_iff_of_own faults_strFind_iff nofun
  | getValueByPath =>
      exact faults_run_iff_of_safe (not_faults_getValueByPath args) nofun nofun
  | setValueByPath =>
      exact faults_run_iff_of_safe (not_faults_setValueByPath args) nofun nofun
  | forEachGetByPath =>
      exact faults_run_iff_of_safe (not_faults_forEachGetByPath args) nofun nofun
  | forEachSetByPath =>
      exact faults_run_iff_of_safe (not_faults_forEachSetByPath args) nofun nofun
  | stringContain =>
      exact faults_run_iff_of_safe (not_faults_stringContain args) nofun nofun
  | getSubStr => exact faults_run_iff_of_safe (not_faults_getSubStr args) nofun nofun
  | jsonEncode => exact faults_run_iff_of_safe (not_faults_jsonEncode host args) nofun nofun
  | jsonDecode => exact faults_run_iff_of_safe (not_faults_jsonDecode host args) nofun nofun
  | replaceAll => exact faults_run_iff_of_safe (not_faults_replaceAll args) nofun nofun
  | hasKey => exact faults_run_iff_of_safe (not_faults_hasKey args) nofun nofun
  | arrayLength => exact faults_run_iff_of_safe (not_faults_arrayLength args) nofun nofun
  | intValue => exact faults_run_iff_of_safe (not_faults_intValue args) nofun nofun
  | boolValue => exact faults_run_iff_of_safe (not_faults_boolValue args) nofun nofun
  | md5Hash => exact faults_run_iff_of_safe (not_faults_md5Hash host args) nofun nofun
  | sha1Hash => exact faults_run_iff_of_safe (not_faults_sha1Hash host args) nofun nofun
  | time => exact faults_run_iff_of_safe (not_faults_time host args) nofun nofun
  | hmacSha1 => exact faults_run_iff_of_safe (not_faults_hmacSha1 host args) nofun nofun
  | base64Encode => exact faults_run_iff_of_safe (not_faults_base64Encode host args) nofun nofun
  | queryEncode => exact faults_run_iff_of_safe (not_faults_queryEncode host args) nofun nofun
  | strSplit => exact faults_run_iff_of_safe (not_faults_strSplit host args) nofun nofun
  | strSlice => exact faults_run_iff_of_safe (not_faults_strSlice args) nofun nofun
  | arrayJoin => exact faults_run_iff_of_safe (not_faults_arrayJoin host args) nofun nofun
  | strLength => exact faults_run_iff_of_safe (not_faults_strLength args) nofun nofun

/-- A call that a function makes is nested less deep than its arguments. -/
theorem depth_makes {builtin : Builtin} {funcName : String} {nested : List Json}
    (hmakes : Makes call builtin args funcName nested) :
    Json.depthElements nested < Json.depthElements args := by
  have hstring : ∀ {args : List Json} {elements : List Json} {text : String},
      .array elements ∈ args → (Json.string text).depth < Json.depthElements args := by
    intro args elements text hmem
    have hle := Json.depth_le_depthElements hmem
    have hzero : (Json.string text).depth = 0 := by simp [Json.depth]
    rw [Json.depth] at hle
    omega
  cases hmakes with
  | @element before after values extra element _ hcall _ =>
      have hmem : element ∈ before ++ element :: after :=
        List.mem_append_right before List.mem_cons_self
      exact depth_nested_lt hcall (by simp) (depth_element_lt hmem List.mem_cons_self)
  | contain _ hcall _ =>
      exact depth_nested_lt hcall (by simp) (hstring List.mem_cons_self)
  | replace _ _ hcall _ =>
      exact depth_nested_lt hcall (by simp) (hstring List.mem_cons_self)

end Nested

end Faults

end Uskit.Function
