import Uskit.Function.Builtin
import Uskit.Json.SetPath

namespace Uskit.Function

open Uskit.Data

/-! `foreach_set`: one value for all elements, or an array with a value for each. -/

/-- The value for the element at the index. -/
def valueFor : Json → Nat → Option Json
  | .array values, index => values[index]?
  | value, _ => some value

/-- An array of another length. -/
def OtherLength (elements : List Json) (value : Json) : Prop :=
  ∃ values, value = .array values ∧ values.length ≠ elements.length

/-- Each element is returned with the tokens set to its value, and only an array of
another length is an error. -/
structure SetsEach (path : String) (tokens : List Token) (elements : List Json)
    (value : Json) : Prop where
  sets : ¬ OtherLength elements value → ∃ results,
    forEachSetByPath [.array elements, .string path, value] = .ok (.array results) ∧
      results.length = elements.length ∧
      ∀ index element own, elements[index]? = some element →
        valueFor value index = some own →
          ∃ result, results[index]? = some result ∧ SetTo own tokens element result
  fails : forEachSetByPath [.array elements, .string path, value] = .failed ↔
    OtherLength elements value

section Call

variable (path : String) (elements : List Json)

theorem forEachSetByPath_of_not_array {value : Json} (hvalue : isArray value = false) :
    forEachSetByPath [.array elements, .string path, value] = .failed := by
  have hcheck : parameterCheck [.array elements, .string path, value]
      [.array, .string, .array] = false := by
    rw [← Bool.not_eq_true, parameterCheck_iff]
    intro htypes
    obtain ⟨-, -, htype⟩ : getType (.array elements) = .array ∧
        getType (.string path) = .string ∧ getType value = .array := by
      simpa using htypes
    rw [isArray, htype] at hvalue
    cases hvalue
  rw [forEachSetByPath, hcheck]
  rfl

theorem forEachSetByPath_array (values : List Json) :
    forEachSetByPath [.array elements, .string path, .array values] =
      if values.length = elements.length then
        .ok (.array (List.zipWith (fun element value =>
          (jsonSetValueByPath (normalizePath (cStr path)) element value).1)
          elements values))
      else .failed := by
  have hcall : forEachSetByPath [.array elements, .string path, .array values] =
      Checked.bind (Checked.require (values.length == elements.length)) fun _ =>
        .ok (.array (List.zipWith (fun element value =>
          (jsonSetValueByPath (normalizePath (cStr path)) element value).1)
          elements values)) :=
    rfl
  rw [hcall]
  by_cases hlength : values.length = elements.length
  · rw [if_pos hlength, beq_iff_eq.mpr hlength]
    rfl
  · rw [if_neg hlength, beq_eq_false_iff_ne.mpr hlength]
    rfl

end Call

theorem not_otherLength_iff {elements : List Json} {values : List Json} :
    ¬ OtherLength elements (.array values) ↔ values.length = elements.length := by
  constructor
  · intro hlength
    by_contra hne
    exact hlength ⟨values, rfl, hne⟩
  · rintro hlength ⟨others, hothers, hne⟩
    cases hothers
    exact hne hlength

/-- `parameter_check` takes arrays of values only. -/
theorem setsEach_iff {path : String} {tokens : List Token}
    (hpath : pathTokens (cStr path) = some tokens)
    (hpush : ∀ token ∈ tokens, token.name ≠ "-") (elements : List Json) (value : Json) :
    SetsEach path tokens elements value ↔ isArray value = true := by
  constructor
  · intro hsets
    by_contra hvalue
    rw [Bool.not_eq_true] at hvalue
    obtain ⟨values, rfl, -⟩ :=
      hsets.fails.mp (forEachSetByPath_of_not_array path elements hvalue)
    cases hvalue
  · intro hvalue
    obtain ⟨values, rfl⟩ := isArray_iff.mp hvalue
    constructor
    · intro hlength
      rw [not_otherLength_iff] at hlength
      refine ⟨_, by rw [forEachSetByPath_array, if_pos hlength], ?_, ?_⟩
      · rw [List.length_zipWith, hlength, Nat.min_self]
      · intro index element own helement hown
        refine ⟨_, List.getElem?_zipWith_eq_some.mpr ⟨element, own, helement, hown, rfl⟩, ?_⟩
        exact setTo_jsonSetValueByPath hpath hpush element own
    · rw [forEachSetByPath_array, ← not_iff_not, not_otherLength_iff]
      split
      · rename_i hlength
        simpa using hlength
      · rename_i hlength
        simpa using hlength

theorem setsEach_origins :
    SetsEach "/origin" [⟨"origin", none⟩]
        [.object [("origin", .string "12")], .object [("key", .string "value")]]
        (.array [.string "1", .string "2"]) ↔
      isArray (.array [.string "1", .string "2"]) = true :=
  setsEach_iff (by decide) (by decide) _ _

/-- One value for all elements is rejected. -/
theorem plainValue_rejected :
    ¬ ∀ (path : String) (tokens : List Token), pathTokens (cStr path) = some tokens →
      (∀ token ∈ tokens, token.name ≠ "-") →
        ∀ (elements : List Json) (value : Json), SetsEach path tokens elements value := by
  intro hall
  have hsets := hall "/origin" [⟨"origin", none⟩] (by decide) (by decide)
    [.object [("origin", .string "12")]] (.string "55555")
  obtain ⟨values, hvalues, -⟩ := hsets.fails.mp (by decide)
  cases hvalues

end Uskit.Function
