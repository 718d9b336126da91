import Uskit.Expression.Context

namespace Uskit

/-! What `json_set_value_by_path` and `set_variable_by_path` leave behind when
they return -1. -/

namespace Pointer

/-- Every `~` begins one of the escapes `~0` and `~1`. -/
def wellEscaped : List Char → Bool
  | [] => true
  | '~' :: '0' :: rest => wellEscaped rest
  | '~' :: '1' :: rest => wellEscaped rest
  | '~' :: _ => false
  | _ :: rest => wellEscaped rest

theorem wellEscaped_cons {c : Char} (htilde : c ≠ '~') (rest : List Char) :
    wellEscaped (c :: rest) = wellEscaped rest := by
  rw [wellEscaped]
  · intro _ hc
    exact absurd hc htilde
  · intro _ hc
    exact absurd hc htilde
  · exact htilde

theorem scan_isSome (name rest : List Char) :
    (scan name rest).isSome = wellEscaped rest := by
  induction name, rest using scan.induct with
  | case1 name => rfl
  | case2 name rest ih =>
      rw [scan, Option.isSome_map, ih, wellEscaped_cons (by decide)]
  | case3 name rest ih => rw [scan, ih, wellEscaped]
  | case4 name rest ih => rw [scan, ih, wellEscaped]
  | case5 name rest hzero hone =>
      rw [scan_tilde hzero hone, wellEscaped]
      · rfl
      · exact hzero
      · exact hone
  | case6 name c rest hslash hzero hone htilde ih =>
      rw [scan_cons hslash htilde, ih, wellEscaped_cons htilde]

theorem parse_isSome {source : String} {rest : List Char}
    (hsource : source.toList = '/' :: rest) :
    (parse source).isSome = wellEscaped rest := by
  rw [parse, hsource]
  exact scan_isSome [] rest

end Pointer

/-- The path has no malformed escape, up to its first NUL. -/
def wellEscapedPath (path : String) : Bool :=
  Pointer.wellEscaped (cStr path).toList

theorem cStr_slash_append (path : String) :
    (cStr ("/" ++ path)).toList = '/' :: (cStr path).toList := by
  rw [toList_cStr_append (by decide)]
  rfl

theorem pathTokens_isSome (path : String) :
    (pathTokens path).isSome = wellEscapedPath path := by
  unfold pathTokens normalizePath wellEscapedPath
  by_cases hslash : path.toList.head? = some '/'
  · obtain ⟨rest, hrest⟩ : ∃ rest, path = "/" ++ String.ofList rest := by
      cases hlist : path.toList with
      | nil => simp [hlist] at hslash
      | cons c rest =>
          rw [hlist] at hslash
          cases hslash
          exact ⟨rest, by rw [← String.toList_inj, hlist]; simp⟩
    simp only [if_pos hslash]
    rw [hrest, cStr_slash_append, Pointer.wellEscaped_cons (by decide)]
    split
    · rename_i hroot
      obtain rfl : rest = [] := by
        simpa using congrArg String.toList hroot
      rfl
    · exact Pointer.parse_isSome (cStr_slash_append _)
  · simp only [if_neg hslash]
    split
    · rename_i hroot
      obtain rfl : path = "" := by
        simpa using congrArg String.toList hroot
      rfl
    · exact Pointer.parse_isSome (cStr_slash_append path)

/-- If `json_set_value_by_path` returns -1, the document is as it was. -/
def UnchangedOnError (path : String) (doc value : Json) : Prop :=
  (jsonSetValueByPath path doc value).2 = false →
    (jsonSetValueByPath path doc value).1 = doc

/-- If `set_variable_by_path` returns -1, all variables are as they were. -/
def Context.UnchangedOnError (path : String) (value : Json) (context : Context) :
    Prop :=
  (jsonSetValueByPath path (.object context.ownVariables) value).2 = false →
    context.setVariableByPath path value = .failed context

theorem jsonSetValueByPath_of_invalid {path : String}
    (hpath : wellEscapedPath path = false) (doc value : Json) :
    jsonSetValueByPath path doc value = (value, false) := by
  have hnone : pathTokens path = none := by
    rw [← Option.not_isSome_iff_eq_none, pathTokens_isSome, hpath]
    exact Bool.false_ne_true
  unfold jsonSetValueByPath
  simp only [hnone]

theorem jsonSetValueByPath_code (path : String) (doc value : Json) :
    (jsonSetValueByPath path doc value).2 = wellEscapedPath path := by
  rw [← pathTokens_isSome]
  unfold jsonSetValueByPath
  cases pathTokens path with
  | none => rfl
  | some tokens => rfl

theorem unchangedOnError_iff (path : String) (doc value : Json) :
    UnchangedOnError path doc value ↔
      wellEscapedPath path = true ∨ value = doc := by
  rw [UnchangedOnError, jsonSetValueByPath_code]
  cases hpath : wellEscapedPath path with
  | true => simp
  | false => simp [jsonSetValueByPath_of_invalid hpath]

theorem Context.setVariableByPath_of_invalid {path : String}
    (hpath : wellEscapedPath path = false) (value : Json) (context : Context) :
    context.setVariableByPath path value = .failed context ↔
      value = .object context.ownVariables := by
  unfold setVariableByPath
  simp only [jsonSetValueByPath_of_invalid hpath]
  cases value with
  | object members =>
      obtain ⟨own, parents⟩ := context
      simp
  | null | bool | number | string | array => simp

/-- An error leaves the document and the variables unchanged exactly when there is
none or the value is what was there. -/
theorem unchanged_iff_wellEscaped (path : String) (value : Json) :
    (∀ doc, UnchangedOnError path doc value ↔
        wellEscapedPath path = true ∨ value = doc) ∧
      ∀ context : Context, context.UnchangedOnError path value ↔
        wellEscapedPath path = true ∨ value = .object context.ownVariables := by
  refine ⟨fun doc => unchangedOnError_iff path doc value, fun context => ?_⟩
  rw [Context.UnchangedOnError, jsonSetValueByPath_code]
  cases hpath : wellEscapedPath path with
  | true => simp
  | false => simp [Context.setVariableByPath_of_invalid hpath]

theorem invalidEscape_replaces_document :
    ¬ ((∀ path doc value, UnchangedOnError path doc value) ∧
      ∀ path value (context : Context), context.UnchangedOnError path value) := by
  intro hall
  obtain ⟨hdoc, -⟩ := hall
  have hsame := hdoc "/a~" (.object [("b", .null)]) (.bool true) (by decide)
  revert hsame
  decide

end Uskit
