import Mathlib.Logic.Relation
import Uskit.Function.Signatures

namespace Uskit.Function

open Uskit.Data Checked

/-! The type safety of the functions: over a call and all calls that it makes. -/

/-- What `index_at` should return: the position of the first element with the key. -/
def indexText (path key : String) (elements : List Json) : String :=
  match elements.findIdx? (hasKeyAt path key) with
  | some index => toString index
  | none => "-1"

section Calls

variable (host : Host)

/-- A call of a registered function makes another call. -/
def Calls (outer inner : String × List Json) : Prop :=
  ∃ builtin, registered.lookup outer.1 = some builtin ∧
    Makes (callFunction host) builtin outer.2 inner.1 inner.2

/-- The arguments fit no signature of the function. -/
def IllTypedCall (call : String × List Json) : Prop :=
  ∀ builtin, registered.lookup call.1 = some builtin → ¬ Admitted builtin call.2

def OverlookedCall (call : String × List Json) : Prop :=
  ∃ builtin, registered.lookup call.1 = some builtin ∧ Overlooked builtin call.2

def UncheckedCall (call : String × List Json) : Prop :=
  ∃ builtin, registered.lookup call.1 = some builtin ∧ Unchecked builtin call.2

/-- The checks of the call, and of those within it, cover all that they read. -/
def Covered (call : String × List Json) : Prop :=
  ∀ inner, Relation.ReflTransGen (Calls host) call inner → ¬ UncheckedCall inner

/-- No step of the call is a fault, an ill-typed call ends in -1, and `index_at`
passes over elements without a string at the path. -/
structure TypeSafe (funcName : String) (args : List Json) : Prop where
  noFault : ∀ kind, callFunction host funcName args ≠ .fault kind
  illTyped : IllTypedCall (funcName, args) →
    callFunction host funcName args = .failed
  indexAt : ∀ elements path key, funcName = "index_at" →
    args = [.array elements, .string path, .string key] →
      callFunction host funcName args =
        .ok (.string (indexText (cStr path) (cStr key) elements))

end Calls

/-- Without a fault the result is the position of the first match. -/
theorem indexFrom_eq {path key : String} {elements : List Json} {index : Nat}
    (hsafe : ¬ (indexFrom path key index elements).Faults) :
    indexFrom path key index elements =
      .ok (.string
        (match elements.findIdx? (hasKeyAt path key) with
          | some position => toString (index + position)
          | none => "-1")) := by
  induction elements generalizing index with
  | nil => rfl
  | cons element rest ih =>
      rw [indexFrom] at hsafe ⊢
      cases hfound : getValueByPointer element path with
      | none =>
          rw [hfound] at hsafe
          exact absurd (faults_fault _) hsafe
      | some value =>
          cases value with
          | string text =>
              have hmatch : hasKeyAt path key element = (cStr text == key) := by
                rw [hasKeyAt, hfound]
              rw [hfound] at hsafe
              simp only [dereference, getString, ok_bind] at hsafe ⊢
              rw [List.findIdx?_cons, hmatch]
              by_cases hkey : cStr text = key
              · rw [if_pos hkey, if_pos (beq_iff_eq.mpr hkey)]
                rfl
              · rw [if_neg hkey] at hsafe ⊢
                rw [if_neg (by simpa using hkey), ih hsafe]
                cases rest.findIdx? (hasKeyAt path key) with
                | none => rfl
                | some position =>
                    simp only [Option.map_some, Nat.add_assoc, Nat.add_comm 1]
          | null | bool | number | array | object =>
              rw [hfound] at hsafe
              exact absurd (faults_fault _) hsafe

section Calls

variable {host : Host}

theorem faults_callFunction_iff {call : String × List Json} :
    (callFunction host call.1 call.2).Faults ↔
      UncheckedCall call ∨
        ∃ inner, Calls host call inner ∧ (callFunction host inner.1 inner.2).Faults := by
  rw [callFunction_eq]
  cases hbuiltin : registered.lookup call.1 with
  | none =>
      refine iff_of_false not_faults_failed ?_
      intro hfault
      rcases hfault with ⟨builtin, hlookup, -⟩ | ⟨inner, ⟨builtin, hlookup, -⟩, -⟩
      · rw [hbuiltin] at hlookup
        cases hlookup
      · rw [hbuiltin] at hlookup
        cases hlookup
  | some builtin =>
      rw [builtin.faults_run_iff host]
      constructor
      · intro hfault
        rcases hfault with hunchecked | ⟨funcName, nested, hmakes, hfault⟩
        · exact .inl ⟨builtin, hbuiltin, hunchecked⟩
        · exact .inr ⟨(funcName, nested), ⟨builtin, hbuiltin, hmakes⟩, hfault⟩
      · intro hfault
        rcases hfault with ⟨other, hlookup, hunchecked⟩ |
          ⟨inner, ⟨other, hlookup, hmakes⟩, hfault⟩
        · cases hbuiltin.symm.trans hlookup
          exact .inl hunchecked
        · cases hbuiltin.symm.trans hlookup
          exact .inr ⟨inner.1, inner.2, hmakes, hfault⟩

/-- A call makes a fault exactly when it or a call within it is unchecked. -/
theorem faults_iff_not_covered {call : String × List Json} :
    (callFunction host call.1 call.2).Faults ↔ ¬ Covered host call := by
  constructor
  · intro hfault hcovered
    -- along the depth of the arguments
    induction hdepth : Json.depthElements call.2 using Nat.strong_induction_on
      generalizing call with
    | _ depth ih =>
        rcases faults_callFunction_iff.mp hfault with hunchecked | ⟨inner, hcalls, hinner⟩
        · exact hcovered call .refl hunchecked
        · obtain ⟨builtin, hlookup, hmakes⟩ := hcalls
          refine ih _ (hdepth ▸ depth_makes hmakes) hinner ?_ rfl
          exact fun last hlast => hcovered last (.head ⟨builtin, hlookup, hmakes⟩ hlast)
  · intro hnot
    simp only [Covered, not_forall, not_not] at hnot
    obtain ⟨inner, hreach, hunchecked⟩ := hnot
    induction hreach using Relation.ReflTransGen.head_induction_on with
    | refl => exact faults_callFunction_iff.mpr (.inl hunchecked)
    | head hcalls _ ih => exact faults_callFunction_iff.mpr (.inr ⟨_, hcalls, ih⟩)

theorem indexAt_eq {elements : List Json} {path key : String}
    (hsafe : ¬ (callFunction host "index_at"
      [.array elements, .string path, .string key]).Faults) :
    callFunction host "index_at" [.array elements, .string path, .string key] =
      .ok (.string (indexText (cStr path) (cStr key) elements)) := by
  have hcall : callFunction host "index_at"
      [.array elements, .string path, .string key] =
        indexFrom (cStr path) (cStr key) 0 elements := by
    rw [callFunction_eq]
    rfl
  rw [hcall] at hsafe ⊢
  rw [indexFrom_eq hsafe, indexText]
  simp only [Nat.zero_add]

/-- An ill-typed call without a fault ends in -1, unless it is overlooked. -/
theorem eq_failed_of_illTyped {funcName : String} {args : List Json}
    (hcovered : Covered host (funcName, args)) (hseen : ¬ OverlookedCall (funcName, args))
    (hill : IllTypedCall (funcName, args)) :
    callFunction host funcName args = .failed := by
  by_contra hrun
  cases hbuiltin : registered.lookup funcName with
  | none =>
      rw [callFunction_eq, hbuiltin] at hrun
      exact hrun rfl
  | some builtin =>
      rw [callFunction_eq, hbuiltin] at hrun
      rcases builtin.admitted_or host hrun with hadmitted | hunchecked | hover
      · exact hill builtin hbuiltin hadmitted
      · exact hcovered _ .refl ⟨builtin, hbuiltin, hunchecked⟩
      · exact hseen ⟨builtin, hbuiltin, hover⟩

theorem not_overlooked_of_typeSafe {funcName : String} {args : List Json}
    (hsafe : TypeSafe host funcName args) : ¬ OverlookedCall (funcName, args) := by
  intro hover
  obtain ⟨builtin, hbuiltin, hover⟩ := hover
  have hill : IllTypedCall (funcName, args) := by
    intro other hother
    cases hbuiltin.symm.trans hother
    exact hover.not_admitted
  have hfailed := hsafe.illTyped hill
  rw [callFunction_eq, hbuiltin] at hfailed
  exact hover.run_ne_failed host _ hfailed

/-- A call of a function of the library is type safe exactly when the checks made cover
all that is read, and its arguments are not overlooked. -/
theorem typeSafe_iff_covered (host : Host) (funcName : String) (args : List Json) :
    TypeSafe host funcName args ↔
      Covered host (funcName, args) ∧ ¬ OverlookedCall (funcName, args) := by
  have hfaults : (callFunction host funcName args).Faults ↔
      ¬ Covered host (funcName, args) :=
    @faults_iff_not_covered host (funcName, args)
  constructor
  · intro hsafe
    refine ⟨?_, not_overlooked_of_typeSafe hsafe⟩
    by_contra hnot
    obtain ⟨kind, hkind⟩ := hfaults.mpr hnot
    exact hsafe.noFault kind hkind
  · intro hcall
    obtain ⟨hcovered, hseen⟩ := hcall
    have hnone : ¬ (callFunction host funcName args).Faults :=
      fun hfault => hfaults.mp hfault hcovered
    refine ⟨fun kind hkind => hnone ⟨kind, hkind⟩, eq_failed_of_illTyped hcovered hseen, ?_⟩
    rintro elements path key rfl rfl
    exact indexAt_eq hnone

/-- An expression that comes to a call that is not covered has no defined value. -/
theorem run_call_undefined {regexMatch regexSearch : String → String → Bool}
    {context : Context} {funcName : String} {args : List Expr}
    {next : List (String × List Expr)} {values : List Json}
    (hargs : Expr.runArgs (host.library regexMatch regexSearch) context args =
      .ok values)
    (hunchecked : ¬ Covered host (funcName, values)) :
    Expr.run (host.library regexMatch regexSearch) context (.call funcName args next) =
      .undefined := by
  obtain ⟨kind, hkind⟩ := faults_iff_not_covered.mpr hunchecked
  have hcall : (host.library regexMatch regexSearch).callFunction funcName values =
      .undefined := congrArg toResult hkind
  rw [Expr.run, hargs, Result.ok_bind, hcall, Result.undefined_bind]

end Calls

def Host.bare : Host where
  dtoa := fun _ => "0.0"
  parseJson := fun _ => none
  evpDigest := fun _ _ => ""
  hmacSha1 := fun _ _ => ""
  base64Encode := fun _ => ""
  curlEscape := some
  splitStringUsingSubstr := fun text _ => [text]
  trimString := trimBoth
  fastRandBytes := fun _ => ""
  time := 0
  strftime := some

theorem indexAt_missingPath_faults :
    ¬ ∀ host funcName args, TypeSafe host funcName args := by
  intro hall
  have hsafe := hall Host.bare "index_at"
    [.array [.object [], .object [("origin", .string "12")]], .string "/origin",
      .string "12"]
  exact hsafe.noFault .nullDereference (by decide +kernel)

end Uskit.Function
