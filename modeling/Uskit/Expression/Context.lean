import Uskit.Expression.Outcome
import Uskit.Json.Merge
import Uskit.Json.Pointer

namespace Uskit

open Uskit.Data

/-! `ExpressionContext`: a scope of variables and the scopes around it, the
nearest first.  A name that the code passes through `c_str` is cut at its first
NUL. -/

structure Context where
  ownVariables : JsonMembers
  parents : List JsonMembers := []
deriving DecidableEq, Repr

namespace Context

def scopes (context : Context) : List JsonMembers :=
  context.ownVariables :: context.parents

/-- A context constructed with `context` as its parent. -/
def enter (context : Context) : Context :=
  ⟨[], context.scopes⟩

/-- The parent, after the child context is destroyed. -/
def leave (context : Context) : Context :=
  match context.parents with
  | [] => context
  | scope :: parents => ⟨scope, parents⟩

def setVariable (key : String) (value : Json) (context : Context) : Context :=
  { context with ownVariables := context.ownVariables ++ [(key, value)] }

/-- Search through the scopes, as the calls of `get_variable` on the parents. -/
def findVariable (name : String) : List JsonMembers → Option Json
  | [] => none
  | scope :: parents =>
      match scope.lookup name with
      | some value => some value
      | none => findVariable name parents

def getVariable (name : String) (context : Context) : Option Json :=
  findVariable (cStr name) context.scopes

def hasVariable (name : String) (context : Context) : Bool :=
  (context.ownVariables.lookup (cStr name)).isSome

def eraseVariable (name : String) (context : Context) : Context :=
  { context with
    ownVariables := Members.eraseFirst (cStr name) context.ownVariables }

/-- Writes through the pointer that `get_variable` returned. -/
def updateFound (name : String) (replacement : Json) :
    List JsonMembers → List JsonMembers
  | [] => []
  | scope :: parents =>
      match scope.lookup name with
      | some _ => Members.replaceFirst name replacement scope :: parents
      | none => scope :: updateFound name replacement parents

def updateVariable (name : String) (replacement : Json) (context : Context) :
    Context :=
  match context.ownVariables.lookup (cStr name) with
  | some _ =>
      { context with
        ownVariables :=
          Members.replaceFirst (cStr name) replacement context.ownVariables }
  | none =>
      { context with
        parents := updateFound (cStr name) replacement context.parents }

/-- The return code of `merge_json_objects` is ignored. -/
def mergeVariable (key : String) (value : Json) (context : Context) : Context :=
  match context.getVariable key with
  | some existing =>
      match mergeJsonObjects existing value with
      | some merged => context.updateVariable key merged
      | none => context
  | none => context.setVariable key value

/-- A root path can replace the variables by a value that is no object; every
later use of the context is then undefined. -/
def setVariableByPath (path : String) (value : Json) (context : Context) :
    Outcome Context :=
  match jsonSetValueByPath path (.object context.ownVariables) value with
  | (.object members, true) => .ok { context with ownVariables := members }
  | (.object members, false) => .failed { context with ownVariables := members }
  | (_, _) => .undefined

/-- `context.get_variable(name)->AddMember(key, value)`. -/
def addMember (name key : String) (value : Json) (context : Context) :
    Result Context :=
  match context.getVariable name with
  | some (.object members) =>
      .ok (context.updateVariable name (.object (members ++ [(key, value)])))
  | _ => .undefined

@[simp] theorem scopes_enter (context : Context) :
    context.enter.scopes = [] :: context.scopes := rfl

@[simp] theorem leave_enter (context : Context) :
    context.enter.leave = context := rfl

@[simp] theorem ownVariables_enter (context : Context) :
    context.enter.ownVariables = [] := rfl

@[simp] theorem parents_enter (context : Context) :
    context.enter.parents = context.scopes := rfl

theorem scopes_leave {context : Context} (hparents : context.parents ≠ []) :
    context.leave.scopes = context.parents := by
  obtain ⟨own, parents⟩ := context
  cases parents with
  | nil => exact absurd rfl hparents
  | cons scope rest => rfl

theorem getVariable_eq (name : String) (context : Context) :
    context.getVariable name =
      (context.ownVariables.lookup (cStr name)).or
        (findVariable (cStr name) context.parents) := by
  rw [getVariable, scopes, findVariable]
  cases context.ownVariables.lookup (cStr name) with
  | none => rfl
  | some value => rfl

theorem getVariable_of_unset {name : String} {context : Context}
    (hunset : context.ownVariables.lookup (cStr name) = none) :
    context.getVariable name = findVariable (cStr name) context.parents := by
  rw [getVariable_eq, hunset, Option.none_or]

/-! What a block leaves of the scopes around it: the members of one name. -/

def outerNamed (name : String) (context : Context) : List JsonMembers :=
  context.parents.map (Members.named name)

def allNamed (name : String) (context : Context) : List JsonMembers :=
  context.scopes.map (Members.named name)

theorem allNamed_eq (name : String) (context : Context) :
    context.allNamed name =
      Members.named name context.ownVariables :: context.outerNamed name := rfl

@[simp] theorem outerNamed_enter (name : String) (context : Context) :
    context.enter.outerNamed name = context.allNamed name := rfl

/-- Scopes that agree on a name, taken together one by one. -/
theorem scopes_induction {name : String}
    {motive : List JsonMembers → List JsonMembers → Prop} (nil : motive [] [])
    (cons : ∀ scope other rest tail,
      Members.named name scope = Members.named name other →
        scope.lookup name = other.lookup name →
          rest.map (Members.named name) = tail.map (Members.named name) →
            motive rest tail → motive (scope :: rest) (other :: tail))
    {first second : List JsonMembers}
    (hsame : first.map (Members.named name) =
      second.map (Members.named name)) : motive first second := by
  induction first generalizing second with
  | nil =>
      cases second with
      | nil => exact nil
      | cons scope rest => simp at hsame
  | cons scope rest ih =>
      cases second with
      | nil => simp at hsame
      | cons other tail =>
          rw [List.map_cons, List.map_cons, List.cons.injEq] at hsame
          apply cons scope other rest tail hsame.1 _ hsame.2 (ih hsame.2)
          rw [Members.lookup_eq_head_named, hsame.1,
            ← Members.lookup_eq_head_named]

theorem findVariable_congr {name : String} {first second : List JsonMembers}
    (hsame : first.map (Members.named name) =
      second.map (Members.named name)) :
    findVariable name first = findVariable name second := by
  refine scopes_induction
    (motive := fun first second =>
      findVariable name first = findVariable name second) rfl ?_ hsame
  intro scope other rest tail _ hlookup _ ih
  rw [findVariable, findVariable, hlookup, ih]

theorem getVariable_congr {name : String} {first second : Context}
    (hsame : first.allNamed (cStr name) = second.allNamed (cStr name)) :
    first.getVariable name = second.getVariable name :=
  findVariable_congr hsame

theorem allNamed_leave {name : String} {context after : Context}
    (hsame : after.outerNamed name = context.allNamed name) :
    after.leave.allNamed name = context.allNamed name := by
  obtain ⟨own, parents⟩ := after
  cases parents with
  | nil => simp [outerNamed, allNamed, scopes] at hsame
  | cons scope rest => exact hsame

@[simp] theorem outerNamed_setVariable (name key : String) (value : Json)
    (context : Context) :
    (context.setVariable key value).outerNamed name =
      context.outerNamed name := rfl

theorem allNamed_setVariable_of_ne {name key : String} (hne : key ≠ name)
    (value : Json) (context : Context) :
    (context.setVariable key value).allNamed name = context.allNamed name := by
  rw [allNamed_eq, allNamed_eq, outerNamed_setVariable]
  simp [setVariable, Members.named_cons_of_ne hne]

theorem allNamed_eraseVariable_of_ne {name key : String} (hne : cStr key ≠ name)
    (context : Context) :
    (context.eraseVariable key).allNamed name = context.allNamed name := by
  rw [allNamed_eq, allNamed_eq]
  simp only [eraseVariable, outerNamed, Members.named_eraseFirst_of_ne hne]

theorem map_named_updateFound_of_ne {name other : String} (hne : other ≠ name)
    (replacement : Json) (scopes : List JsonMembers) :
    (updateFound other replacement scopes).map (Members.named name) =
      scopes.map (Members.named name) := by
  induction scopes with
  | nil => rfl
  | cons scope parents ih =>
      rw [updateFound]
      cases scope.lookup other with
      | none => simp [ih]
      | some found => simp [Members.named_replaceFirst_of_ne hne]

theorem allNamed_updateVariable_of_ne {name other : String}
    (hne : cStr other ≠ name) (replacement : Json) (context : Context) :
    (context.updateVariable other replacement).allNamed name =
      context.allNamed name := by
  rw [updateVariable]
  cases context.ownVariables.lookup (cStr other) with
  | none =>
      simp [allNamed_eq, outerNamed, map_named_updateFound_of_ne hne]
  | some found =>
      simp [allNamed_eq, outerNamed, Members.named_replaceFirst_of_ne hne]

theorem findVariable_updateFound {name : String} {scopes : List JsonMembers}
    {old : Json} (hold : findVariable name scopes = some old)
    (replacement : Json) :
    findVariable name (updateFound name replacement scopes) =
      some replacement := by
  induction scopes with
  | nil => cases hold
  | cons scope parents ih =>
      rw [findVariable] at hold
      cases hscope : scope.lookup name with
      | some found =>
          simp only [updateFound, hscope, findVariable]
          rw [Members.lookup_replaceFirst_self replacement
            (Members.lookup_isSome.mp (by rw [hscope]; rfl))]
      | none =>
          rw [hscope] at hold
          simp only [updateFound, hscope, findVariable]
          exact ih hold

theorem getVariable_updateVariable_self {name : String} {context : Context}
    {old : Json} (hold : context.getVariable name = some old)
    (replacement : Json) :
    (context.updateVariable name replacement).getVariable name =
      some replacement := by
  rw [getVariable_eq] at hold
  rw [getVariable_eq, updateVariable]
  cases hown : context.ownVariables.lookup (cStr name) with
  | some found =>
      simp only
      rw [Members.lookup_replaceFirst_self replacement
        (Members.lookup_isSome.mp (by rw [hown]; rfl))]
      rfl
  | none =>
      simp only [hown, Option.none_or] at hold ⊢
      exact findVariable_updateFound hold replacement

theorem lookup_of_allNamed {name : String} {first second : Context}
    (hsame : first.allNamed name = second.allNamed name) :
    first.ownVariables.lookup name = second.ownVariables.lookup name := by
  rw [Members.lookup_eq_head_named, Members.lookup_eq_head_named,
    (List.cons.inj hsame).1]

/-! What a change of a variable does to its name depends on that name only. -/

theorem map_named_updateFound_congr {name : String}
    {first second : List JsonMembers}
    (hsame : first.map (Members.named name) = second.map (Members.named name))
    (replacement : Json) :
    (updateFound name replacement first).map (Members.named name) =
      (updateFound name replacement second).map (Members.named name) := by
  refine scopes_induction
    (motive := fun first second =>
      (updateFound name replacement first).map (Members.named name) =
        (updateFound name replacement second).map (Members.named name)) rfl ?_
    hsame
  intro scope other rest tail hnamed hlookup hrest ih
  rw [updateFound, updateFound, hlookup]
  cases other.lookup name with
  | none => simp [hnamed, ih]
  | some found => simp [Members.named_replaceFirst_self, hnamed, hrest]

theorem allNamed_updateVariable_congr {name : String} {first second : Context}
    (hsame : first.allNamed (cStr name) = second.allNamed (cStr name))
    (replacement : Json) :
    (first.updateVariable name replacement).allNamed (cStr name) =
      (second.updateVariable name replacement).allNamed (cStr name) := by
  have hlookup := lookup_of_allNamed hsame
  obtain ⟨hown, houter⟩ := List.cons.inj hsame
  rw [updateVariable, updateVariable, hlookup]
  cases second.ownVariables.lookup (cStr name) with
  | none =>
      rw [allNamed_eq, allNamed_eq, hown]
      exact congrArg _ (map_named_updateFound_congr houter replacement)
  | some found =>
      rw [allNamed_eq, allNamed_eq]
      simp only [Members.named_replaceFirst_self, hown]
      exact congrArg _ houter

theorem ownVariables_updateVariable_of_none {name : String} {context : Context}
    (hnone : context.ownVariables.lookup (cStr name) = none)
    (replacement : Json) :
    (context.updateVariable name replacement).ownVariables =
      context.ownVariables := by
  simp only [updateVariable, hnone]

theorem addMember_eq_updateVariable {name key : String} {value : Json}
    {context after : Context}
    (hadd : context.addMember name key value = .ok after) :
    ∃ members, context.getVariable name = some (.object members) ∧
      after = context.updateVariable name (.object (members ++ [(key, value)])) := by
  unfold addMember at hadd
  split at hadd
  · rename_i members hmembers
    cases hadd
    exact ⟨members, hmembers, rfl⟩
  · cases hadd

theorem outerNamed_of_allNamed {name : String} {context after : Context}
    (hsame : after.allNamed name = context.allNamed name) :
    after.outerNamed name = context.outerNamed name :=
  (List.cons.inj hsame).2

theorem allNamed_mergeVariable_of_ne {name key : String}
    (hcut : cStr key ≠ name) (hne : key ≠ name) (value : Json)
    (context : Context) :
    (context.mergeVariable key value).allNamed name = context.allNamed name := by
  rw [mergeVariable]
  cases context.getVariable key with
  | none => exact allNamed_setVariable_of_ne hne value context
  | some existing =>
      simp only
      cases mergeJsonObjects existing value with
      | none => rfl
      | some merged => exact allNamed_updateVariable_of_ne hcut merged context

theorem setVariableByPath_parents (path : String) (value : Json)
    (context : Context) :
    (context.setVariableByPath path value).Keeps parents context := by
  unfold setVariableByPath
  split
  · exact .ok rfl
  · exact .failed rfl
  · exact .undefined

/-- A path into another variable leaves a variable alone. -/
theorem setVariableByPath_allNamed {path name : String} {token : Token}
    {tokens : List Token} (hpath : pathTokens path = some (token :: tokens))
    (hne : token.name ≠ name) (value : Json) (context : Context) :
    (context.setVariableByPath path value).Keeps (allNamed name) context := by
  unfold setVariableByPath jsonSetValueByPath
  simp only [hpath]
  rw [Pointer.set]
  cases context.ownVariables.lookup token.name with
  | some old =>
      apply Outcome.Leaves.ok
      rw [allNamed_eq, allNamed_eq]
      simp only [outerNamed, Members.named_replaceFirst_of_ne hne]
  | none =>
      apply Outcome.Leaves.ok
      rw [allNamed_eq, allNamed_eq]
      simp only [outerNamed, Members.named_append, Members.named_cons_of_ne hne,
        Members.named_nil, List.append_nil]

end Context

end Uskit
