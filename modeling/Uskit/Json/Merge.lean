import Uskit.Json.Value

namespace Uskit

open Uskit.Data

/-! `merge_json_objects`: the members of `from` go into `to` one after another;
members that are objects on both sides are merged, any other member of `to` is
erased and the one of `from` appended. -/

mutual
/-- The value that takes the place of an object member of `to`. -/
def mergeValue : (source target : Json) → Json
  | .object source, .object target => .object (mergeMembers source target)
  | source, _ => source
termination_by structural source => source

def mergeMembers :
    (source : List (String × Json)) → (target : JsonMembers) → JsonMembers
  | [], target => target
  | (name, value) :: rest, target =>
      match target.lookup name with
      | none => mergeMembers rest (target ++ [(name, value)])
      | some old =>
          if old.isObject && value.isObject then
            mergeMembers rest
              (Members.replaceFirst name (mergeValue value old) target)
          else
            mergeMembers rest
              (Members.eraseFirst name target ++ [(name, value)])
termination_by structural source => source
end

theorem mergeValue_of_leaf {source target : Json}
    (hleaf : (target.isObject && source.isObject) = false) :
    mergeValue source target = source := by
  cases source with
  | object members =>
      cases target with
      | object others => simp [Json.isObject] at hleaf
      | null | bool | number | string | array => rfl
  | null | bool | number | string | array => rfl

/-- One turn of the loop over the members of `from`. -/
def mergeMember (target : JsonMembers) (member : String × Json) : JsonMembers :=
  match target.lookup member.1 with
  | none => target ++ [member]
  | some old =>
      if old.isObject && member.2.isObject then
        Members.replaceFirst member.1 (mergeValue member.2 old) target
      else Members.eraseFirst member.1 target ++ [member]

theorem mergeMembers_eq_foldl (source target : JsonMembers) :
    mergeMembers source target = source.foldl mergeMember target := by
  induction source generalizing target with
  | nil => rw [mergeMembers, List.foldl_nil]
  | cons member rest ih =>
      obtain ⟨name, value⟩ := member
      rw [mergeMembers, List.foldl_cons, mergeMember]
      cases target.lookup name with
      | none => exact ih _
      | some old =>
          simp only
          split
          · exact ih _
          · exact ih _

theorem mergeMembers_cons (member : String × Json) (rest target : JsonMembers) :
    mergeMembers (member :: rest) target =
      mergeMembers rest (mergeMember target member) := by
  rw [mergeMembers_eq_foldl, mergeMembers_eq_foldl, List.foldl_cons]

theorem mergeMembers_append (first second target : JsonMembers) :
    mergeMembers (first ++ second) target =
      mergeMembers second (mergeMembers first target) := by
  simp only [mergeMembers_eq_foldl, List.foldl_append]

/-- Induction over a merge, one member of the source after another. -/
theorem merge_induction {values : Json → Json → Prop}
    {members : JsonMembers → JsonMembers → Prop}
    (object : ∀ source target, members source target →
      values (.object source) (.object target))
    (leaf : ∀ source target, (target.isObject && source.isObject) = false →
      values source target)
    (nil : ∀ target, members [] target)
    (cons : ∀ name value rest target,
      (∀ old, target.lookup name = some old →
        (old.isObject && value.isObject) = true → values value old) →
      members rest (mergeMember target (name, value)) →
        members ((name, value) :: rest) target) :
    (∀ source target, values source target) ∧
      ∀ source target, members source target := by
  apply mergeValue.mutual_induct
  · exact object
  · intro target source hother
    apply leaf
    cases source with
    | object sourceMembers =>
        cases target with
        | object targetMembers => exact (hother _ _ rfl rfl).elim
        | null | bool | number | string | array => rfl
    | null | bool | number | string | array => simp [Json.isObject]
  · exact nil
  · intro name value rest target hnone ih
    apply cons
    · intro old hold
      rw [hnone] at hold
      cases hold
    · rw [mergeMember, hnone]
      exact ih
  · intro name value rest target old hold hobjects hvalue ih
    apply cons
    · intro other hother _
      rw [hold] at hother
      cases hother
      exact hvalue
    · simp only [mergeMember, hold, hobjects, if_true]
      exact ih
  · intro name value rest target old hold hleaf ih
    apply cons
    · intro other hother hobjects
      rw [hold] at hother
      cases hother
      exact absurd hobjects hleaf
    · simp only [mergeMember, hold, if_neg hleaf]
      exact ih

/-- `none` is the return code -1, with the target unchanged. -/
def mergeJsonObjects (target source : Json) : Option Json :=
  match target, source with
  | .object target, .object source => some (.object (mergeMembers source target))
  | _, _ => none

/-- The loop of `merge_json_objects` over an object that is merged into itself:
it counts the members it started with, while it moves them. -/
def mergeSelfFrom : (remaining index : Nat) → JsonMembers → JsonMembers
  | 0, _, members => members
  | remaining + 1, index, members =>
      match members[index]? with
      | some member => mergeSelfFrom remaining (index + 1) (mergeMember members member)
      | none => members

def mergeSelf (members : JsonMembers) : JsonMembers :=
  mergeSelfFrom members.length 0 members

example :
    mergeJsonObjects
        (.object [("a", .object [("x", .null)]), ("b", .null)])
        (.object [("b", .bool true), ("a", .object [("y", .null)])]) =
      some (.object
        [("a", .object [("x", .null), ("y", .null)]), ("b", .bool true)]) := by
  decide

end Uskit
