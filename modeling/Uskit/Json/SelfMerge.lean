import Uskit.Json.MergeContract

namespace Uskit

open Uskit.Data

open Json

/-! An object that is merged into itself. -/

theorem Json.Reordered.rel_refl (found : Option Json) :
    Option.Rel Reordered found found := by
  cases found with
  | none => exact .none
  | some value => exact .some (.refl value)

theorem Json.Reordered.rel_trans {first second third : Option Json}
    (hfirst : Option.Rel Reordered first second)
    (hsecond : Option.Rel Reordered second third) :
    Option.Rel Reordered first third := by
  cases hfirst with
  | none => exact hsecond
  | some hleft =>
      cases hsecond with
      | some hright => exact .some (hleft.trans hright)

theorem Json.Reordered.lookup {first second : Json} (hsame : first.Reordered second)
    (name : String) :
    Option.Rel Reordered (first.findMember? name) (second.findMember? name) := by
  induction hsame with
  | refl value => exact rel_refl (value.findMember? name)
  | @swap left right hne rest =>
      obtain ⟨leftName, leftValue⟩ := left
      obtain ⟨rightName, rightValue⟩ := right
      simp only [findMember?_object]
      by_cases hleft : name = leftName
      · subst hleft
        rw [List.lookup_cons_self, Members.lookup_cons_of_ne hne, List.lookup_cons_self]
        exact .some (.refl leftValue)
      · by_cases hright : name = rightName
        · subst hright
          rw [Members.lookup_cons_of_ne hleft, List.lookup_cons_self, List.lookup_cons_self]
          exact .some (.refl rightValue)
        · rw [Members.lookup_cons_of_ne hleft, Members.lookup_cons_of_ne hright,
            Members.lookup_cons_of_ne hright, Members.lookup_cons_of_ne hleft]
          exact rel_refl (rest.lookup name)
  | value other hvalue rest _ =>
      simp only [findMember?_object]
      by_cases hname : name = other
      · subst hname
        rw [List.lookup_cons_self, List.lookup_cons_self]
        exact .some hvalue
      · rw [Members.lookup_cons_of_ne hname, Members.lookup_cons_of_ne hname]
        exact rel_refl (rest.lookup name)
  | cons member _ ih =>
      obtain ⟨other, value⟩ := member
      simp only [findMember?_object] at ih ⊢
      by_cases hname : name = other
      · subst hname
        rw [List.lookup_cons_self, List.lookup_cons_self]
        exact .some (.refl value)
      · rw [Members.lookup_cons_of_ne hname, Members.lookup_cons_of_ne hname]
        exact ih
  | trans _ _ ihFirst ihSecond => exact rel_trans ihFirst ihSecond

theorem Json.Reordered.of_findMember {first second left right : Json} (name : String)
    (hsame : first.Reordered second) (hleft : first.findMember? name = some left)
    (hright : second.findMember? name = some right) : left.Reordered right := by
  have hlookup := hsame.lookup name
  rw [hleft, hright] at hlookup
  cases hlookup with
  | some hvalues => exact hvalues

theorem mergeMember_uniqueNames {members : JsonMembers} {member : String × Json}
    (hmembers : (Json.object members).UniqueNames) (hmember : member.2.UniqueNames) :
    (Json.object (mergeMember members member)).UniqueNames := by
  have hsource : (Json.object [member]).UniqueNames :=
    .object (List.nodup_singleton _) (by simpa using hmember)
  have hmerged := mergeValue_uniqueNames hsource hmembers
  rw [mergeValue, mergeMembers_cons, mergeMembers] at hmerged
  exact hmerged

/-- A member that is merged into its own object stays, though perhaps elsewhere. -/
theorem mergeMember_self_reordered {members : JsonMembers} {member : String × Json}
    (hunique : (Json.object members).UniqueNames) (hmem : member ∈ members) :
    (Json.object (mergeMember members member)).Reordered (.object members) := by
  obtain ⟨name, value⟩ := member
  obtain ⟨hnames, hvalues⟩ := (uniqueNames_object members).mp hunique
  have hfound := Members.lookup_of_mem hnames hmem
  obtain ⟨before, after, rfl, hbefore⟩ := Members.lookup_split hfound
  rw [mergeMember, hfound]
  dsimp only
  split
  · rw [Members.replaceFirst_split hbefore]
    exact Reordered.prepend before (.value name (absorbs_self (hvalues _ hmem)) after)
  · rw [Members.eraseFirst_split hbefore, List.append_assoc]
    apply Reordered.symm
    apply Reordered.prepend before
    apply Reordered.of_perm
    · exact (List.perm_append_singleton (name, value) after).symm
    · rw [Members.names_append, List.nodup_append] at hnames
      exact hnames.2.1

theorem mergeSelfFrom_reordered (remaining index : Nat) {members : JsonMembers}
    (hunique : (Json.object members).UniqueNames) :
    (Json.object (mergeSelfFrom remaining index members)).Reordered
      (.object members) := by
  induction remaining generalizing index members with
  | zero => exact .refl _
  | succ remaining ih =>
      rw [mergeSelfFrom]
      cases hmember : members[index]? with
      | none => exact .refl _
      | some member =>
          have hmem := List.mem_of_getElem? hmember
          have hvalue := ((uniqueNames_object members).mp hunique).2 member hmem
          exact (ih (index + 1) (mergeMember_uniqueNames hunique hvalue)).trans
            (mergeMember_self_reordered hunique hmem)

/-- Merging an object into itself moves its members, if their names are unique. -/
theorem mergeSelf_reordered {members : JsonMembers}
    (hunique : (Json.object members).UniqueNames) :
    (Json.object (mergeSelf members)).Reordered (.object members) :=
  mergeSelfFrom_reordered members.length 0 hunique

end Uskit
