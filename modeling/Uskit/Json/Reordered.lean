import Mathlib.Data.List.Perm.Basic
import Uskit.Json.Value

namespace Uskit

open Uskit.Data

namespace Json

/-! Documents up to the order of their members.  Members of one name keep their
order, since a lookup finds the first of them. -/

inductive Reordered : Json → Json → Prop
  | refl (value : Json) : Reordered value value
  | swap {first second : String × Json} (hne : first.1 ≠ second.1)
      (rest : JsonMembers) :
      Reordered (.object (first :: second :: rest))
        (.object (second :: first :: rest))
  | value (name : String) {old new : Json} (hvalue : Reordered old new)
      (rest : JsonMembers) :
      Reordered (.object ((name, old) :: rest)) (.object ((name, new) :: rest))
  | cons (member : String × Json) {first second : JsonMembers}
      (hrest : Reordered (.object first) (.object second)) :
      Reordered (.object (member :: first)) (.object (member :: second))
  | trans {first second third : Json} (hfirst : Reordered first second)
      (hsecond : Reordered second third) : Reordered first third

namespace Reordered

theorem symm {first second : Json} (hsame : first.Reordered second) :
    second.Reordered first := by
  induction hsame with
  | refl value => exact .refl value
  | swap hne rest => exact .swap hne.symm rest
  | value name _ rest ih => exact .value name ih rest
  | cons member _ ih => exact .cons member ih
  | trans _ _ ihFirst ihSecond => exact ihSecond.trans ihFirst

theorem prepend (before : JsonMembers) {first second : JsonMembers}
    (hsame : (Json.object first).Reordered (.object second)) :
    (Json.object (before ++ first)).Reordered (.object (before ++ second)) := by
  induction before with
  | nil => exact hsame
  | cons member rest ih => exact .cons member ih

theorem of_perm {first second : JsonMembers} (hperm : first.Perm second)
    (hnames : (Members.names first).Nodup) :
    (Json.object first).Reordered (.object second) := by
  induction hperm with
  | nil => exact .refl _
  | cons member _ ih =>
      rw [Members.names_cons, List.nodup_cons] at hnames
      exact .cons member (ih hnames.2)
  | swap first second rest =>
      rw [Members.names_cons, List.nodup_cons] at hnames
      refine .swap ?_ rest
      intro heq
      apply hnames.1
      rw [heq]
      exact List.mem_cons_self
  | trans hfirst _ ihFirst ihSecond =>
      exact (ihFirst hnames).trans
        (ihSecond ((hfirst.map Prod.fst).nodup_iff.mp hnames))

/-- Objects whose lookups agree, once their names are distinct. -/
theorem of_lookup {first second : JsonMembers}
    (hfirst : (Members.names first).Nodup) (hsecond : (Members.names second).Nodup)
    (hnames : ∀ name, name ∈ Members.names first ↔ name ∈ Members.names second)
    (hvalues : ∀ name old new, first.lookup name = some old →
      second.lookup name = some new → old.Reordered new) :
    (Json.object first).Reordered (.object second) := by
  induction first generalizing second with
  | nil =>
      cases second with
      | nil => exact .refl _
      | cons member rest =>
          have hmem := (hnames member.1).mpr List.mem_cons_self
          cases hmem
  | cons member rest ih =>
      obtain ⟨name, old⟩ := member
      rw [Members.names_cons, List.nodup_cons] at hfirst
      have hfound : (second.lookup name).isSome :=
        Members.lookup_isSome.mpr ((hnames name).mp List.mem_cons_self)
      obtain ⟨new, hnew⟩ := Option.isSome_iff_exists.mp hfound
      obtain ⟨before, after, rfl, hbefore⟩ := Members.lookup_split hnew
      have hperm : (before ++ (name, new) :: after).Perm
          ((name, new) :: (before ++ after)) := List.perm_middle
      have hnodup : (Members.names ((name, new) :: (before ++ after))).Nodup :=
        (hperm.map Prod.fst).nodup_iff.mp hsecond
      rw [Members.names_cons, List.nodup_cons] at hnodup
      have hvalue : old.Reordered new :=
        hvalues name old new List.lookup_cons_self hnew
      have hrest : (Json.object rest).Reordered (.object (before ++ after)) := by
        apply ih hfirst.2 hnodup.2
        · intro other
          have hother := hnames other
          rw [show other ∈ Members.names (before ++ (name, new) :: after) ↔
            other ∈ Members.names ((name, new) :: (before ++ after)) from
              (hperm.map Prod.fst).mem_iff, Members.names_cons, Members.names_cons,
            List.mem_cons, List.mem_cons] at hother
          by_cases heq : other = name
          · rw [heq]
            exact iff_of_false hfirst.1 hnodup.1
          · simpa [heq] using hother
        · intro other first second hlookup hlookup'
          have hne : other ≠ name := by
            intro heq
            apply hfirst.1
            rw [← heq]
            exact Members.lookup_isSome.mp (by rw [hlookup]; rfl)
          apply hvalues other first second
          · rw [Members.lookup_cons_of_ne hne, hlookup]
          · rw [List.lookup_append] at hlookup' ⊢
            rw [Members.lookup_cons_of_ne hne, hlookup']
      have hback : (Json.object ((name, new) :: (before ++ after))).Reordered
          (.object (before ++ (name, new) :: after)) :=
        (of_perm hperm hsecond).symm
      exact ((Reordered.value name hvalue rest).trans (.cons _ hrest)).trans hback

end Reordered

end Json

end Uskit
