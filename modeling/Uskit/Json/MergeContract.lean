import Uskit.Json.Reordered
import Uskit.Json.Shape

namespace Uskit

open Uskit.Data

/-! What `merge_json_objects` makes of values in which no object repeats a name,
and why merging the same value again only moves members. -/

namespace Json

/-- No object names a member twice, at any depth and in any array. -/
inductive UniqueNames : Json → Prop
  | scalar {value : Json} (hobject : ∀ members, value ≠ .object members)
      (harray : ∀ elements, value ≠ .array elements) : UniqueNames value
  | array {elements : List Json} (helements : ∀ element ∈ elements,
      UniqueNames element) : UniqueNames (.array elements)
  | object {members : JsonMembers} (hnames : (Members.names members).Nodup)
      (hvalues : ∀ member ∈ members, UniqueNames member.2) :
      UniqueNames (.object members)

theorem uniqueNames_object (members : JsonMembers) :
    (Json.object members).UniqueNames ↔ (Members.names members).Nodup ∧
      ∀ member ∈ members, member.2.UniqueNames := by
  constructor
  · intro hunique
    cases hunique with
    | scalar hobject _ => exact absurd rfl (hobject members)
    | object hnames hvalues => exact ⟨hnames, hvalues⟩
  · intro hunique
    exact .object hunique.1 hunique.2

theorem UniqueNames.of_lookup {members : JsonMembers} {name : String} {value : Json}
    (hunique : (Json.object members).UniqueNames)
    (hfound : members.lookup name = some value) : value.UniqueNames :=
  ((uniqueNames_object members).mp hunique).2 _ (Members.mem_of_lookup hfound)

end Json

open Json

theorem mergeValue_uniqueNames {source target : Json} (hsource : source.UniqueNames)
    (htarget : target.UniqueNames) : (mergeValue source target).UniqueNames :=
  (merge_hereditary uniqueNames_object).1 source target hsource htarget

theorem names_mergeMember (target : JsonMembers) (member : String × Json)
    (name : String) :
    name ∈ Members.names (mergeMember target member) ↔
      name = member.1 ∨ name ∈ Members.names target := by
  unfold mergeMember
  cases hold : target.lookup member.1 with
  | none =>
      rw [Members.names_append, List.mem_append, or_comm]
      exact or_congr_left List.mem_singleton
  | some old =>
      obtain ⟨before, after, rfl, hbefore⟩ := Members.lookup_split hold
      simp only
      split
      · rw [Members.names_replaceFirst]
        constructor
        · exact .inr
        · intro hname
          rcases hname with rfl | hname
          · rw [Members.names_append]
            exact List.mem_append_right _ List.mem_cons_self
          · exact hname
      · rw [Members.eraseFirst_split hbefore]
        simp only [Members.names_append, Members.names_cons, Members.names_nil,
          List.mem_append, List.mem_cons, List.not_mem_nil, or_false]
        tauto

theorem names_mergeMembers (source target : JsonMembers) (name : String) :
    name ∈ Members.names (mergeMembers source target) ↔
      name ∈ Members.names target ∨ name ∈ Members.names source := by
  induction source generalizing target with
  | nil => simp [mergeMembers]
  | cons member rest ih =>
      rw [mergeMembers_cons, ih, names_mergeMember, Members.names_cons, List.mem_cons]
      tauto

/-- The value that a member of `from` leaves: merged into what `to` had under its
name, if anything. -/
theorem lookup_mergeMembers {source target : JsonMembers} {name : String}
    {value : Json} (hsource : (Members.names source).Nodup)
    (htarget : (Members.names target).Nodup)
    (hvalue : source.lookup name = some value) :
    (mergeMembers source target).lookup name =
      some (match target.lookup name with
        | some old => mergeValue value old
        | none => value) := by
  obtain ⟨before, after, rfl, hbefore⟩ := Members.lookup_split hvalue
  have hafter : name ∉ Members.names after := by
    rw [Members.names_append, Members.names_cons, List.nodup_append'] at hsource
    exact (List.nodup_cons.mp hsource.2.1).1
  have hnodup : (Members.names (mergeMembers before target)).Nodup :=
    mergeMembers_names_nodup htarget
  have hself := lookup_mergeMember_self hnodup name value
  rw [lookup_mergeMembers_of_not_mem hbefore] at hself
  rw [mergeMembers_append, mergeMembers_cons, lookup_mergeMembers_of_not_mem hafter]
  exact hself

section Absorb

/-- The target has what the source would put there. -/
def Absorbs (target source : Json) : Prop :=
  (mergeValue source target).Reordered target

theorem absorbs_leaf {source : Json} (hleaf : source.isObject = false) :
    Absorbs source source := by
  rw [Absorbs, mergeValue_of_leaf (by rw [hleaf, Bool.false_and])]
  exact .refl source

theorem absorbs_object {source target : JsonMembers}
    (hsource : (Members.names source).Nodup) (htarget : (Members.names target).Nodup)
    (habsorbs : ∀ name value, source.lookup name = some value →
      ∃ old, target.lookup name = some old ∧ Absorbs old value) :
    Absorbs (.object target) (.object source) := by
  apply Reordered.of_lookup (mergeMembers_names_nodup htarget) htarget
  · intro name
    rw [names_mergeMembers]
    constructor
    · intro hname
      rcases hname with hname | hname
      · exact hname
      · obtain ⟨value, hvalue⟩ :=
          Option.isSome_iff_exists.mp (Members.lookup_isSome.mpr hname)
        obtain ⟨old, hold, -⟩ := habsorbs name value hvalue
        exact Members.lookup_isSome.mp (by rw [hold]; rfl)
    · exact .inl
  · intro name merged old hmerged hold
    cases hvalue : source.lookup name with
    | none =>
        rw [lookup_mergeMembers_of_not_mem (Members.lookup_eq_none.mp hvalue),
          hold] at hmerged
        cases hmerged
        exact .refl _
    | some value =>
        obtain ⟨other, hother, habsorb⟩ := habsorbs name value hvalue
        rw [lookup_mergeMembers hsource htarget hvalue, hold] at hmerged
        rw [hold] at hother
        cases hother
        cases hmerged
        exact habsorb

theorem absorbs_self {value : Json} (hunique : value.UniqueNames) :
    Absorbs value value := by
  induction hunique with
  | @scalar value hobject _ =>
      apply absorbs_leaf
      cases value with
      | object members => exact absurd rfl (hobject members)
      | null | bool | number | string | array => rfl
  | array _ _ => exact absorbs_leaf rfl
  | object hnames _ ih =>
      apply absorbs_object hnames hnames
      intro name value hvalue
      exact ⟨value, hvalue, ih _ (Members.mem_of_lookup hvalue)⟩

/-- What was merged in is absorbed: by induction on the source, whose members meet
either a member they were merged into or themselves. -/
theorem absorbs_merged {source : Json} (hsource : source.UniqueNames) (target : Json)
    (htarget : target.UniqueNames) : Absorbs (mergeValue source target) source := by
  induction hsource generalizing target with
  | @scalar source hobject _ =>
      have hleaf : source.isObject = false := by
        cases source with
        | object members => exact absurd rfl (hobject members)
        | null | bool | number | string | array => rfl
      rw [mergeValue_of_leaf (by rw [hleaf, Bool.and_false])]
      exact absorbs_leaf hleaf
  | array _ _ => exact absorbs_leaf rfl
  | @object source hnames hvalues ih =>
      have hunique : (Json.object source).UniqueNames := .object hnames hvalues
      cases htargetObject : target.isObject with
      | false =>
          rw [mergeValue_of_leaf (by rw [htargetObject, Bool.false_and])]
          exact absorbs_self hunique
      | true =>
          obtain ⟨members, rfl⟩ := isObject_iff.mp htargetObject
          have hmembers := ((uniqueNames_object members).mp htarget).1
          rw [mergeValue]
          apply absorbs_object hnames (mergeMembers_names_nodup hmembers)
          intro name value hvalue
          rw [lookup_mergeMembers hnames hmembers hvalue]
          refine ⟨_, rfl, ?_⟩
          cases hold : members.lookup name with
          | none => exact absorbs_self (hunique.of_lookup hvalue)
          | some old =>
              exact ih _ (Members.mem_of_lookup hvalue) old (htarget.of_lookup hold)

end Absorb

/-- The return code of `merge_json_objects` and what it leaves in `to`. -/
def mergeCall (target source : Json) : Int × Json :=
  match mergeJsonObjects target source with
  | some merged => (0, merged)
  | none => (-1, target)

/-- The members of the outcome, told from those of `to` and of `from`. -/
structure MergesMembers (target source merged : JsonMembers) : Prop where
  names : ∀ name, name ∈ Members.names merged ↔
    name ∈ Members.names target ∨ name ∈ Members.names source
  unique : (Json.object merged).UniqueNames
  fromTarget : ∀ name, source.lookup name = none →
    merged.lookup name = target.lookup name
  fromSource : ∀ name, target.lookup name = none →
    merged.lookup name = source.lookup name
  fromBoth : ∀ name old value, target.lookup name = some old →
    source.lookup name = some value →
      merged.lookup name =
        some (if old.isObject && value.isObject then (mergeCall old value).2
          else value)

theorem mergeCall_of_leaf {target source : Json}
    (hleaf : (target.isObject && source.isObject) = false) :
    mergeCall target source = (-1, target) := by
  cases target with
  | object members =>
      cases source with
      | object others => simp [Json.isObject] at hleaf
      | null | bool | number | string | array => rfl
  | null | bool | number | string | array => rfl

theorem mergeMembers_mergesMembers {target source : JsonMembers}
    (htarget : (Json.object target).UniqueNames)
    (hsource : (Json.object source).UniqueNames) :
    MergesMembers target source (mergeMembers source target) where
  names := names_mergeMembers source target
  unique := mergeValue_uniqueNames hsource htarget
  fromTarget := fun name hnone =>
    lookup_mergeMembers_of_not_mem (Members.lookup_eq_none.mp hnone)
  fromSource := by
    intro name hnone
    cases hvalue : source.lookup name with
    | none =>
        rw [lookup_mergeMembers_of_not_mem (Members.lookup_eq_none.mp hvalue), hnone]
    | some value =>
        rw [lookup_mergeMembers ((uniqueNames_object source).mp hsource).1
          ((uniqueNames_object target).mp htarget).1 hvalue, hnone]
  fromBoth := by
    intro name old value hold hvalue
    rw [lookup_mergeMembers ((uniqueNames_object source).mp hsource).1
      ((uniqueNames_object target).mp htarget).1 hvalue, hold]
    simp only
    cases hobjects : old.isObject && value.isObject with
    | false => rw [mergeValue_of_leaf hobjects, if_neg Bool.false_ne_true]
    | true =>
        obtain ⟨hold', hvalue'⟩ := Bool.and_eq_true_iff.mp hobjects
        obtain ⟨olds, rfl⟩ := isObject_iff.mp hold'
        obtain ⟨values, rfl⟩ := isObject_iff.mp hvalue'
        rfl

theorem mergeJsonObjects_contract (target source : Json)
    (htarget : target.UniqueNames) (hsource : source.UniqueNames) :
    ((target.isObject && source.isObject) = false →
      mergeCall target source = (-1, target)) ∧
    ∀ members others, target = .object members → source = .object others →
      ∃ merged, mergeCall target source = (0, .object merged) ∧
        MergesMembers members others merged ∧
        ∃ again, mergeCall (.object merged) source = (0, again) ∧
          again.Reordered (.object merged) := by
  refine ⟨mergeCall_of_leaf, ?_⟩
  intro members others htargetEq hsourceEq
  subst htargetEq hsourceEq
  refine ⟨_, rfl, mergeMembers_mergesMembers htarget hsource, _, rfl, ?_⟩
  exact absorbs_merged hsource (.object members) htarget

theorem mergeJsonObjects_contract_nested :
    ∃ again, mergeCall (.object [("b", .null), ("a", .object [("y", .null)])])
        (.object [("a", .object [("y", .null)])]) = (0, again) ∧
      again.Reordered
        (.object [("b", .null), ("a", .object [("y", .null)])]) := by
  have hleaf : Json.null.UniqueNames := .scalar (by simp) (by simp)
  have hinner : (Json.object [("y", .null)]).UniqueNames :=
    .object (by decide) (by simpa using hleaf)
  have hsource : (Json.object [("a", .object [("y", .null)])]).UniqueNames :=
    .object (by decide) (by simpa using hinner)
  have htarget : (Json.object [("a", .null), ("b", .null)]).UniqueNames :=
    .object (by decide) (by simpa using hleaf)
  obtain ⟨merged, hmerged, -, again, hagain, hsame⟩ :=
    (mergeJsonObjects_contract _ _ htarget hsource).2 _ _ rfl rfl
  have heq : mergeCall (.object [("a", .null), ("b", .null)])
      (.object [("a", .object [("y", .null)])]) =
        (0, .object [("b", .null), ("a", .object [("y", .null)])]) := by decide
  rw [heq] at hmerged
  cases hmerged
  exact ⟨again, hagain, hsame⟩

end Uskit
