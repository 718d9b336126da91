import Uskit.Json.Merge

namespace Uskit

open Uskit.Data

/-! What stands where in a value: the shapes at the paths through its objects.
Values that agree on their shapes can be merged in any order. -/

/-- An object, or a value that a merge takes over as it is. -/
inductive Shape where
  | object
  | leaf (value : Json)
deriving DecidableEq

namespace Json

def shape : Json → Shape
  | .object _ => .object
  | value => .leaf value

/-- The shape that a lookup along a path finds. -/
def shapeAt (value : Json) : List String → Option Shape
  | [] => some value.shape
  | name :: path =>
      match value with
      | .object members =>
          match members.lookup name with
          | some member => shapeAt member path
          | none => none
      | _ => none

/-- A shape at a path, through any member of a name. -/
inductive Holds : Json → List String → Shape → Prop
  | here (value : Json) : Holds value [] value.shape
  | member {members : JsonMembers} {name : String} {value : Json}
      {path : List String} {shape : Shape} (hmem : (name, value) ∈ members)
      (hvalue : Holds value path shape) :
      Holds (.object members) (name :: path) shape

/-- Member names are distinct, in every object that paths lead to. -/
inductive Distinct : Json → Prop
  | leaf {value : Json} (hleaf : value.isObject = false) : Distinct value
  | object {members : JsonMembers} (hnames : (Members.names members).Nodup)
      (hvalues : ∀ member ∈ members, Distinct member.2) :
      Distinct (.object members)

/-- The value has the shapes of a table, where it has any. -/
def Within (shapes : List String → Option Shape) (value : Json) : Prop :=
  ∀ path shape, value.Holds path shape → shapes path = some shape

theorem shape_eq_leaf {value : Json} (hleaf : value.isObject = false) :
    value.shape = .leaf value := by
  cases value with
  | object members => cases hleaf
  | null | bool | number | string | array => rfl

theorem eq_of_shape_eq {first second : Json} (hshape : first.shape = second.shape)
    (hleaf : ¬ (second.isObject && first.isObject) = true) : first = second := by
  cases hfirst : first.isObject with
  | false =>
      rw [shape_eq_leaf hfirst] at hshape
      cases hsecond : second.isObject with
      | false =>
          rw [shape_eq_leaf hsecond] at hshape
          exact Shape.leaf.inj hshape
      | true =>
          obtain ⟨members, rfl⟩ := isObject_iff.mp hsecond
          cases hshape
  | true =>
      obtain ⟨members, rfl⟩ := isObject_iff.mp hfirst
      cases hsecond : second.isObject with
      | false =>
          rw [shape_eq_leaf hsecond] at hshape
          cases hshape
      | true => simp [hsecond] at hleaf

theorem holds_nil_iff {value : Json} {shape : Shape} :
    value.Holds [] shape ↔ shape = value.shape := by
  constructor
  · intro hholds
    cases hholds with
    | here => rfl
  · intro heq
    rw [heq]
    exact .here value

theorem holds_object_iff {members : JsonMembers} {name : String}
    {path : List String} {shape : Shape} :
    (Json.object members).Holds (name :: path) shape ↔
      ∃ value, (name, value) ∈ members ∧ value.Holds path shape := by
  constructor
  · intro hholds
    cases hholds with
    | member hmem hvalue => exact ⟨_, hmem, hvalue⟩
  · intro hexists
    obtain ⟨value, hmem, hvalue⟩ := hexists
    exact .member hmem hvalue

theorem holds_of_shapeAt {value : Json} {path : List String} {shape : Shape}
    (hshape : value.shapeAt path = some shape) : value.Holds path shape := by
  induction path generalizing value with
  | nil =>
      cases hshape
      exact .here value
  | cons name path ih =>
      unfold shapeAt at hshape
      split at hshape
      · split at hshape
        · rename_i hlookup
          exact .member (Members.mem_of_lookup hlookup) (ih hshape)
        · cases hshape
      · cases hshape

theorem Distinct.shapeAt {value : Json} (hdistinct : value.Distinct)
    {path : List String} {shape : Shape} (hholds : value.Holds path shape) :
    value.shapeAt path = some shape := by
  induction hholds with
  | here value => rfl
  | member hmem hvalue ih =>
      cases hdistinct with
      | leaf hleaf => cases hleaf
      | object hnames hvalues =>
          rw [Json.shapeAt, Members.lookup_of_mem hnames hmem]
          exact ih (hvalues _ hmem)

theorem Distinct.shapeAt_iff {value : Json} (hdistinct : value.Distinct)
    {path : List String} {shape : Shape} :
    value.shapeAt path = some shape ↔ value.Holds path shape :=
  ⟨holds_of_shapeAt, hdistinct.shapeAt⟩

theorem shapeAt_eq_of_holds {first second : Json} (hfirst : first.Distinct)
    (hsecond : second.Distinct)
    (hsame : ∀ path shape, first.Holds path shape ↔ second.Holds path shape)
    (path : List String) : first.shapeAt path = second.shapeAt path := by
  apply Option.ext
  intro shape
  rw [hfirst.shapeAt_iff, hsecond.shapeAt_iff, hsame]

theorem distinct_object {members : JsonMembers} :
    (Json.object members).Distinct ↔ (Members.names members).Nodup ∧
      ∀ member ∈ members, member.2.Distinct := by
  constructor
  · intro hdistinct
    cases hdistinct with
    | leaf hleaf => cases hleaf
    | object hnames hvalues => exact ⟨hnames, hvalues⟩
  · intro hdistinct
    exact .object hdistinct.1 hdistinct.2

/-- Nothing in the value stands in the way of the path: no value at the path or
beyond it, and no value that is not an object on the way to it. -/
structure LeavesAlone (value : Json) (path : List String) : Prop where
  absent : value.shapeAt path = none
  inside : ∀ before after leaf, path = before ++ after →
    value.shapeAt before ≠ some (.leaf leaf)

theorem LeavesAlone.isObject {value : Json} {path : List String}
    (halone : value.LeavesAlone path) : ∃ members, value = .object members := by
  apply isObject_iff.mp
  by_contra hleaf
  rw [Bool.not_eq_true] at hleaf
  apply halone.inside [] path value rfl
  rw [shapeAt, shape_eq_leaf hleaf]

theorem leavesAlone_cons {members : JsonMembers} {name : String}
    {path : List String}
    (halone : (Json.object members).LeavesAlone (name :: path)) {value : Json}
    (hvalue : members.lookup name = some value) : value.LeavesAlone path := by
  have hshape : ∀ rest, (Json.object members).shapeAt (name :: rest) =
      value.shapeAt rest := by
    intro rest
    rw [shapeAt, hvalue]
  constructor
  · rw [← hshape]
    exact halone.absent
  · intro before after leaf heq
    rw [← hshape]
    exact halone.inside (name :: before) after leaf (by rw [heq]; rfl)

theorem leavesAlone_rest {member : String × Json} {rest : JsonMembers}
    {name : String} {path : List String}
    (halone : (Json.object (member :: rest)).LeavesAlone (name :: path))
    (hne : name ≠ member.1) : (Json.object rest).LeavesAlone (name :: path) := by
  have hshape : ∀ path, (Json.object (member :: rest)).shapeAt (name :: path) =
      (Json.object rest).shapeAt (name :: path) := by
    intro path
    rw [shapeAt, shapeAt,
      show member = (member.1, member.2) from rfl, Members.lookup_cons_of_ne hne]
  constructor
  · rw [← hshape]
    exact halone.absent
  · intro before after leaf heq
    cases before with
    | nil => simp [shapeAt, shape]
    | cons first before =>
        obtain ⟨rfl, -⟩ := List.cons.inj heq
        rw [← hshape]
        exact halone.inside _ after leaf heq

end Json

open Json

section Merge

/-- What a list of members holds below the root. -/
def MembersHold (members : JsonMembers) (name : String) (path : List String)
    (shape : Shape) : Prop :=
  ∃ value, (name, value) ∈ members ∧ value.Holds path shape

theorem not_membersHold_nil {name : String} {path : List String} {shape : Shape} :
    ¬ MembersHold [] name path shape := by
  simp [MembersHold]

theorem membersHold_append {left right : JsonMembers} {name : String}
    {path : List String} {shape : Shape} :
    MembersHold (left ++ right) name path shape ↔
      MembersHold left name path shape ∨ MembersHold right name path shape := by
  simp only [MembersHold, List.mem_append, or_and_right, exists_or]

theorem membersHold_cons {member : String × Json} {rest : JsonMembers}
    {name : String} {path : List String} {shape : Shape} :
    MembersHold (member :: rest) name path shape ↔
      (name = member.1 ∧ member.2.Holds path shape) ∨
        MembersHold rest name path shape := by
  obtain ⟨key, value⟩ := member
  simp only [MembersHold, List.mem_cons, Prod.mk.injEq, or_and_right, exists_or,
    and_assoc, exists_and_left, exists_eq_left]

def MembersWithin (shapes : List String → Option Shape) (members : JsonMembers) :
    Prop :=
  ∀ name path shape, MembersHold members name path shape →
    shapes (name :: path) = some shape

theorem mergeMember_holds {shapes : List String → Option Shape}
    {target : JsonMembers} {key : String} {value : Json}
    (htarget : MembersWithin shapes target)
    (hvalue : Within (fun path => shapes (key :: path)) value)
    (hmerge : ∀ old, target.lookup key = some old →
      (old.isObject && value.isObject) = true → ∀ path shape,
        (mergeValue value old).Holds path shape ↔
          value.Holds path shape ∨ old.Holds path shape)
    {name : String} {path : List String} {shape : Shape} :
    MembersHold (mergeMember target (key, value)) name path shape ↔
      (name = key ∧ value.Holds path shape) ∨
        MembersHold target name path shape := by
  unfold mergeMember
  cases hold : target.lookup key with
  | none =>
      simp only [membersHold_append, membersHold_cons, not_membersHold_nil,
        or_false]
      exact or_comm
  | some old =>
      obtain ⟨before, after, rfl, hbefore⟩ := Members.lookup_split hold
      simp only
      split
      · rename_i hobjects
        have hunion := hmerge old hold hobjects
        rw [Members.replaceFirst_split hbefore]
        simp only [membersHold_append, membersHold_cons, hunion]
        tauto
      · rename_i hleaf
        -- One of the values is a leaf, so that both are the same leaf.
        have hsame : value = old := by
          have hnew := hvalue [] _ (.here value)
          have hkept := htarget key [] _ ⟨old,
            List.mem_append_right _ List.mem_cons_self, .here old⟩
          have hshape : value.shape = old.shape :=
            Option.some.inj (hnew.symm.trans hkept)
          exact eq_of_shape_eq hshape hleaf
        rw [Members.eraseFirst_split hbefore, hsame]
        simp only [membersHold_append, membersHold_cons, not_membersHold_nil,
          or_false]
        tauto

theorem within_of_membersWithin {shapes : List String → Option Shape}
    {members : JsonMembers} (hmembers : MembersWithin shapes members)
    {name : String} {value : Json} (hmem : (name, value) ∈ members) :
    Within (fun path => shapes (name :: path)) value :=
  fun path shape hholds => hmembers name path shape ⟨value, hmem, hholds⟩

theorem membersWithin_of_within {shapes : List String → Option Shape}
    {members : JsonMembers} (hwithin : Within shapes (.object members)) :
    MembersWithin shapes members := by
  intro name path shape hholds
  exact hwithin _ _ (holds_object_iff.mpr hholds)

/-- A merge within a common table holds what both sides hold. -/
theorem merge_holds :
    (∀ source target : Json, ∀ shapes, Within shapes source →
      Within shapes target → ∀ path shape,
        (mergeValue source target).Holds path shape ↔
          source.Holds path shape ∨ target.Holds path shape) ∧
    ∀ source target : JsonMembers, ∀ shapes, MembersWithin shapes source →
      MembersWithin shapes target → ∀ name path shape,
        MembersHold (mergeMembers source target) name path shape ↔
          MembersHold source name path shape ∨
            MembersHold target name path shape := by
  apply merge_induction
  case object =>
    intro source target ih shapes hsource htarget path shape
    have hmembers := ih shapes (membersWithin_of_within hsource)
      (membersWithin_of_within htarget)
    cases path with
    | nil =>
        simp only [mergeValue, holds_nil_iff, Json.shape, or_self]
    | cons name path =>
        simp only [mergeValue, holds_object_iff]
        exact hmembers name path shape
  case leaf =>
    intro source target hleaf shapes hsource htarget path shape
    have hshape : source.shape = target.shape :=
      Option.some.inj ((hsource _ _ (.here source)).symm.trans
        (htarget _ _ (.here target)))
    have hsame : source = target :=
      eq_of_shape_eq hshape (by rw [hleaf]; exact Bool.false_ne_true)
    subst hsame
    cases source with
    | object members => simp [Json.isObject] at hleaf
    | null | bool | number | string | array => simp [mergeValue]
  case nil =>
    intro target shapes _ _ name path shape
    simp only [mergeMembers, not_membersHold_nil, false_or]
  case cons =>
    intro key value rest target hvalue ih shapes hsource htarget name path shape
    have hwithin : Within (fun path => shapes (key :: path)) value :=
      within_of_membersWithin hsource List.mem_cons_self
    have hrest : MembersWithin shapes rest := by
      intro other path shape hholds
      exact hsource other path shape (membersHold_cons.mpr (.inr hholds))
    have hstep : ∀ {name path shape},
        MembersHold (mergeMember target (key, value)) name path shape ↔
          (name = key ∧ value.Holds path shape) ∨
            MembersHold target name path shape := by
      intro name path shape
      apply mergeMember_holds htarget hwithin
      intro old hold hobjects
      exact hvalue old hold hobjects _ hwithin
        (within_of_membersWithin htarget (Members.mem_of_lookup hold))
    have hnext : MembersWithin shapes (mergeMember target (key, value)) := by
      intro other path shape hholds
      cases hstep.mp hholds with
      | inl hnew =>
          obtain ⟨rfl, hnew⟩ := hnew
          exact hwithin path shape hnew
      | inr hold => exact htarget other path shape hold
    rw [mergeMembers_cons, ih shapes hrest hnext, hstep, membersHold_cons]
    tauto

theorem mergeMember_names_nodup {target : JsonMembers}
    (hnodup : (Members.names target).Nodup) (member : String × Json) :
    (Members.names (mergeMember target member)).Nodup := by
  unfold mergeMember
  cases hold : target.lookup member.1 with
  | none =>
      exact Members.nodup_names_append_singleton hnodup
        (Members.lookup_eq_none.mp hold) member.2
  | some old =>
      simp only
      split
      · rw [Members.names_replaceFirst]
        exact hnodup
      · exact Members.nodup_names_append_singleton
          (Members.nodup_names_eraseFirst _ hnodup)
          (Members.not_mem_names_eraseFirst hnodup) member.2

theorem mergeMembers_names_nodup {source target : JsonMembers}
    (hnodup : (Members.names target).Nodup) :
    (Members.names (mergeMembers source target)).Nodup := by
  induction source generalizing target with
  | nil => exact hnodup
  | cons member rest ih =>
      rw [mergeMembers_cons]
      exact ih (mergeMember_names_nodup hnodup member)

/-- What holds of the values on both sides holds after the turn. -/
theorem mergeMember_forall {valid : Json → Prop} {target : JsonMembers}
    {key : String} {value : Json} (hvalue : valid value)
    (htarget : ∀ member ∈ target, valid member.2)
    (hmerge : ∀ old, target.lookup key = some old →
      (old.isObject && value.isObject) = true → valid (mergeValue value old)) :
    ∀ member ∈ mergeMember target (key, value), valid member.2 := by
  intro member hmem
  unfold mergeMember at hmem
  cases hold : target.lookup key with
  | none =>
      rw [hold] at hmem
      cases List.mem_append.mp hmem with
      | inl hkept => exact htarget member hkept
      | inr hlast =>
          rw [List.mem_singleton] at hlast
          rw [hlast]
          exact hvalue
  | some old =>
      simp only [hold] at hmem
      split at hmem
      · rename_i hobjects
        cases Members.mem_replaceFirst hmem with
        | inl hkept => exact htarget member hkept
        | inr hmerged =>
            rw [hmerged]
            exact hmerge old hold hobjects
      · cases List.mem_append.mp hmem with
        | inl hkept =>
            exact htarget member ((Members.eraseFirst_sublist _ _).subset hkept)
        | inr hlast =>
            rw [List.mem_singleton] at hlast
            rw [hlast]
            exact hvalue

/-- A merge keeps what speaks of the names and the values of an object. -/
theorem merge_hereditary {valid : Json → Prop}
    (hobject : ∀ members : JsonMembers, valid (.object members) ↔
      (Members.names members).Nodup ∧ ∀ member ∈ members, valid member.2) :
    (∀ source target : Json, valid source → valid target →
      valid (mergeValue source target)) ∧
    ∀ source target : JsonMembers, (∀ member ∈ source, valid member.2) →
      (∀ member ∈ target, valid member.2) →
        ∀ member ∈ mergeMembers source target, valid member.2 := by
  apply merge_induction
  case object =>
    intro source target ih hsource htarget
    exact (hobject _).mpr
      ⟨mergeMembers_names_nodup ((hobject _).mp htarget).1,
        ih ((hobject _).mp hsource).2 ((hobject _).mp htarget).2⟩
  case leaf =>
    intro source target hleaf hsource _
    rw [mergeValue_of_leaf hleaf]
    exact hsource
  case nil =>
    intro target _ htarget
    exact htarget
  case cons =>
    intro key value rest target hvalue ih hsource htarget
    rw [mergeMembers_cons]
    apply ih fun member hmem => hsource member (.tail _ hmem)
    apply mergeMember_forall (hsource _ List.mem_cons_self) htarget
    intro old hold hobjects
    exact hvalue old hold hobjects (hsource _ List.mem_cons_self)
      (htarget _ (Members.mem_of_lookup hold))

theorem merge_distinct :
    (∀ source target : Json, source.Distinct → target.Distinct →
      (mergeValue source target).Distinct) ∧
    ∀ source target : JsonMembers, (∀ member ∈ source, member.2.Distinct) →
      (∀ member ∈ target, member.2.Distinct) →
        ∀ member ∈ mergeMembers source target, member.2.Distinct :=
  merge_hereditary fun _ => distinct_object

theorem lookup_mergeMember_of_ne {target : JsonMembers} {name : String}
    {member : String × Json} (hne : name ≠ member.1) :
    (mergeMember target member).lookup name = target.lookup name := by
  unfold mergeMember
  cases target.lookup member.1 with
  | none => exact Members.lookup_append_singleton_of_ne hne target member.2
  | some old =>
      simp only
      split
      · exact Members.lookup_replaceFirst_of_ne (Ne.symm hne) _ target
      · rw [Members.lookup_append_singleton_of_ne hne _ member.2]
        exact Members.lookup_eraseFirst_of_ne (Ne.symm hne) target

theorem lookup_mergeMembers_of_not_mem {source target : JsonMembers}
    {name : String} (hname : name ∉ Members.names source) :
    (mergeMembers source target).lookup name = target.lookup name := by
  induction source generalizing target with
  | nil => rfl
  | cons member rest ih =>
      rw [Members.names_cons, List.mem_cons, not_or] at hname
      rw [mergeMembers_cons, ih hname.2, lookup_mergeMember_of_ne hname.1]

theorem lookup_mergeMember_self {target : JsonMembers}
    (hnodup : (Members.names target).Nodup) (key : String) (value : Json) :
    (mergeMember target (key, value)).lookup key =
      some (match target.lookup key with
        | some old => mergeValue value old
        | none => value) := by
  unfold mergeMember
  cases hold : target.lookup key with
  | none =>
      simp only
      rw [Members.lookup_append_of_not_mem (Members.lookup_eq_none.mp hold)]
      simp
  | some old =>
      simp only
      split
      · exact Members.lookup_replaceFirst_self _
          (Members.lookup_isSome.mp (by rw [hold]; rfl))
      · rename_i hleaf
        rw [Members.lookup_append_of_not_mem
          (Members.not_mem_names_eraseFirst hnodup),
          mergeValue_of_leaf (Bool.eq_false_iff.mpr hleaf)]
        simp

/-- One member of a source is merged, and the rest is left to merge. -/
theorem distinct_mergeMember {key : String} {value : Json}
    {rest target : JsonMembers}
    (hsource : (Json.object ((key, value) :: rest)).Distinct)
    (htarget : (Json.object target).Distinct) :
    key ∉ Members.names rest ∧ value.Distinct ∧ (Json.object rest).Distinct ∧
      (Json.object (mergeMember target (key, value))).Distinct := by
  obtain ⟨hnames, hvalues⟩ := distinct_object.mp hsource
  obtain ⟨htargetNames, htargetValues⟩ := distinct_object.mp htarget
  rw [Members.names_cons, List.nodup_cons] at hnames
  have hnew : value.Distinct := hvalues _ List.mem_cons_self
  refine ⟨hnames.1, hnew, ?_, ?_⟩
  · exact .object hnames.2 fun member hmem => hvalues member (.tail _ hmem)
  · refine .object (mergeMember_names_nodup htargetNames _) ?_
    exact mergeMember_forall hnew htargetValues fun old hold _ =>
      merge_distinct.1 value old hnew
        (htargetValues _ (Members.mem_of_lookup hold))

/-- Where the source of a merge has a shape, the outcome has it. -/
theorem merge_shapeAt :
    (∀ source target : Json, source.Distinct → target.Distinct →
      ∀ path shape, source.shapeAt path = some shape →
        (mergeValue source target).shapeAt path = some shape) ∧
    ∀ source target : JsonMembers, (Json.object source).Distinct →
      (Json.object target).Distinct → ∀ name path shape,
        (Json.object source).shapeAt (name :: path) = some shape →
          (Json.object (mergeMembers source target)).shapeAt (name :: path) =
            some shape := by
  apply merge_induction
  case object =>
    intro source target ih hsource htarget path shape hshape
    cases path with
    | nil => exact hshape
    | cons name path => exact ih hsource htarget name path shape hshape
  case leaf =>
    intro source target hleaf _ _ path shape hshape
    rw [mergeValue_of_leaf hleaf]
    exact hshape
  case nil =>
    intro target _ _ name path shape hshape
    cases hshape
  case cons =>
    intro key value rest target hvalue ih hsource htarget name path shape hshape
    obtain ⟨hkey, hnew, hrest, hmerged⟩ := distinct_mergeMember hsource htarget
    obtain ⟨htargetNames, htargetValues⟩ := distinct_object.mp htarget
    rw [mergeMembers_cons]
    by_cases hname : name = key
    · subst hname
      rw [Json.shapeAt, List.lookup_cons_self] at hshape
      rw [Json.shapeAt, lookup_mergeMembers_of_not_mem hkey,
        lookup_mergeMember_self htargetNames]
      simp only
      cases hold : target.lookup name with
      | none => exact hshape
      | some old =>
          simp only
          cases hobjects : old.isObject && value.isObject with
          | true =>
              exact hvalue old hold hobjects hnew
                (htargetValues _ (Members.mem_of_lookup hold)) path shape hshape
          | false =>
              rw [mergeValue_of_leaf hobjects]
              exact hshape
    · apply ih
      · exact hrest
      · exact hmerged
      · rw [Json.shapeAt, Members.lookup_cons_of_ne hname] at hshape
        exact hshape

/-- A merge changes nothing along a path that its source leaves alone. -/
theorem merge_leavesAlone :
    (∀ source target : Json, source.Distinct → target.Distinct →
      ∀ path, source.LeavesAlone path →
        (mergeValue source target).shapeAt path = target.shapeAt path) ∧
    ∀ source target : JsonMembers, (Json.object source).Distinct →
      (Json.object target).Distinct → ∀ name path,
        (Json.object source).LeavesAlone (name :: path) →
          (Json.object (mergeMembers source target)).shapeAt (name :: path) =
            (Json.object target).shapeAt (name :: path) := by
  apply merge_induction
  case object =>
    intro source target ih hsource htarget path halone
    cases path with
    | nil => exact absurd halone.absent (by simp [Json.shapeAt])
    | cons name path => exact ih hsource htarget name path halone
  case leaf =>
    intro source target hleaf _ _ path halone
    obtain ⟨members, rfl⟩ := halone.isObject
    rw [mergeValue_of_leaf hleaf, halone.absent]
    cases path with
    | nil => exact absurd halone.absent (by simp [Json.shapeAt])
    | cons name path =>
        cases target with
        | object others => simp [Json.isObject] at hleaf
        | null | bool | number | string | array => rfl
  case nil =>
    intro target _ _ name path _
    rfl
  case cons =>
    intro key value rest target hvalue ih hsource htarget name path halone
    obtain ⟨hkey, hnew, hrest, hmerged⟩ := distinct_mergeMember hsource htarget
    obtain ⟨htargetNames, htargetValues⟩ := distinct_object.mp htarget
    rw [mergeMembers_cons]
    by_cases hname : name = key
    · subst hname
      have hinner : value.LeavesAlone path :=
        Json.leavesAlone_cons halone List.lookup_cons_self
      rw [Json.shapeAt, lookup_mergeMembers_of_not_mem hkey,
        lookup_mergeMember_self htargetNames, Json.shapeAt]
      simp only
      cases hold : target.lookup name with
      | none => exact hinner.absent
      | some old =>
          simp only
          cases hobjects : old.isObject && value.isObject with
          | true =>
              exact hvalue old hold hobjects hnew
                (htargetValues _ (Members.mem_of_lookup hold)) path hinner
          | false =>
              rw [mergeValue_of_leaf hobjects, hinner.absent]
              obtain ⟨members, rfl⟩ := hinner.isObject
              cases path with
              | nil => exact absurd hinner.absent (by simp [Json.shapeAt])
              | cons first path =>
                  cases old with
                  | object others => simp [Json.isObject] at hobjects
                  | null | bool | number | string | array => rfl
    · rw [ih]
      · rw [Json.shapeAt, Json.shapeAt, lookup_mergeMember_of_ne hname]
      · exact hrest
      · exact hmerged
      · exact Json.leavesAlone_rest halone hname

end Merge

section MergeAll

def mergeAll (sources : List JsonMembers) (target : JsonMembers) : JsonMembers :=
  sources.foldl (fun merged source => mergeMembers source merged) target

@[simp] theorem mergeAll_nil (target : JsonMembers) :
    mergeAll [] target = target := rfl

theorem mergeAll_cons (source : JsonMembers) (rest : List JsonMembers)
    (target : JsonMembers) :
    mergeAll (source :: rest) target =
      mergeAll rest (mergeMembers source target) := rfl

theorem mergeAll_append (first second : List JsonMembers) (target : JsonMembers) :
    mergeAll (first ++ second) target = mergeAll second (mergeAll first target) :=
  List.foldl_append

theorem mergeAll_holds {shapes : List String → Option Shape}
    {sources : List JsonMembers} {target : JsonMembers}
    (hsources : ∀ source ∈ sources, MembersWithin shapes source)
    (htarget : MembersWithin shapes target) {name : String} {path : List String}
    {shape : Shape} :
    MembersHold (mergeAll sources target) name path shape ↔
      (∃ source ∈ sources, MembersHold source name path shape) ∨
        MembersHold target name path shape := by
  induction sources generalizing target with
  | nil => simp
  | cons source rest ih =>
      obtain ⟨hsource, hrest⟩ := List.forall_mem_cons.mp hsources
      have hmerge := merge_holds.2 source target shapes hsource htarget
      have hnext : MembersWithin shapes (mergeMembers source target) := by
        intro other path shape hholds
        cases (hmerge other path shape).mp hholds with
        | inl hnew => exact hsource other path shape hnew
        | inr hold => exact htarget other path shape hold
      rw [mergeAll_cons, ih hrest hnext, hmerge name path shape]
      simp only [List.mem_cons, exists_eq_or_imp]
      exact or_left_comm.trans or_assoc.symm

theorem mergeAll_distinct {sources : List JsonMembers} {target : JsonMembers}
    (hsources : ∀ source ∈ sources, ∀ member ∈ source, member.2.Distinct)
    (htarget : (Json.object target).Distinct) :
    (Json.object (mergeAll sources target)).Distinct := by
  induction sources generalizing target with
  | nil => exact htarget
  | cons source rest ih =>
      obtain ⟨hsource, hrest⟩ := List.forall_mem_cons.mp hsources
      obtain ⟨hnames, hvalues⟩ := distinct_object.mp htarget
      exact ih hrest (.object (mergeMembers_names_nodup hnames)
        (merge_distinct.2 source target hsource hvalues))

/-- Sources that agree can be merged in any order. -/
theorem mergeAll_leavesAlone {sources : List JsonMembers} {target : JsonMembers}
    (hsources : ∀ source ∈ sources, (Json.object source).Distinct)
    (htarget : (Json.object target).Distinct) {name : String} {path : List String}
    (halone : ∀ source ∈ sources, (Json.object source).LeavesAlone (name :: path)) :
    (Json.object (mergeAll sources target)).shapeAt (name :: path) =
      (Json.object target).shapeAt (name :: path) := by
  induction sources generalizing target with
  | nil => rfl
  | cons source rest ih =>
      obtain ⟨hsource, hrest⟩ := List.forall_mem_cons.mp hsources
      obtain ⟨hfirst, hlater⟩ := List.forall_mem_cons.mp halone
      have hnext : (Json.object (mergeMembers source target)).Distinct :=
        merge_distinct.1 (.object source) (.object target) hsource htarget
      rw [mergeAll_cons, ih hrest hnext hlater]
      exact merge_leavesAlone.2 source target hsource htarget name path hfirst

/-- The last of the merged objects that does not leave a path alone decides what
is found there. -/
theorem mergeAll_shapeAt_of_last {earlier later : List JsonMembers}
    {source target : JsonMembers}
    (hsources : ∀ other ∈ earlier ++ source :: later,
      (Json.object other).Distinct)
    (htarget : (Json.object target).Distinct) {path : List String} {shape : Shape}
    (hshape : (Json.object source).shapeAt path = some shape)
    (halone : ∀ other ∈ later, (Json.object other).LeavesAlone path) :
    (Json.object (mergeAll (earlier ++ source :: later) target)).shapeAt path =
      some shape := by
  cases path with
  | nil => exact hshape
  | cons name path =>
      have hsource : (Json.object source).Distinct := hsources source (by simp)
      have hbefore : (Json.object (mergeAll earlier target)).Distinct := by
        apply mergeAll_distinct _ htarget
        intro other hother
        have hdistinct := hsources other (List.mem_append_left _ hother)
        exact (distinct_object.mp hdistinct).2
      have hafter : (Json.object
          (mergeMembers source (mergeAll earlier target))).Distinct :=
        merge_distinct.1 (.object source) (.object _) hsource hbefore
      have hlater : ∀ other ∈ later, (Json.object other).Distinct := by
        intro other hother
        exact hsources other (List.mem_append_right _ (.tail _ hother))
      rw [mergeAll_append, mergeAll_cons,
        mergeAll_leavesAlone hlater hafter halone]
      exact merge_shapeAt.2 source _ hsource hbefore name path shape hshape

theorem mergeAll_shapeAt_of_perm {shapes : List String → Option Shape}
    {first second : List JsonMembers} {target : JsonMembers}
    (hperm : second.Perm first)
    (hwithin : ∀ source ∈ first, MembersWithin shapes source)
    (hdistinct : ∀ source ∈ first, ∀ member ∈ source, member.2.Distinct)
    (htarget : MembersWithin shapes target)
    (htargetDistinct : (Json.object target).Distinct) (path : List String) :
    (Json.object (mergeAll second target)).shapeAt path =
      (Json.object (mergeAll first target)).shapeAt path := by
  have hwithinSecond : ∀ source ∈ second, MembersWithin shapes source :=
    fun source hmem => hwithin source (hperm.mem_iff.mp hmem)
  apply shapeAt_eq_of_holds
  · exact mergeAll_distinct
      (fun source hmem => hdistinct source (hperm.mem_iff.mp hmem))
      htargetDistinct
  · exact mergeAll_distinct hdistinct htargetDistinct
  · intro path shape
    cases path with
    | nil => simp only [holds_nil_iff, Json.shape]
    | cons name path =>
        have hfirst : MembersHold (mergeAll first target) name path shape ↔ _ :=
          mergeAll_holds hwithin htarget
        have hsecond : MembersHold (mergeAll second target) name path shape ↔ _ :=
          mergeAll_holds hwithinSecond htarget
        rw [holds_object_iff, holds_object_iff]
        refine hsecond.trans (Iff.trans ?_ hfirst.symm)
        simp only [hperm.mem_iff]

end MergeAll

end Uskit
