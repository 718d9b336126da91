import Uskit.Data.Overlay
import Uskit.Json.Reordered
import Uskit.Json.Shape

namespace Uskit

open Uskit.Data

/-! A merge lays the shapes of its source over those of its target, and in which way three
documents are merged matters for what resurfaces only. -/

def Shape.IsLeaf (shape : Shape) : Prop :=
  shape ≠ .object

namespace Json

theorem shapeAt_cons (members : JsonMembers) (name : String) (path : List String) :
    (Json.object members).shapeAt (name :: path) =
      (members.lookup name).bind (·.shapeAt path) := by
  rw [shapeAt]
  cases members.lookup name <;> rfl

theorem shapeAt_cons_congr {first second : JsonMembers} {name : String}
    (hlookup : first.lookup name = second.lookup name) (path : List String) :
    (Json.object first).shapeAt (name :: path) = (Json.object second).shapeAt (name :: path) := by
  rw [shapeAt_cons, shapeAt_cons, hlookup]

/-- Only objects have something below them. -/
theorem shapeAt_rooted (value : Json) : Layer.Rooted Shape.IsLeaf value.shapeAt := by
  intro path hpath before hbefore hne
  induction path generalizing value before with
  | nil => exact absurd (List.prefix_nil.mp hbefore) hne
  | cons name path ih =>
      cases value with
      | object members =>
          cases before with
          | nil => exact ⟨.object, rfl, fun hleaf => hleaf rfl⟩
          | cons first before =>
              obtain ⟨rfl, hrest⟩ := List.cons_prefix_cons.mp hbefore
              rw [shapeAt_cons] at hpath ⊢
              cases hlookup : members.lookup first with
              | none =>
                  rw [hlookup] at hpath
                  exact absurd rfl hpath
              | some member =>
                  rw [hlookup] at hpath
                  exact ih member hpath before hrest fun heq => hne (by rw [heq])
      | null | bool | number | string | array => exact absurd rfl hpath

/-- The same at every path is the same up to the order of members. -/
theorem reordered_of_shapeAt {first second : Json} (hfirst : first.Distinct)
    (hsecond : second.Distinct) (hshapes : ∀ path, first.shapeAt path = second.shapeAt path) :
    first.Reordered second := by
  induction hfirst generalizing second with
  | @leaf first hleaf =>
      have hroot : first.shape = second.shape := Option.some.inj (hshapes [])
      rw [eq_of_shape_eq hroot (by rw [hleaf, Bool.and_false]; exact Bool.false_ne_true)]
      exact .refl second
  | @object members hnames hvalues ih =>
      cases hsecond with
      | @leaf second hleaf =>
          have hroot : Shape.object = second.shape := Option.some.inj (hshapes [])
          rw [shape_eq_leaf hleaf] at hroot
          cases hroot
      | @object others hothers hothersValues =>
          have hmember : ∀ name path, (members.lookup name).bind (·.shapeAt path) =
              (others.lookup name).bind (·.shapeAt path) := by
            intro name path
            rw [← shapeAt_cons, ← shapeAt_cons, hshapes]
          apply Reordered.of_lookup hnames hothers
          · intro name
            rw [← Members.lookup_isSome, ← Members.lookup_isSome]
            have hroot := hmember name []
            cases hlookup : members.lookup name <;> cases hlookup' : others.lookup name <;>
              rw [hlookup, hlookup'] at hroot <;> simp [shapeAt] at hroot ⊢
          · intro name old new hold hnew
            apply ih _ (Members.mem_of_lookup hold)
              (hothersValues _ (Members.mem_of_lookup hnew))
            intro path
            have hpath := hmember name path
            rw [hold, hnew] at hpath
            exact hpath

theorem Reordered.shapeAt_eq {first second : Json} (hsame : first.Reordered second)
    (path : List String) : first.shapeAt path = second.shapeAt path := by
  induction hsame generalizing path with
  | refl value => rfl
  | @swap first second hne rest =>
      cases path with
      | nil => rfl
      | cons name path =>
          apply shapeAt_cons_congr
          obtain ⟨key, value⟩ := first
          obtain ⟨other, new⟩ := second
          by_cases hname : name = key
          · rw [hname, List.lookup_cons_self, Members.lookup_cons_of_ne hne, List.lookup_cons_self]
          · rw [Members.lookup_cons_of_ne hname]
            by_cases hother : name = other
            · rw [hother, List.lookup_cons_self, List.lookup_cons_self]
            · rw [Members.lookup_cons_of_ne hother, Members.lookup_cons_of_ne hother,
                Members.lookup_cons_of_ne hname]
  | value key _ rest ih =>
      cases path with
      | nil => rfl
      | cons name path =>
          rw [shapeAt_cons, shapeAt_cons]
          by_cases hname : name = key
          · rw [hname, List.lookup_cons_self, List.lookup_cons_self]
            exact ih path
          · rw [Members.lookup_cons_of_ne hname, Members.lookup_cons_of_ne hname]
  | @cons member first second _ ih =>
      cases path with
      | nil => rfl
      | cons name path =>
          obtain ⟨key, value⟩ := member
          by_cases hname : name = key
          · apply shapeAt_cons_congr
            rw [hname, List.lookup_cons_self, List.lookup_cons_self]
          · have hrest := ih (name :: path)
            rw [shapeAt_cons, shapeAt_cons] at hrest ⊢
            rw [Members.lookup_cons_of_ne hname, Members.lookup_cons_of_ne hname, hrest]
  | trans _ _ ihFirst ihSecond => rw [ihFirst, ihSecond]

end Json

open Json

theorem shapeAt_mergeValue {source target : Json} (hsource : source.Distinct)
    (htarget : target.Distinct) (path : List String) :
    (mergeValue source target).shapeAt path =
      Layer.overlay Shape.IsLeaf source.shapeAt target.shapeAt path := by
  cases hshape : source.shapeAt path with
  | some shape =>
      rw [Layer.overlay_of_some hshape, merge_shapeAt.1 source target hsource htarget path shape
        hshape]
  | none =>
      by_cases hblocks : Layer.Blocks Shape.IsLeaf source.shapeAt path
      · rw [Layer.overlay_of_blocks hblocks, hshape]
        obtain ⟨before, leaf, hbefore, hleaf, hisLeaf⟩ := hblocks
        by_contra hheld
        obtain ⟨shape, hmerged, hnot⟩ := shapeAt_rooted (mergeValue source target) path hheld before
          hbefore (by rintro rfl; rw [hshape] at hleaf; cases hleaf)
        rw [merge_shapeAt.1 source target hsource htarget before leaf hleaf,
          Option.some.injEq] at hmerged
        exact hnot (hmerged ▸ hisLeaf)
      · rw [Layer.overlay_of_open hshape hblocks]
        refine merge_leavesAlone.1 source target hsource htarget path ⟨hshape, ?_⟩
        rintro before after leaf rfl hleaf
        exact hblocks ⟨before, .leaf leaf, List.prefix_append .., hleaf, nofun⟩

/-- Three documents can be merged in either way, unless the first holds something under a leaf
of the second and the third has an object in place of that leaf and nothing in the way. -/
theorem mergeMembers_assoc_iff {first second third : JsonMembers}
    (hfirst : (Json.object first).Distinct) (hsecond : (Json.object second).Distinct)
    (hthird : (Json.object third).Distinct) :
    (Json.object (mergeMembers third (mergeMembers second first))).Reordered
        (.object (mergeMembers (mergeMembers third second) first)) ↔
      ∀ path, ¬ Layer.Resurfaces Shape.IsLeaf (Json.object first).shapeAt
        (Json.object second).shapeAt (Json.object third).shapeAt path := by
  have hearlier : (mergeValue (.object second) (.object first)).Distinct :=
    merge_distinct.1 _ _ hsecond hfirst
  have hlater : (mergeValue (.object third) (.object second)).Distinct :=
    merge_distinct.1 _ _ hthird hsecond
  have hpaths : ∀ path,
      (mergeValue (.object third) (mergeValue (.object second) (.object first))).shapeAt path =
          (mergeValue (mergeValue (.object third) (.object second)) (.object first)).shapeAt path ↔
        ¬ Layer.Resurfaces Shape.IsLeaf (Json.object first).shapeAt
          (Json.object second).shapeAt (Json.object third).shapeAt path := by
    intro path
    rw [shapeAt_mergeValue hthird hearlier, shapeAt_mergeValue hlater hfirst,
      funext (shapeAt_mergeValue hsecond hfirst), funext (shapeAt_mergeValue hthird hsecond)]
    exact Layer.overlay_assoc_iff (shapeAt_rooted (.object second))
  constructor
  · intro hsame path
    exact (hpaths path).mp (hsame.shapeAt_eq path)
  · intro hnone
    exact reordered_of_shapeAt (merge_distinct.1 _ _ hthird hearlier)
      (merge_distinct.1 _ _ hlater hfirst) fun path => (hpaths path).mpr (hnone path)

/-- A `null` that hides a member, and an object that brings the name back. -/
theorem mergeMembers_assoc_iff_hidden :
    ¬ (Json.object (mergeMembers [("a", .object [("y", .bool true)])]
        (mergeMembers [("a", .null)] [("a", .object [("x", .bool true)])]))).Reordered
      (.object (mergeMembers (mergeMembers [("a", .object [("y", .bool true)])] [("a", .null)])
        [("a", .object [("x", .bool true)])])) := by
  have hsingle : ∀ name value, value.Distinct → (Json.object [(name, value)]).Distinct := by
    intro name value hvalue
    exact .object (List.nodup_singleton name) (List.forall_mem_singleton.mpr hvalue)
  have hobject : ∀ name, (Json.object [("a", .object [(name, .bool true)])]).Distinct :=
    fun name => hsingle _ _ (hsingle _ _ (.leaf rfl))
  rw [mergeMembers_assoc_iff (hobject "x") (hsingle "a" .null (.leaf rfl)) (hobject "y"),
    not_forall]
  refine ⟨["a", "x"], not_not.mpr ⟨by decide, ⟨["a"], _, _, by simp, rfl, nofun, rfl⟩, rfl, ?_⟩⟩
  rintro ⟨before, shape, hbefore, hshape, hleaf⟩
  simp only [List.prefix_cons_iff, List.prefix_nil] at hbefore
  rcases hbefore with rfl | ⟨_, rfl, rfl | ⟨_, rfl, rfl⟩⟩
  · cases hshape
    exact hleaf rfl
  · cases hshape
    exact hleaf rfl
  · cases hshape

end Uskit
