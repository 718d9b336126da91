import Uskit.Json.Pointer
import Uskit.Json.Reordered
import Uskit.Json.SetPath

namespace Uskit

open Uskit.Data

/-! Writes through pointers that only name members: what they leave of other
paths, and that writes to separate paths commute up to the order of members. -/

/-- The token names a member, in an array as well as in an object. -/
structure Token.Plain (token : Token) : Prop where
  noIndex : token.index = none
  noPush : token.name ≠ "-"

namespace Json

/-- The members a write finds; any value but an object gives way to one. -/
def membersOf : Json → JsonMembers
  | .object members => members
  | _ => []

@[simp] theorem membersOf_object (members : JsonMembers) :
    (Json.object members).membersOf = members := rfl

namespace Reordered

theorem upsert (key : String) {first second : Option Json → Json}
    (hupdate : ∀ old, (first old).Reordered (second old)) (members : JsonMembers) :
    (Json.object (Members.upsert key first members)).Reordered
      (.object (Members.upsert key second members)) := by
  induction members with
  | nil => exact .value key (hupdate none) []
  | cons member rest ih =>
      obtain ⟨name, value⟩ := member
      by_cases hname : name = key
      · rw [Members.upsert, if_pos hname, Members.upsert, if_pos hname]
        exact .value name (hupdate (some value)) rest
      · rw [Members.upsert, if_neg hname, Members.upsert, if_neg hname]
        exact .cons _ ih

theorem upsert_comm {key other : String} (hne : key ≠ other)
    (first second : Option Json → Json) (members : JsonMembers) :
    (Json.object (Members.upsert key first (Members.upsert other second
      members))).Reordered
        (.object (Members.upsert other second (Members.upsert key first members))) := by
  induction members with
  | nil =>
      simp only [Members.upsert, if_neg hne, if_neg hne.symm]
      exact .swap hne.symm []
  | cons member rest ih =>
      obtain ⟨name, value⟩ := member
      by_cases hkey : name = key
      · subst hkey
        simp only [Members.upsert, if_neg hne, if_true]
        exact .refl _
      · by_cases hother : name = other
        · subst hother
          simp only [Members.upsert, if_neg hkey, if_true]
          exact .refl _
        · simp only [Members.upsert, if_neg hkey, if_neg hother]
          exact .cons _ ih

/-- Updates that go along with the order of members. -/
theorem upsert_congr (key : String) {update : Option Json → Json}
    (hupdate : ∀ old new, Json.Reordered old new →
      (update (some old)).Reordered (update (some new)))
    {first second : Json} (hsame : first.Reordered second) :
    (Json.object (Members.upsert key update first.membersOf)).Reordered
      (.object (Members.upsert key update second.membersOf)) := by
  induction hsame with
  | refl value => exact .refl _
  | swap hne rest =>
      rename_i a b
      obtain ⟨nameA, valueA⟩ := a
      obtain ⟨nameB, valueB⟩ := b
      have hnames : ∀ first second : Json,
          ((nameA, first) : String × Json).1 ≠ ((nameB, second) : String × Json).1 :=
        fun _ _ => hne
      simp only [membersOf_object, Members.upsert]
      by_cases ha : nameA = key
      · have hb : nameB ≠ key := fun heq => hne (ha.trans heq.symm)
        simp only [if_pos ha, if_neg hb]
        exact .swap (hnames _ _) rest
      · by_cases hb : nameB = key
        · simp only [if_neg ha, if_pos hb]
          exact .swap (hnames _ _) rest
        · simp only [if_neg ha, if_neg hb]
          exact .swap (hnames _ _) _
  | value name hvalue rest _ =>
      simp only [membersOf_object, Members.upsert]
      by_cases hname : name = key
      · rw [if_pos hname, if_pos hname]
        exact .value name (hupdate _ _ hvalue) rest
      · rw [if_neg hname, if_neg hname]
        exact .value name hvalue _
  | cons member hrest ih =>
      obtain ⟨name, value⟩ := member
      simp only [membersOf_object, Members.upsert] at ih ⊢
      by_cases hname : name = key
      · rw [if_pos hname, if_pos hname]
        exact .cons _ hrest
      · rw [if_neg hname, if_neg hname]
        exact .cons _ ih
  | trans _ _ ihFirst ihSecond => exact ihFirst.trans ihSecond

end Reordered

end Json

open Json

namespace Pointer

theorem set_plain (value : Json) {token : Token} (hplain : token.Plain)
    (tokens : List Token) (doc : Json) :
    set value (token :: tokens) doc =
      .object (Members.upsert token.name
        (fun old => set value tokens (old.getD .null)) doc.membersOf) := by
  cases doc with
  | object members =>
      rw [set, membersOf_object, Members.upsert_eq]
      cases members.lookup token.name with
      | some old => rfl
      | none => rfl
  | array elements =>
      rw [set, if_neg hplain.noPush, hplain.noIndex]
      rfl
  | null | bool | number | string =>
      simp only [set, hplain.noIndex]
      rfl

theorem get_plain {token : Token} (hplain : token.Plain) (tokens : List Token)
    (doc : Json) :
    get (token :: tokens) doc =
      (doc.membersOf.lookup token.name).bind (get tokens) := by
  cases doc with
  | object members => rfl
  | array elements =>
      rw [get, hplain.noIndex]
      rfl
  | null | bool | number | string => rfl

/-- Neither path leads through the other. -/
def Apart (first second : List Token) : Prop :=
  ¬ first.IsPrefix second ∧ ¬ second.IsPrefix first

theorem Apart.symm {first second : List Token} (hapart : Apart first second) :
    Apart second first :=
  ⟨hapart.2, hapart.1⟩

/-- Paths that are apart part at some token. -/
theorem apart_induction {motive : List Token → List Token → Prop}
    (split : ∀ token other tokens others, token ≠ other →
      motive (token :: tokens) (other :: others))
    (shared : ∀ token tokens others, Apart tokens others → motive tokens others →
      motive (token :: tokens) (token :: others))
    {first second : List Token} (hapart : Apart first second) :
    motive first second := by
  induction first generalizing second with
  | nil => exact absurd List.nil_prefix hapart.1
  | cons token tokens ih =>
      cases second with
      | nil => exact absurd List.nil_prefix hapart.2
      | cons other others =>
          by_cases heq : token = other
          · subst heq
            have hrest : Apart tokens others := by
              constructor
              · intro hbelow
                exact hapart.1 ((List.prefix_cons_inj token).mpr hbelow)
              · intro hbelow
                exact hapart.2 ((List.prefix_cons_inj token).mpr hbelow)
            exact shared token tokens others hrest (ih hrest)
          · exact split token other tokens others heq

theorem Token.Plain.name_ne {token other : Token} (htoken : token.Plain)
    (hother : other.Plain) (hne : token ≠ other) : token.name ≠ other.name := by
  intro heq
  apply hne
  obtain ⟨name, index⟩ := token
  obtain ⟨otherName, otherIndex⟩ := other
  cases heq
  rw [show index = none from htoken.noIndex, show otherIndex = none from hother.noIndex]

/-- A write leaves what a path apart from its own leads to. -/
theorem get_set_of_apart (value : Json) {tokens others : List Token}
    (hapart : Apart tokens others) (htokens : ∀ token ∈ tokens, token.Plain)
    (hothers : ∀ token ∈ others, token.Plain) (doc : Json) :
    get tokens (set value others doc) = get tokens doc := by
  revert htokens hothers doc
  refine apart_induction (motive := fun tokens others =>
    (∀ token ∈ tokens, token.Plain) → (∀ token ∈ others, token.Plain) → ∀ doc,
      get tokens (set value others doc) = get tokens doc) ?_ ?_ hapart
  · intro token other tokens others hne htokens hothers doc
    have htoken := htokens token List.mem_cons_self
    have hother := hothers other List.mem_cons_self
    rw [set_plain value hother, get_plain htoken, get_plain htoken, membersOf_object,
      Members.lookup_upsert_of_ne (Token.Plain.name_ne htoken hother hne)]
  · intro token tokens others hapart ih htokens hothers doc
    have htoken := htokens token List.mem_cons_self
    have hinner := ih (fun token hmem => htokens token (.tail _ hmem))
      (fun token hmem => hothers token (.tail _ hmem))
    rw [set_plain value htoken, get_plain htoken, get_plain htoken, membersOf_object,
      Members.lookup_upsert_self]
    cases hold : doc.membersOf.lookup token.name with
    | some old => exact hinner old
    | none =>
        rw [Option.bind_some, hinner]
        cases tokens with
        | nil => exact absurd List.nil_prefix hapart.1
        | cons first rest =>
            rw [get_plain (htokens first (.tail _ List.mem_cons_self))]
            rfl

/-- Writes to paths that are apart commute. -/
theorem set_comm (value other : Json) {tokens others : List Token}
    (hapart : Apart tokens others) (htokens : ∀ token ∈ tokens, token.Plain)
    (hothers : ∀ token ∈ others, token.Plain) (doc : Json) :
    (set value tokens (set other others doc)).Reordered
      (set other others (set value tokens doc)) := by
  revert htokens hothers doc
  refine apart_induction (motive := fun tokens others =>
    (∀ token ∈ tokens, token.Plain) → (∀ token ∈ others, token.Plain) → ∀ doc,
      (set value tokens (set other others doc)).Reordered
        (set other others (set value tokens doc))) ?_ ?_ hapart
  · intro token second tokens others hne htokens hothers doc
    have htoken := htokens token List.mem_cons_self
    have hsecond := hothers second List.mem_cons_self
    rw [set_plain other hsecond, set_plain value htoken, set_plain value htoken,
      set_plain other hsecond]
    exact .upsert_comm (Token.Plain.name_ne htoken hsecond hne) _ _ _
  · intro token tokens others _ ih htokens hothers doc
    have htoken := htokens token List.mem_cons_self
    rw [set_plain other htoken, set_plain value htoken, set_plain value htoken,
      set_plain other htoken, membersOf_object, membersOf_object,
      Members.upsert_upsert_self, Members.upsert_upsert_self]
    apply Reordered.upsert
    intro old
    exact ih (fun token hmem => htokens token (.tail _ hmem))
      (fun token hmem => hothers token (.tail _ hmem)) _

/-- A write goes along with the order of members. -/
theorem set_congr (value : Json) {tokens : List Token}
    (hplain : ∀ token ∈ tokens, token.Plain) {first second : Json}
    (hsame : first.Reordered second) :
    (set value tokens first).Reordered (set value tokens second) := by
  induction tokens generalizing first second with
  | nil => exact .refl value
  | cons token rest ih =>
      have htoken := hplain token List.mem_cons_self
      rw [set_plain value htoken, set_plain value htoken]
      apply Reordered.upsert_congr token.name _ hsame
      intro old new hold
      exact ih (fun other hother => hplain other (.tail _ hother)) hold

end Pointer

end Uskit
