import Uskit.Json.Pointer

namespace Uskit

open Uskit.Data

/-! What a document is made of, and what a write through a pointer adds to it. -/

namespace Json

/-- A value stands somewhere in another one. -/
inductive Occurs (part : Json) : Json → Prop
  | here : Occurs part part
  | element {elements : List Json} {element : Json} (hmem : element ∈ elements)
      (hoccurs : Occurs part element) : Occurs part (.array elements)
  | member {members : JsonMembers} {name : String} {value : Json}
      (hmem : (name, value) ∈ members) (hoccurs : Occurs part value) :
      Occurs part (.object members)

/-- Which numbers and which member names a document may have. -/
structure Material where
  number : Number → Prop
  name : String → Prop

/-- Put together from nulls and what the material allows, with distinct names in
every object. -/
inductive Built (material : Material) : Json → Prop
  | null : Built material .null
  | number {number : Number} (hallowed : material.number number) :
      Built material (.number number)
  | array {elements : List Json} (helements : ∀ element ∈ elements,
      Built material element) : Built material (.array elements)
  | object {members : JsonMembers} (hnames : (Members.names members).Nodup)
      (hallowed : ∀ member ∈ members, material.name member.1)
      (hvalues : ∀ member ∈ members, Built material member.2) :
      Built material (.object members)

variable {material : Material}

theorem built_empty : (Json.object []).Built material :=
  .object .nil (by simp) (by simp)

theorem Built.elements {elements : List Json} (harray : (Json.array elements).Built material) :
    ∀ element ∈ elements, element.Built material := by
  cases harray with
  | array helements => exact helements

/-- An object stays built of its material with members that are all old or the one. -/
theorem Built.withMember {members after : JsonMembers} {name : String} {value : Json}
    (hobject : (Json.object members).Built material) (hname : material.name name)
    (hvalue : value.Built material) (hnodup : (Members.names after).Nodup)
    (hafter : ∀ member ∈ after, member ∈ members ∨ member = (name, value)) :
    (Json.object after).Built material := by
  cases hobject with
  | object hnames hallowed hvalues =>
      refine .object hnodup ?_ ?_
      · intro member hmem
        rcases hafter member hmem with hkept | rfl
        · exact hallowed member hkept
        · exact hname
      · intro member hmem
        rcases hafter member hmem with hkept | rfl
        · exact hvalues member hkept
        · exact hvalue

theorem Built.names {members : JsonMembers} (hobject : (Json.object members).Built material) :
    (Members.names members).Nodup := by
  cases hobject with
  | object hnames hallowed hvalues => exact hnames

theorem Built.member {members : JsonMembers} {name : String} {value : Json}
    (hobject : (Json.object members).Built material)
    (hvalue : members.lookup name = some value) : value.Built material := by
  cases hobject with
  | object hnames hallowed hvalues => exact hvalues _ (Members.mem_of_lookup hvalue)

theorem Built.singleton {value : Json} (hvalue : value.Built material)
    {name : String} (hname : material.name name) :
    (Json.object [(name, value)]).Built material := by
  refine built_empty.withMember hname hvalue (List.nodup_singleton name) ?_
  intro member hmem
  exact .inr (List.mem_singleton.mp hmem)

theorem Built.append {first second : List Json}
    (hfirst : ∀ element ∈ first, element.Built material)
    (hsecond : ∀ element ∈ second, element.Built material) :
    (Json.array (first ++ second)).Built material := by
  refine .array ?_
  intro element hmem
  rcases List.mem_append.mp hmem with hleft | hright
  · exact hfirst element hleft
  · exact hsecond element hright

theorem Occurs.singleton {part value : Json} (hvalue : Occurs part value)
    (name : String) : Occurs part (.object [(name, value)]) :=
  .member (List.mem_singleton.mpr rfl) hvalue

theorem Occurs.trans {part middle whole : Json} (hfirst : Occurs part middle)
    (hsecond : Occurs middle whole) : Occurs part whole := by
  induction hsecond with
  | here => exact hfirst
  | element hmem _ ih => exact .element hmem ih
  | member hmem _ ih => exact .member hmem ih

theorem elementsEq_mem {left right : List Json}
    (hequal : elementsEq left right = true) {element : Json}
    (hmem : element ∈ left) : ∃ other ∈ right, valueEq element other = true := by
  induction left generalizing right with
  | nil => cases hmem
  | cons first rest ih =>
      cases right with
      | nil => cases hequal
      | cons second others =>
          rw [elementsEq, Bool.and_eq_true] at hequal
          rcases List.mem_cons.mp hmem with rfl | hrest
          · exact ⟨second, List.mem_cons_self, hequal.1⟩
          · obtain ⟨other, hother, heq⟩ := ih hequal.2 hrest
            exact ⟨other, .tail _ hother, heq⟩

theorem membersEq_mem {left right : JsonMembers}
    (hequal : membersEq left right = true) {member : String × Json}
    (hmem : member ∈ left) :
    ∃ found, right.lookup member.1 = some found ∧ valueEq member.2 found = true := by
  induction left with
  | nil => cases hmem
  | cons first rest ih =>
      rw [membersEq, Bool.and_eq_true] at hequal
      rcases List.mem_cons.mp hmem with rfl | hrest
      · cases hfound : right.lookup member.1 with
        | none => simp [hfound] at hequal
        | some found =>
            simp only [hfound] at hequal
            exact ⟨found, rfl, hequal.1⟩
      · exact ih hequal.2 hrest

/-- A value with a number that another one cannot have does not equal it. -/
theorem not_occurs_of_valueEq {number : Number} {value other : Json}
    (hoccurs : Occurs (.number number) value)
    (hbuilt : other.Built material)
    (hother : ∀ other, material.number other → number.valueEq other = false) :
    valueEq value other = false := by
  rw [← Bool.not_eq_true]
  induction hoccurs generalizing other with
  | here =>
      intro hequal
      cases hbuilt with
      | number hallowed =>
          rw [valueEq, hother _ hallowed] at hequal
          cases hequal
      | null => simp [valueEq] at hequal
      | array _ => simp [valueEq] at hequal
      | object _ _ _ => simp [valueEq] at hequal
  | element hmem _ ih =>
      intro hequal
      cases hbuilt with
      | number _ => simp [valueEq] at hequal
      | null => simp [valueEq] at hequal
      | array helements =>
          rw [valueEq] at hequal
          obtain ⟨found, hfound, heq⟩ := elementsEq_mem hequal hmem
          exact ih (helements found hfound) heq
      | object _ _ _ => simp [valueEq] at hequal
  | member hmem _ ih =>
      intro hequal
      cases hbuilt with
      | number _ => simp [valueEq] at hequal
      | null => simp [valueEq] at hequal
      | array _ => simp [valueEq] at hequal
      | object _ _ hvalues =>
          rw [valueEq, Bool.and_eq_true] at hequal
          obtain ⟨found, hfound, heq⟩ := membersEq_mem hequal.2 hmem
          exact ih (hvalues _ (Members.mem_of_lookup hfound)) heq

theorem elementsEq_self {elements : List Json}
    (hself : ∀ element ∈ elements, valueEq element element = true) :
    elementsEq elements elements = true := by
  induction elements with
  | nil => rfl
  | cons first rest ih =>
      rw [elementsEq, hself first List.mem_cons_self,
        ih fun element hmem => hself element (.tail _ hmem)]
      rfl

theorem membersEq_self {members other : JsonMembers}
    (hnames : (Members.names other).Nodup)
    (hself : ∀ member ∈ members, member ∈ other ∧
      valueEq member.2 member.2 = true) : membersEq members other = true := by
  induction members with
  | nil => rfl
  | cons first rest ih =>
      obtain ⟨hmem, heq⟩ := hself first List.mem_cons_self
      rw [membersEq, Members.lookup_of_mem hnames hmem]
      simp only
      rw [heq, ih fun member hrest => hself member (.tail _ hrest)]
      rfl

theorem Built.valueEq_self
    (hself : ∀ number, material.number number → number.valueEq number = true)
    {value : Json} (hbuilt : value.Built material) : valueEq value value = true := by
  induction hbuilt with
  | null => rfl
  | number hallowed => exact hself _ hallowed
  | array _ ih =>
      rw [valueEq]
      exact elementsEq_self ih
  | object hnames _ _ ih =>
      rw [valueEq, beq_self_eq_true, Bool.true_and]
      exact membersEq_self hnames fun member hmem => ⟨hmem, ih member hmem⟩

end Json

open Json

namespace Pointer

/-- Every token is made of characters of the text and of those that an escape
stands for. -/
theorem scan_mem {name rest : List Char} {tokens : List Token}
    (hscan : scan name rest = some tokens) {token : Token} (htoken : token ∈ tokens)
    {c : Char} (hc : c ∈ token.name.toList) :
    c ∈ name ∨ c ∈ rest ∨ (c = '~' ∨ c = '/') := by
  induction name, rest using scan.induct generalizing tokens with
  | case1 name =>
      cases hscan
      rw [List.mem_singleton] at htoken
      rw [htoken] at hc
      exact .inl (by simpa using hc)
  | case2 name rest ih =>
      obtain ⟨later, hlater, rfl⟩ := Option.map_eq_some_iff.mp hscan
      rcases List.mem_cons.mp htoken with rfl | htoken
      · exact .inl (by simpa using hc)
      · rcases ih hlater htoken with hnone | hrest | hesc
        · cases hnone
        · exact .inr (.inl (.tail _ hrest))
        · exact .inr (.inr hesc)
  | case3 name rest ih =>
      rcases ih hscan htoken with hname | hrest | hesc
      · rcases List.mem_append.mp hname with hname | hnew
        · exact .inl hname
        · exact .inr (.inr (.inl (List.mem_singleton.mp hnew)))
      · exact .inr (.inl (.tail _ (.tail _ hrest)))
      · exact .inr (.inr hesc)
  | case4 name rest ih =>
      rcases ih hscan htoken with hname | hrest | hesc
      · rcases List.mem_append.mp hname with hname | hnew
        · exact .inl hname
        · exact .inr (.inr (.inr (List.mem_singleton.mp hnew)))
      · exact .inr (.inl (.tail _ (.tail _ hrest)))
      · exact .inr (.inr hesc)
  | case5 name rest hzero hone =>
      cases (scan_tilde hzero hone).symm.trans hscan
  | case6 name d rest hslash hzero hone htilde ih =>
      rw [scan_cons hslash htilde] at hscan
      rcases ih hscan htoken with hname | hrest | hesc
      · rcases List.mem_append.mp hname with hname | hnew
        · exact .inl hname
        · rw [List.mem_singleton.mp hnew]
          exact .inr (.inl List.mem_cons_self)
      · exact .inr (.inl (.tail _ hrest))
      · exact .inr (.inr hesc)

/-- A value that is no object and no array gives way to a new one. -/
def create (value : Json) (token : Token) (tokens : List Token) : Json :=
  match token.index with
  | none => .object [(token.name, set value tokens .null)]
  | some index =>
      .array (List.replicate index .null ++ [set value tokens .null])

/-- The cases of a write below the root. -/
theorem set_cons {value : Json} {token : Token} {tokens : List Token}
    {motive : Json → Json → Prop}
    (found : ∀ members old, members.lookup token.name = some old →
      motive (.object members)
        (.object (Members.replaceFirst token.name (set value tokens old) members)))
    (appended : ∀ members, members.lookup token.name = none →
      motive (.object members)
        (.object (members ++ [(token.name, set value tokens .null)])))
    (pushed : ∀ elements, motive (.array elements)
      (.array (elements ++ [set value tokens .null])))
    (renamed : ∀ elements, motive (.array elements)
      (.object [(token.name, set value tokens .null)]))
    (replaced : ∀ elements index old, elements[index]? = some old →
      motive (.array elements) (.array (elements.set index (set value tokens old))))
    (padded : ∀ elements count, motive (.array elements)
      (.array (elements ++ List.replicate count .null ++ [set value tokens .null])))
    (created : ∀ doc, motive doc (create value token tokens)) (doc : Json) :
    motive doc (set value (token :: tokens) doc) := by
  cases doc with
  | object members =>
      rw [set]
      cases hold : members.lookup token.name with
      | some old => exact found members old hold
      | none => exact appended members hold
  | array elements =>
      rw [set]
      split
      · exact pushed elements
      · cases token.index with
        | none => exact renamed elements
        | some index =>
            simp only
            cases hold : elements[index]? with
            | some old => exact replaced elements index old hold
            | none => exact padded elements _
  | null | bool | number | string => exact created _

/-- A write makes the document of what it and the value are made of. -/
theorem built_set {material : Material} {value : Json}
    (hvalue : value.Built material) {tokens : List Token}
    (htokens : ∀ token ∈ tokens, material.name token.name) {doc : Json}
    (hdoc : doc.Built material) : (set value tokens doc).Built material := by
  induction tokens generalizing doc with
  | nil => exact hvalue
  | cons token tokens ih =>
      have hname : material.name token.name := htokens token List.mem_cons_self
      have ih := fun {doc : Json} (hdoc : doc.Built material) =>
        ih (fun other hother => htokens other (.tail _ hother)) hdoc
      have hfresh : (set value tokens .null).Built material := ih .null
      have hlast : ∀ element ∈ [set value tokens .null], element.Built material := by
        intro element hmem
        rw [List.mem_singleton.mp hmem]
        exact hfresh
      have hnulls : ∀ count, ∀ element ∈ List.replicate count Json.null,
          element.Built material := by
        intro count element hmem
        rw [List.eq_of_mem_replicate hmem]
        exact .null
      refine set_cons (motive := fun doc after => doc.Built material →
        after.Built material) ?_ ?_ ?_ ?_ ?_ ?_ ?_ doc hdoc
      · intro members old hold hdoc
        refine hdoc.withMember hname (ih (hdoc.member hold)) ?_ fun member hmem =>
          Members.mem_replaceFirst hmem
        rw [Members.names_replaceFirst]
        exact hdoc.names
      · intro members hnone hdoc
        refine hdoc.withMember hname hfresh (Members.nodup_names_append_singleton
          hdoc.names (Members.lookup_eq_none.mp hnone) _) ?_
        intro member hmem
        exact (List.mem_append.mp hmem).imp_right List.mem_singleton.mp
      · intro elements hdoc
        exact .append hdoc.elements hlast
      · intro elements hdoc
        exact hfresh.singleton hname
      · intro elements index old hold hdoc
        refine .array ?_
        intro element hmem
        rcases List.mem_or_eq_of_mem_set hmem with hkept | hnew
        · exact hdoc.elements element hkept
        · rw [hnew]
          exact ih (hdoc.elements old (List.mem_of_getElem? hold))
      · intro elements count hdoc
        refine .append ?_ hlast
        intro element hmem
        rcases List.mem_append.mp hmem with hkept | hnull
        · exact hdoc.elements element hkept
        · exact hnulls count element hnull
      · intro doc hdoc
        rw [create]
        cases token.index with
        | none => exact hfresh.singleton hname
        | some index => exact .append (hnulls index) hlast

/-- What is written stands in the document afterwards. -/
theorem occurs_set (value : Json) (tokens : List Token) (doc : Json) :
    Occurs value (set value tokens doc) := by
  induction tokens generalizing doc with
  | nil => exact .here
  | cons token tokens ih =>
      have hlast : ∀ elements : List Json,
          Occurs value (.array (elements ++ [set value tokens .null])) := by
        intro elements
        exact .element (List.mem_append_right _ List.mem_cons_self) (ih .null)
      refine set_cons (motive := fun _ after => Occurs value after)
        ?_ ?_ ?_ ?_ ?_ ?_ ?_ doc
      · intro members old hold
        have hname : token.name ∈ Members.names members :=
          Members.lookup_isSome.mp (by rw [hold]; rfl)
        exact .member (Members.mem_of_lookup
          (Members.lookup_replaceFirst_self _ hname)) (ih old)
      · intro members _
        exact .member (List.mem_append_right _ List.mem_cons_self) (ih .null)
      · exact hlast
      · intro elements
        exact (ih .null).singleton token.name
      · intro elements index old hold
        obtain ⟨hlt, -⟩ := List.getElem?_eq_some_iff.mp hold
        exact .element (List.mem_set hlt _) (ih old)
      · intro elements count
        exact hlast _
      · intro doc
        rw [create]
        cases token.index with
        | none => exact (ih .null).singleton token.name
        | some index => exact hlast _

/-- A write below the root of an object changes the member its first token
names. -/
theorem set_object (value : Json) (token : Token) (tokens : List Token)
    (members : JsonMembers) :
    ∃ after, set value (token :: tokens) (.object members) = .object after ∧
      after.lookup token.name =
        some (set value tokens ((members.lookup token.name).getD .null)) := by
  rw [set]
  cases hold : members.lookup token.name with
  | some old =>
      have hname : token.name ∈ Members.names members :=
        Members.lookup_isSome.mp (by rw [hold]; rfl)
      exact ⟨_, rfl, Members.lookup_replaceFirst_self _ hname⟩
  | none =>
      refine ⟨_, rfl, ?_⟩
      rw [Members.lookup_append_of_not_mem (Members.lookup_eq_none.mp hold),
        List.lookup_cons_self]
      rfl

end Pointer

theorem jsonSetValueByPath_built {material : Material} {key : String}
    (hnames : ∀ tokens, pathTokens key = some tokens →
      ∀ token ∈ tokens, material.name token.name)
    {own value : Json} (hown : own.Built material) (hvalue : value.Built material) :
    (jsonSetValueByPath key own value).1.Built material := by
  unfold jsonSetValueByPath
  cases htokens : pathTokens key with
  | none => exact hvalue
  | some tokens => exact Pointer.built_set hvalue (hnames tokens htokens) hown

/-- No pointer has a NUL in its tokens. -/
theorem free_of_pathTokens {key : String} {tokens : List Token}
    (htokens : pathTokens key = some tokens) {token : Token}
    (htoken : token ∈ tokens) : '\x00' ∉ token.name.toList := by
  intro hmem
  have hfree := cStr_free (normalizePath key)
  unfold pathTokens Pointer.parse at htokens
  split at htokens
  · cases htokens
    cases htoken
  · rename_i rest heq
    rw [heq] at hfree
    rcases Pointer.scan_mem htokens htoken hmem with hnone | hrest | hesc
    · cases hnone
    · exact hfree (.tail _ hrest)
    · revert hesc
      decide
  · cases htokens

end Uskit
