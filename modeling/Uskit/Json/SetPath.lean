import Uskit.Json.PointerSet

namespace Uskit

open Uskit.Data

/-! What a write through a path without `-` leaves in the document: the value where
the path leads, and the members and elements beside it. -/

/-- A key is the root, or a path of at least one token. -/
theorem normalizePath_cases (key : String) :
    ((key = "" ∨ key = "/") ∧ normalizePath key = "") ∨
      ∃ rest, rest ≠ [] ∧ (key.toList = rest ∨ key.toList = '/' :: rest) ∧
        (normalizePath key).toList = '/' :: rest := by
  by_cases hslash : key.toList.head? = some '/'
  · obtain ⟨rest, hrest⟩ := List.head?_eq_some_iff.mp hslash
    cases rest with
    | nil =>
        have hroot : key = "/" := String.toList_inj.mp hrest
        exact .inl ⟨.inr hroot, by rw [hroot]; rfl⟩
    | cons c rest =>
        have hne : key ≠ "/" := by
          intro heq
          rw [heq] at hrest
          cases hrest
        refine .inr ⟨c :: rest, by simp, .inr hrest, ?_⟩
        simp only [normalizePath, if_pos hslash, if_neg hne]
        exact hrest
  · cases hkey : key.toList with
    | nil =>
        have hempty : key = "" := String.toList_inj.mp hkey
        exact .inl ⟨.inl hempty, by rw [hempty]; rfl⟩
    | cons c rest =>
        have hcons : ("/" ++ key).toList = '/' :: c :: rest := by
          rw [String.toList_append, hkey]
          rfl
        have hne : "/" ++ key ≠ "/" := by
          intro heq
          rw [heq] at hcons
          cases hcons
        refine .inr ⟨c :: rest, by simp, .inl rfl, ?_⟩
        simp only [normalizePath, if_neg hslash, if_neg hne]
        exact hcons

/-- `json_set_value_by_path` normalizes the paths that its callers have normalized. -/
theorem normalizePath_idem (path : String) :
    normalizePath (normalizePath path) = normalizePath path := by
  rcases normalizePath_cases path with ⟨-, hroot⟩ | ⟨rest, hrest, -, hpath⟩
  · rw [hroot]
    rfl
  · have hslash : (normalizePath path).toList.head? = some '/' := by
      rw [hpath]
      rfl
    have hne : normalizePath path ≠ "/" := by
      intro heq
      rw [heq] at hpath
      exact hrest (List.cons.inj hpath).2.symm
    generalize normalizePath path = normPath at hslash hne
    simp only [normalizePath, if_pos hslash, if_neg hne]

theorem pathTokens_normalizePath (path : String) :
    pathTokens (normalizePath path) = pathTokens path := by
  rw [pathTokens, pathTokens, normalizePath_idem]

/-- The value is set where the tokens lead, and no more is changed in the objects and
arrays on the way there. -/
structure SetTo (value : Json) (tokens : List Token) (before after : Json) : Prop where
  isSet : after = Pointer.set value tokens before
  leads : Pointer.get tokens after = some value
  members : ∀ shared token rest members, tokens = shared ++ token :: rest →
    Pointer.get shared before = some (.object members) →
      ∀ (other : Token) others, other.name ≠ token.name →
        Pointer.get (shared ++ other :: others) after =
          Pointer.get (shared ++ other :: others) before
  elements : ∀ shared token rest elements index, tokens = shared ++ token :: rest →
    Pointer.get shared before = some (.array elements) → token.index = some index →
      ∀ (other : Token) others position, other.index = some position →
        position ≠ index → position < elements.length →
          Pointer.get (shared ++ other :: others) after =
            Pointer.get (shared ++ other :: others) before

namespace Pointer

variable (value : Json) {token other : Token}

theorem set_array_of_index (hpush : token.name ≠ "-") {index : Nat}
    (hindex : token.index = some index) (tokens : List Token) (elements : List Json) :
    ∃ after, set value (token :: tokens) (.array elements) = .array after ∧
      after[index]? = some (set value tokens (elements[index]?.getD .null)) ∧
      ∀ position, position ≠ index → position < elements.length →
        after[position]? = elements[position]? := by
  rw [set, if_neg hpush, hindex]
  simp only
  cases hold : elements[index]? with
  | some old =>
      obtain ⟨hlength, -⟩ := List.getElem?_eq_some_iff.mp hold
      refine ⟨_, rfl, ?_, ?_⟩
      · rw [List.getElem?_set_self hlength, Option.getD_some]
      · intro position hne _
        exact List.getElem?_set_ne hne.symm
  | none =>
      have hlength := List.getElem?_eq_none_iff.mp hold
      refine ⟨_, rfl, ?_, ?_⟩
      · rw [List.getElem?_append_right (by simp; omega)]
        simp [Nat.add_sub_cancel' hlength]
      · intro position _ hless
        rw [List.append_assoc, List.getElem?_append_left hless]

/-- A write through a token that leads nowhere makes a new object or array. -/
theorem get_create (tokens : List Token)
    (hset : get tokens (set value tokens .null) = some value) :
    get (token :: tokens) (create value token tokens) = some value := by
  rw [create]
  cases hindex : token.index with
  | none =>
      simp only
      rw [get, List.lookup_cons_self, Option.bind_some, hset]
  | some index =>
      simp only
      rw [get, hindex, Option.bind_some, List.getElem?_append_right (by simp)]
      simpa using hset

theorem get_set {tokens : List Token} (hpush : ∀ token ∈ tokens, token.name ≠ "-")
    (doc : Json) : get tokens (set value tokens doc) = some value := by
  induction tokens generalizing doc with
  | nil => rfl
  | cons token tokens ih =>
      have hrest := ih fun other hother => hpush other (.tail _ hother)
      cases doc with
      | object members =>
          obtain ⟨after, hafter, hmember⟩ := set_object value token tokens members
          rw [hafter, get, hmember, Option.bind_some, hrest]
      | array elements =>
          have htoken := hpush token List.mem_cons_self
          cases hindex : token.index with
          | none =>
              rw [set, if_neg htoken, hindex]
              simp only
              rw [get, List.lookup_cons_self, Option.bind_some, hrest]
          | some index =>
              obtain ⟨after, hafter, helement, -⟩ :=
                set_array_of_index value htoken hindex tokens elements
              rw [hafter, get, hindex, Option.bind_some, helement, Option.bind_some, hrest]
      | null | bool | number | string => exact get_create value tokens (hrest .null)

theorem get_append (tokens others : List Token) (doc : Json) :
    get (tokens ++ others) doc = (get tokens doc).bind (get others) := by
  induction tokens generalizing doc with
  | nil => rfl
  | cons token tokens ih =>
      have hrest : get (tokens ++ others) = fun doc => (get tokens doc).bind (get others) :=
        funext ih
      cases doc with
      | object members => rw [List.cons_append, get, get, Option.bind_assoc, hrest]
      | array elements =>
          rw [List.cons_append, get, get]
          simp only [Option.bind_assoc, hrest]
      | null | bool | number | string => rfl

/-- Where the path leads through a value, the write goes on in it. -/
theorem get_set_shared {shared : List Token} (hpush : ∀ token ∈ shared, token.name ≠ "-")
    {doc node : Json} (hnode : get shared doc = some node) (tokens : List Token) :
    get shared (set value (shared ++ tokens) doc) = some (set value tokens node) := by
  induction shared generalizing doc with
  | nil =>
      obtain rfl := Option.some.inj hnode
      rfl
  | cons token shared ih =>
      have hrest {old : Json} (hold : get shared old = some node) :=
        ih (fun other hother => hpush other (.tail _ hother)) hold
      cases doc with
      | object members =>
          obtain ⟨old, hold, hnode⟩ := Option.bind_eq_some_iff.mp hnode
          obtain ⟨after, hafter, hmember⟩ :=
            set_object value token (shared ++ tokens) members
          rw [hold, Option.getD_some] at hmember
          rw [List.cons_append, hafter, get, hmember, Option.bind_some, hrest hnode]
      | array elements =>
          obtain ⟨old, hold, hnode⟩ := Option.bind_eq_some_iff.mp hnode
          obtain ⟨index, hindex, hold⟩ := Option.bind_eq_some_iff.mp hold
          obtain ⟨after, hafter, helement, -⟩ := set_array_of_index value
            (hpush token List.mem_cons_self) hindex (shared ++ tokens) elements
          rw [hold, Option.getD_some] at helement
          rw [List.cons_append, hafter, get, hindex, Option.bind_some, helement,
            Option.bind_some, hrest hnode]
      | null | bool | number | string => cases hnode

theorem get_set_of_name_ne (hname : other.name ≠ token.name)
    (tokens others : List Token) (members : JsonMembers) :
    get (other :: others) (set value (token :: tokens) (.object members)) =
      get (other :: others) (.object members) := by
  rw [set]
  cases members.lookup token.name with
  | some old =>
      simp only
      rw [get, get, Members.lookup_replaceFirst_of_ne hname.symm]
  | none =>
      simp only
      rw [get, get, Members.lookup_append_singleton_of_ne hname]

theorem get_set_of_index_ne (hpush : token.name ≠ "-") {index position : Nat}
    (hindex : token.index = some index) (hposition : other.index = some position)
    (hne : position ≠ index) {elements : List Json} (hless : position < elements.length)
    (tokens others : List Token) :
    get (other :: others) (set value (token :: tokens) (.array elements)) =
      get (other :: others) (.array elements) := by
  obtain ⟨after, hafter, -, hothers⟩ :=
    set_array_of_index value hpush hindex tokens elements
  rw [hafter, get, get, hposition, Option.bind_some, Option.bind_some,
    hothers position hne hless]

theorem setTo_set {tokens : List Token} (hpush : ∀ token ∈ tokens, token.name ≠ "-")
    (doc : Json) : SetTo value tokens doc (set value tokens doc) := by
  have hbeside {shared rest others : List Token} {token other : Token} {node : Json}
      (htokens : tokens = shared ++ token :: rest) (hnode : get shared doc = some node)
      (hkept : get (other :: others) (set value (token :: rest) node) =
        get (other :: others) node) :
      get (shared ++ other :: others) (set value tokens doc) =
        get (shared ++ other :: others) doc := by
    have hshared : ∀ token ∈ shared, token.name ≠ "-" := fun token htoken =>
      hpush token (htokens ▸ List.mem_append_left _ htoken)
    rw [get_append, get_append, htokens, get_set_shared value hshared hnode, hnode,
      Option.bind_some, Option.bind_some, hkept]
  refine ⟨rfl, get_set value hpush doc, ?_, ?_⟩
  · intro shared token rest members htokens hnode other others hname
    exact hbeside htokens hnode (get_set_of_name_ne value hname rest others members)
  · intro shared token rest elements index htokens hnode hindex other others position
      hposition hne hless
    have htoken := hpush token (htokens ▸ List.mem_append_right _ List.mem_cons_self)
    exact hbeside htokens hnode
      (get_set_of_index_ne value htoken hindex hposition hne hless rest others)

end Pointer

theorem setTo_jsonSetValueByPath {path : String} {tokens : List Token}
    (hpath : pathTokens path = some tokens) (hpush : ∀ token ∈ tokens, token.name ≠ "-")
    (doc value : Json) :
    SetTo value tokens doc (jsonSetValueByPath (normalizePath path) doc value).1 := by
  have hset : jsonSetValueByPath (normalizePath path) doc value =
      (Pointer.set value tokens doc, true) := by
    unfold jsonSetValueByPath
    rw [pathTokens_normalizePath, hpath]
  rw [hset]
  exact Pointer.setTo_set value hpush doc

end Uskit
