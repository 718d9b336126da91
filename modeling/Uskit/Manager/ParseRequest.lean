import Mathlib.Algebra.Order.BigOperators.Group.List
import Mathlib.Algebra.Order.Group.Nat
import Uskit.Json.Pointer

namespace Uskit

open Uskit.Data

/-! The loops of `UnifiedSchedulerManager::parse_request` that put the HTTP
headers, the address of the client and the query string into the request. -/

abbrev TextPairs := List (String × String)

/-- `Pointer(path.c_str()).Set(request, text.c_str())`.  An invalid pointer has
no tokens. -/
def setText (path text : String) (request : Json) : Json :=
  Pointer.set (.string (cStr text)) ((Pointer.parse (cStr path)).getD []) request

/-- One of the loops over names and values. -/
def setFields (root : String) : TextPairs → Json → Json
  | [], request => request
  | (name, value) :: rest, request =>
      setFields root rest (setText (root ++ name) value request)

def setHeaders (headers : TextPairs) (request : Json) : Json :=
  setFields "/__HEADER__/" headers request

def setClientIp (ipAddr : String) (request : Json) : Json :=
  setText "/__HEADER__/__IP__" ipAddr request

def setQueryString (query : TextPairs) (request : Json) : Json :=
  setFields "/__QUERYSTRING__/" query request

def addHttpFields (headers : TextPairs) (ipAddr : String) (query : TextPairs)
    (request : Json) : Json :=
  setQueryString query (setClientIp ipAddr (setHeaders headers request))

/-- The value is a member of the object under `key`, by its full name. -/
def FoundUnder (key : String) (field : String × String)
    (members : JsonMembers) : Prop :=
  ∃ fields, members.lookup key = some (.object fields) ∧
    fields.lookup field.1 = some (.string field.2)

/-- The request is an object that has the members of the body and all headers
and query values. -/
structure RequestComplete (body : JsonMembers) (headers : TextPairs)
    (ipAddr : String) (query : TextPairs) (members : JsonMembers) : Prop where
  isObject : addHttpFields headers ipAddr query (.object body) = .object members
  keepsBody : ∀ name, name ≠ "__HEADER__" → name ≠ "__QUERYSTRING__" →
    Members.named name members = Members.named name body
  hasHeaders : ∀ header ∈ headers, FoundUnder "__HEADER__" header members
  hasQuery : ∀ pair ∈ query, FoundUnder "__QUERYSTRING__" pair members

/-- A name that is a pointer token as it stands. -/
structure PlainName (name : String) : Prop where
  slash : '/' ∉ name.toList
  tilde : '~' ∉ name.toList
  free : '\x00' ∉ name.toList

structure PlainField (field : String × String) : Prop where
  name : PlainName field.1
  value : '\x00' ∉ field.2.toList

def NotIndex (field : String × String) : Prop :=
  Token.indexOf field.1.toList = none

/-- The names can be spliced into pointers: they are plain, the first of each
kind is no array index, and the address of the client hides no header. -/
structure Spliceable (headers : TextPairs) (ipAddr : String)
    (query : TextPairs) : Prop where
  plainHeaders : ∀ header ∈ headers, PlainField header
  plainQuery : ∀ pair ∈ query, PlainField pair
  firstHeader : ∀ header ∈ headers.head?, NotIndex header
  firstQuery : ∀ pair ∈ query.head?, NotIndex pair
  clientIp : ∀ value, ("__IP__", value) ∈ headers → value = cStr ipAddr

/-! Sets below one of the two keys. -/

/-- The tokens after the key of a path; none when the path is no pointer. -/
def fieldTokens (name : String) : Option (List Token) :=
  Pointer.scan [] (cStr name).toList

/-- A key below which fields are set, and the start of their paths. -/
structure FieldRoot (key root : String) : Prop where
  root : root = "/" ++ key ++ "/"
  slash : '/' ∉ key.toList
  tilde : '~' ∉ key.toList
  free : '\x00' ∉ key.toList
  notIndex : Token.indexOf key.toList = none
  notDash : key ≠ "-"

theorem headerRoot : FieldRoot "__HEADER__" "/__HEADER__/" := by
  constructor <;> decide

theorem queryRoot : FieldRoot "__QUERYSTRING__" "/__QUERYSTRING__/" := by
  constructor <;> decide

theorem setFields_append (root : String) (left right : TextPairs)
    (request : Json) :
    setFields root (left ++ right) request =
      setFields root right (setFields root left request) := by
  induction left generalizing request with
  | nil => rfl
  | cons pair rest ih => exact ih _

theorem addHttpFields_eq (headers : TextPairs) (ipAddr : String)
    (query : TextPairs) (request : Json) :
    addHttpFields headers ipAddr query request =
      setFields "/__QUERYSTRING__/" query
        (setFields "/__HEADER__/" (headers ++ [("__IP__", ipAddr)]) request) := by
  rw [setFields_append]
  rfl

theorem ofName_key (key : String) : (Token.ofName key.toList).name = key := by
  simp

theorem set_key_found {key : String} (value : Json) (tokens : List Token)
    {members : JsonMembers} {old : Json} (hold : members.lookup key = some old) :
    Pointer.set value (Token.ofName key.toList :: tokens) (.object members) =
      .object
        (Members.replaceFirst key (Pointer.set value tokens old) members) := by
  rw [Pointer.set, ofName_key]
  simp only [hold]

theorem set_key_absent {key : String} (value : Json) (tokens : List Token)
    {members : JsonMembers} (hold : members.lookup key = none) :
    Pointer.set value (Token.ofName key.toList :: tokens) (.object members) =
      .object (members ++ [(key, Pointer.set value tokens .null)]) := by
  rw [Pointer.set, ofName_key]
  simp only [hold]

section Root

variable {key root : String} (hroot : FieldRoot key root)

include hroot

theorem setText_eq (name text : String) (request : Json) :
    setText (root ++ name) text request =
      match fieldTokens name with
      | some tokens =>
          Pointer.set (.string (cStr text))
            (Token.ofName key.toList :: tokens) request
      | none => .string (cStr text) := by
  have hrootFree : '\x00' ∉ root.toList := by
    rw [hroot.root]
    simp [hroot.free]
  have hparse : Pointer.parse (cStr (root ++ name)) =
      (fieldTokens name).map (Token.ofName key.toList :: ·) := by
    have hlist : (cStr (root ++ name)).toList =
        '/' :: (key.toList ++ '/' :: (cStr name).toList) := by
      rw [toList_cStr_append hrootFree, hroot.root]
      simp
    rw [Pointer.parse, hlist]
    simp only
    rw [Pointer.scan_append hroot.slash hroot.tilde, List.nil_append,
      Pointer.scan]
    rfl
  rw [setText, hparse]
  cases fieldTokens name with
  | none => rfl
  | some tokens => rfl

theorem set_key_other (value : Json) (tokens : List Token) {request : Json}
    (hrequest : request.isObject = false) :
    Pointer.set value (Token.ofName key.toList :: tokens) request =
      .object [(key, Pointer.set value tokens .null)] := by
  have hname := ofName_key key
  have hindex : (Token.ofName key.toList).index = none := hroot.notIndex
  cases request with
  | object members => cases hrequest
  | array elements =>
      rw [Pointer.set, hname, if_neg hroot.notDash, hindex]
  | null | bool | number | string =>
      rw [Pointer.set]
      · rw [hindex, hname]
      · simp
      · simp

/-- After `Set` the request is an object, and only the member `key` differs. -/
theorem set_key_object (value request : Json) (tokens : List Token) :
    ∃ members : JsonMembers,
      Pointer.set value (Token.ofName key.toList :: tokens) request =
          .object members ∧
        members.lookup key =
          some (Pointer.set value tokens
            ((request.findMember? key).getD .null)) ∧
        ∀ other ≠ key, members.lookup other = request.findMember? other := by
  cases hrequest : request.isObject with
  | true =>
      obtain ⟨members, rfl⟩ := Json.isObject_iff.mp hrequest
      cases hold : members.lookup key with
      | some old =>
          refine ⟨_, set_key_found value tokens hold, ?_, ?_⟩
          · rw [Json.findMember?_object, hold]
            exact Members.lookup_replaceFirst_self _
              (Members.lookup_isSome.mp (by rw [hold]; rfl))
          · intro other hne
            exact Members.lookup_replaceFirst_of_ne (Ne.symm hne) _ _
      | none =>
          refine ⟨_, set_key_absent value tokens hold, ?_, ?_⟩
          · rw [Json.findMember?_object, hold, Members.lookup_append_of_not_mem
              (Members.lookup_eq_none.mp hold)]
            simp
          · intro other hne
            exact Members.lookup_append_singleton_of_ne hne members _
  | false =>
      have hnone : ∀ name, request.findMember? name = none := by
        intro name
        cases request with
        | object members => cases hrequest
        | null | bool | number | string | array => rfl
      refine ⟨_, set_key_other hroot value tokens hrequest, ?_, ?_⟩
      · simp [hnone]
      · intro other hne
        rw [hnone, Members.lookup_cons_of_ne hne]
        rfl

theorem findMember?_set_key (value request : Json) (tokens : List Token) :
    (Pointer.set value (Token.ofName key.toList :: tokens) request).findMember?
        key =
      some (Pointer.set value tokens ((request.findMember? key).getD .null)) := by
  obtain ⟨members, hset, hkey, -⟩ := set_key_object hroot value request tokens
  rw [hset, Json.findMember?_object, hkey]

theorem findMember?_set_other {other : String} (hne : other ≠ key)
    (value request : Json) (tokens : List Token) :
    (Pointer.set value (Token.ofName key.toList :: tokens) request).findMember?
        other = request.findMember? other := by
  obtain ⟨members, hset, -, hothers⟩ := set_key_object hroot value request tokens
  rw [hset, Json.findMember?_object, hothers other hne]

end Root

/-! What can stand below a key: only names that are first tokens, and texts
that were cut at their first NUL. -/

/-- Every field below `key` has a name that `named` holds of. -/
def FieldsNamed (key : String) (named : String → Prop) (request : Json) : Prop :=
  ∀ fields, request.findMember? key = some (.object fields) →
    ∀ field ∈ fields, named field.1 ∧
      ∀ text, field.2 = .string text → '\x00' ∉ text.toList

/-- The member name that the name of a header or query parameter leads to. -/
def LeadsTo (name field : String) : Prop :=
  ∃ token tokens, fieldTokens name = some (token :: tokens) ∧ token.name = field

theorem set_not_string (value : Json) (token : Token) (tokens : List Token)
    (request : Json) (text : String) :
    Pointer.set value (token :: tokens) request ≠ .string text := by
  cases request with
  | object members =>
      rw [Pointer.set]
      cases members.lookup token.name with
      | some old => simp
      | none => simp
  | array elements =>
      rw [Pointer.set]
      split
      · simp
      · split
        · simp
        · split
          · simp
          · simp
  | null | bool | number | string =>
      rw [Pointer.set]
      · cases token.index with
        | none => simp
        | some index => simp
      · simp
      · simp

theorem field_of_set {value old : Json} {token : Token} {tokens : List Token}
    {fields : JsonMembers}
    (hset : Pointer.set value (token :: tokens) old = .object fields)
    {field : String × Json} (hfield : field ∈ fields) :
    (∃ before, old = .object before ∧ field ∈ before) ∨
      field.1 = token.name ∧ ∃ inner, field.2 = Pointer.set value tokens inner := by
  cases old with
  | object members =>
      rw [Pointer.set] at hset
      cases hold : members.lookup token.name with
      | some inner =>
          rw [hold] at hset
          cases hset
          cases Members.mem_replaceFirst hfield with
          | inl hbefore => exact .inl ⟨members, rfl, hbefore⟩
          | inr hnew => exact .inr ⟨by rw [hnew], inner, by rw [hnew]⟩
      | none =>
          rw [hold] at hset
          cases hset
          cases List.mem_append.mp hfield with
          | inl hbefore => exact .inl ⟨members, rfl, hbefore⟩
          | inr hnew =>
              rw [List.mem_singleton] at hnew
              exact .inr ⟨by rw [hnew], .null, by rw [hnew]⟩
  | array elements =>
      rw [Pointer.set] at hset
      split at hset
      · cases hset
      · split at hset
        · cases hset
          rw [List.mem_singleton] at hfield
          exact .inr ⟨by rw [hfield], .null, by rw [hfield]⟩
        · split at hset
          · cases hset
          · cases hset
  | null | bool | number | string =>
      rw [Pointer.set] at hset
      · split at hset
        · cases hset
          rw [List.mem_singleton] at hfield
          exact .inr ⟨by rw [hfield], .null, by rw [hfield]⟩
        · cases hset
      · simp
      · simp

section Invariant

variable {key root : String} (hroot : FieldRoot key root)

include hroot

theorem FieldsNamed.setText {other : String} {named : String → Prop}
    {request : Json} (hfields : FieldsNamed other named request) {name : String}
    (hleads : other = key → ∀ field, LeadsTo name field → named field)
    (text : String) :
    FieldsNamed other named (setText (root ++ name) text request) := by
  rw [setText_eq hroot]
  intro fields hfound field hfield
  cases htokens : fieldTokens name with
  | none =>
      rw [htokens] at hfound
      cases hfound
  | some tokens =>
      rw [htokens] at hfound
      by_cases hkey : other = key
      · subst hkey
        simp only [findMember?_set_key hroot, Option.some.injEq] at hfound
        cases tokens with
        | nil => cases hfound
        | cons token tokens =>
            rcases field_of_set hfound hfield with
              ⟨before, hbefore, hmem⟩ | ⟨hname, inner, hvalue⟩
            · cases hold : request.findMember? other with
              | none =>
                  rw [hold] at hbefore
                  cases hbefore
              | some old =>
                  rw [hold, Option.getD_some] at hbefore
                  exact hfields before (by rw [hold, hbefore]) field hmem
            · refine ⟨?_, ?_⟩
              · exact hleads rfl field.1 ⟨token, tokens, htokens, hname.symm⟩
              · intro found heq
                rw [hvalue] at heq
                cases tokens with
                | nil =>
                    cases heq
                    exact cStr_free text
                | cons token tokens =>
                    exact absurd heq (set_not_string _ token tokens inner found)
      · simp only [findMember?_set_other hroot hkey] at hfound
        exact hfields fields hfound field hfield

theorem FieldsNamed.setFields {other : String} {named : String → Prop}
    {pairs : TextPairs} {request : Json}
    (hfields : FieldsNamed other named request)
    (hleads : other = key → ∀ pair ∈ pairs, ∀ field,
      LeadsTo pair.1 field → named field) :
    FieldsNamed other named (setFields root pairs request) := by
  induction pairs generalizing request with
  | nil => exact hfields
  | cons pair rest ih =>
      apply ih
      · exact hfields.setText hroot
          (fun hkey => hleads hkey pair List.mem_cons_self) pair.2
      · intro hkey other hother
        exact hleads hkey other (.tail pair hother)

theorem findMember?_setFields_none {other : String} (hne : other ≠ key)
    {pairs : TextPairs} {request : Json}
    (hnone : request.findMember? other = none) :
    (Uskit.setFields root pairs request).findMember? other = none := by
  induction pairs generalizing request with
  | nil => exact hnone
  | cons pair rest ih =>
      apply ih
      rw [setText_eq hroot]
      cases fieldTokens pair.1 with
      | none => rfl
      | some tokens =>
          exact (findMember?_set_other hroot hne _ request tokens).trans hnone

end Invariant

/-! Where names lead. -/

section Leads

variable {name field : String}

theorem toList_cStr_isInitial (text : String) : (cStr text).toList <+: text.toList := by
  rw [cStr, String.toList_ofList]
  exact List.takeWhile_prefix _

theorem LeadsTo.free (hleads : LeadsTo name field) : '\x00' ∉ field.toList := by
  obtain ⟨token, tokens, hscan, rfl⟩ := hleads
  intro hmem
  rcases Pointer.scan_first_mem hscan _ hmem with hnil | ⟨hname, -⟩ | ⟨-, hesc⟩
  · cases hnil
  · exact cStr_free name hname
  · simp at hesc

theorem LeadsTo.tilde (hleads : LeadsTo name field)
    (htilde : '~' ∈ field.toList) :
    '~' ∈ name.toList ∧ field.toList.length < name.toList.length := by
  obtain ⟨token, tokens, hscan, rfl⟩ := hleads
  have hlt := Pointer.scan_first_length_lt hscan List.not_mem_nil htilde
  have hle := (toList_cStr_isInitial name).length_le
  constructor
  · rcases Pointer.scan_first_mem hscan _ htilde with
      hnil | ⟨hname, -⟩ | ⟨hname, -⟩
    · cases hnil
    · exact (toList_cStr_isInitial name).subset hname
    · exact (toList_cStr_isInitial name).subset hname
  · simp only [List.length_nil] at hlt
    omega

theorem LeadsTo.slash (hleads : LeadsTo name field)
    (hslash : '/' ∈ field.toList) : '~' ∈ name.toList := by
  obtain ⟨token, tokens, hscan, rfl⟩ := hleads
  rcases Pointer.scan_first_mem hscan _ hslash with
    hnil | ⟨-, hne⟩ | ⟨hname, -⟩
  · cases hnil
  · exact absurd rfl hne
  · exact (toList_cStr_isInitial name).subset hname

theorem PlainName.fieldTokens (hplain : PlainName name) :
    fieldTokens name = some [Token.ofName name.toList] := by
  rw [Uskit.fieldTokens, cStr_eq_self hplain.free]
  exact Pointer.scan_plain hplain.slash hplain.tilde

theorem PlainName.leadsTo (hplain : PlainName name)
    (hleads : LeadsTo name field) : field = name := by
  obtain ⟨token, tokens, htokens, rfl⟩ := hleads
  rw [hplain.fieldTokens] at htokens
  cases htokens
  exact ofName_key name

/-- Names that lead to one another contain nothing that a pointer interprets:
of two names with `~` the one that leads to the other is longer. -/
theorem plainFields_of_leads {pairs : TextPairs} (extra : List String)
    (hextra : ∀ name ∈ extra, '~' ∉ name.toList)
    (hleads : ∀ pair ∈ pairs, ∃ name,
      (name ∈ pairs.map Prod.fst ∨ name ∈ extra) ∧ LeadsTo name pair.1)
    (hvalue : ∀ pair ∈ pairs, '\x00' ∉ pair.2.toList) :
    ∀ pair ∈ pairs, PlainField pair := by
  have htilde : ∀ pair ∈ pairs, '~' ∉ pair.1.toList := by
    intro pair hpair hmem
    have hlong : ∀ length, ∃ other ∈ pairs, '~' ∈ other.1.toList ∧
        length ≤ other.1.toList.length := by
      intro length
      induction length with
      | zero => exact ⟨pair, hpair, hmem, Nat.zero_le _⟩
      | succ length ih =>
          obtain ⟨other, hother, hin, hle⟩ := ih
          obtain ⟨name, hname, hlead⟩ := hleads other hother
          obtain ⟨hlonger, hlt⟩ := hlead.tilde hin
          cases hname with
          | inl hpairs =>
              obtain ⟨longer, hlongerMem, rfl⟩ := List.mem_map.mp hpairs
              exact ⟨longer, hlongerMem, hlonger, by omega⟩
          | inr hin => exact absurd hlonger (hextra name hin)
    obtain ⟨other, hother, -, hle⟩ :=
      hlong ((pairs.map fun pair => pair.1.toList.length).sum + 1)
    have hsum := List.le_sum_of_mem
      (List.mem_map_of_mem (f := fun pair : String × String =>
        pair.1.toList.length) hother)
    omega
  intro pair hpair
  obtain ⟨name, hname, hlead⟩ := hleads pair hpair
  have hnameTilde : '~' ∉ name.toList := by
    cases hname with
    | inl hpairs =>
        obtain ⟨other, hother, rfl⟩ := List.mem_map.mp hpairs
        exact htilde other hother
    | inr hin => exact hextra name hin
  exact {
    name := {
      slash := fun hslash => hnameTilde (hlead.slash hslash)
      tilde := htilde pair hpair
      free := hlead.free }
    value := hvalue pair hpair }

end Leads

/-! Plain fields are stored one by one in the object below their key. -/

/-- A field as the loops store it, by name and cut value. -/
def storeField (fields : JsonMembers) (field : String × String) : JsonMembers :=
  match fields.lookup field.1 with
  | some _ => Members.replaceFirst field.1 (.string (cStr field.2)) fields
  | none => fields ++ [(field.1, .string (cStr field.2))]

theorem lookup_storeField (fields : JsonMembers) (field : String × String)
    (name : String) :
    (storeField fields field).lookup name =
      if name = field.1 then some (.string (cStr field.2))
      else fields.lookup name := by
  cases hold : fields.lookup field.1 with
  | some old =>
      simp only [storeField, hold]
      split
      case isTrue hname =>
        subst hname
        exact Members.lookup_replaceFirst_self _
          (Members.lookup_isSome.mp (by rw [hold]; rfl))
      case isFalse hname =>
        exact Members.lookup_replaceFirst_of_ne (Ne.symm hname) _ _
  | none =>
      simp only [storeField, hold]
      split
      case isTrue hname =>
        subst hname
        simp [Members.lookup_append_of_not_mem (Members.lookup_eq_none.mp hold)]
      case isFalse hname =>
        exact Members.lookup_append_singleton_of_ne hname fields _

theorem lookup_foldl_storeField {pairs : TextPairs} {fields : JsonMembers}
    {name text : String}
    (hsame : ∀ pair ∈ pairs, pair.1 = name → cStr pair.2 = text)
    (hsome : (∃ pair ∈ pairs, pair.1 = name) ∨
      fields.lookup name = some (.string text)) :
    (pairs.foldl storeField fields).lookup name = some (.string text) := by
  induction pairs generalizing fields with
  | nil =>
      cases hsome with
      | inl hpair =>
          obtain ⟨pair, hmem, -⟩ := hpair
          cases hmem
      | inr hfound => exact hfound
  | cons first rest ih =>
      rw [List.foldl_cons]
      apply ih fun pair hpair => hsame pair (.tail first hpair)
      rw [lookup_storeField]
      split
      · rename_i hname
        right
        rw [hsame first List.mem_cons_self hname.symm]
      · rename_i hname
        cases hsome with
        | inr hfound => exact .inr hfound
        | inl hpair =>
            obtain ⟨pair, hmem, heq⟩ := hpair
            cases hmem with
            | head => exact absurd heq.symm hname
            | tail _ hlater => exact .inl ⟨pair, hlater, heq⟩

theorem set_single_object (fields : JsonMembers) (field : String × String) :
    Pointer.set (.string (cStr field.2)) [Token.ofName field.1.toList]
        (.object fields) = .object (storeField fields field) := by
  rw [Pointer.set, ofName_key, storeField]
  cases fields.lookup field.1 with
  | some old => simp [Pointer.set]
  | none => simp [Pointer.set]

theorem set_single_null {field : String × String} (hname : NotIndex field) :
    Pointer.set (.string (cStr field.2)) [Token.ofName field.1.toList] .null =
      .object (storeField [] field) := by
  rw [Pointer.set, Token.ofName_index, hname]
  · simp [storeField, Pointer.set]
  · simp
  · simp

section Plain

variable {key root : String} (hroot : FieldRoot key root)

include hroot

/-- The members that the loops leave: the object below `key` is replaced. -/
theorem setFields_present {pairs : TextPairs}
    (hplain : ∀ pair ∈ pairs, PlainName pair.1) {members fields : JsonMembers}
    (hfields : members.lookup key = some (.object fields)) :
    ∃ after, setFields root pairs (.object members) = .object after ∧
      after.lookup key = some (.object (pairs.foldl storeField fields)) ∧
      ∀ name, name ≠ key →
        Members.named name after = Members.named name members := by
  induction pairs generalizing members fields with
  | nil => exact ⟨members, rfl, hfields, fun _ _ => rfl⟩
  | cons pair rest ih =>
      have hstep : setText (root ++ pair.1) pair.2 (.object members) =
          .object (Members.replaceFirst key
            (.object (storeField fields pair)) members) := by
        rw [setText_eq hroot, (hplain pair List.mem_cons_self).fieldTokens]
        simp only
        rw [set_key_found _ _ hfields, set_single_object]
      have hlookup := Members.lookup_replaceFirst_self
        (Json.object (storeField fields pair))
        (Members.lookup_isSome.mp (by rw [hfields]; rfl))
      obtain ⟨after, hafter, hkey, hothers⟩ :=
        ih (fun other hother => hplain other (.tail pair hother)) hlookup
      refine ⟨after, ?_, hkey, ?_⟩
      · rw [setFields, hstep]
        exact hafter
      · intro name hname
        rw [hothers name hname,
          Members.named_replaceFirst_of_ne (Ne.symm hname)]

theorem setFields_absent {pairs : TextPairs} (hsome : pairs ≠ [])
    (hplain : ∀ pair ∈ pairs, PlainName pair.1)
    (hfirst : ∀ pair ∈ pairs.head?, NotIndex pair) {members : JsonMembers}
    (habsent : members.lookup key = none) :
    ∃ after, setFields root pairs (.object members) = .object after ∧
      after.lookup key = some (.object (pairs.foldl storeField [])) ∧
      ∀ name, name ≠ key →
        Members.named name after = Members.named name members := by
  cases pairs with
  | nil => exact absurd rfl hsome
  | cons pair rest =>
      have hstep : setText (root ++ pair.1) pair.2 (.object members) =
          .object (members ++ [(key, .object (storeField [] pair))]) := by
        rw [setText_eq hroot, (hplain pair List.mem_cons_self).fieldTokens]
        simp only
        rw [set_key_absent _ _ habsent, set_single_null (hfirst pair rfl)]
      have hlookup : (members ++ [(key, Json.object (storeField [] pair))]).lookup
          key = some (.object (storeField [] pair)) := by
        rw [Members.lookup_append_of_not_mem (Members.lookup_eq_none.mp habsent)]
        simp
      obtain ⟨after, hafter, hkey, hothers⟩ := setFields_present hroot
        (fun other hother => hplain other (.tail pair hother)) hlookup
      refine ⟨after, ?_, hkey, ?_⟩
      · rw [setFields, hstep]
        exact hafter
      · intro name hname
        rw [hothers name hname, Members.named_append,
          Members.named_cons_of_ne (Ne.symm hname), Members.named_nil,
          List.append_nil]

theorem findMember?_setFields_plain {pairs : TextPairs}
    (hplain : ∀ pair ∈ pairs, PlainName pair.1) {other : String}
    (hne : other ≠ key) (request : Json) :
    (setFields root pairs request).findMember? other =
      request.findMember? other := by
  induction pairs generalizing request with
  | nil => rfl
  | cons pair rest ih =>
      rw [setFields, ih fun later hlater => hplain later (.tail pair hlater),
        setText_eq hroot, (hplain pair List.mem_cons_self).fieldTokens]
      exact findMember?_set_other hroot hne _ request _

/-- A first field with an index for a name makes an array of the key; what is
found by that name later has to come from another field. -/
theorem notIndex_of_found {first : String × String} {rest : TextPairs}
    (request final : Json) (habsent : request.findMember? key = none)
    (hplain : PlainName first.1)
    (hfresh : ∀ pair ∈ rest, ¬ LeadsTo pair.1 first.1)
    (hfinal : ∀ named,
      FieldsNamed key named (setFields root (first :: rest) request) →
        FieldsNamed key named final)
    {fields : JsonMembers} {value : Json}
    (hkey : final.findMember? key = some (.object fields))
    (hfound : fields.lookup first.1 = some value) : NotIndex first := by
  unfold NotIndex
  cases hindex : Token.indexOf first.1.toList with
  | none => rfl
  | some index =>
      have harray : FieldsNamed key (fun _ => False)
          (setText (root ++ first.1) first.2 request) := by
        rw [setText_eq hroot, hplain.fieldTokens]
        intro others hothers
        simp only [findMember?_set_key hroot, habsent, Option.getD_none,
          Option.some.injEq] at hothers
        rw [Pointer.set, Token.ofName_index, hindex] at hothers
        · cases hothers
        · simp
        · simp
      have hnamed : FieldsNamed key
          (fun field => ∃ pair ∈ rest, LeadsTo pair.1 field) final := by
        apply hfinal
        change FieldsNamed key _
          (setFields root rest (setText (root ++ first.1) first.2 request))
        apply FieldsNamed.setFields hroot
        · intro others hothers field hfield
          exact (harray others hothers field hfield).1.elim
        · intro _ pair hpair field hlead
          exact ⟨pair, hpair, hlead⟩
      obtain ⟨pair, hpair, hlead⟩ :=
        (hnamed fields hkey _ (Members.mem_of_lookup hfound)).1
      exact absurd hlead (hfresh pair hpair)

end Plain

theorem eq_of_fst_eq {pairs : TextPairs} (hnodup : (pairs.map Prod.fst).Nodup)
    {first second : String × String} (hfirst : first ∈ pairs)
    (hsecond : second ∈ pairs) (hname : first.1 = second.1) : first = second :=
  List.inj_on_of_nodup_map hnodup hfirst hsecond hname

section Requests

variable {body : JsonMembers} {headers query : TextPairs} {ipAddr : String}

theorem headerNe : "__HEADER__" ≠ "__QUERYSTRING__" := by
  decide

theorem ipName_root : FieldRoot "__IP__" "/__IP__/" := by
  constructor <;> decide

theorem ipName_plain : PlainName "__IP__" := by
  constructor <;> decide

theorem findMember?_query_headersSet (hquery : body.lookup "__QUERYSTRING__" = none) :
    (setFields "/__HEADER__/" (headers ++ [("__IP__", ipAddr)])
      (.object body)).findMember? "__QUERYSTRING__" = none :=
  findMember?_setFields_none headerRoot (by decide) hquery

namespace RequestComplete

variable {members : JsonMembers}

/-- The query parameters leave the headers as they were set. -/
theorem headersKept (hcomplete : RequestComplete body headers ipAddr query members)
    {named : String → Prop}
    (hnamed : FieldsNamed "__HEADER__" named
      (setFields "/__HEADER__/" (headers ++ [("__IP__", ipAddr)]) (.object body))) :
    FieldsNamed "__HEADER__" named (.object members) := by
  rw [← hcomplete.isObject, addHttpFields_eq]
  exact hnamed.setFields queryRoot fun heq => absurd heq (by decide)

theorem headerFields (hcomplete : RequestComplete body headers ipAddr query members)
    (hheader : body.lookup "__HEADER__" = none) :
    FieldsNamed "__HEADER__"
      (fun field => ∃ pair ∈ headers ++ [("__IP__", ipAddr)], LeadsTo pair.1 field)
      (.object members) := by
  apply hcomplete.headersKept
  apply FieldsNamed.setFields headerRoot
  · intro fields hfields
    rw [Json.findMember?_object, hheader] at hfields
    cases hfields
  · intro _ pair hpair field hlead
    exact ⟨pair, hpair, hlead⟩

theorem queryFields (hcomplete : RequestComplete body headers ipAddr query members)
    (hquery : body.lookup "__QUERYSTRING__" = none) :
    FieldsNamed "__QUERYSTRING__"
      (fun field => ∃ pair ∈ query, LeadsTo pair.1 field) (.object members) := by
  rw [← hcomplete.isObject, addHttpFields_eq]
  apply FieldsNamed.setFields queryRoot
  · intro fields hfields
    rw [findMember?_query_headersSet hquery] at hfields
    cases hfields
  · intro _ pair hpair field hlead
    exact ⟨pair, hpair, hlead⟩

theorem plainHeaders (hcomplete : RequestComplete body headers ipAddr query members)
    (hheader : body.lookup "__HEADER__" = none) :
    ∀ header ∈ headers, PlainField header := by
  apply plainFields_of_leads ["__IP__"] (by decide)
  · intro header hmem
    obtain ⟨fields, hkey, hfound⟩ := hcomplete.hasHeaders header hmem
    obtain ⟨pair, hpair, hlead⟩ :=
      (hcomplete.headerFields hheader fields hkey _ (Members.mem_of_lookup hfound)).1
    refine ⟨pair.1, ?_, hlead⟩
    cases List.mem_append.mp hpair with
    | inl hold => exact .inl (List.mem_map_of_mem hold)
    | inr hip =>
        rw [List.mem_singleton] at hip
        exact .inr (by rw [hip]; exact List.mem_cons_self)
  · intro header hmem
    obtain ⟨fields, hkey, hfound⟩ := hcomplete.hasHeaders header hmem
    exact (hcomplete.headerFields hheader fields hkey _
      (Members.mem_of_lookup hfound)).2 _ rfl

theorem plainQuery (hcomplete : RequestComplete body headers ipAddr query members)
    (hquery : body.lookup "__QUERYSTRING__" = none) :
    ∀ pair ∈ query, PlainField pair := by
  apply plainFields_of_leads [] (by simp)
  · intro pair hmem
    obtain ⟨fields, hkey, hfound⟩ := hcomplete.hasQuery pair hmem
    obtain ⟨other, hother, hlead⟩ :=
      (hcomplete.queryFields hquery fields hkey _ (Members.mem_of_lookup hfound)).1
    exact ⟨other.1, .inl (List.mem_map_of_mem hother), hlead⟩
  · intro pair hmem
    obtain ⟨fields, hkey, hfound⟩ := hcomplete.hasQuery pair hmem
    exact (hcomplete.queryFields hquery fields hkey _
      (Members.mem_of_lookup hfound)).2 _ rfl

theorem firstHeader (hcomplete : RequestComplete body headers ipAddr query members)
    (hheader : body.lookup "__HEADER__" = none)
    (hheaderNames : (headers.map Prod.fst).Nodup) :
    ∀ header ∈ headers.head?, NotIndex header := by
  have hplain := hcomplete.plainHeaders hheader
  cases headers with
  | nil => simp
  | cons first rest =>
      intro header hhead
      cases hhead
      obtain ⟨fields, hkey, hfound⟩ := hcomplete.hasHeaders first List.mem_cons_self
      cases hip : decide (first.1 = "__IP__") with
      | true =>
          rw [NotIndex, of_decide_eq_true hip]
          decide
      | false =>
          apply notIndex_of_found headerRoot (.object body) (.object members) hheader
            (hplain first List.mem_cons_self).name _ (fun _ => hcomplete.headersKept)
            hkey hfound
          intro pair hpair hlead
          cases List.mem_append.mp hpair with
          | inl hrest =>
              have hsame := (hplain pair (.tail first hrest)).name.leadsTo hlead
              rw [List.map_cons, List.nodup_cons] at hheaderNames
              exact hheaderNames.1 (hsame ▸ List.mem_map_of_mem hrest)
          | inr hlast =>
              rw [List.mem_singleton] at hlast
              rw [hlast] at hlead
              exact of_decide_eq_false hip (ipName_plain.leadsTo hlead)

theorem firstQuery (hcomplete : RequestComplete body headers ipAddr query members)
    (hquery : body.lookup "__QUERYSTRING__" = none)
    (hqueryNames : (query.map Prod.fst).Nodup) :
    ∀ pair ∈ query.head?, NotIndex pair := by
  have hplain := hcomplete.plainQuery hquery
  have hdone := hcomplete.isObject
  rw [addHttpFields_eq] at hdone
  cases query with
  | nil => simp
  | cons first rest =>
      intro pair hhead
      cases hhead
      obtain ⟨fields, hkey, hfound⟩ := hcomplete.hasQuery first List.mem_cons_self
      apply notIndex_of_found queryRoot _ (.object members)
        (findMember?_query_headersSet hquery) (hplain first List.mem_cons_self).name _
        (fun named hnamed => hdone ▸ hnamed) hkey hfound
      intro pair hpair hlead
      have hsame := (hplain pair (.tail first hpair)).name.leadsTo hlead
      rw [List.map_cons, List.nodup_cons] at hqueryNames
      exact hqueryNames.1 (hsame ▸ List.mem_map_of_mem hpair)

/-- The address of the client is set last, over a header of its name. -/
theorem clientIp (hcomplete : RequestComplete body headers ipAddr query members)
    (hquery : body.lookup "__QUERYSTRING__" = none) :
    ∀ value, ("__IP__", value) ∈ headers → value = cStr ipAddr := by
  intro value hmem
  have hdone := hcomplete.isObject
  rw [addHttpFields_eq] at hdone
  obtain ⟨fields, hkey, hfound⟩ := hcomplete.hasHeaders _ hmem
  have hlast := findMember?_setFields_plain queryRoot
    (fun pair hpair => (hcomplete.plainQuery hquery pair hpair).name) headerNe
    (setFields "/__HEADER__/" (headers ++ [("__IP__", ipAddr)]) (.object body))
  rw [hdone, setFields_append, setFields, setFields, setText_eq headerRoot,
    ipName_plain.fieldTokens] at hlast
  simp only [findMember?_set_key headerRoot, Json.findMember?_object, hkey] at hlast
  have hip := findMember?_set_key ipName_root (.string (cStr ipAddr))
    (((setFields "/__HEADER__/" headers (.object body)).findMember?
      "__HEADER__").getD .null) []
  rw [← Option.some.inj hlast, Json.findMember?_object, hfound, Pointer.set] at hip
  cases hip
  rfl

end RequestComplete

theorem Spliceable.of_complete
    (hheader : body.lookup "__HEADER__" = none)
    (hquery : body.lookup "__QUERYSTRING__" = none)
    (hheaderNames : (headers.map Prod.fst).Nodup)
    (hqueryNames : (query.map Prod.fst).Nodup) {members : JsonMembers}
    (hcomplete : RequestComplete body headers ipAddr query members) :
    Spliceable headers ipAddr query where
  plainHeaders := hcomplete.plainHeaders hheader
  plainQuery := hcomplete.plainQuery hquery
  firstHeader := hcomplete.firstHeader hheader hheaderNames
  firstQuery := hcomplete.firstQuery hquery hqueryNames
  clientIp := hcomplete.clientIp hquery

/-- The headers and the address are set before the query parameters. -/
theorem Spliceable.setHeaders (hheader : body.lookup "__HEADER__" = none)
    (hheaderNames : (headers.map Prod.fst).Nodup)
    (hsplice : Spliceable headers ipAddr query) :
    ∃ after, setFields "/__HEADER__/" (headers ++ [("__IP__", ipAddr)])
        (.object body) = .object after ∧
      (∀ name, name ≠ "__HEADER__" →
        Members.named name after = Members.named name body) ∧
      ∀ header ∈ headers, FoundUnder "__HEADER__" header after := by
  have hplainHeaders : ∀ header ∈ headers ++ [("__IP__", ipAddr)],
      PlainName header.1 := by
    intro header hmem
    cases List.mem_append.mp hmem with
    | inl hold => exact (hsplice.plainHeaders header hold).name
    | inr hip =>
        rw [List.mem_singleton] at hip
        rw [hip]
        exact ipName_plain
  have hfirst : ∀ header ∈ (headers ++ [("__IP__", ipAddr)]).head?,
      NotIndex header := by
    intro header hhead
    cases headers with
    | nil =>
        cases hhead
        exact (by decide : Token.indexOf "__IP__".toList = none)
    | cons first rest => exact hsplice.firstHeader header hhead
  obtain ⟨after, hafter, hheaders, hothers⟩ := setFields_absent headerRoot
    (by simp) hplainHeaders hfirst hheader
  refine ⟨after, hafter, hothers, ?_⟩
  intro header hmem
  refine ⟨_, hheaders, ?_⟩
  apply lookup_foldl_storeField _
    (.inl ⟨header, List.mem_append_left _ hmem, rfl⟩)
  intro other hother hname
  have hcut := cStr_eq_self (hsplice.plainHeaders header hmem).value
  cases List.mem_append.mp hother with
  | inl hold =>
      rw [eq_of_fst_eq hheaderNames hold hmem hname, hcut]
  | inr hip =>
      rw [List.mem_singleton] at hip
      subst hip
      have hhidden : ("__IP__", header.2) ∈ headers := by
        rw [show "__IP__" = header.1 from hname]
        exact hmem
      exact (hsplice.clientIp header.2 hhidden).symm

theorem Spliceable.complete (hheader : body.lookup "__HEADER__" = none)
    (hquery : body.lookup "__QUERYSTRING__" = none)
    (hheaderNames : (headers.map Prod.fst).Nodup)
    (hqueryNames : (query.map Prod.fst).Nodup)
    (hsplice : Spliceable headers ipAddr query) :
    ∃ members, RequestComplete body headers ipAddr query members := by
  obtain ⟨after, hafter, hbody, hheaderFound⟩ :=
    hsplice.setHeaders hheader hheaderNames
  cases query with
  | nil =>
      refine ⟨after, ?_⟩
      constructor
      · rw [addHttpFields_eq, hafter]
        rfl
      · intro name hne _
        exact hbody name hne
      · exact hheaderFound
      · simp
  | cons first rest =>
      have habsent : after.lookup "__QUERYSTRING__" = none := by
        rw [Members.lookup_eq_head_named, hbody _ (by decide),
          ← Members.lookup_eq_head_named, hquery]
      obtain ⟨members, hmembers, hpairs, hkept⟩ := setFields_absent queryRoot
        (by simp) (fun pair hpair => (hsplice.plainQuery pair hpair).name)
        hsplice.firstQuery habsent
      refine ⟨members, ?_⟩
      constructor
      · rw [addHttpFields_eq, hafter, hmembers]
      · intro name hne hneQuery
        rw [hkept name hneQuery, hbody name hne]
      · intro header hmem
        obtain ⟨fields, hkey, hfound⟩ := hheaderFound header hmem
        refine ⟨fields, ?_, hfound⟩
        rw [Members.lookup_eq_head_named, hkept _ (by decide),
          ← Members.lookup_eq_head_named, hkey]
      · intro pair hmem
        refine ⟨_, hpairs, ?_⟩
        apply lookup_foldl_storeField _ (.inl ⟨pair, hmem, rfl⟩)
        intro other hother hname
        rw [eq_of_fst_eq hqueryNames hother hmem hname,
          cStr_eq_self (hsplice.plainQuery pair hmem).value]

end Requests

/-- The request comes out whole exactly when all names can be spliced. -/
theorem requestComplete_iff (body : JsonMembers) (headers : TextPairs)
    (ipAddr : String) (query : TextPairs)
    (hheader : body.lookup "__HEADER__" = none)
    (hquery : body.lookup "__QUERYSTRING__" = none)
    (hheaderNames : (headers.map Prod.fst).Nodup)
    (hqueryNames : (query.map Prod.fst).Nodup) :
    (∃ members, RequestComplete body headers ipAddr query members) ↔
      Spliceable headers ipAddr query := by
  constructor
  · intro hcomplete
    obtain ⟨members, hmembers⟩ := hcomplete
    exact Spliceable.of_complete hheader hquery hheaderNames hqueryNames hmembers
  · intro hsplice
    exact hsplice.complete hheader hquery hheaderNames hqueryNames

theorem requestComplete_agent :
    (∃ members, RequestComplete [("usid", .string "1"), ("query", .string "weather")]
      [("Host", "a"), ("User-Agent", "b"), ("0", "c")] "127.0.0.1"
      [("q", "x"), ("lang", "zh"), ("page", "2")] members) ↔
      Spliceable [("Host", "a"), ("User-Agent", "b"), ("0", "c")] "127.0.0.1"
        [("q", "x"), ("lang", "zh"), ("page", "2")] :=
  requestComplete_iff _ _ _ _ (by decide) (by decide) (by decide) (by decide)

/-- A header named `x~` replaces the whole request by its value. -/
theorem tildeHeader_replaces_request :
    ¬ ∀ (body : JsonMembers) (headers : TextPairs) (ipAddr : String)
        (query : TextPairs),
      body.lookup "__HEADER__" = none → body.lookup "__QUERYSTRING__" = none →
      (headers.map Prod.fst).Nodup → (query.map Prod.fst).Nodup →
      ∃ members, RequestComplete body headers ipAddr query members := by
  intro hall
  obtain ⟨members, hcomplete⟩ := hall [("usid", .string "1")] [("x~", "1")]
    "127.0.0.1" [] (by decide) (by decide) (by decide) (by decide)
  have hkept := hcomplete.keepsBody "usid" (by decide) (by decide)
  have hdone := hcomplete.isObject
  have hlost : addHttpFields [("x~", "1")] "127.0.0.1" []
      (.object [("usid", .string "1")]) =
        .object [("__HEADER__", .object [("__IP__", .string "127.0.0.1")])] := by
    rfl
  rw [hlost] at hdone
  cases hdone
  revert hkept
  decide

end Uskit
