import Uskit.Function.TypeSafety
import Uskit.Json.PathText

namespace Uskit.Function

open Uskit.Data

/-! `set` and `get` on one document, with paths that spell names. -/

/-- The paths go one way up to an object or an array in which they lead to two places; in an
array the second one is there. -/
def PartsFrom (json : Json) (names others : List String) : Prop :=
  ∃ shared name rest other later, names = shared ++ name :: rest ∧
    others = shared ++ other :: later ∧
      match Pointer.get (namedTokens shared) json with
      | some (.object _) => other ≠ name
      | some (.array elements) => ∃ index position,
          (Token.ofName name.toList).index = some index ∧
            (Token.ofName other.toList).index = some position ∧
              position ≠ index ∧ position < elements.length
      | _ => False

section SetGet

variable {host : Host}

theorem callFunction_get {json : Json} (hjson : (json.isObject || isArray json) = true)
    (path : String) :
    callFunction host "get" [json, .string path] =
      .ok ((getValueByPointer json (cStr path)).getD .null) := by
  have hlookup : registered.lookup "get" = some .getValueByPath := by decide
  rw [callFunction_eq, hlookup]
  cases hget : getValueByPointer json (cStr path) <;>
    simp [Builtin.run, getValueByPath, position, getString, isString, getType, hjson, hget]

theorem callFunction_set {json : Json} (hjson : (json.isObject || isArray json) = true)
    {path : String} {tokens : List Token} (htokens : pathTokens (cStr path) = some tokens)
    (value : Json) :
    callFunction host "set" [json, .string path, value] =
      .ok (Pointer.set value tokens json) := by
  have hlookup : registered.lookup "set" = some .setValueByPath := by decide
  have hvalid : jsonSetValueByPath (normalizePath (cStr path)) json value =
      (Pointer.set value tokens json, true) := by
    unfold jsonSetValueByPath
    rw [pathTokens_normalizePath, htokens]
  rw [callFunction_eq, hlookup]
  simp [Builtin.run, setValueByPath, position, getString, isString, getType, hjson, hvalid]

theorem getValueByPointer_namedPath {names : List String} (hnames : names ≠ [""])
    (hfree : ∀ name ∈ names, '\x00' ∉ name.toList) (json : Json) :
    getValueByPointer json (cStr (namedPath names)) =
      Pointer.get (namedTokens names) json := by
  unfold getValueByPointer
  rw [cStr_eq_self (free_namedPath hfree), pathTokens_namedPath hnames hfree, Option.getD_some]

theorem namedTokens_append (shared : List String) (name : String) (rest : List String) :
    namedTokens (shared ++ name :: rest) =
      namedTokens shared ++ Token.ofName name.toList :: namedTokens rest := by
  rw [namedTokens, List.map_append]
  rfl

theorem get_of_partsFrom {value json after : Json} {names others : List String}
    (hset : SetTo value (namedTokens names) json after) (hparts : PartsFrom json names others) :
    Pointer.get (namedTokens others) after = Pointer.get (namedTokens others) json := by
  obtain ⟨shared, name, rest, other, later, rfl, rfl, hnode⟩ := hparts
  have htokens := namedTokens_append shared name rest
  rw [namedTokens_append shared other later]
  split at hnode
  case h_1 members hmembers =>
    refine hset.members _ _ _ members htokens hmembers _ _ ?_
    rw [Token.ofName_name, Token.ofName_name, String.ofList_toList, String.ofList_toList]
    exact hnode
  case h_2 elements helements =>
    obtain ⟨index, position, hindex, hposition, hne, hless⟩ := hnode
    exact hset.elements _ _ _ elements index htokens helements hindex _ _ position hposition
      hne hless
  case h_3 => exact hnode.elim

/-- The result of a write is an object or an array, if the path has a name. -/
theorem container_set {json value : Json} (token : Token) (tokens : List Token) :
    ((Pointer.set value (token :: tokens) json).isObject ||
      isArray (Pointer.set value (token :: tokens) json)) = true := by
  cases json with
  | object members =>
      rw [Pointer.set]
      cases members.lookup token.name <;> rfl
  | array elements =>
      rw [Pointer.set]
      by_cases hpush : token.name = "-"
      · rw [if_pos hpush]
        rfl
      · rw [if_neg hpush]
        cases token.index with
        | none => rfl
        | some index => cases hold : elements[index]? <;> simp only [hold] <;> rfl
  | null | bool _ | number _ | string _ =>
      cases hindex : token.index <;>
        simp [Pointer.set, hindex, Json.isObject, isArray, getType]

/-- What `set` puts behind a path, `get` reads there, and whatever another path leads to that
parts from it in the document is read as before; names can hold slashes and tildes. -/
theorem get_set_namedPath {json value : Json} (hjson : (json.isObject || isArray json) = true)
    {names : List String} (hnames : names ≠ [] ∧ names ≠ [""])
    (hfree : ∀ name ∈ names, '\x00' ∉ name.toList) (hpush : "-" ∉ names) :
    ∃ after, callFunction host "set" [json, .string (namedPath names), value] = .ok after ∧
      callFunction host "get" [after, .string (namedPath names)] = .ok value ∧
      ∀ others, others ≠ [""] → (∀ other ∈ others, '\x00' ∉ other.toList) →
        PartsFrom json names others →
          callFunction host "get" [after, .string (namedPath others)] =
            callFunction host "get" [json, .string (namedPath others)] := by
  have htokens : pathTokens (cStr (namedPath names)) = some (namedTokens names) := by
    rw [cStr_eq_self (free_namedPath hfree), pathTokens_namedPath hnames.2 hfree]
  have hnoPush : ∀ token ∈ namedTokens names, token.name ≠ "-" := by
    intro token htoken
    obtain ⟨name, hname, rfl⟩ := List.mem_map.mp htoken
    rw [Token.ofName_name, String.ofList_toList]
    exact fun heq => hpush (heq ▸ hname)
  have hset := Pointer.setTo_set value hnoPush json
  have hafter : ((Pointer.set value (namedTokens names) json).isObject ||
      isArray (Pointer.set value (namedTokens names) json)) = true := by
    cases names with
    | nil => exact absurd rfl hnames.1
    | cons name rest => exact container_set _ _
  refine ⟨_, callFunction_set hjson htokens value, ?_, fun others hothers hfreeOthers hparts => ?_⟩
  · rw [callFunction_get hafter, getValueByPointer_namedPath hnames.2 hfree, hset.leads]
    rfl
  · rw [callFunction_get hafter, callFunction_get hjson,
      getValueByPointer_namedPath hothers hfreeOthers,
      getValueByPointer_namedPath hothers hfreeOthers, get_of_partsFrom hset hparts]

def slashed : Json :=
  .object [("a/b", .object [("x", .bool true), ("y", .bool false)])]

theorem get_set_namedPath_slashed :
    ∃ after, callFunction Host.bare "set" [slashed, .string "/a~1b/x", .string "new"] =
        .ok after ∧
      callFunction Host.bare "get" [after, .string "/a~1b/x"] = .ok (.string "new") ∧
      callFunction Host.bare "get" [after, .string "/a~1b/y"] =
        callFunction Host.bare "get" [slashed, .string "/a~1b/y"] := by
  have hpath : namedPath ["a/b", "x"] = "/a~1b/x" := by decide
  have hother : namedPath ["a/b", "y"] = "/a~1b/y" := by decide
  have hparts : PartsFrom slashed ["a/b", "x"] ["a/b", "y"] := by
    refine ⟨["a/b"], "x", [], "y", [], rfl, rfl, ?_⟩
    have hnode : Pointer.get (namedTokens ["a/b"]) slashed =
        some (.object [("x", .bool true), ("y", .bool false)]) := by
      decide
    rw [hnode]
    decide
  have hcontainer : (slashed.isObject || isArray slashed) = true := by decide
  have hnames : ["a/b", "x"] ≠ [] ∧ ["a/b", "x"] ≠ [""] := by decide
  obtain ⟨after, hset, hget, hothers⟩ : ∃ after, _ :=
    get_set_namedPath hcontainer hnames (by decide) (by decide)
  rw [hpath] at hset hget
  refine ⟨after, hset, hget, ?_⟩
  rw [← hother]
  exact hothers ["a/b", "y"] (by decide) (by decide) hparts

end SetGet

end Uskit.Function
