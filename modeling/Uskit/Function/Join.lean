import Uskit.Function.StrFunction
import Uskit.Function.TypeSafety

namespace Uskit.Function

open Uskit.Data

/-! `join`: what is trimmed off the result besides the last delimiter. -/

/-- The text of an item, with all its characters. -/
def itemText (host : Host) : Json → String
  | .string text => text
  | value => host.jsonEncode value

def joined (host : Host) (items : List Json) (delimiter : String) : List Char :=
  delimiter.toList.intercalate (items.map fun item => (itemText host item).toList)

/-- `join` returns the items' texts with the delimiter between them. -/
def Joins (host : Host) (items : List Json) (delimiter : String) : Prop :=
  arrayJoin host [.array items, .string delimiter] =
    .ok (.string (.ofList (joined host items delimiter)))

/-- No text is cut, and `TrimString` finds only the last delimiter to remove. -/
structure Joinable (host : Host) (items : List Json) (delimiter : String) : Prop where
  whole : ∀ item ∈ items, '\x00' ∉ (itemText host item).toList
  delimiterWhole : 2 ≤ items.length → '\x00' ∉ delimiter.toList
  clearEnds : ClearEnds (cStr delimiter).toList
    (items.map fun item => (itemText host item).toList)

section Output

variable (host : Host) (htrims : TrimsEnds host.trimString) {items : List Json}
  {delimiter : String}

theorem foldl_toList (delimiter : String) (items : List Json) (output : String) :
    (items.foldl (fun output item => output ++ host.textOf item ++ delimiter)
        output).toList =
      output.toList ++
        (items.map fun item => (host.textOf item).toList).flatMap
          (· ++ delimiter.toList) := by
  induction items generalizing output with
  | nil => simp
  | cons item items ih =>
      rw [List.foldl_cons, ih]
      simp only [String.toList_append, List.map_cons, List.flatMap_cons,
        List.append_assoc]

include htrims in
/-- The last delimiter is trimmed off with all else at the ends that is in it. -/
theorem trimString_foldl (delimiter : String) (items : List Json) :
    (host.trimString (items.foldl (fun output item =>
        output ++ host.textOf item ++ delimiter) "") delimiter).toList =
      trimEnds delimiter.toList (delimiter.toList.intercalate
        (items.map fun item => (host.textOf item).toList)) := by
  rw [htrims, foldl_toList]
  by_cases hitems : items = []
  · subst hitems
    rfl
  · have htexts : (items.map fun item => (host.textOf item).toList) ≠ [] := by
      simpa using hitems
    rw [flatMap_append_separator htexts]
    exact trimEnds_append fun x hx => hx

theorem textOf_eq_itemText {item : Json} (hwhole : '\x00' ∉ (itemText host item).toList) :
    host.textOf item = itemText host item := by
  cases item with
  | string text => exact cStr_eq_self hwhole
  | null | bool | number | array | object => rfl

theorem joined_eq_cut (hdelimiter : 2 ≤ items.length → '\x00' ∉ delimiter.toList) :
    joined host items delimiter =
      (cStr delimiter).toList.intercalate
        (items.map fun item => (itemText host item).toList) := by
  by_cases hmany : 2 ≤ items.length
  · rw [cStr_eq_self (hdelimiter hmany), joined]
  · apply intercalate_of_length_lt
    rw [List.length_map]
    omega

theorem not_mem_joined {x : Char} :
    x ∉ joined host items delimiter ↔
      (∀ item ∈ items, x ∉ (itemText host item).toList) ∧
        (2 ≤ items.length → x ∉ delimiter.toList) := by
  rw [joined, mem_intercalate, List.length_map]
  simp only [List.mem_map, exists_exists_and_eq_and, not_or, not_exists, not_and]

include htrims in
/-- Where no NUL is in the texts, only the trimming changes what is joined. -/
theorem arrayJoin_eq (hfree : '\x00' ∉ joined host items delimiter) :
    arrayJoin host [.array items, .string delimiter] =
      .ok (.string (.ofList
        (trimEnds (cStr delimiter).toList (joined host items delimiter)))) := by
  obtain ⟨hwhole, hdelimiter⟩ := (not_mem_joined host).mp hfree
  have htexts : (items.map fun item => (host.textOf item).toList) =
      items.map fun item => (itemText host item).toList := by
    apply List.map_congr_left
    intro item hitem
    rw [textOf_eq_itemText host (hwhole item hitem)]
  have htrimmed := trimString_foldl host htrims (cStr delimiter) items
  rw [htexts, ← joined_eq_cut host hdelimiter] at htrimmed
  rw [← htrimmed, String.ofList_toList]
  have houtput : '\x00' ∉ (host.trimString (items.foldl (fun output item =>
      output ++ host.textOf item ++ cStr delimiter) "") (cStr delimiter)).toList := by
    rw [htrimmed]
    intro hnul
    exact hfree (trimEnds_sublist.subset hnul)
  rw [← cStr_eq_self houtput]
  rfl

theorem trimEnds_joined_iff (hdelimiter : 2 ≤ items.length → '\x00' ∉ delimiter.toList) :
    trimEnds (cStr delimiter).toList (joined host items delimiter) =
        joined host items delimiter ↔
      ClearEnds (cStr delimiter).toList
        (items.map fun item => (itemText host item).toList) := by
  rw [trimEnds_eq_self_iff, joined_eq_cut host hdelimiter, trimmed_intercalate_iff]

end Output

theorem joins_iff (host : Host) (htrims : TrimsEnds host.trimString) (items : List Json)
    (delimiter : String) :
    Joins host items delimiter ↔ Joinable host items delimiter := by
  constructor
  · intro hjoins
    have hfree : '\x00' ∉ joined host items delimiter := by
      have htext := Json.string.inj (Checked.ok.inj hjoins)
      rw [← String.toList_ofList (l := joined host items delimiter), ← htext]
      exact cStr_free _
    rw [Joins, arrayJoin_eq host htrims hfree] at hjoins
    have hsame := String.ofList_injective (Json.string.inj (Checked.ok.inj hjoins))
    obtain ⟨hwhole, hdelimiter⟩ := (not_mem_joined host).mp hfree
    exact ⟨hwhole, hdelimiter, (trimEnds_joined_iff host hdelimiter).mp hsame⟩
  · intro hjoinable
    have hfree := (not_mem_joined host).mpr
      ⟨hjoinable.whole, hjoinable.delimiterWhole⟩
    rw [Joins, arrayJoin_eq host htrims hfree,
      (trimEnds_joined_iff host hjoinable.delimiterWhole).mpr hjoinable.clearEnds]

theorem joins_words :
    Joins Host.bare [.string "you", .string "me", .bool true] ", " := by
  rw [joins_iff Host.bare trimBoth_trimsEnds]
  refine ⟨by decide, by decide, ?_, ?_, by decide⟩
  · intro text htext first hfirst
    cases htext
    cases hfirst
    decide
  · intro text htext last hlast
    cases htext
    cases hlast
    decide

/-- The delimiter behind an empty first item is removed, too. -/
theorem emptyItem_notJoined :
    ¬ ∀ (host : Host) (items : List Json) (delimiter : String),
      TrimsEnds host.trimString →
        (∀ item ∈ items, getType item = .string ∨ getType item = .number) →
          Joins host items delimiter := by
  intro hall
  have hjoins := hall Host.bare [.string "", .string "b"] "," trimBoth_trimsEnds
    (by decide)
  rw [Joins] at hjoins
  exact absurd hjoins (by decide)

end Uskit.Function
