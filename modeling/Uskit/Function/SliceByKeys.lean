import Uskit.Data.Window
import Uskit.Function.Join
import Uskit.Json.EncodeText

namespace Uskit.Function

open Uskit.Data

/-! `slice` with the methods `AND` and `EXCLUSIVE`. -/

/-- The object `slice_args` has the method, the path and the keys. -/
structure Asks (sliceArgs : JsonMembers) (method path : String) (keys : List Json) :
    Prop where
  method : sliceArgs.lookup "method" = some (.string method)
  path : sliceArgs.lookup "path" = some (.string path)
  keys : sliceArgs.lookup "keys" = some (.array keys)

def resolves (tokens : List Token) (element : Json) : Bool :=
  (Pointer.get tokens element).isSome

/-- The text of the value to which the tokens lead is one of the keys' texts. -/
def amongKeys (host : Host) (tokens : List Token) (keys : List Json) (element : Json) :
    Bool :=
  (Pointer.get tokens element).any fun value =>
    (keys.map (itemText host)).contains (itemText host value)

/-- The results for both methods are the two parts of the elements that resolve. -/
def Partitions (host : Host) (elements : List Json) (path : String)
    (tokens : List Token) (keys : List Json) : Prop :=
  ∀ andArgs exclusiveArgs, Asks andArgs "AND" path keys →
    Asks exclusiveArgs "EXCLUSIVE" path keys →
      ∃ kept others,
        arraySlice host [.array elements, .object andArgs] = .ok (.array kept) ∧
        arraySlice host [.array elements, .object exclusiveArgs] = .ok (.array others) ∧
        (elements.filter (resolves tokens)).partition (amongKeys host tokens keys) =
          (kept, others)

/-- A value whose text is a key's text up to the first NUL has the whole text of a
key. -/
def ToldApart (host : Host) (elements : List Json) (tokens : List Token)
    (keys : List Json) : Prop :=
  ∀ element ∈ elements, ∀ value, Pointer.get tokens element = some value →
    host.textOf value ∈ keys.map host.textOf →
      itemText host value ∈ keys.map (itemText host)

section Slice

variable (host : Host) {path : String} {tokens : List Token} {keys : List Json}

theorem arraySlice_asks (elements : List Json) {sliceArgs : JsonMembers}
    {method : String} (hasks : Asks sliceArgs method path keys) :
    arraySlice host [.array elements, .object sliceArgs] =
      .ok (.array (elements.filter
        (keepsElement host (cStr method) (cStr path) (keys.map host.textOf)))) := by
  have hcall : arraySlice host [.array elements, .object sliceArgs] =
      sliceByKeys host sliceArgs elements := rfl
  rw [hcall, sliceByKeys]
  simp only [requiredMember, hasks.method, hasks.path, hasks.keys]
  rfl

theorem textOf_eq_cut (hdtoa : Json.PrintsFree host.dtoa) (value : Json) :
    host.textOf value = cStr (itemText host value) := by
  cases value with
  | string text => rfl
  | null | bool | number | array | object =>
      exact (cStr_eq_self (Json.encode_free hdtoa _)).symm

theorem mem_textOf (hdtoa : Json.PrintsFree host.dtoa) {value : Json}
    (hvalue : itemText host value ∈ keys.map (itemText host)) :
    host.textOf value ∈ keys.map host.textOf := by
  obtain ⟨key, hkey, hsame⟩ := List.mem_map.mp hvalue
  refine List.mem_map.mpr ⟨key, hkey, ?_⟩
  rw [textOf_eq_cut host hdtoa, textOf_eq_cut host hdtoa, hsame]

theorem getValueByPointer_eq (hpath : pathTokens path = some tokens) (element : Json) :
    getValueByPointer element path = Pointer.get tokens element := by
  unfold getValueByPointer
  rw [hpath, Option.getD_some]

/-- The elements whose text, up to its first NUL, is one of the keys' texts. -/
theorem keepsElement_and (hpath : pathTokens (cStr path) = some tokens) (element : Json) :
    keepsElement host "AND" (cStr path) (keys.map host.textOf) element = true ↔
      ∃ value, Pointer.get tokens element = some value ∧
        host.textOf value ∈ keys.map host.textOf := by
  unfold keepsElement
  rw [getValueByPointer_eq hpath]
  cases Pointer.get tokens element with
  | none => simp
  | some value => simp

theorem keepsElement_exclusive (hpath : pathTokens (cStr path) = some tokens)
    (element : Json) :
    keepsElement host "EXCLUSIVE" (cStr path) (keys.map host.textOf) element = true ↔
      ∃ value, Pointer.get tokens element = some value ∧
        host.textOf value ∉ keys.map host.textOf := by
  unfold keepsElement
  rw [getValueByPointer_eq hpath]
  cases Pointer.get tokens element with
  | none => simp
  | some value => simp

theorem amongKeys_iff (element : Json) :
    (amongKeys host tokens keys element && resolves tokens element) = true ↔
      ∃ value, Pointer.get tokens element = some value ∧
        itemText host value ∈ keys.map (itemText host) := by
  rw [amongKeys, resolves]
  cases Pointer.get tokens element with
  | none => simp
  | some value => simp

theorem not_amongKeys_iff (element : Json) :
    (!amongKeys host tokens keys element && resolves tokens element) = true ↔
      ∃ value, Pointer.get tokens element = some value ∧
        itemText host value ∉ keys.map (itemText host) := by
  rw [amongKeys, resolves]
  cases Pointer.get tokens element with
  | none => simp
  | some value => simp

theorem partition_eq_iff {elements : List Json} {first second : Json → Bool} :
    (elements.filter (resolves tokens)).partition (amongKeys host tokens keys) =
        (elements.filter first, elements.filter second) ↔
      (∀ element ∈ elements,
        ((∃ value, Pointer.get tokens element = some value ∧
          itemText host value ∈ keys.map (itemText host)) ↔ first element = true)) ∧
      ∀ element ∈ elements,
        ((∃ value, Pointer.get tokens element = some value ∧
          itemText host value ∉ keys.map (itemText host)) ↔ second element = true) := by
  rw [List.partition_eq_filter_filter, List.filter_filter, List.filter_filter,
    Prod.mk.injEq, filter_eq_filter_iff, filter_eq_filter_iff]
  simp only [Function.comp_apply, amongKeys_iff, not_amongKeys_iff]

/-- What both calls return. -/
theorem partitions_iff_kept {elements : List Json} :
    Partitions host elements path tokens keys ↔
      (elements.filter (resolves tokens)).partition (amongKeys host tokens keys) =
        (elements.filter
            (keepsElement host "AND" (cStr path) (keys.map host.textOf)),
          elements.filter
            (keepsElement host "EXCLUSIVE" (cStr path) (keys.map host.textOf))) := by
  have hand : cStr "AND" = "AND" := by decide
  have hexclusive : cStr "EXCLUSIVE" = "EXCLUSIVE" := by decide
  constructor
  · intro hparts
    obtain ⟨kept, others, hkept, hothers, hpartition⟩ := hparts
      [("method", .string "AND"), ("path", .string path), ("keys", .array keys)]
      [("method", .string "EXCLUSIVE"), ("path", .string path), ("keys", .array keys)]
      ⟨rfl, rfl, rfl⟩ ⟨rfl, rfl, rfl⟩
    rw [arraySlice_asks host elements ⟨rfl, rfl, rfl⟩, hand] at hkept
    rw [arraySlice_asks host elements ⟨rfl, rfl, rfl⟩, hexclusive] at hothers
    rw [hpartition, Json.array.inj (Checked.ok.inj hkept),
      Json.array.inj (Checked.ok.inj hothers)]
  · intro hpartition andArgs exclusiveArgs handArgs hexclusiveArgs
    refine ⟨_, _, arraySlice_asks host elements handArgs,
      arraySlice_asks host elements hexclusiveArgs, ?_⟩
    rw [hand, hexclusive, hpartition]

end Slice

/-- Only a text with a NUL comes to the wrong part. -/
theorem partitions_iff (host : Host) (hdtoa : Json.PrintsFree host.dtoa) {path : String}
    {tokens : List Token} (hpath : pathTokens (cStr path) = some tokens)
    (elements keys : List Json) :
    Partitions host elements path tokens keys ↔ ToldApart host elements tokens keys := by
  rw [partitions_iff_kept, partition_eq_iff]
  simp only [keepsElement_and host hpath, keepsElement_exclusive host hpath]
  constructor
  · intro hparts element helement value hvalue htext
    obtain ⟨other, hother, hamong⟩ :=
      (hparts.1 element helement).mpr ⟨value, hvalue, htext⟩
    obtain rfl := Option.some.inj (hvalue.symm.trans hother)
    exact hamong
  · intro htold
    have hsame (element : Json) (helement : element ∈ elements) (value : Json)
        (hvalue : Pointer.get tokens element = some value) :
        itemText host value ∈ keys.map (itemText host) ↔
          host.textOf value ∈ keys.map host.textOf :=
      ⟨mem_textOf host hdtoa, htold element helement value hvalue⟩
    constructor
    · intro element helement
      exact exists_congr fun value => and_congr_right (hsame element helement value)
    · intro element helement
      exact exists_congr fun value => and_congr_right fun hvalue =>
        not_congr (hsame element helement value hvalue)

theorem toldApart_of_free {host : Host} {elements keys : List Json} {tokens : List Token}
    (hvalues : ∀ element ∈ elements, ∀ value, Pointer.get tokens element = some value →
      '\x00' ∉ (itemText host value).toList)
    (hkeys : ∀ key ∈ keys, '\x00' ∉ (itemText host key).toList) :
    ToldApart host elements tokens keys := by
  intro element helement value hvalue htext
  obtain ⟨key, hkey, hsame⟩ := List.mem_map.mp htext
  refine List.mem_map.mpr ⟨key, hkey, ?_⟩
  rw [← textOf_eq_itemText host (hkeys key hkey), hsame,
    textOf_eq_itemText host (hvalues element helement value hvalue)]

theorem bare_printsFree : Json.PrintsFree Host.bare.dtoa := by
  intro value
  exact show '\x00' ∉ "0.0".toList by decide

theorem partitions_others :
    Partitions Host.bare [.object [("from", .string "others")],
        .object [("score", setInt 1)], .object [("from", .string "unit")]]
        "from" [⟨"from", none⟩]
        [.string "others", .string "dueros"] ↔
      ToldApart Host.bare [.object [("from", .string "others")],
        .object [("score", setInt 1)], .object [("from", .string "unit")]]
        [⟨"from", none⟩] [.string "others", .string "dueros"] :=
  partitions_iff Host.bare bare_printsFree (by decide) _ _

/-- A string is compared up to its first NUL. -/
theorem cutText_kept :
    ¬ ∀ (host : Host) (path : String) (tokens : List Token),
      Json.PrintsFree host.dtoa → pathTokens (cStr path) = some tokens →
        ∀ elements keys : List Json, Partitions host elements path tokens keys := by
  intro hall
  have hpath : pathTokens (cStr "from") = some [⟨"from", none⟩] := by decide
  have hparts := hall Host.bare "from" [⟨"from", none⟩] bare_printsFree hpath
    [.object [("from", .string "unit\x00")]] [.string "unit"]
  rw [partitions_iff_kept, partition_eq_iff] at hparts
  obtain ⟨value, hvalue, hamong⟩ := (hparts.1 _ List.mem_cons_self).mpr
    ((keepsElement_and Host.bare hpath _).mpr ⟨.string "unit\x00", rfl, by decide⟩)
  obtain rfl := Option.some.inj hvalue
  exact absurd hamong (by decide)

end Uskit.Function
