import Uskit.Data.Loop
import Uskit.Data.Window
import Uskit.Function.Builtin
import Uskit.Function.StrFunction
import Uskit.Function.TypeSafety

namespace Uskit.Function

open Uskit.Data

/-! `slice` and `str_slice` between two indexes. -/

/-- An index counts from the end if it is negative, and is moved to the nearer end if
it is out of range. -/
def clampedIndex (size : Nat) (index : Int) : Nat :=
  (max 0 (min (size : Int) (if index < 0 then index + size else index))).toNat

/-- A turn of the loop of `array_slice`: `start`, and the return value. -/
def sliceTurn (elements : List Json) (last : Int) :
    Loop (Int × List Json) (Call Json)
  | (start, returnValue) =>
      if start < last then
        match if start < 0 then none else elements[start.toNat]? with
        | some value =>
            if fitsInt (start + 1) then .inl (start + 1, returnValue ++ [value])
            else .inr .undefined
        | none => .inr .undefined
      else .inr (.ok (.array returnValue))

/-- What `slice` does between indexes of an array. -/
structure SlicesArray (host : Host) (elements : List Json) : Prop where
  window : ∀ i j, fitsInt i = true → fitsInt j = true →
    arraySlice host [.array elements, setInt i, setInt j] =
      .ok (.array (between (clampedIndex elements.length i)
        (clampedIndex elements.length j) elements))
  noOverflow : asInt elements.length = elements.length ∧ ∀ i, fitsInt i = true →
    reverseIndex i elements.length = .ok (clampedIndex elements.length i : Int)
  inBounds : ∀ i j, fitsInt i = true → fitsInt j = true → ∀ state,
    (sliceTurn elements (clampedIndex elements.length j)).Reaches
      (clampedIndex elements.length i, []) state →
    state.1 < clampedIndex elements.length j →
      0 ≤ state.1 ∧ state.1 < elements.length ∧ fitsInt (state.1 + 1) = true
  joins : ∀ i, fitsInt i = true → ∃ front back,
    arraySlice host [.array elements, setInt 0, setInt i] = .ok (.array front) ∧
      arraySlice host [.array elements, setInt i] = .ok (.array back) ∧
        front ++ back = elements

/-- What `str_slice` returns between indexes of a string, if it succeeds. -/
structure SlicesString (text : String) : Prop where
  window : ∀ i j result, fitsInt i = true → fitsInt j = true →
    strSlice [.string text, setInt i, setInt j] = .ok result →
      result = .string (.ofList (between (clampedIndex text.toList.length i)
        (clampedIndex text.toList.length j) text.toList))
  rest : ∀ i result, fitsInt i = true →
    strSlice [.string text, setInt i] = .ok result →
      result = .string (.ofList (between (clampedIndex text.toList.length i)
        text.toList.length text.toList))

section Index

variable {size : Nat} {index : Int}

theorem clampedIndex_le (size : Nat) (index : Int) : clampedIndex size index ≤ size := by
  rw [clampedIndex]
  omega

theorem clampedIndex_zero (size : Nat) : clampedIndex size 0 = 0 := by
  rw [clampedIndex]
  simp

theorem asInt_of_lt (hsize : size ≤ 2 ^ 31 - 1) : asInt size = size := by
  rw [asInt, bmod_eq_self, fitsInt_iff]
  omega

/-- The sum of a negative index and the size is between both. -/
theorem reverseIndex_eq (hsize : size ≤ 2 ^ 31 - 1) (hindex : fitsInt index = true) :
    reverseIndex index size = .ok (clampedIndex size index : Int) := by
  rw [fitsInt_iff] at hindex
  rw [reverseIndex, clampedIndex]
  simp only
  generalize hmoved : (if index < 0 then index + (size : Int) else index) = moved
  have hfits : fitsInt moved = true := by
    rw [fitsInt_iff]
    split at hmoved
    · omega
    · omega
  rw [hfits]
  simp only [Bool.not_true, Bool.false_eq_true, if_false]
  congr 1
  split
  · split
    · omega
    · omega
  · split
    · omega
    · omega

end Index

/-! The loop of `array_slice`. -/

section Turns

variable {elements : List Json} {last : Int}

theorem sliceTurn_inside {start : Nat} {value : Json} (hlast : start < last)
    (hvalue : elements[start]? = some value) (hfits : fitsInt last = true)
    (returnValue : List Json) :
    sliceTurn elements last (start, returnValue) =
      .inl ((start : Int) + 1, returnValue ++ [value]) := by
  have hnext : fitsInt ((start : Int) + 1) = true := by
    rw [fitsInt_iff] at hfits ⊢
    omega
  rw [sliceTurn, if_pos hlast, if_neg (by omega), Int.toNat_natCast, hvalue]
  simp only
  rw [if_pos hnext]

theorem sliceTurn_outside {start : Int} (hlast : start < last)
    (houtside : start < 0 ∨ elements.length ≤ start) (returnValue : List Json) :
    sliceTurn elements last (start, returnValue) = .inr .undefined := by
  have hnone : (if start < 0 then none else elements[start.toNat]?) = none := by
    split
    · rfl
    · rw [List.getElem?_eq_none_iff]
      omega
  rw [sliceTurn, if_pos hlast, hnone]

theorem sliceTurn_done {start : Int} (hlast : last ≤ start) (returnValue : List Json) :
    sliceTurn elements last (start, returnValue) = .inr (.ok (.array returnValue)) := by
  rw [sliceTurn, if_neg (by omega)]

/-- The return value holds the window up to the index that the loop has reached. -/
theorem sliceTurn_reaches (elements : List Json) (hfits : fitsInt last = true)
    {start middle : Nat} (hstart : start ≤ middle) (hlast : middle ≤ last)
    (hlength : middle ≤ elements.length) :
    (sliceTurn elements last).Reaches (start, [])
      (middle, between start middle elements) := by
  induction middle, hstart using Nat.le_induction with
  | base =>
      rw [between_of_le (Nat.le_refl _)]
  | succ middle hstart ih =>
      have hvalue := List.getElem?_eq_getElem (show middle < elements.length by omega)
      have hgoes : (sliceTurn elements last).GoesOn
          (middle, between start middle elements)
          ((middle + 1 : Nat), between start (middle + 1) elements) := by
        rw [Loop.GoesOn, sliceTurn_inside (by omega) hvalue hfits,
          between_succ hstart hvalue]
        rfl
      exact (ih (by omega) (by omega)).tail hgoes

theorem sliceTurn_returns (elements : List Json) (hfits : fitsInt last = true)
    (start : Nat) (hlength : last ≤ elements.length) :
    (sliceTurn elements last).Returns (start, [])
      (.ok (.array (between start last.toNat elements))) := by
  by_cases hstart : start ≤ last
  · have hreaches := sliceTurn_reaches elements hfits
      (show start ≤ last.toNat by omega) (by omega) (by omega)
    exact ⟨_, hreaches, sliceTurn_done (by omega) _⟩
  · refine ⟨_, .refl, ?_⟩
    rw [sliceTurn_done (by omega), between_of_le (by omega)]

/-- `window` is what the loop returns. -/
theorem sliceTurn_window (hfits : fitsInt last = true) (start : Int)
    (elements : List Json) :
    (sliceTurn elements last).Returns (start, []) (window start last elements) := by
  rw [window]
  split
  · rename_i houtside
    obtain ⟨hlast, houtside⟩ := houtside
    by_cases hhere : start < 0 ∨ elements.length ≤ start
    · exact ⟨_, .refl, sliceTurn_outside hlast hhere _⟩
    · have hreaches := sliceTurn_reaches elements hfits
        (show start.toNat ≤ elements.length by omega) (by omega) (Nat.le_refl _)
      rw [Int.toNat_of_nonneg (by omega)] at hreaches
      exact ⟨_, hreaches, sliceTurn_outside (by omega) (.inr (Int.le_refl _)) _⟩
  · rename_i hinside
    rw [← between_eq]
    by_cases hlast : start < last
    · have hreturns := sliceTurn_returns elements hfits start.toNat (by omega)
      rwa [Int.toNat_of_nonneg (by omega)] at hreturns
    · refine ⟨_, .refl, ?_⟩
      rw [sliceTurn_done (by omega), between_of_le (by omega)]

/-- A loop that returns a value has read no element out of bounds. -/
theorem sliceTurn_inBounds {state : Int × List Json} {result : Json}
    (hreturns : (sliceTurn elements last).Returns state (.ok result))
    (hlast : state.1 < last) :
    0 ≤ state.1 ∧ state.1 < elements.length ∧ fitsInt (state.1 + 1) = true := by
  obtain ⟨start, returnValue⟩ := state
  have hinside : ¬ (start < 0 ∨ elements.length ≤ start) := by
    intro houtside
    cases hreturns.of_return (sliceTurn_outside hlast houtside returnValue)
  have hvalue := List.getElem?_eq_getElem (show start.toNat < elements.length by omega)
  refine ⟨by omega, by omega, ?_⟩
  by_contra hnext
  have hturn : sliceTurn elements last (start, returnValue) = .inr .undefined := by
    rw [sliceTurn, if_pos hlast, if_neg (by omega), hvalue]
    exact if_neg hnext
  cases hreturns.of_return hturn

end Turns

theorem window_eq (start : Nat) {last : Nat} {elements : List Json}
    (hlast : last ≤ elements.length) :
    window start last elements = .ok (.array (between start last elements)) := by
  rw [window, if_neg (by omega), between_eq, Int.toNat_natCast, Int.toNat_natCast]

theorem getInt_setInt {value : Int} (hfits : fitsInt value = true) :
    getInt (setInt value) = .ok value :=
  if_pos hfits

section Array

variable (host : Host) {elements : List Json}

/-- The call with an index, and what is read behind it. -/
theorem arraySlice_index (hlength : elements.length ≤ 2 ^ 31 - 1) {i : Int}
    (hi : fitsInt i = true) (rest : List Json) :
    arraySlice host (.array elements :: setInt i :: rest) =
      if rest.length + 2 < 3 then
        window (clampedIndex elements.length i) elements.length elements
      else (do
        let index ← position (.array elements :: setInt i :: rest) 2
        Checked.require (isInt index)
        let last ← reverseIndex (← getInt index) elements.length
        window (clampedIndex elements.length i) last elements) := by
  have hcall : arraySlice host (.array elements :: setInt i :: rest) = (do
      Checked.require (fitsInt i)
      let start ← reverseIndex (← getInt (setInt i)) (asInt elements.length)
      if rest.length + 2 < 3 then window start (asInt elements.length) elements
      else do
        let index ← position (.array elements :: setInt i :: rest) 2
        Checked.require (isInt index)
        let last ← reverseIndex (← getInt index) (asInt elements.length)
        window start last elements) := rfl
  rw [hcall, hi, getInt_setInt hi, asInt_of_lt hlength]
  simp only [Checked.require_true, Checked.ok_bind]
  rw [reverseIndex_eq hlength hi]
  rfl

theorem arraySlice_two (hlength : elements.length ≤ 2 ^ 31 - 1) {i j : Int}
    (hi : fitsInt i = true) (hj : fitsInt j = true) :
    arraySlice host [.array elements, setInt i, setInt j] =
      .ok (.array (between (clampedIndex elements.length i)
        (clampedIndex elements.length j) elements)) := by
  have hlast : position [.array elements, setInt i, setInt j] 2 = .ok (setInt j) := rfl
  have hint : isInt (setInt j) = true := hj
  rw [arraySlice_index host hlength hi, if_neg (by simp), hlast]
  simp only [Checked.ok_bind, hint, Checked.require_true, getInt_setInt hj]
  rw [reverseIndex_eq hlength hj]
  exact window_eq _ (clampedIndex_le _ _)

theorem arraySlice_one (hlength : elements.length ≤ 2 ^ 31 - 1) {i : Int}
    (hi : fitsInt i = true) :
    arraySlice host [.array elements, setInt i] =
      .ok (.array (between (clampedIndex elements.length i) elements.length
        elements)) := by
  rw [arraySlice_index host hlength hi, if_pos (by simp)]
  exact window_eq _ (Nat.le_refl _)

theorem slicesArray (hlength : elements.length ≤ 2 ^ 31 - 1) :
    SlicesArray host elements := by
  have hfits (index : Int) :
      fitsInt (clampedIndex elements.length index : Int) = true := by
    have hle := clampedIndex_le elements.length index
    rw [fitsInt_iff]
    omega
  refine ⟨?_, ?_, ?_, ?_⟩
  · intro i j hi hj
    exact arraySlice_two host hlength hi hj
  · exact ⟨asInt_of_lt hlength, fun i hi => reverseIndex_eq hlength hi⟩
  · intro i j hi hj state hreaches hlast
    have hreturns := sliceTurn_window (hfits j) (clampedIndex elements.length i) elements
    rw [window_eq _ (clampedIndex_le _ _)] at hreturns
    exact sliceTurn_inBounds (hreturns.along hreaches) hlast
  · intro i hi
    refine ⟨_, _, arraySlice_two host hlength (by decide) hi,
      arraySlice_one host hlength hi, ?_⟩
    rw [clampedIndex_zero, between_append_between]

end Array

section String

variable {text : String}

theorem substr_eq {start count : Nat} (hstart : start ≤ text.toList.length) :
    substr text start count =
      .ok (.ofList (between start (start + count) text.toList)) := by
  rw [substr, if_neg (by omega), between_eq, List.drop_take, Nat.add_sub_cancel_left]

theorem asSize_natCast {start : Nat} (hstart : start < 2 ^ 64) :
    asSize start = start := by
  rw [asSize]
  omega

theorem strSlice_two (hfree : '\x00' ∉ text.toList)
    (hlength : text.toList.length ≤ 2 ^ 31 - 1) {i j : Int}
    (hi : fitsInt i = true) (hj : fitsInt j = true) :
    strSlice [.string text, setInt i, setInt j] =
      if clampedIndex text.toList.length i < clampedIndex text.toList.length j then
        .ok (.string (.ofList (between (clampedIndex text.toList.length i)
          (clampedIndex text.toList.length j) text.toList)))
      else .failed := by
  have hcall : strSlice [.string text, setInt i, setInt j] = (do
      Checked.require (fitsInt i)
      let start ← reverseIndex (← getInt (setInt i)) (asInt (cStr text).toList.length)
      if isInt (setInt j) then do
        let last ← reverseIndex (← getInt (setInt j)) (asInt (cStr text).toList.length)
        Checked.require
          (decide (start < last) && start != asInt (cStr text).toList.length)
        let output ← substr (cStr text) (asSize start) (last - start).toNat
        .ok (.string output)
      else .ok (.string "")) := rfl
  have hint : isInt (setInt j) = true := hj
  have hfirst := clampedIndex_le text.toList.length i
  have hlast := clampedIndex_le text.toList.length j
  rw [hcall, cStr_eq_self hfree, asInt_of_lt hlength, hi, hint, getInt_setInt hi,
    getInt_setInt hj]
  simp only [Checked.require_true, Checked.ok_bind, if_true]
  rw [reverseIndex_eq hlength hi, reverseIndex_eq hlength hj]
  simp only [Checked.ok_bind]
  generalize clampedIndex text.toList.length i = first at hfirst ⊢
  generalize clampedIndex text.toList.length j = last at hlast ⊢
  by_cases hless : first < last
  · have hopen : (decide ((first : Int) < last) &&
        (first : Int) != text.toList.length) = true := by
      rw [Bool.and_eq_true, decide_eq_true_eq, bne_iff_ne]
      omega
    have hcount : ((last : Int) - first).toNat = last - first := by omega
    rw [if_pos hless, hopen, asSize_natCast (by omega), hcount, substr_eq hfirst,
      Nat.add_sub_cancel' (by omega)]
    rfl
  · have hclosed : (decide ((first : Int) < last) &&
        (first : Int) != text.toList.length) = false := by
      rw [decide_eq_false (by omega), Bool.false_and]
    rw [if_neg hless, hclosed]
    rfl

theorem strSlice_one (hfree : '\x00' ∉ text.toList)
    (hlength : text.toList.length ≤ 2 ^ 31 - 1) {i : Int} (hi : fitsInt i = true) :
    strSlice [.string text, setInt i] =
      .ok (.string (.ofList (between (clampedIndex text.toList.length i)
        text.toList.length text.toList))) := by
  have hcall : strSlice [.string text, setInt i] = (do
      Checked.require (fitsInt i)
      let start ← reverseIndex (← getInt (setInt i)) (asInt (cStr text).toList.length)
      let output ← substr (cStr text) (asSize start) npos
      .ok (.string output)) := rfl
  have hfirst := clampedIndex_le text.toList.length i
  rw [hcall, cStr_eq_self hfree, asInt_of_lt hlength, hi, getInt_setInt hi]
  simp only [Checked.require_true, Checked.ok_bind]
  rw [reverseIndex_eq hlength hi]
  simp only [Checked.ok_bind]
  rw [asSize_natCast (by omega), substr_eq hfirst,
    between_of_length_le _ (by rw [npos]; omega)]
  rfl

theorem slicesString (hfree : '\x00' ∉ text.toList)
    (hlength : text.toList.length ≤ 2 ^ 31 - 1) : SlicesString text := by
  constructor
  · intro i j result hi hj hresult
    rw [strSlice_two hfree hlength hi hj] at hresult
    split at hresult
    · exact (Checked.ok.inj hresult).symm
    · cases hresult
  · intro i result hi hresult
    rw [strSlice_one hfree hlength hi] at hresult
    exact (Checked.ok.inj hresult).symm

end String

/-- `slice` and `str_slice` cut the same window. -/
theorem slices_windows (host : Host) (elements : List Json)
    (helements : elements.length ≤ 2 ^ 31 - 1) (text : String)
    (hfree : '\x00' ∉ text.toList) (htext : text.toList.length ≤ 2 ^ 31 - 1) :
    SlicesArray host elements ∧ SlicesString text :=
  ⟨slicesArray host helements, slicesString hfree htext⟩

theorem slices_windows_abc :
    SlicesArray Host.bare [.string "a", .string "b", .string "c"] ∧ SlicesString "abc" :=
  slices_windows Host.bare [.string "a", .string "b", .string "c"] (by decide) "abc"
    (by decide) (by decide)

end Uskit.Function
