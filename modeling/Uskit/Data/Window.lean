import Mathlib.Data.List.Basic

namespace Uskit.Data

/-! Parts of a list: the elements between two positions, and those that a test keeps. -/

variable {α : Type u}

/-- The elements at the positions from `first` on that are before `last`. -/
def between (first last : Nat) (list : List α) : List α :=
  (list.zipIdx.filter fun entry => decide (first ≤ entry.2 ∧ entry.2 < last)).map
    Prod.fst

theorem filter_zipIdx (first last start : Nat) (list : List α) :
    ((list.zipIdx start).filter fun entry =>
        decide (first ≤ entry.2 ∧ entry.2 < last)).map Prod.fst =
      (list.take (last - start)).drop (first - start) := by
  induction list generalizing start with
  | nil => simp
  | cons x rest ih =>
      rw [List.zipIdx_cons, List.filter_cons]
      by_cases hlast : start < last
      · have htake : last - start = (last - (start + 1)) + 1 := by omega
        rw [htake, List.take_succ_cons]
        by_cases hfirst : first ≤ start
        · rw [if_pos (by simpa using ⟨hfirst, hlast⟩), List.map_cons, ih,
            Nat.sub_eq_zero_of_le hfirst, Nat.sub_eq_zero_of_le (by omega)]
          rfl
        · have hdrop : first - start = (first - (start + 1)) + 1 := by omega
          rw [if_neg (by simp; omega), ih, hdrop, List.drop_succ_cons]
      · have hnone : last - start = 0 := by omega
        have hlater : last - (start + 1) = 0 := by omega
        rw [if_neg (by simp; omega), ih, hnone, hlater, List.take_zero, List.take_zero,
          List.drop_nil, List.drop_nil]

theorem between_eq (first last : Nat) (list : List α) :
    between first last list = (list.take last).drop first :=
  filter_zipIdx first last 0 list

theorem between_of_le {first last : Nat} (hle : last ≤ first) (list : List α) :
    between first last list = [] := by
  rw [between_eq, List.drop_eq_nil_iff, List.length_take]
  omega

/-- Behind the end there is nothing. -/
theorem between_of_length_le (first : Nat) {last : Nat} {list : List α}
    (hlength : list.length ≤ last) :
    between first last list = between first list.length list := by
  rw [between_eq, between_eq, List.take_of_length_le hlength, List.take_length]

/-- The window grows by the element at its end. -/
theorem between_succ {first last : Nat} {list : List α} {x : α} (hle : first ≤ last)
    (hx : list[last]? = some x) :
    between first (last + 1) list = between first last list ++ [x] := by
  obtain ⟨hlast, -⟩ := List.getElem?_eq_some_iff.mp hx
  rw [between_eq, between_eq, List.take_add_one, hx, Option.toList_some,
    List.drop_append_of_le_length]
  rw [List.length_take]
  omega

/-- A list is cut in two at every position. -/
theorem between_append_between (middle : Nat) (list : List α) :
    between 0 middle list ++ between middle list.length list = list := by
  rw [between_eq, between_eq, List.drop_zero, List.take_length, List.take_append_drop]

/-- Tests that keep the same part agree on the list. -/
theorem filter_eq_filter_iff {first second : α → Bool} {list : List α} :
    list.filter first = list.filter second ↔
      ∀ x ∈ list, (first x = true ↔ second x = true) := by
  constructor
  · intro hsame x hx
    have hmem : x ∈ list.filter first ↔ x ∈ list.filter second := by rw [hsame]
    simpa only [List.mem_filter, hx, true_and] using hmem
  · intro hagree
    apply List.filter_congr
    intro x hx
    exact Bool.eq_iff_iff.mpr (hagree x hx)

end Uskit.Data
