import Mathlib.Data.List.Basic

namespace Uskit.Data

/-! Selections of a list by partial functions, one defined wherever the other
is. -/

/-- `first` selects from what `second` selects, with the same values. -/
def Selects (first second : α → Option β) : Prop :=
  ∀ item, first item = none ∨ first item = second item

namespace Selects

variable {first second : α → Option β}

theorem length_le (hselects : Selects first second) (items : List α) :
    (items.filterMap first).length ≤ (items.filterMap second).length := by
  induction items with
  | nil => exact Nat.le_refl 0
  | cons item rest ih =>
      rw [List.filterMap_cons, List.filterMap_cons]
      cases hselects item with
      | inl hnone =>
          rw [hnone]
          cases second item with
          | none => exact ih
          | some value => exact Nat.le_succ_of_le ih
      | inr hsame =>
          rw [hsame]
          cases second item with
          | none => exact ih
          | some value => exact Nat.succ_le_succ ih

end Selects

end Uskit.Data
