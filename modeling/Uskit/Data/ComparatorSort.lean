import Mathlib.Data.List.Sort
import Mathlib.Order.Defs.Unbundled

namespace Uskit.Data

/-! What `std::sort` promises of a comparator, and a sort that keeps it. -/

variable {α : Type u}

/-- The comparator is a strict weak order on the elements. -/
def WeaklyOrders (less : α → α → Bool) (elements : List α) : Prop :=
  IsStrictWeakOrder {a // a ∈ elements} fun a b => less a b = true

def SortsWeakOrders (sort : (α → α → Bool) → List α → List α) : Prop :=
  ∀ less elements, WeaklyOrders less elements →
    (sort less elements).Perm elements ∧
      (sort less elements).Pairwise fun a b => less b a = false

namespace WeaklyOrders

variable {less : α → α → Bool} {elements : List α}

theorem total (horder : WeaklyOrders less elements) (a b : {a // a ∈ elements}) :
    less b a = false ∨ less a b = false := by
  have hasymm := horder.toIsStrictOrder.toIsTrans.trans a b a
  have hirrefl := horder.toIsStrictOrder.toIrrefl.irrefl a
  cases hab : less a b with
  | false => exact .inr rfl
  | true =>
      cases hba : less b a with
      | false => exact .inl rfl
      | true => exact absurd (hasymm hab hba) hirrefl

/-- Not to be behind is transitive. -/
theorem trans (horder : WeaklyOrders less elements) (a b c : {a // a ∈ elements})
    (hfirst : less b a = false) (hsecond : less c b = false) : less c a = false := by
  rw [← Bool.not_eq_true] at hfirst hsecond ⊢
  intro hback
  have htrans := horder.toIsStrictOrder.toIsTrans.trans
  by_cases hab : less a b = true
  · exact hsecond (htrans c a b hback hab)
  · by_cases hbc : less b c = true
    · exact hfirst (htrans b c a hbc hback)
    · exact (horder.incomp_trans a b c ⟨hab, hfirst⟩ ⟨hbc, hsecond⟩).2 hback

end WeaklyOrders

end Uskit.Data
