import Mathlib.Order.Lattice
import Mathlib.Order.Defs.Unbundled
import Mathlib.Tactic.ByContra

namespace Uskit.Data

/-! Comparators, and when they are strict weak orders. -/

variable {α : Type u} {rel : α → α → Prop}

def SetApart (rel : α → α → Prop) (a b : α) : Prop :=
  rel a b ∨ rel b a

theorem SetApart.symm {a b : α} (hapart : SetApart rel a b) :
    SetApart rel b a :=
  Or.symm hapart

/-- What is not set apart stands alike to everything else, and nothing stands
in a circle. -/
structure PlacesAlike (rel : α → α → Prop) : Prop where
  before : ∀ a b c, ¬ SetApart rel a b → rel c a → rel c b
  after : ∀ a b c, ¬ SetApart rel a b → rel a c → rel b c
  noCircle : ∀ a b c, rel a b → rel b c → ¬ rel c a

theorem PlacesAlike.trans (halike : PlacesAlike rel)
    (hasymm : ∀ a b, rel a b → ¬ rel b a) {a b c : α} (hfirst : rel a b)
    (hsecond : rel b c) : rel a c := by
  by_contra hnot
  have hapart : ¬ SetApart rel c a := by
    intro hapart
    rcases hapart with hback | hahead
    · exact halike.noCircle a b c hfirst hsecond hback
    · exact hnot hahead
  have hback : rel b a := halike.before c a b hapart hsecond
  exact hasymm a b hfirst hback

theorem PlacesAlike.setApart (halike : PlacesAlike rel) {a b c : α}
    (hsame : ¬ SetApart rel a b) (hapart : SetApart rel a c) :
    SetApart rel b c := by
  cases hapart with
  | inl hahead => exact .inl (halike.after a b c hsame hahead)
  | inr hback => exact .inr (halike.before a b c hsame hback)

theorem not_setApart_iff {a b : α} :
    ¬ SetApart rel a b ↔ ¬ rel a b ∧ ¬ rel b a :=
  not_or

theorem isStrictWeakOrder_iff_placesAlike
    (hasymm : ∀ a b, rel a b → ¬ rel b a) :
    IsStrictWeakOrder α rel ↔ PlacesAlike rel := by
  constructor
  · intro horder
    have htrans : ∀ a b c, rel a b → rel b c → rel a c :=
      horder.toIsStrictOrder.toIsTrans.trans
    -- incomparable elements lie in one class
    have hclass : ∀ a b c, ¬ SetApart rel a b → ¬ SetApart rel b c →
        ¬ SetApart rel a c := by
      intro a b c hfirst hsecond
      rw [not_setApart_iff] at hfirst hsecond ⊢
      exact horder.incomp_trans a b c hfirst hsecond
    refine ⟨?_, ?_, ?_⟩
    · intro a b c hsame hrel
      by_contra hnot
      have hapart : SetApart rel b c := by
        by_contra htied
        exact hclass a b c hsame htied (.inr hrel)
      cases hapart with
      | inl hahead => exact hsame (.inr (htrans b c a hahead hrel))
      | inr hback => exact hnot hback
    · intro a b c hsame hrel
      by_contra hnot
      have hapart : SetApart rel b c := by
        by_contra htied
        exact hclass a b c hsame htied (.inl hrel)
      cases hapart with
      | inl hahead => exact hnot hahead
      | inr hback => exact hsame (.inl (htrans a c b hrel hback))
    · intro a b c hfirst hsecond
      exact hasymm a c (htrans a b c hfirst hsecond)
  · intro halike
    have hirrefl : ∀ a, ¬ rel a a := fun a hrel => hasymm a a hrel hrel
    refine
      { irrefl := hirrefl
        trans := fun a b c => halike.trans hasymm
        incomp_trans := ?_ }
    intro a b c hfirst hsecond
    rw [← not_setApart_iff] at hfirst hsecond ⊢
    intro hapart
    exact hsecond (halike.setApart hfirst hapart)

/-- What goes by a rank is a strict weak order. -/
theorem isStrictWeakOrder_of_rank {β : Type v} [LinearOrder β] {rank : α → β}
    (hrank : ∀ a b, rel a b ↔ rank a < rank b) : IsStrictWeakOrder α rel where
  irrefl a := by
    rw [hrank]
    exact lt_irrefl _
  trans a b c := by
    rw [hrank, hrank, hrank]
    exact lt_trans
  incomp_trans a b c := by
    simp only [hrank, not_lt]
    rintro ⟨hba, hab⟩ ⟨hcb, hbc⟩
    exact ⟨le_trans hcb hba, le_trans hab hbc⟩

end Uskit.Data
