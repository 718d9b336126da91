import Mathlib.Order.WithBot
import Uskit.Json.Nearest
import Uskit.Json.Value

namespace Uskit

/-! The order of the numbers, as they are and as the doubles that they are rounded
to. -/

namespace Double

/-- The place of a pattern among the rationals and the infinities. -/
def place (d : Double) : WithBot (WithTop Rat) :=
  if d.isInfinite then if d.negative then ⊥ else (⊤ : WithTop Rat)
  else (d.toRat : WithTop Rat)

theorem lt_iff_place {a b : Double} :
    a.lt b = true ↔
      a.isNan = false ∧ b.isNan = false ∧ a.place < b.place := by
  unfold lt place
  cases a.isNan with
  | true => simp
  | false =>
      cases b.isNan with
      | true => simp
      | false =>
          cases a.isInfinite with
          | true =>
              cases a.negative with
              | true =>
                  cases b.isInfinite with
                  | true => cases b.negative <;> simp [bot_lt_iff_ne_bot]
                  | false => simp [bot_lt_iff_ne_bot]
              | false =>
                  cases b.isInfinite with
                  | true => cases b.negative <;> simp
                  | false => simp
          | false =>
              cases b.isInfinite with
              | true => cases b.negative <;> simp [lt_top_iff_ne_top]
              | false => simp

theorem not_lt_of_lt {a b : Double} (hlt : a.lt b = true) : b.lt a = false := by
  rw [Bool.eq_false_iff, ne_eq, lt_iff_place]
  intro hback
  obtain ⟨-, -, hback⟩ := hback
  exact lt_asymm (lt_iff_place.mp hlt).2.2 hback

end Double

namespace Number

/-- The place of a number among the rationals and the infinities, not rounded. -/
def place : Number → WithBot (WithTop Rat)
  | .int value => ((value : Rat) : WithTop Rat)
  | .double value => value.place

def isNan : Number → Bool
  | .int _ => false
  | .double value => value.isNan

/-- NaN is neither less nor greater than anything. -/
def Less (a b : Number) : Prop :=
  a.isNan = false ∧ b.isNan = false ∧ a.place < b.place

instance (a b : Number) : Decidable (a.Less b) :=
  inferInstanceAs (Decidable (_ ∧ _ ∧ _))

/-- A number that `GetDouble` does not round. -/
def Exact : Number → Prop
  | .int value => value.natAbs < 2 ^ 53
  | .double _ => True

instance (number : Number) : Decidable number.Exact :=
  match number with
  | .int value => inferInstanceAs (Decidable (value.natAbs < 2 ^ 53))
  | .double _ => .isTrue trivial

theorem Exact.getDouble {number : Number} (hexact : number.Exact) :
    number.getDouble.place = number.place ∧ number.getDouble.isNan = number.isNan := by
  cases number with
  | double value => exact ⟨rfl, rfl⟩
  | int value =>
      obtain ⟨⟨hnan, hinfinite⟩, hvalue⟩ := Double.ofInt_exact value hexact
      constructor
      · rw [Number.getDouble, Double.place, hinfinite, hvalue]
        rfl
      · exact hnan

/-- Numbers that are not rounded compare as their doubles. -/
theorem lt_iff_less {a b : Number} (ha : a.Exact) (hb : b.Exact) :
    a.getDouble.lt b.getDouble = true ↔ a.Less b := by
  rw [Double.lt_iff_place, ha.getDouble.1, ha.getDouble.2, hb.getDouble.1,
    hb.getDouble.2, Less]

end Number

end Uskit
