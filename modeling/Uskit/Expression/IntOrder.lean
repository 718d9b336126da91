import Uskit.Expression.Expression
import Uskit.Json.DoubleRounding

namespace Uskit

/-! The order of integers: two of 32 bits are compared as such, others as the
doubles that they are converted to, and equality compares all bits. -/

/-- The integers that the vendored library holds with a sign. -/
def FitsInt64 (value : Int) : Prop :=
  -(2 ^ 63) ≤ value ∧ value < 2 ^ 63

instance (value : Int) : Decidable (FitsInt64 value) :=
  inferInstanceAs (Decidable (-(2 ^ 63) ≤ value ∧ value < 2 ^ 63))

namespace BinaryOp

/-- The comparison of the integers evaluates to true. -/
def HoldsOf (library : Library) (op : BinaryOp) (a b : Int) : Prop :=
  op.run library (.number (.int a)) (.number (.int b)) = .ok (.bool true)

/-- Exactly one of less, equal and greater holds, and at most is less or equal. -/
structure Trichotomy (library : Library) (a b : Int) : Prop where
  some : HoldsOf library .less a b ∨ HoldsOf library .equal a b ∨
    HoldsOf library .greater a b
  less_equal : ¬ (HoldsOf library .less a b ∧ HoldsOf library .equal a b)
  less_greater : ¬ (HoldsOf library .less a b ∧ HoldsOf library .greater a b)
  equal_greater : ¬ (HoldsOf library .equal a b ∧ HoldsOf library .greater a b)
  lessEq_iff : HoldsOf library .lessEq a b ↔
    HoldsOf library .less a b ∨ HoldsOf library .equal a b

variable (library : Library) {a b : Int}

theorem natAbs_log2_lt (ha : FitsInt64 a) : a.natAbs.log2 < 64 := by
  obtain ⟨hlow, hhigh⟩ := ha
  by_cases hzero : a.natAbs = 0
  · rw [hzero]
    decide
  · rw [Nat.log2_lt hzero]
    omega

theorem roundInt_of_fitsInt (ha : fitsInt a = true) : Double.roundInt a = a := by
  apply Double.roundInt_eq_self
  rw [fitsInt_iff] at ha
  omega

/-- Equality is that of the integers. -/
theorem holdsOf_equal (ha : FitsInt64 a) (hb : FitsInt64 b) :
    HoldsOf library .equal a b ↔ a = b := by
  obtain ⟨halow, hahigh⟩ := ha
  obtain ⟨hblow, hbhigh⟩ := hb
  have hrun : HoldsOf library .equal a b ↔ (a - b) % 2 ^ 64 = 0 := by
    simp [HoldsOf, run, setBool, Json.valueEq, Number.valueEq]
  rw [hrun]
  omega

/-- The order is that of the rounded integers. -/
theorem holdsOf_order (ha : FitsInt64 a) (hb : FitsInt64 b) :
    (HoldsOf library .less a b ↔ Double.roundInt a < Double.roundInt b) ∧
      (HoldsOf library .greater a b ↔ Double.roundInt b < Double.roundInt a) ∧
      (HoldsOf library .lessEq a b ↔ Double.roundInt a ≤ Double.roundInt b) := by
  by_cases hfits : (fitsInt a && fitsInt b) = true
  · have hboth := Bool.and_eq_true_iff.mp hfits
    rw [roundInt_of_fitsInt hboth.1, roundInt_of_fitsInt hboth.2]
    simp [HoldsOf, run, runNumber, hboth.1, hboth.2, runInt, setBool]
  · obtain ⟨hafinite, haround⟩ := Double.ofInt_rounds (natAbs_log2_lt ha)
    obtain ⟨hbfinite, hbround⟩ := Double.ofInt_rounds (natAbs_log2_lt hb)
    have hdouble : ∀ op : BinaryOp, op.runNumber (.number (.int a)) (.number (.int b)) =
        op.runDouble (Double.ofInt a) (Double.ofInt b) :=
      fun op => if_neg hfits
    simp only [HoldsOf, run, hdouble, runDouble, setBool, Double.lt_of_finite hafinite
      hbfinite, Double.lt_of_finite hbfinite hafinite, Double.le_of_finite hafinite
      hbfinite, haround, hbround, Result.ok.injEq, Json.bool.injEq, decide_eq_true_eq,
      Int.cast_lt, Int.cast_le, and_self]

/-- Integers are told apart by the order unless they round to the same double. -/
theorem trichotomy_iff (ha : FitsInt64 a) (hb : FitsInt64 b) :
    Trichotomy library a b ↔ a = b ∨ Double.roundInt a ≠ Double.roundInt b := by
  have hequal := holdsOf_equal library ha hb
  obtain ⟨hless, hgreater, hlessEq⟩ := holdsOf_order library ha hb
  constructor
  · intro htri
    have hsome := htri.some
    rw [hless, hequal, hgreater] at hsome
    rcases hsome with hlt | heq | hgt
    · exact .inr hlt.ne
    · exact .inl heq
    · exact .inr hgt.ne'
  · intro hcond
    have hsame : a = b → Double.roundInt a = Double.roundInt b := congrArg _
    constructor
    · rw [hless, hequal, hgreater]
      omega
    · rw [hless, hequal]
      omega
    · rw [hless, hgreater]
      omega
    · rw [hequal, hgreater]
      omega
    · rw [hlessEq, hless, hequal]
      omega

theorem trichotomy_even : Trichotomy .bare (2 ^ 53) (2 ^ 53 + 2) :=
  (trichotomy_iff .bare (by decide) (by decide)).mpr (.inr (by decide +kernel))

/-- The first two integers that round to the same double. -/
theorem order_misses_integer :
    ¬ ∀ (library : Library) (a b : Int), FitsInt64 a → FitsInt64 b →
      Trichotomy library a b := by
  intro hall
  have htri := hall .bare (2 ^ 53) (2 ^ 53 + 1) (by decide) (by decide)
  rcases htri.some with hless | hequal | hgreater
  · revert hless
    unfold HoldsOf
    decide +kernel
  · revert hequal
    unfold HoldsOf
    decide +kernel
  · revert hgreater
    unfold HoldsOf
    decide +kernel

end BinaryOp

end Uskit
