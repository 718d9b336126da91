import Mathlib.Data.List.Basic

namespace Uskit.Data

/-! Lists of tests with an answer each, read up to the first test that fits; and
when two of them answer alike whatever fits. -/

variable {α : Type u} {β : Type v}

abbrev DecisionList (α : Type u) (β : Type v) := List (α × β)

namespace DecisionList

def firstFit (fits : α → Bool) (rules : DecisionList α β) : Option β :=
  (rules.find? fun rule => fits rule.1).map Prod.snd

theorem firstFit_append (fits : α → Bool) (first second : DecisionList α β) :
    firstFit fits (first ++ second) =
      (firstFit fits first).or (firstFit fits second) := by
  rw [firstFit, List.find?_append, Option.map_or]
  rfl

/-- The list comes to a test, with an answer, before any other one of `tests`. -/
def ComesTo (rules : DecisionList α β) (tests : List α) (test : α) (answer : β) :
    Prop :=
  ∃ before after, rules = before ++ (test, answer) :: after ∧
    ∀ rule ∈ before, rule.1 ∉ test :: tests

theorem firstFit_eq_some_iff {fits : α → Bool} {rules : DecisionList α β}
    {answer : β} :
    firstFit fits rules = some answer ↔
      ∃ before test after, rules = before ++ (test, answer) :: after ∧
        fits test = true ∧ ∀ rule ∈ before, fits rule.1 = false := by
  constructor
  · intro hfirst
    obtain ⟨rule, hfind, rfl⟩ := Option.map_eq_some_iff.mp hfirst
    obtain ⟨hfits, before, after, rfl, hbefore⟩ := List.find?_eq_some_iff_append.mp hfind
    exact ⟨before, rule.1, after, rfl, hfits, by simpa using hbefore⟩
  · intro hsplit
    obtain ⟨before, test, after, rfl, hfits, hbefore⟩ := hsplit
    have hfind : (before ++ (test, answer) :: after).find?
        (fun rule => fits rule.1) = some (test, answer) := by
      rw [List.find?_eq_some_iff_append]
      exact ⟨hfits, before, after, rfl, by simpa using hbefore⟩
    rw [firstFit, hfind]
    rfl

theorem firstFit_eq_none_iff {fits : α → Bool} {rules : DecisionList α β} :
    firstFit fits rules = none ↔ ∀ rule ∈ rules, fits rule.1 = false := by
  rw [firstFit, Option.map_eq_none_iff, List.find?_eq_none]
  simp only [Bool.not_eq_true]

/-- No two tests are met in another order with another answer, where a list that
does not have a test answers `default`. -/
structure Agree (default : β) (first second : DecisionList α β) : Prop where
  both : ∀ a b s t, ComesTo first [b] a s → ComesTo second [a] b t → s = t
  left : ∀ a s, ComesTo first [] a s → (∀ rule ∈ second, rule.1 ≠ a) → s = default
  right : ∀ b t, ComesTo second [] b t → (∀ rule ∈ first, rule.1 ≠ b) → t = default

theorem comesTo_of_fits {fits : α → Bool} {before after : DecisionList α β}
    {test : α} {answer : β} {tests : List α} (hfits : fits test = true)
    (htests : ∀ other ∈ tests, fits other = true)
    (hbefore : ∀ rule ∈ before, fits rule.1 = false) :
    ComesTo (before ++ (test, answer) :: after) tests test answer := by
  refine ⟨before, after, rfl, ?_⟩
  intro rule hrule hmem
  have hyes : fits rule.1 = true := by
    rcases List.mem_cons.mp hmem with heq | hother
    · rw [heq]
      exact hfits
    · exact htests _ hother
  rw [hbefore rule hrule] at hyes
  cases hyes

theorem Agree.firstFit_eq {default : β} {first second : DecisionList α β}
    (hagree : Agree default first second) (fits : α → Bool) :
    (firstFit fits first).getD default = (firstFit fits second).getD default := by
  cases hfirst : firstFit fits first with
  | none =>
      have hnone := firstFit_eq_none_iff.mp hfirst
      cases hsecond : firstFit fits second with
      | none => rfl
      | some t =>
          obtain ⟨before, b, after, rfl, hb, hbefore⟩ :=
            firstFit_eq_some_iff.mp hsecond
          refine (hagree.right b t (comesTo_of_fits hb (by simp) hbefore) ?_).symm
          intro rule hrule heq
          have hno := hnone rule hrule
          rw [heq, hb] at hno
          cases hno
  | some s =>
      obtain ⟨before, a, after, rfl, ha, hbefore⟩ := firstFit_eq_some_iff.mp hfirst
      cases hsecond : firstFit fits second with
      | none =>
          have hnone := firstFit_eq_none_iff.mp hsecond
          refine hagree.left a s (comesTo_of_fits ha (by simp) hbefore) ?_
          intro rule hrule heq
          have hno := hnone rule hrule
          rw [heq, ha] at hno
          cases hno
      | some t =>
          obtain ⟨others, b, later, rfl, hb, hothers⟩ :=
            firstFit_eq_some_iff.mp hsecond
          exact hagree.both a b s t (comesTo_of_fits ha (by simpa using hb) hbefore)
            (comesTo_of_fits hb (by simpa using ha) hothers)

variable [DecidableEq α]

theorem firstFit_of_comesTo {rules : DecisionList α β} {tests : List α} {test : α}
    {answer : β} (hcomes : ComesTo rules tests test answer) :
    firstFit (fun other => decide (other ∈ test :: tests)) rules = some answer := by
  obtain ⟨before, after, rfl, hbefore⟩ := hcomes
  apply firstFit_eq_some_iff.mpr
  refine ⟨before, test, after, rfl, by simp, ?_⟩
  intro rule hrule
  exact decide_eq_false (hbefore rule hrule)

/-- Two tests at a time decide whether the lists answer alike. -/
theorem agree_iff {default : β} {first second : DecisionList α β} :
    (∀ fits : α → Bool, (firstFit fits first).getD default =
      (firstFit fits second).getD default) ↔ Agree default first second := by
  constructor
  · intro hall
    have hmissing : ∀ (a : α) (rules : DecisionList α β),
        (∀ rule ∈ rules, rule.1 ≠ a) →
          firstFit (fun other => decide (other ∈ [a])) rules = none := by
      intro a rules hrules
      rw [firstFit_eq_none_iff]
      intro rule hrule
      exact decide_eq_false (by simpa using hrules rule hrule)
    constructor
    · intro a b s t hfirst hsecond
      have hsame := hall fun other => decide (other ∈ [a, b])
      have hswap : (fun other => decide (other ∈ [a, b])) =
          fun other => decide (other ∈ [b, a]) := by
        funext other
        rw [decide_eq_decide]
        simp only [List.mem_cons, List.not_mem_nil, or_false]
        exact or_comm
      rw [firstFit_of_comesTo hfirst, hswap, firstFit_of_comesTo hsecond] at hsame
      exact hsame
    · intro a s hfirst hsecond
      have hsame := hall fun other => decide (other ∈ [a])
      rw [firstFit_of_comesTo hfirst, hmissing a second hsecond] at hsame
      exact hsame
    · intro b t hsecond hfirst
      have hsame := hall fun other => decide (other ∈ [b])
      rw [firstFit_of_comesTo hsecond, hmissing b first hfirst] at hsame
      exact hsame.symm
  · intro hagree fits
    exact hagree.firstFit_eq fits

end DecisionList

end Uskit.Data
