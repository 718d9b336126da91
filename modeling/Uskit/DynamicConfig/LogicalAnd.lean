import Uskit.Data.Checked
import Uskit.DynamicConfig.KE

namespace Uskit

open Uskit.Data

/-! The loop over the conditions, and the operator `&&` over the same
conditions. -/

namespace KEVec

def EvaluatesToTrue (library : Library) (context : Context) (ke : Expr) : Prop :=
  ke.run library context = .ok (.bool true)

/-- The evaluation fails or gives a value that is not boolean. -/
def Errs (library : Library) (context : Context) (ke : Expr) : Prop :=
  ke.run library context = .failed ∨
    ∃ value, ke.run library context = .ok value ∧ ∀ b, value ≠ .bool b

/-- The first condition that is not true does not err: it is false, or its
evaluation is undefined. -/
def StopsAtFalse (library : Library) (context : Context) (keVec : KEVec) : Prop :=
  ∀ before ke after, keVec = before ++ ke :: after →
    (∀ earlier ∈ before, EvaluatesToTrue library context earlier) →
    ¬ Errs library context ke

/-- A condition is such, and the conditions before it are true. -/
def EndsAt (library : Library) (context : Context) (last : Expr → Prop)
    (keVec : KEVec) : Prop :=
  ∃ before ke after, keVec = before ++ ke :: after ∧
    (∀ earlier ∈ before, EvaluatesToTrue library context earlier) ∧ last ke

/-- What a condition alone comes to. -/
def verdict (library : Library) (context : Context) (ke : Expr) : Result Bool :=
  ke.run library context >>= Expr.requireBool

/-- The operator between all conditions, as the parser nests it. -/
def conjunction (first : Expr) (others : KEVec) : Expr :=
  others.foldl (.binary .logicalAnd) first

variable {library : Library} {context : Context}

theorem verdict_eq_ok {ke : Expr} {b : Bool} :
    verdict library context ke = .ok b ↔ ke.run library context = .ok (.bool b) := by
  rw [verdict, Result.bind_eq_ok]
  constructor
  · intro hvalue
    obtain ⟨value, hrun, hvalue⟩ := hvalue
    cases value with
    | bool other =>
        cases hvalue
        exact hrun
    | null | number | string | array | object => cases hvalue
  · intro hrun
    exact ⟨_, hrun, rfl⟩

theorem verdict_eq_failed {ke : Expr} :
    verdict library context ke = .failed ↔ Errs library context ke := by
  rw [verdict, Errs]
  cases ke.run library context with
  | failed => simp
  | undefined => simp
  | ok value => cases value <;> simp [Expr.requireBool]

theorem verdict_eq_undefined {ke : Expr} :
    verdict library context ke = .undefined ↔
      ke.run library context = .undefined := by
  rw [verdict]
  cases ke.run library context with
  | failed => simp
  | undefined => simp
  | ok value => cases value <;> simp [Expr.requireBool]

theorem logicalAnd_cons (ke : Expr) (rest : KEVec) :
    logicalAnd library context (ke :: rest) =
      (verdict library context ke >>= fun value =>
        if value then logicalAnd library context rest else .ok false) := by
  rw [logicalAnd, verdict, Result.bind_assoc]

theorem endsAt_cons {last : Expr → Prop} {ke : Expr} {rest : KEVec} :
    EndsAt library context last (ke :: rest) ↔
      last ke ∨ EvaluatesToTrue library context ke ∧
        EndsAt library context last rest :=
  exists_split_cons_iff

theorem logicalAnd_eq_ok_true {keVec : KEVec} :
    logicalAnd library context keVec = .ok true ↔
      ∀ ke ∈ keVec, EvaluatesToTrue library context ke := by
  induction keVec with
  | nil => simp [logicalAnd]
  | cons ke rest ih =>
      rw [logicalAnd_cons, Result.bind_eq_ok, List.forall_mem_cons, ← ih]
      constructor
      · intro htrue
        obtain ⟨value, hvalue, hrest⟩ := htrue
        cases value with
        | false => cases hrest
        | true => exact ⟨verdict_eq_ok.mp hvalue, hrest⟩
      · intro htrue
        exact ⟨true, verdict_eq_ok.mpr htrue.1, htrue.2⟩

/-- Any other outcome is the verdict of the condition at which the loop ends. -/
theorem logicalAnd_eq_iff {outcome : Result Bool} (hother : outcome ≠ .ok true)
    {keVec : KEVec} :
    logicalAnd library context keVec = outcome ↔
      EndsAt library context (fun ke => verdict library context ke = outcome)
        keVec := by
  induction keVec with
  | nil => simp [logicalAnd, EndsAt, hother.symm]
  | cons ke rest ih =>
      rw [logicalAnd_cons, endsAt_cons, ← ih, EvaluatesToTrue, ← verdict_eq_ok]
      cases verdict library context ke with
      | ok value =>
          cases value with
          | false => simp
          | true => simp [hother.symm]
      | failed => simp
      | undefined => simp

theorem logicalAnd_eq_ok_false {keVec : KEVec} :
    logicalAnd library context keVec = .ok false ↔
      EndsAt library context
        (fun ke => ke.run library context = .ok (.bool false)) keVec := by
  rw [logicalAnd_eq_iff (by simp)]
  simp only [verdict_eq_ok]

theorem logicalAnd_eq_failed {keVec : KEVec} :
    logicalAnd library context keVec = .failed ↔
      EndsAt library context (Errs library context) keVec := by
  rw [logicalAnd_eq_iff (by simp)]
  simp only [verdict_eq_failed]

theorem logicalAnd_eq_undefined {keVec : KEVec} :
    logicalAnd library context keVec = .undefined ↔
      EndsAt library context (fun ke => ke.run library context = .undefined)
        keVec := by
  rw [logicalAnd_eq_iff (by simp)]
  simp only [verdict_eq_undefined]

theorem stopsAtFalse_iff {keVec : KEVec} :
    StopsAtFalse library context keVec ↔
      logicalAnd library context keVec ≠ .failed := by
  rw [ne_eq, logicalAnd_eq_failed]
  constructor
  · intro hstops hends
    obtain ⟨before, ke, after, hsplit, hbefore, herrs⟩ := hends
    exact hstops before ke after hsplit hbefore herrs
  · intro hends before ke after hsplit hbefore herrs
    exact hends ⟨before, ke, after, hsplit, hbefore, herrs⟩

/-! The operator evaluates both of its operands, so it may fail where the loop
has ended. -/

theorem run_and {lhs rhs : Expr} {value : Json} :
    (Expr.binary .logicalAnd lhs rhs).run library context = .ok value ↔
      ∃ l r, lhs.run library context = .ok (.bool l) ∧
        rhs.run library context = .ok (.bool r) ∧ value = .bool (l && r) := by
  simp only [Expr.run, Result.bind_eq_ok]
  constructor
  · intro hrun
    obtain ⟨lvalue, hlhs, rvalue, hrhs, hvalue⟩ := hrun
    cases lvalue with
    | bool l =>
        cases rvalue with
        | bool r =>
            cases hvalue
            exact ⟨l, r, hlhs, hrhs, rfl⟩
        | null | number | string | array | object => cases hvalue
    | null | number | string | array | object => cases hvalue
  · intro hrun
    obtain ⟨l, r, hlhs, hrhs, rfl⟩ := hrun
    exact ⟨_, hlhs, _, hrhs, rfl⟩

theorem conjunction_cons (first second : Expr) (others : KEVec) :
    conjunction first (second :: others) =
      conjunction (.binary .logicalAnd first second) others := rfl

theorem logicalAnd_of_and {first second : Expr} {others : KEVec} {b : Bool}
    (hmerged : logicalAnd library context
      (.binary .logicalAnd first second :: others) = .ok b) :
    logicalAnd library context (first :: second :: others) = .ok b := by
  rw [logicalAnd_cons, Result.bind_eq_ok] at hmerged
  obtain ⟨value, hvalue, hrest⟩ := hmerged
  obtain ⟨l, r, hfirst, hsecond, hboth⟩ := run_and.mp (verdict_eq_ok.mp hvalue)
  cases hboth
  rw [logicalAnd_cons, logicalAnd_cons, verdict_eq_ok.mpr hfirst,
    verdict_eq_ok.mpr hsecond]
  cases l with
  | false => exact hrest
  | true =>
      cases r with
      | false => exact hrest
      | true => exact hrest

theorem logicalAnd_of_conjunction {first : Expr} {others : KEVec} {b : Bool}
    (hrun : (conjunction first others).run library context = .ok (.bool b)) :
    logicalAnd library context (first :: others) = .ok b := by
  induction others generalizing first with
  | nil =>
      have hfirst : first.run library context = .ok (.bool b) := hrun
      rw [logicalAnd_cons, verdict_eq_ok.mpr hfirst]
      cases b with
      | false => rfl
      | true => rfl
  | cons second others ih =>
      rw [conjunction_cons] at hrun
      exact logicalAnd_of_and (ih hrun)

theorem conjunction_bool {first second : Expr} {others : KEVec} {value : Json}
    (hrun : (conjunction first (second :: others)).run library context =
      .ok value) : ∃ b, value = .bool b := by
  induction others generalizing first second with
  | nil =>
      obtain ⟨l, r, -, -, hvalue⟩ := run_and.mp hrun
      exact ⟨_, hvalue⟩
  | cons third others ih => exact ih hrun

theorem conjunction_of_all_true {first : Expr} {others : KEVec}
    (hfirst : EvaluatesToTrue library context first)
    (hothers : ∀ ke ∈ others, EvaluatesToTrue library context ke) :
    EvaluatesToTrue library context (conjunction first others) := by
  induction others generalizing first with
  | nil => exact hfirst
  | cons second others ih =>
      rw [List.forall_mem_cons] at hothers
      exact ih (run_and.mpr ⟨true, true, hfirst, hothers.1, rfl⟩) hothers.2

/-- What the loop returns when it comes to a truth value, and how it agrees with
the operator. -/
structure AndAgrees (library : Library) (context : Context) (keVec : KEVec) :
    Prop where
  true_iff : logicalAnd library context keVec = .ok true ↔
    ∀ ke ∈ keVec, EvaluatesToTrue library context ke
  false_iff : logicalAnd library context keVec = .ok false ↔
    EndsAt library context (fun ke => ke.run library context = .ok (.bool false))
      keVec
  agrees : ∀ first second others value, keVec = first :: second :: others →
    (conjunction first (second :: others)).run library context = .ok value →
      ∃ b, value = .bool b ∧ logicalAnd library context keVec = .ok b
  conjunction_true : ∀ first second others, keVec = first :: second :: others →
    logicalAnd library context keVec = .ok true →
      EvaluatesToTrue library context (conjunction first (second :: others))

/-- And it fails whenever it comes to none. -/
structure AndContract (library : Library) (context : Context) (keVec : KEVec) :
    Prop extends AndAgrees library context keVec where
  failed_iff : logicalAnd library context keVec = .failed ↔
    ¬ (∀ ke ∈ keVec, EvaluatesToTrue library context ke) ∧
      ¬ EndsAt library context
        (fun ke => ke.run library context = .ok (.bool false)) keVec

theorem logicalAnd_agrees (library : Library) (context : Context)
    (keVec : KEVec) : AndAgrees library context keVec := by
  constructor
  · exact logicalAnd_eq_ok_true
  · exact logicalAnd_eq_ok_false
  · intro first second others value hkeVec hrun
    obtain ⟨b, rfl⟩ := conjunction_bool hrun
    exact ⟨b, rfl, hkeVec ▸ logicalAnd_of_conjunction hrun⟩
  · intro first second others hkeVec htrue
    rw [logicalAnd_eq_ok_true, hkeVec, List.forall_mem_cons] at htrue
    exact conjunction_of_all_true htrue.1 htrue.2

/-- The loop fails wherever it comes to no truth value exactly if the evaluation
of the condition at which it ends is defined. -/
theorem andContract_iff (library : Library) (context : Context)
    (keVec : KEVec) :
    AndContract library context keVec ↔
      ¬ EndsAt library context (fun ke => ke.run library context = .undefined)
        keVec := by
  have hfailed : logicalAnd library context keVec ≠ .undefined ↔
      (logicalAnd library context keVec = .failed ↔
        ¬ logicalAnd library context keVec = .ok true ∧
          ¬ logicalAnd library context keVec = .ok false) := by
    cases logicalAnd library context keVec with
    | ok value => cases value <;> simp
    | failed => simp
    | undefined => simp
  rw [logicalAnd_eq_ok_true, logicalAnd_eq_ok_false] at hfailed
  rw [← logicalAnd_eq_undefined]
  constructor
  · intro hcontract
    exact hfailed.mpr hcontract.failed_iff
  · intro hdefined
    exact ⟨logicalAnd_agrees library context keVec, hfailed.mp hdefined⟩

/-- `1 / 0 == 1`, which is neither true nor false, and does not fail either. -/
def divisionByZero : Expr :=
  .binary .equal (.binary .div (.integer 1) (.integer 0)) (.integer 1)

theorem divisionByZero_returnsNothing :
    ¬ ∀ (library : Library) (context : Context) (keVec : KEVec),
      AndContract library context keVec := by
  intro hall
  have hcontract := hall .bare ⟨[], []⟩ [divisionByZero]
  have hundefined : divisionByZero.run .bare ⟨[], []⟩ = .undefined := rfl
  have hloop : logicalAnd .bare ⟨[], []⟩ [divisionByZero] = .undefined := rfl
  have hfailed := hcontract.failed_iff.mpr (by
    constructor
    · intro htrue
      have hke := htrue divisionByZero List.mem_cons_self
      rw [EvaluatesToTrue, hundefined] at hke
      cases hke
    · intro hfalse
      rw [← logicalAnd_eq_ok_false, hloop] at hfalse
      cases hfalse)
  rw [hloop] at hfailed
  cases hfailed

end KEVec

end Uskit
