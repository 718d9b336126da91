import Uskit.Expression.Expression

namespace Uskit

open Uskit.Data

/-! Evaluation in exact arithmetic, and when the evaluation on `int` agrees with
it. -/

namespace BinaryOp

/-- The mathematical result of an operator on integers; quotients are truncated
toward zero. -/
def exact (op : BinaryOp) (l r : Int) : Option Int :=
  match op with
  | .add => some (l + r)
  | .sub => some (l - r)
  | .mul => some (l * r)
  | .div => if r = 0 then none else some (l.tdiv r)
  | _ => none

def isArithmetic : BinaryOp → Bool
  | .add | .sub | .mul | .div => true
  | _ => false

/-- The operands of an arithmetic operator that are both of type `int`. -/
def intOperands (op : BinaryOp) : (lvalue rvalue : Json) → Option (Int × Int)
  | .number (.int l), .number (.int r) =>
      if op.isArithmetic && fitsInt l && fitsInt r then some (l, r) else none
  | _, _ => none

/-- As `run`, with integers of any size as results. -/
def runExact (library : Library) (op : BinaryOp) (lvalue rvalue : Json) :
    Option Json :=
  match op.intOperands lvalue rvalue with
  | some (l, r) => (op.exact l r).map fun value => .number (.int value)
  | none =>
      match op.run library lvalue rvalue with
      | .ok value => some value
      | _ => none

/-- The sum, the difference or the product is an `int`; the divisor is not zero,
and the least `int` is not divided by -1. -/
def IntSafe (op : BinaryOp) (l r : Int) : Prop :=
  match op with
  | .add => fitsInt (l + r) = true
  | .sub => fitsInt (l - r) = true
  | .mul => fitsInt (l * r) = true
  | .div => r ≠ 0 ∧ ¬ (l = -(2 ^ 31) ∧ r = -1)
  | _ => True

/-- As `IntSafe`, when the operands are both of type `int`. -/
def Safe (op : BinaryOp) (lvalue rvalue : Json) : Prop :=
  ∀ l r, op.intOperands lvalue rvalue = some (l, r) → op.IntSafe l r

end BinaryOp

namespace Result

def ofOption : Option α → Result α
  | some value => .ok value
  | none => .failed

/-- The call returns with a failure or with the exact value. -/
def FailsOrIs (result : Result α) (exact : Option α) : Prop :=
  result = .failed ∨ ∃ value, result = .ok value ∧ exact = some value

end Result

namespace Expr

def bool? : Json → Option Bool
  | .bool value => some value
  | _ => none

mutual
def callFree : Expr → Bool
  | .array items => callFreeItems items
  | .dict entries => callFreeEntries entries
  | .binary _ lhs rhs => callFree lhs && callFree rhs
  | .ternary cond lhs rhs => callFree cond && callFree lhs && callFree rhs
  | .not expr => callFree expr
  | .call _ _ _ => false
  | .null | .integer _ | .double _ | .string _ | .boolean _ | .variable _ => true

def callFreeItems : List Expr → Bool
  | [] => true
  | item :: rest => callFree item && callFreeItems rest

def callFreeEntries : List (String × Expr) → Bool
  | [] => true
  | (_, expr) :: rest => callFree expr && callFreeEntries rest
end

variable (library : Library) (context : Context)

mutual
/-- Evaluation in exact arithmetic; a call has no value here. -/
def runExact : Expr → Option Json
  | .null => some .null
  | .integer value => some (.number (.int value))
  | .double value => some (.number (.double value))
  | .string str => some (.string str)
  | .boolean value => some (.bool value)
  | .array items => (runExactItems items).map .array
  | .dict entries => (runExactEntries entries).map .object
  | .binary op lhs rhs =>
      (runExact lhs).bind fun lvalue =>
        (runExact rhs).bind fun rvalue => op.runExact library lvalue rvalue
  | .ternary cond lhs rhs =>
      ((runExact cond).bind bool?).bind fun chosen =>
        if chosen then runExact lhs else runExact rhs
  | .not expr =>
      ((runExact expr).bind bool?).map fun value => .bool (!value)
  | .call _ _ _ => none
  | .variable name => context.getVariable name

def runExactItems : List Expr → Option (List Json)
  | [] => some []
  | item :: rest =>
      (runExact item).bind fun value =>
        (runExactItems rest).map (value :: ·)

def runExactEntries : List (String × Expr) → Option JsonMembers
  | [] => some []
  | (key, expr) :: rest =>
      (runExact expr).bind fun value =>
        (runExactEntries rest).map ((key, value) :: ·)
end

mutual
/-- Every arithmetic operator that is reached with `int` operands is safe on
them. -/
def IntSafe : Expr → Prop
  | .array items => ItemsIntSafe items
  | .dict entries => EntriesIntSafe entries
  | .binary op lhs rhs =>
      IntSafe lhs ∧ ∀ lvalue, runExact library context lhs = some lvalue →
        IntSafe rhs ∧ ∀ rvalue, runExact library context rhs = some rvalue →
          op.Safe lvalue rvalue
  | .ternary cond lhs rhs =>
      IntSafe cond ∧
        ∀ chosen, (runExact library context cond).bind bool? = some chosen →
          if chosen then IntSafe lhs else IntSafe rhs
  | .not expr => IntSafe expr
  | .null | .integer _ | .double _ | .string _ | .boolean _ | .call _ _ _
  | .variable _ => True

def ItemsIntSafe : List Expr → Prop
  | [] => True
  | item :: rest =>
      IntSafe item ∧ ∀ value, runExact library context item = some value →
        ItemsIntSafe rest

def EntriesIntSafe : List (String × Expr) → Prop
  | [] => True
  | (_, expr) :: rest =>
      IntSafe expr ∧ ∀ value, runExact library context expr = some value →
        EntriesIntSafe rest
end

end Expr

/-- A result agrees with an exact one in the safe case, and is undefined in the
other. -/
structure Agrees (safe : Prop) (result : Result α) (exact : Option α) : Prop where
  agrees : safe → result = .ofOption exact
  undefined : ¬ safe → result = .undefined

namespace Agrees

theorem of_eq {result : Result α} {exact : Option α}
    (heq : result = .ofOption exact) : Agrees True result exact :=
  ⟨fun _ => heq, fun hnot => absurd trivial hnot⟩

theorem failsOrIs_iff {safe : Prop} {result : Result α} {exact : Option α}
    (hagrees : Agrees safe result exact) : result.FailsOrIs exact ↔ safe := by
  constructor
  · intro hreturns
    by_contra hnot
    rw [hagrees.undefined hnot] at hreturns
    rcases hreturns with hfailed | ⟨value, hvalue, _⟩
    · cases hfailed
    · cases hvalue
  · intro hsafe
    rw [hagrees.agrees hsafe]
    cases exact with
    | none => exact .inl rfl
    | some value => exact .inr ⟨value, rfl, rfl⟩

theorem bind {safe : Prop} {result : Result α} {exact : Option α}
    (hfirst : Agrees safe result exact) {safeNext : α → Prop}
    {next : α → Result β} {exactNext : α → Option β}
    (hnext : ∀ value, Agrees (safeNext value) (next value) (exactNext value)) :
    Agrees (safe ∧ ∀ value, exact = some value → safeNext value)
      (result >>= next) (exact.bind exactNext) := by
  by_cases hsafe : safe
  · rw [hfirst.agrees hsafe]
    cases exact with
    | none =>
        refine ⟨fun _ => rfl, fun hnot => ?_⟩
        exact absurd ⟨hsafe, fun value hvalue => by cases hvalue⟩ hnot
    | some value =>
        constructor
        · intro hboth
          exact (hnext value).agrees (hboth.2 value rfl)
        · intro hnot
          apply (hnext value).undefined
          intro hvalue
          apply hnot
          refine ⟨hsafe, fun other hother => ?_⟩
          cases hother
          exact hvalue
  · rw [hfirst.undefined hsafe]
    exact ⟨fun hboth => absurd hboth.1 hsafe, fun _ => rfl⟩

theorem map {safe : Prop} {result : Result α} {exact : Option α}
    (hfirst : Agrees safe result exact) (image : α → β) :
    Agrees safe (result >>= fun value => .ok (image value)) (exact.map image) := by
  constructor
  · intro hsafe
    rw [hfirst.agrees hsafe]
    cases exact with
    | none => rfl
    | some value => rfl
  · intro hnot
    rw [hfirst.undefined hnot]
    rfl

end Agrees

namespace BinaryOp

theorem arithmetic_of_intOperands {op : BinaryOp} {lvalue rvalue : Json}
    {l r : Int} (hints : op.intOperands lvalue rvalue = some (l, r)) :
    op.isArithmetic = true ∧ fitsInt l = true ∧ fitsInt r = true ∧
      lvalue = .number (.int l) ∧ rvalue = .number (.int r) := by
  unfold intOperands at hints
  split at hints
  · split at hints
    · rename_i hfits
      cases hints
      simp only [Bool.and_eq_true] at hfits
      exact ⟨hfits.1.1, hfits.1.2, hfits.2, rfl, rfl⟩
    · cases hints
  · cases hints

theorem fitsInt_tdiv {l r : Int} (hl : fitsInt l = true) (hr : r ≠ 0) :
    fitsInt (l.tdiv r) = true ↔ ¬ (l = -(2 ^ 31) ∧ r = -1) := by
  have hquotient : (l.tdiv r).natAbs = l.natAbs / r.natAbs := Int.natAbs_tdiv l r
  have hone : 1 ≤ r.natAbs := by omega
  rw [fitsInt_iff] at hl ⊢
  constructor
  · rintro ⟨hlow, hhigh⟩ ⟨rfl, rfl⟩
    simp at hhigh
  · intro hnot
    by_cases hunit : r.natAbs = 1
    · rcases Int.natAbs_eq r with hpos | hneg
      · have hr1 : r = 1 := by omega
        subst hr1
        rw [Int.tdiv_one]
        exact hl
      · have hr1 : r = -1 := by omega
        subst hr1
        rw [Int.tdiv_neg, Int.tdiv_one]
        constructor
        · omega
        · omega
    · have htwo : 2 ≤ r.natAbs := by omega
      have hhalf : l.natAbs / r.natAbs ≤ l.natAbs / 2 :=
        Nat.div_le_div_left htwo (by omega)
      omega

theorem intSafe_iff {op : BinaryOp} {lvalue rvalue : Json} {l r : Int}
    (hints : op.intOperands lvalue rvalue = some (l, r)) :
    op.IntSafe l r ↔ ∃ value, op.exact l r = some value ∧ fitsInt value = true := by
  obtain ⟨harith, hl, hr, -, -⟩ := arithmetic_of_intOperands hints
  cases op with
  | add | sub | mul => simp [IntSafe, exact]
  | div =>
      by_cases hzero : r = 0
      · simp [IntSafe, exact, hzero]
      · simp only [IntSafe, exact, hzero, if_false, Option.some.injEq,
          exists_eq_left', ne_eq, not_false_eq_true, true_and]
        exact (fitsInt_tdiv hl hzero).symm
  | greater | less | greaterEq | lessEq | logicalOr | logicalAnd | bitOr
  | bitAnd | equal | notEqual => cases harith

theorem run_of_intOperands {op : BinaryOp} {lvalue rvalue : Json} {l r : Int}
    (hints : op.intOperands lvalue rvalue = some (l, r)) (library : Library) :
    op.run library lvalue rvalue =
      match op.exact l r with
      | some value => setInt value
      | none => .undefined := by
  obtain ⟨harith, hl, hr, rfl, rfl⟩ := arithmetic_of_intOperands hints
  cases op with
  | add | sub | mul => simp [run, runNumber, hl, hr, runInt, exact]
  | div =>
      simp only [run, runNumber, hl, hr, runInt, exact, Bool.and_self, if_true]
      by_cases hzero : r = 0
      · rw [if_pos hzero, if_pos hzero]
      · rw [if_neg hzero, if_neg hzero]
  | greater | less | greaterEq | lessEq | logicalOr | logicalAnd | bitOr
  | bitAnd | equal | notEqual => cases harith

theorem runDouble_ne_undefined (op : BinaryOp) (l r : Double) :
    op.runDouble l r ≠ .undefined := by
  cases op <;> simp [runDouble, setDouble, setBool]

theorem runBits_ne_undefined (onArrays : List Json → List Json → List Json)
    (onBools : Bool → Bool → Bool)
    (onInts : BitVec 32 → BitVec 32 → BitVec 32) (lvalue rvalue : Json) :
    runBits onArrays onBools onInts lvalue rvalue ≠ .undefined := by
  unfold runBits
  split
  · simp
  · simp [setBool]
  · split <;> simp
  · simp

theorem runBool_ne_undefined (onBools : Bool → Bool → Bool)
    (lvalue rvalue : Json) : runBool onBools lvalue rvalue ≠ .undefined := by
  unfold runBool
  split
  · simp [setBool]
  · simp

theorem runNumber_ne_undefined {op : BinaryOp} {lvalue rvalue : Json}
    (hints : op.intOperands lvalue rvalue = none) :
    op.runNumber lvalue rvalue ≠ .undefined := by
  unfold runNumber
  split
  · rename_i l r
    split
    · rename_i hfits
      rw [Bool.and_eq_true] at hfits
      cases op with
      | add | sub | mul | div =>
          simp [intOperands, isArithmetic, hfits.1, hfits.2] at hints
      | greater | less | greaterEq | lessEq | logicalOr | logicalAnd | bitOr
      | bitAnd | equal | notEqual => simp [runInt, setBool]
    · exact runDouble_ne_undefined op _ _
  · exact runDouble_ne_undefined op _ _
  · simp

/-- Only arithmetic on `int` is ever undefined. -/
theorem run_ne_undefined {op : BinaryOp} {lvalue rvalue : Json}
    (hints : op.intOperands lvalue rvalue = none) (library : Library) :
    op.run library lvalue rvalue ≠ .undefined := by
  unfold run
  split
  · simp
  · simp
  · simp
  · exact runBool_ne_undefined _ _ _
  · exact runBool_ne_undefined _ _ _
  · exact runBits_ne_undefined _ _ _ _ _
  · exact runBits_ne_undefined _ _ _ _ _
  · simp [setBool]
  · simp [setBool]
  · exact runNumber_ne_undefined hints

theorem run_agrees (library : Library) (op : BinaryOp) (lvalue rvalue : Json) :
    Agrees (op.Safe lvalue rvalue) (op.run library lvalue rvalue)
      (op.runExact library lvalue rvalue) := by
  unfold Safe runExact
  cases hints : op.intOperands lvalue rvalue with
  | none =>
      have hdefined := run_ne_undefined hints library
      have heq : op.run library lvalue rvalue = .ofOption
          (match op.run library lvalue rvalue with
            | .ok value => some value
            | _ => none) := by
        cases hrun : op.run library lvalue rvalue with
        | ok value => rfl
        | failed => rfl
        | undefined => exact absurd hrun hdefined
      refine ⟨fun _ => heq, fun hnot => ?_⟩
      exact absurd (fun l r hsome => by cases hsome) hnot
  | some operands =>
      obtain ⟨l, r⟩ := operands
      rw [run_of_intOperands hints library]
      constructor
      · intro hsafe
        obtain ⟨value, hvalue, hfit⟩ := (intSafe_iff hints).mp (hsafe l r rfl)
        simp [hvalue, setInt, hfit, Result.ofOption]
      · intro hnot
        cases hvalue : op.exact l r with
        | none => rfl
        | some value =>
            simp only [setInt]
            apply if_neg
            intro hfit
            apply hnot
            rintro _ _ hsame
            cases hsame
            exact (intSafe_iff hints).mpr ⟨value, hvalue, hfit⟩

end BinaryOp

namespace Expr

variable (library : Library) (context : Context)

theorem requireBool_eq (value : Json) :
    requireBool value = .ofOption (bool? value) := by
  cases value <;> rfl

theorem requireBool_agrees {safe : Prop} {result : Result Json}
    {exact : Option Json} (hfirst : Agrees safe result exact) :
    Agrees safe (result >>= requireBool) (exact.bind bool?) := by
  constructor
  · intro hsafe
    rw [hfirst.agrees hsafe]
    cases exact with
    | none => rfl
    | some value => exact requireBool_eq value
  · intro hnot
    rw [hfirst.undefined hnot]
    rfl

mutual
theorem run_agrees (expr : Expr) (hcalls : expr.callFree = true) :
    Agrees (IntSafe library context expr) (expr.run library context)
      (runExact library context expr) := by
  cases expr with
  | null | integer | double | string | boolean =>
      simp only [IntSafe, run, runExact]
      exact .of_eq rfl
  | array items =>
      simp only [IntSafe, run, runExact]
      exact (runArgs_agrees items hcalls).map Json.array
  | dict entries =>
      simp only [IntSafe, run, runExact]
      exact (runDict_agrees entries hcalls).map Json.object
  | binary op lhs rhs =>
      rw [callFree, Bool.and_eq_true] at hcalls
      simp only [IntSafe, run, runExact]
      apply (run_agrees lhs hcalls.1).bind
      intro lvalue
      apply (run_agrees rhs hcalls.2).bind
      intro rvalue
      exact op.run_agrees library lvalue rvalue
  | ternary cond lhs rhs =>
      rw [callFree, Bool.and_eq_true, Bool.and_eq_true] at hcalls
      have hchosen := requireBool_agrees (run_agrees cond hcalls.1.1)
      have hbranches : ∀ chosen : Bool,
          Agrees
            (if chosen then IntSafe library context lhs
              else IntSafe library context rhs)
            (if chosen then run library context lhs
              else run library context rhs)
            (if chosen then runExact library context lhs
              else runExact library context rhs) := by
        intro chosen
        cases chosen with
        | true => exact run_agrees lhs hcalls.1.2
        | false => exact run_agrees rhs hcalls.2
      simp only [IntSafe, run, runExact]
      have hwhole := hchosen.bind hbranches
      cases hcond : cond.run library context with
      | ok value =>
          rw [hcond] at hwhole
          exact hwhole
      | failed =>
          rw [hcond] at hwhole
          exact hwhole
      | undefined =>
          rw [hcond] at hwhole
          exact hwhole
  | not expr =>
      rw [callFree] at hcalls
      have hvalue := (requireBool_agrees (run_agrees expr hcalls)).map
        fun value => Json.bool (!value)
      simp only [IntSafe, run, runExact]
      cases hrun : expr.run library context with
      | ok value =>
          rw [hrun] at hvalue
          exact hvalue
      | failed =>
          rw [hrun] at hvalue
          exact hvalue
      | undefined =>
          rw [hrun] at hvalue
          exact hvalue
  | call funcName args next => cases hcalls
  | «variable» name =>
      simp only [IntSafe, run, runExact]
      apply Agrees.of_eq
      cases context.getVariable name with
      | some value => rfl
      | none => rfl

theorem runArgs_agrees (items : List Expr) (hcalls : callFreeItems items = true) :
    Agrees (ItemsIntSafe library context items)
      (runArgs library context items) (runExactItems library context items) := by
  cases items with
  | nil =>
      simp only [ItemsIntSafe, runArgs, runExactItems]
      exact .of_eq rfl
  | cons item rest =>
      rw [callFreeItems, Bool.and_eq_true] at hcalls
      simp only [ItemsIntSafe, runArgs, runExactItems]
      apply (run_agrees item hcalls.1).bind
      intro value
      exact (runArgs_agrees rest hcalls.2).map (value :: ·)

theorem runDict_agrees (entries : List (String × Expr))
    (hcalls : callFreeEntries entries = true) :
    Agrees (EntriesIntSafe library context entries)
      (runDict library context entries)
      (runExactEntries library context entries) := by
  cases entries with
  | nil =>
      simp only [EntriesIntSafe, runDict, runExactEntries]
      exact .of_eq rfl
  | cons entry rest =>
      obtain ⟨key, expr⟩ := entry
      rw [callFreeEntries, Bool.and_eq_true] at hcalls
      simp only [EntriesIntSafe, runDict, runExactEntries]
      apply (run_agrees expr hcalls.1).bind
      intro value
      exact (runDict_agrees rest hcalls.2).map ((key, value) :: ·)
end

/-- The evaluation returns, with a failure or the exact value, exactly when each
operator reached with `int` operands is safe on them. -/
theorem exactEvaluation_iff (expr : Expr) (hcalls : expr.callFree = true) :
    (expr.run library context).FailsOrIs (expr.runExact library context) ↔
      expr.IntSafe library context :=
  (expr.run_agrees library context hcalls).failsOrIs_iff

/-- `-7 / n` for a variable `n`. -/
def quotient : Expr :=
  .binary .div (.integer (-7)) (.variable "n")

theorem quotient_exact :
    (quotient.run .bare ⟨[("n", .number (.int 2))], []⟩).FailsOrIs
      (quotient.runExact .bare ⟨[("n", .number (.int 2))], []⟩) := by
  apply (exactEvaluation_iff .bare _ quotient rfl).mpr
  refine ⟨trivial, fun lvalue hlvalue => ⟨trivial, fun rvalue hrvalue => ?_⟩⟩
  have hseven : lvalue = .number (.int (-7)) := (Option.some.inj hlvalue).symm
  have htwo : rvalue = .number (.int 2) := (Option.some.inj hrvalue).symm
  subst hseven htwo
  rintro _ _ ⟨⟩
  exact ⟨by decide, by decide⟩

theorem quotientByZero_undefined :
    ¬ ∀ library context (expr : Expr), expr.callFree = true →
      (expr.run library context).FailsOrIs (expr.runExact library context) := by
  intro hall
  have hreturns := hall .bare ⟨[("n", .number (.int 0))], []⟩ quotient rfl
  have hundefined :
      quotient.run .bare ⟨[("n", .number (.int 0))], []⟩ = .undefined := rfl
  rw [hundefined] at hreturns
  rcases hreturns with hfailed | ⟨value, hvalue, -⟩
  · cases hfailed
  · cases hvalue

end Expr

end Uskit
