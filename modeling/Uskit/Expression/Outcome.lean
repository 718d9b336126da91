import Mathlib.Logic.Basic

namespace Uskit

/-! What a call of the source does.  A return code other than 0 is a failure;
`undefined` is behaviour the language leaves undefined (a null dereference, a
typed accessor on another type, an overflow of `int`). -/

inductive Result (α : Type u) where
  | ok (value : α)
  | failed
  | undefined
deriving DecidableEq, Repr

namespace Result

def bind (result : Result α) (next : α → Result β) : Result β :=
  match result with
  | .ok value => next value
  | .failed => .failed
  | .undefined => .undefined

instance : Monad Result where
  pure := .ok
  bind := bind

@[simp] theorem pure_eq (value : α) : (pure value : Result α) = .ok value := rfl

@[simp] theorem ok_bind (value : α) (next : α → Result β) :
    (Result.ok value >>= next) = next value := rfl

@[simp] theorem failed_bind (next : α → Result β) :
    ((.failed : Result α) >>= next) = .failed := rfl

@[simp] theorem undefined_bind (next : α → Result β) :
    ((.undefined : Result α) >>= next) = .undefined := rfl

theorem bind_assoc (result : Result α) (next : α → Result β)
    (last : β → Result γ) :
    (result >>= next) >>= last = result >>= fun value => next value >>= last := by
  cases result <;> rfl

theorem bind_ok (result : Result α) : (result >>= .ok) = result := by
  cases result <;> rfl

theorem bind_eq_ok {result : Result α} {next : α → Result β} {final : β} :
    (result >>= next) = .ok final ↔
      ∃ value, result = .ok value ∧ next value = .ok final := by
  cases result with
  | ok value => simp
  | failed => simp
  | undefined => simp

end Result

/-- The outcome of a call that changes a state: on failure the changes made
before the failing statement stay. -/
inductive Outcome (σ : Type u) where
  | ok (state : σ)
  | failed (state : σ)
  | undefined
deriving DecidableEq, Repr

namespace Outcome

/-- The next statement, unless the call has returned. -/
def andThen (outcome : Outcome σ) (next : σ → Outcome σ) : Outcome σ :=
  match outcome with
  | .ok state => next state
  | .failed state => .failed state
  | .undefined => .undefined

/-- Evaluates without a change of state, and fails where that fails. -/
def evaluate (state : σ) (result : Result α) (next : α → Outcome σ) :
    Outcome σ :=
  match result with
  | .ok value => next value
  | .failed => .failed state
  | .undefined => .undefined

/-- The same outcome, with the state seen by the caller. -/
def map (image : σ → τ) : Outcome σ → Outcome τ
  | .ok state => .ok (image state)
  | .failed state => .failed (image state)
  | .undefined => .undefined

/-- A call whose return code is not looked at. -/
def ignoreCode : Outcome σ → Outcome σ
  | .failed state => .ok state
  | outcome => outcome

/-- `frame` holds of the state left behind, whatever the return code. -/
inductive Leaves (frame : σ → Prop) : Outcome σ → Prop
  | ok {state : σ} (holds : frame state) : Leaves frame (.ok state)
  | failed {state : σ} (holds : frame state) : Leaves frame (.failed state)
  | undefined : Leaves frame .undefined

@[simp] theorem ok_andThen (state : σ) (next : σ → Outcome σ) :
    (Outcome.ok state).andThen next = next state := rfl

@[simp] theorem failed_andThen (state : σ) (next : σ → Outcome σ) :
    (Outcome.failed state).andThen next = .failed state := rfl

@[simp] theorem undefined_andThen (next : σ → Outcome σ) :
    (Outcome.undefined : Outcome σ).andThen next = .undefined := rfl

theorem andThen_eq_ok {outcome : Outcome σ} {next : σ → Outcome σ} {final : σ} :
    outcome.andThen next = .ok final ↔
      ∃ middle, outcome = .ok middle ∧ next middle = .ok final := by
  cases outcome with
  | ok state => simp
  | failed state => simp
  | undefined => simp

@[simp] theorem evaluate_ok (state : σ) (value : α) (next : α → Outcome σ) :
    evaluate state (.ok value) next = next value := rfl

@[simp] theorem evaluate_failed (state : σ) (next : α → Outcome σ) :
    evaluate state .failed next = .failed state := rfl

@[simp] theorem evaluate_undefined (state : σ) (next : α → Outcome σ) :
    evaluate state .undefined next = .undefined := rfl

theorem Leaves.of_ok {frame : σ → Prop} {state : σ}
    (hleaves : Leaves frame (.ok state)) : frame state := by
  cases hleaves with
  | ok holds => exact holds

theorem Leaves.of_failed {frame : σ → Prop} {state : σ}
    (hleaves : Leaves frame (.failed state)) : frame state := by
  cases hleaves with
  | failed holds => exact holds

theorem Leaves.andThen {first second : σ → Prop} {outcome : Outcome σ}
    {next : σ → Outcome σ} (hfirst : outcome.Leaves first)
    (hfailed : ∀ state, first state → second state)
    (hnext : ∀ state, first state → (next state).Leaves second) :
    (outcome.andThen next).Leaves second := by
  cases hfirst with
  | ok holds => exact hnext _ holds
  | failed holds => exact .failed (hfailed _ holds)
  | undefined => exact .undefined

theorem Leaves.ignoreCode {frame : σ → Prop} {outcome : Outcome σ}
    (hleaves : outcome.Leaves frame) : outcome.ignoreCode.Leaves frame := by
  cases hleaves with
  | ok holds => exact .ok holds
  | failed holds => exact .ok holds
  | undefined => exact .undefined

theorem Leaves.map {frame : σ → Prop} {after : τ → Prop} {image : σ → τ}
    {outcome : Outcome σ} (hleaves : outcome.Leaves frame)
    (himage : ∀ state, frame state → after (image state)) :
    (outcome.map image).Leaves after := by
  cases hleaves with
  | ok holds => exact .ok (himage _ holds)
  | failed holds => exact .failed (himage _ holds)
  | undefined => exact .undefined

theorem Leaves.mono {frame weaker : σ → Prop} {outcome : Outcome σ}
    (hleaves : outcome.Leaves frame)
    (himp : ∀ state, frame state → weaker state) : outcome.Leaves weaker := by
  cases hleaves with
  | ok holds => exact .ok (himp _ holds)
  | failed holds => exact .failed (himp _ holds)
  | undefined => exact .undefined

theorem Leaves.evaluate {frame : σ → Prop} {state : σ} {result : Result α}
    {next : α → Outcome σ} (hstate : frame state)
    (hnext : ∀ value, (next value).Leaves frame) :
    (evaluate state result next).Leaves frame := by
  cases result with
  | ok value => exact hnext value
  | failed => exact .failed hstate
  | undefined => exact .undefined

/-- What `view` shows of the state is the same afterwards. -/
def Keeps (view : σ → β) (before : σ) (outcome : Outcome σ) : Prop :=
  outcome.Leaves fun after => view after = view before

theorem Keeps.refl (view : σ → β) (state : σ) :
    (Outcome.ok state).Keeps view state :=
  .ok rfl

theorem Keeps.of_ok {view : σ → β} {before state : σ}
    (hkeeps : (Outcome.ok state).Keeps view before) :
    view state = view before :=
  Leaves.of_ok hkeeps

theorem Keeps.andThen {view : σ → β} {before : σ} {outcome : Outcome σ}
    {next : σ → Outcome σ} (hfirst : outcome.Keeps view before)
    (hnext : ∀ state, (next state).Keeps view state) :
    (outcome.andThen next).Keeps view before := by
  apply Leaves.andThen hfirst
  · intro state hstate
    exact hstate
  · intro state hstate
    exact (hnext state).mono fun after hafter => hafter.trans hstate

theorem Keeps.evaluate {view : σ → β} {state : σ} {result : Result α}
    {next : α → Outcome σ} (hnext : ∀ value, (next value).Keeps view state) :
    (Outcome.evaluate state result next).Keeps view state :=
  Leaves.evaluate rfl hnext

theorem Keeps.image {view : σ → β} {before : σ} {outcome : Outcome σ}
    (hkeeps : outcome.Keeps view before) (image : β → γ) :
    outcome.Keeps (fun state => image (view state)) before :=
  hkeeps.mono fun _ hstate => congrArg image hstate

theorem Keeps.ignoreCode {view : σ → β} {before : σ} {outcome : Outcome σ}
    (hkeeps : outcome.Keeps view before) : outcome.ignoreCode.Keeps view before :=
  Leaves.ignoreCode hkeeps

end Outcome

end Uskit
