import Uskit.Data.Machine

namespace Uskit

open Uskit.Data

/-! The check of `GlobalClosure::Run` that all sub-calls of a dynamic service
have finished.  The list of sub-calls is complete before the first check: the
request policy holds the mutex of the controller while it launches them. -/

inductive SubCallOutcome where
  | failed
  | succeeded (attachmentSize : Nat)
deriving DecidableEq, Repr

structure SubCall where
  completed : Option SubCallOutcome := none
  /-- The run of the closure that the completion scheduled is over. -/
  called : Bool := false
deriving DecidableEq, Repr

namespace SubCall

def failed (call : SubCall) : Bool :=
  call.completed == some .failed

/-- `response_attachment().size()`. -/
def attachmentSize (call : SubCall) : Nat :=
  match call.completed with
  | some (.succeeded size) => size
  | some .failed | none => 0

end SubCall

def allFinished : List SubCall → Bool
  | [] => true
  | call :: rest =>
      if !call.failed && call.attachmentSize == 0 then false
      else allFinished rest

structure BarrierState where
  calls : List SubCall
  /-- How many callbacks went on to the continuation. -/
  passes : Nat
deriving DecidableEq, Repr

inductive BarrierLabel where
  | complete (index : Nat) (outcome : SubCallOutcome)
  | callback (index : Nat)
deriving DecidableEq, Repr

namespace BarrierState

def start (count : Nat) : BarrierState :=
  ⟨List.replicate count {}, 0⟩

def step : Machine BarrierState BarrierLabel
  | state, .complete index outcome =>
      match state.calls[index]? with
      | some ⟨none, called⟩ =>
          some { state with
            calls := state.calls.set index ⟨some outcome, called⟩ }
      | _ => none
  | state, .callback index =>
      match state.calls[index]? with
      | some ⟨some outcome, false⟩ =>
          some {
            calls := state.calls.set index ⟨some outcome, true⟩
            passes := state.passes + if allFinished state.calls then 1 else 0 }
      | _ => none

/-- All sub-calls have completed and all their callbacks have run. -/
def Settled (state : BarrierState) : Prop :=
  ∀ call ∈ state.calls, call.completed ≠ none ∧ call.called = true

instance (state : BarrierState) : Decidable state.Settled :=
  inferInstanceAs (Decidable (∀ _ ∈ _, _))

end BarrierState

/-- How many callbacks of a schedule follow its last completion, when `count`
callbacks came before the schedule. -/
def callbacksSinceCompletion (count : Nat) : List BarrierLabel → Nat
  | [] => count
  | .complete _ _ :: rest => callbacksSinceCompletion 0 rest
  | .callback _ :: rest => callbacksSinceCompletion (count + 1) rest

theorem allFinished_iff {calls : List SubCall} :
    allFinished calls = true ↔
      ∀ call ∈ calls, call.failed = true ∨ call.attachmentSize ≠ 0 := by
  induction calls with
  | nil => simp [allFinished]
  | cons call rest ih =>
      rw [allFinished, List.forall_mem_cons, ← ih]
      cases hfailed : call.failed with
      | true => simp
      | false =>
          cases hsize : call.attachmentSize with
          | zero => simp
          | succ size => simp

theorem allFinished_eq_false_of_pending {calls : List SubCall} {index : Nat}
    {called : Bool} (hpending : calls[index]? = some ⟨none, called⟩) :
    allFinished calls = false := by
  rw [Bool.eq_false_iff]
  intro hfinished
  have hcall := allFinished_iff.mp hfinished _ (List.mem_of_getElem? hpending)
  simp [SubCall.failed, SubCall.attachmentSize] at hcall

theorem allFinished_set_called {calls : List SubCall} {index : Nat}
    {outcome : SubCallOutcome} {called : Bool}
    (hcall : calls[index]? = some ⟨some outcome, called⟩) :
    allFinished (calls.set index ⟨some outcome, true⟩) = allFinished calls := by
  induction calls generalizing index with
  | nil => rfl
  | cons call rest ih =>
      cases index with
      | zero =>
          obtain rfl : call = ⟨some outcome, called⟩ := by simpa using hcall
          rfl
      | succ index =>
          rw [List.set_cons_succ, allFinished, allFinished,
            ih (by simpa using hcall)]

/-- A sub-call that succeeded with an empty body. -/
def HasEmptySuccess (state : BarrierState) : Prop :=
  ∃ call ∈ state.calls, call.completed = some (.succeeded 0)

namespace BarrierState

theorem step_cases {state next : BarrierState} {label : BarrierLabel}
    (hstep : step state label = some next) :
    (∃ index outcome called, label = .complete index outcome ∧
        state.calls[index]? = some ⟨none, called⟩ ∧
        next = { state with
          calls := state.calls.set index ⟨some outcome, called⟩ }) ∨
      (∃ index outcome, label = .callback index ∧
        state.calls[index]? = some ⟨some outcome, false⟩ ∧
        next = {
          calls := state.calls.set index ⟨some outcome, true⟩
          passes := state.passes +
            if allFinished state.calls then 1 else 0 }) := by
  cases label with
  | complete index outcome =>
      simp only [step] at hstep
      split at hstep
      · rename_i called hcall
        cases hstep
        exact .inl ⟨index, outcome, called, rfl, hcall, rfl⟩
      · cases hstep
  | callback index =>
      simp only [step] at hstep
      split at hstep
      · rename_i outcome hcall
        cases hstep
        exact .inr ⟨index, outcome, rfl, hcall, rfl⟩
      · cases hstep

/-- The callbacks that pass are those after the last completion, provided the
check can succeed at all. -/
theorem passes_of_run {state final : BarrierState} {labels : List BarrierLabel}
    (count : Nat)
    (hpasses : state.passes = if allFinished state.calls then count else 0)
    (hrun : Machine.run step state labels = some final) :
    final.passes =
      if allFinished final.calls then callbacksSinceCompletion count labels
      else 0 := by
  induction labels generalizing state count with
  | nil =>
      obtain rfl : state = final := by simpa using hrun
      exact hpasses
  | cons label labels ih =>
      obtain ⟨next, hstep, hrest⟩ := Machine.run_cons.mp hrun
      rcases step_cases hstep with
        ⟨index, outcome, called, rfl, hcall, rfl⟩ | ⟨index, outcome, rfl, hcall, rfl⟩
      · rw [allFinished_eq_false_of_pending hcall] at hpasses
        apply ih 0 _ hrest
        rw [ite_self]
        exact hpasses
      · apply ih (count + 1) _ hrest
        simp only [allFinished_set_called hcall, hpasses]
        split
        · rfl
        · rfl

theorem hasEmptySuccess_set {state : BarrierState} {index : Nat}
    {call other : SubCall} (hcall : state.calls[index]? = some call)
    (hnot : call.completed ≠ some (.succeeded 0)) (passes : Nat) :
    HasEmptySuccess ⟨state.calls.set index other, passes⟩ ↔
      other.completed = some (.succeeded 0) ∨ HasEmptySuccess state := by
  have hindex := (List.getElem?_eq_some_iff.mp hcall).1
  constructor
  · intro hfound
    obtain ⟨found, hmem, hempty⟩ := hfound
    cases List.mem_or_eq_of_mem_set hmem with
    | inl hold => exact .inr ⟨found, hold, hempty⟩
    | inr hnew => exact .inl (hnew ▸ hempty)
  · intro hcases
    cases hcases with
    | inl hempty => exact ⟨other, List.mem_set hindex other, hempty⟩
    | inr hold =>
        obtain ⟨found, hmem, hempty⟩ := hold
        obtain ⟨place, hplace⟩ := List.mem_iff_getElem?.mp hmem
        have hne : index ≠ place := by
          intro heq
          rw [← heq, hcall] at hplace
          exact hnot (Option.some.inj hplace ▸ hempty)
        refine ⟨found, List.mem_iff_getElem?.mpr ⟨place, ?_⟩, hempty⟩
        rw [List.getElem?_set_ne hne]
        exact hplace

theorem hasEmptySuccess_of_run {state final : BarrierState}
    {labels : List BarrierLabel}
    (hrun : Machine.run step state labels = some final) :
    HasEmptySuccess final ↔
      HasEmptySuccess state ∨ ∃ index, .complete index (.succeeded 0) ∈ labels := by
  induction labels generalizing state with
  | nil =>
      obtain rfl : state = final := by simpa using hrun
      simp
  | cons label labels ih =>
      obtain ⟨next, hstep, hrest⟩ := Machine.run_cons.mp hrun
      rw [ih hrest]
      rcases step_cases hstep with
        ⟨index, outcome, called, rfl, hcall, rfl⟩ | ⟨index, outcome, rfl, hcall, rfl⟩
      · rw [hasEmptySuccess_set hcall (by simp)]
        simp only [Option.some.injEq, List.mem_cons, BarrierLabel.complete.injEq]
        constructor
        · intro hheld
          rcases hheld with (hempty | hold) | ⟨other, hlater⟩
          · exact .inr ⟨index, .inl ⟨rfl, hempty.symm⟩⟩
          · exact .inl hold
          · exact .inr ⟨other, .inr hlater⟩
        · intro hheld
          rcases hheld with hold | ⟨other, ⟨-, hempty⟩ | hlater⟩
          · exact .inl (.inr hold)
          · exact .inl (.inl hempty.symm)
          · exact .inr ⟨other, hlater⟩
      · have hsame : HasEmptySuccess
            ⟨state.calls.set index ⟨some outcome, true⟩,
              state.passes + if allFinished state.calls then 1 else 0⟩ ↔
              HasEmptySuccess state := by
          by_cases hempty : outcome = .succeeded 0
          · subst hempty
            constructor
            · intro _
              exact ⟨_, List.mem_of_getElem? hcall, rfl⟩
            · intro _
              exact ⟨_, List.mem_set (List.getElem?_eq_some_iff.mp hcall).1 _, rfl⟩
          · rw [hasEmptySuccess_set hcall (by simpa using hempty)]
            simp [hempty]
        rw [hsame]
        simp

theorem allFinished_of_settled {state : BarrierState} (hsettled : state.Settled) :
    allFinished state.calls = true ↔ ¬ HasEmptySuccess state := by
  rw [allFinished_iff]
  constructor
  · rintro hall ⟨call, hmem, hempty⟩
    have hcall := hall call hmem
    simp [SubCall.failed, SubCall.attachmentSize, hempty] at hcall
  · intro hnone call hmem
    cases hcompleted : call.completed with
    | none => exact absurd hcompleted (hsettled call hmem).1
    | some outcome =>
        cases outcome with
        | failed => exact .inl (by simp [SubCall.failed, hcompleted])
        | succeeded size =>
            right
            simp only [SubCall.attachmentSize, hcompleted]
            intro hzero
            exact hnone ⟨call, hmem, by rw [hcompleted, hzero]⟩

/-- In a settled run exactly one callback passes the check exactly when no
sub-call succeeds with an empty body and a single callback is left for after
the last completion. -/
theorem passes_eq_one_iff (count : Nat) {labels : List BarrierLabel}
    {final : BarrierState}
    (hrun : Machine.run step (start count) labels = some final)
    (hsettled : final.Settled) :
    final.passes = 1 ↔
      (∀ index, .complete index (.succeeded 0) ∉ labels) ∧
        callbacksSinceCompletion 0 labels = 1 := by
  have hstart : ¬ HasEmptySuccess (start count) := by
    intro hheld
    obtain ⟨call, hmem, hempty⟩ := hheld
    obtain rfl : call = {} := List.eq_of_mem_replicate hmem
    cases hempty
  have hpasses := passes_of_run 0 (by rw [ite_self]; rfl) hrun
  have hempty := hasEmptySuccess_of_run hrun
  have hfinished := allFinished_of_settled hsettled
  rw [hpasses]
  constructor
  · intro hone
    split at hone
    · rename_i hall
      refine ⟨?_, hone⟩
      intro index hlabel
      exact hfinished.mp hall (hempty.mpr (.inr ⟨index, hlabel⟩))
    · cases hone
  · intro hcount
    obtain ⟨hnone, hone⟩ := hcount
    have hall : allFinished final.calls = true := by
      apply hfinished.mpr
      intro hfinal
      cases hempty.mp hfinal with
      | inl hbefore => exact hstart hbefore
      | inr hlabel =>
          obtain ⟨index, hlabel⟩ := hlabel
          exact hnone index hlabel
    rw [if_pos hall]
    exact hone

/-- Three sub-calls: the callbacks of the first two run in the other order, and before
the third sub-call completes. -/
def mixedLabels : List BarrierLabel :=
  [.complete 0 (.succeeded 2), .complete 1 .failed, .callback 1, .callback 0,
    .complete 2 (.succeeded 5), .callback 2]

theorem passes_eq_one_mixed :
    BarrierState.passes
        ⟨[⟨some (.succeeded 2), true⟩, ⟨some .failed, true⟩, ⟨some (.succeeded 5), true⟩], 1⟩ =
          1 ↔
      (∀ index, .complete index (.succeeded 0) ∉ mixedLabels) ∧
        callbacksSinceCompletion 0 mixedLabels = 1 :=
  passes_eq_one_iff 3 (by decide) (by decide)

/-- One sub-call that succeeds with an empty body: no callback ever passes. -/
theorem emptySuccess_never_passes :
    ¬ ∀ count labels final, 1 ≤ count →
      Machine.run step (start count) labels = some final → final.Settled →
        final.passes = 1 := by
  intro hall
  have hone := hall 1 [.complete 0 (.succeeded 0), .callback 0]
    ⟨[⟨some (.succeeded 0), true⟩], 0⟩ (by decide) (by decide) (by decide)
  cases hone

end BarrierState

end Uskit
