import Uskit.Closure.CancelCoverage

namespace Uskit

open Uskit.Data

/-! When a recall cancels what its `cancel_order` says. -/

/-- The order covers the calls of priority `other` once a service of priority `self`
has ended well. -/
def Covers (cancelOrder : String) (self other : Int) : Prop :=
  cancelOrder = "ALL" ∨ cancelOrder = "PRIORITY" ∧ other ≤ self ∨
    cancelOrder = "HIERACHY" ∧ other = self

namespace CancelState

def InFlight (state : CancelState) (callId : RpcId) : Prop :=
  callId ∈ state.launched ∧ state.ended.lookup callId = none

/-- The service of the call has no next flow and has completed successfully.  A
response is parsed only when all sub-calls have brought a body. -/
structure Succeeds (recalled : CancelRecall) (state : CancelState) (callId : RpcId)
    (checks : ClosureChecks) (cntl : RecallCntl) : Prop where
  found : recalled.cntls[callId.cntl]? = some cntl
  noNext : cntl.recallNext = ""
  sent : cntl.isDynamic = true → ∀ count, state.phase ≠ .requesting callId.cntl count
  answered : ∀ call ∈ state.launched, call.cntl = callId.cntl →
    ∃ size, state.ended.lookup call = some (.succeeded size)
  parsed : recalled.isAsync = true → checks.parsed = true ∧
    (cntl.isDynamic = true → allFinished (state.subCalls callId.cntl) = true)
  flagged : recalled.isAsync = true → checks.successFlag = true

end CancelState

namespace CancelRecall

open CancelState

/-- In every run, whenever the closure of a service that has completed successfully
runs, it cancels the other services' calls in flight that the order covers. -/
structure CancelsRight (recalled : CancelRecall) : Prop where
  covered : ∀ labels state next callId checks cntl other otherCntl,
    Machine.run (step recalled) recalled.start labels = some state →
    step recalled state (.callback callId checks) = some next →
    Succeeds recalled state callId checks cntl →
    state.InFlight other → other.cntl ≠ callId.cntl →
    recalled.cntls[other.cntl]? = some otherCntl →
      (other ∈ state.cancelledBy recalled callId checks ↔
        Covers recalled.cancelOrder cntl.priority otherCntl.priority)
  none : recalled.cancelOrder = "NONE" → ∀ labels state,
    Machine.run (step recalled) recalled.start labels = some state → state.cancelled = []

/-- The closure of the one service goes wrong on the other: its list is the one of the
time it was built, and the synchronous engine never lists a sub-call.  Without a table
the loop does not get past a dynamic service.  A table cancels all calls when it is
told to quit. -/
def Misses (recalled : CancelRecall) (index other : Nat) (cntl otherCntl : RecallCntl) :
    Prop :=
  match recalled.engine with
  | .sync => otherCntl.isDynamic = true ∧
      Covers recalled.cancelOrder cntl.priority otherCntl.priority
  | .async idsPtr =>
      idsPtr = true ∧ recalled.cancelOrder = "GLOBAL_CANCEL" ∨
      otherCntl.isDynamic = true ∧ index < other ∧
        (idsPtr = true ∨ cntl.isDynamic = false) ∧
        Covers recalled.cancelOrder cntl.priority otherCntl.priority

def NoneMissed (recalled : CancelRecall) : Prop :=
  ∀ index other cntl otherCntl, index ≠ other →
    recalled.cntls[index]? = some cntl → recalled.cntls[other]? = some otherCntl →
    cntl.recallNext = "" → ¬ recalled.Misses index other cntl otherCntl

end CancelRecall

theorem Covers.order {cancelOrder : String} {self other : Int}
    (hcovers : Covers cancelOrder self other) :
    cancelOrder ≠ "GLOBAL_CANCEL" ∧ cancelOrder ≠ "NONE" := by
  rcases hcovers with rfl | ⟨rfl, -⟩ | ⟨rfl, -⟩ <;> decide

theorem buildControllerClosure_ne_global {cancelOrder : String} :
    buildControllerClosure cancelOrder false ≠ .global := by
  unfold buildControllerClosure
  rw [if_neg Bool.false_ne_true]
  split_ifs <;> decide

namespace ControllerClosure

theorem cancels_iff {closure : ControllerClosure} {cancelOrder : String} {priority : Int}
    (hkind : closure.kind = buildControllerClosure cancelOrder false) :
    closure.cancels priority = true ↔
      Covers cancelOrder closure.selfPriority priority := by
  unfold cancels Covers
  rw [hkind]
  unfold buildControllerClosure
  by_cases hall : cancelOrder = "ALL"
  · simp [hall]
  · by_cases hpriority : cancelOrder = "PRIORITY"
    · simp [hpriority]
    · by_cases hhierarchy : cancelOrder = "HIERACHY"
      · simp [hhierarchy]
      · simp [hall, hpriority, hhierarchy]

theorem mem_run {closure : ControllerClosure} {cancelOrder : String} {callId : RpcId}
    (hkind : closure.kind = buildControllerClosure cancelOrder false) :
    callId ∈ closure.run false ↔ ∃ priority, (callId, priority) ∈ closure.rpcIds ∧
      Covers cancelOrder closure.selfPriority priority := by
  simp [run, cancels_iff hkind]

theorem mem_globalCancel {closure : ControllerClosure} {recalled : CancelRecall}
    {self : Int} {checks : ClosureChecks} {stored : List RpcId} {callId : RpcId}
    (horder : recalled.cancelOrder ≠ "GLOBAL_CANCEL") :
    callId ∈ closure.globalCancel recalled self checks stored ↔
      checks.successFlag = true ∧ ∃ priority, (callId, priority) ∈ closure.rpcIds ∧
        Covers recalled.cancelOrder self priority := by
  unfold globalCancel
  rw [if_neg horder]
  cases hflag : checks.successFlag with
  | false => simp
  | true => simp [Covers]

end ControllerClosure

namespace CancelState

variable {recalled : CancelRecall} {state : CancelState} {callId other : RpcId}
  {checks : ClosureChecks}

/-- A closure that is not told to quit cancels listed calls that the order covers. -/
theorem covers_of_mem_cancelledBy (hstate : Consistent recalled state)
    (hquit : recalled.cancelOrder = "GLOBAL_CANCEL" → recalled.engine ≠ .async true)
    (hmem : other ∈ state.cancelledBy recalled callId checks) :
    ∃ cntl priority, recalled.cntls[callId.cntl]? = some cntl ∧
      recalled.Listed state.launched callId.cntl other priority ∧
      Covers recalled.cancelOrder cntl.priority priority := by
  unfold cancelledBy at hmem
  split at hmem
  · rename_i cntl closure hcntl hfound
    obtain ⟨own, hown, hpriority, hkind, hids⟩ := hstate.closure _ closure hfound
    rw [hcntl] at hown
    cases hown
    split at hmem
    · split at hmem
      · cases hmem
      · split at hmem
        · cases hmem
        · split at hmem
          · cases hmem
          · by_cases horder : recalled.cancelOrder = "GLOBAL_CANCEL"
            · rw [ControllerClosure.globalCancel, if_pos horder, if_neg] at hmem
              · cases hmem
              · exact fun hquits => hquit horder hquits.1
            · obtain ⟨-, priority, hlisted, hcovers⟩ :=
                (ControllerClosure.mem_globalCancel horder).mp hmem
              exact ⟨cntl, priority, hcntl, (hids other priority).mp hlisted, hcovers⟩
    · rename_i hnotGlobal
      have hsync : recalled.isAsync = false := by
        cases hasync : recalled.isAsync with
        | false => rfl
        | true =>
            rw [hasync] at hkind
            exact absurd hkind hnotGlobal
      rw [hsync] at hkind
      cases hfailed : state.rpcFailed callId.cntl with
      | true =>
          rw [hfailed] at hmem
          cases hmem
      | false =>
          rw [hfailed] at hmem
          obtain ⟨priority, hlisted, hcovers⟩ := (ControllerClosure.mem_run hkind).mp hmem
          rw [hpriority] at hcovers
          exact ⟨cntl, priority, hcntl, (hids other priority).mp hlisted, hcovers⟩
  · cases hmem

/-- A service that ends well has its closure, and its own call has not failed. -/
theorem Succeeds.ready {cntl : RecallCntl} (hstate : Consistent recalled state)
    (hsucceeds : Succeeds recalled state callId checks cntl)
    (hended : (state.ended.lookup callId).isSome) :
    (∃ closure, state.closures[callId.cntl]? = some closure) ∧
      state.rpcFailed callId.cntl = false := by
  constructor
  · obtain ⟨_, _, hmade⟩ := hstate.launched callId (hstate.ended callId hended)
    have hbound := hmade.1
    rw [← hstate.count] at hbound
    exact ⟨_, List.getElem?_eq_getElem hbound⟩
  · rw [Bool.eq_false_iff]
    intro hfailed
    rw [rpcFailed, beq_iff_eq] at hfailed
    have hlaunched : .own callId.cntl ∈ state.launched := by
      apply hstate.ended
      rw [hfailed]
      rfl
    obtain ⟨size, hsize⟩ := hsucceeds.answered _ hlaunched rfl
    rw [hfailed] at hsize
    cases hsize

/-- What the closure of a service that ends well comes to. -/
theorem Succeeds.cancelledBy_eq {cntl : RecallCntl} (hstate : Consistent recalled state)
    (hsucceeds : Succeeds recalled state callId checks cntl)
    (hended : (state.ended.lookup callId).isSome) :
    ∃ closure, state.closures[callId.cntl]? = some closure ∧
      state.cancelledBy recalled callId checks =
        if recalled.isAsync then
          closure.globalCancel recalled cntl.priority checks state.stored
        else closure.run false := by
  obtain ⟨⟨closure, hfound⟩, hfailed⟩ := hsucceeds.ready hstate hended
  obtain ⟨_, _, _, hkind, _⟩ := hstate.closure _ closure hfound
  refine ⟨closure, hfound, ?_⟩
  unfold cancelledBy
  rw [hsucceeds.found, hfound]
  dsimp only
  cases hasync : recalled.isAsync with
  | false =>
      rw [hasync] at hkind
      rw [hfailed, if_neg Bool.false_ne_true]
      split
      · rename_i hglobal
        exact absurd (hkind.symm.trans hglobal) buildControllerClosure_ne_global
      · rfl
  | true =>
      rw [hasync, buildControllerClosure, if_pos rfl] at hkind
      obtain ⟨hparsed, hfinished⟩ := hsucceeds.parsed hasync
      have hbarrier :
          (cntl.isDynamic && !allFinished (state.subCalls callId.cntl)) = false := by
        cases hdynamic : cntl.isDynamic with
        | false => rfl
        | true => rw [hfinished hdynamic]; rfl
      rw [hkind, hbarrier, hfailed, hparsed, if_pos rfl]
      dsimp only
      rw [if_neg Bool.false_ne_true, if_neg (by decide),
        if_neg fun hnext => hnext.1 hsucceeds.noNext]

theorem mem_cancelledBy_of_listed {cntl : RecallCntl} {priority : Int}
    (hstate : Consistent recalled state)
    (hsucceeds : Succeeds recalled state callId checks cntl)
    (hended : (state.ended.lookup callId).isSome)
    (hlisted : recalled.Listed state.launched callId.cntl other priority)
    (hcovers : Covers recalled.cancelOrder cntl.priority priority) :
    other ∈ state.cancelledBy recalled callId checks := by
  obtain ⟨closure, hfound, heq⟩ := hsucceeds.cancelledBy_eq hstate hended
  obtain ⟨own, hown, hpriority, hkind, hids⟩ := hstate.closure _ closure hfound
  rw [hsucceeds.found] at hown
  cases hown
  have hmem := (hids other priority).mpr hlisted
  rw [heq]
  cases hasync : recalled.isAsync with
  | false =>
      rw [hasync] at hkind
      rw [if_neg Bool.false_ne_true]
      exact (ControllerClosure.mem_run hkind).mpr ⟨priority, hmem, by rwa [hpriority]⟩
  | true =>
      rw [if_pos rfl]
      exact (ControllerClosure.mem_globalCancel hcovers.order.1).mpr
        ⟨hsucceeds.flagged hasync, priority, hmem, hcovers⟩

/-- What a table is told to cancel when the condition to quit is met. -/
theorem mem_cancelledBy_of_stored {cntl : RecallCntl} (hstate : Consistent recalled state)
    (hsucceeds : Succeeds recalled state callId checks cntl)
    (hended : (state.ended.lookup callId).isSome)
    (hengine : recalled.engine = .async true)
    (horder : recalled.cancelOrder = "GLOBAL_CANCEL") (hquits : checks.quits = true)
    (hstored : other ∈ state.stored) :
    other ∈ state.cancelledBy recalled callId checks := by
  obtain ⟨closure, -, heq⟩ := hsucceeds.cancelledBy_eq hstate hended
  rw [heq, if_pos (isAsync_of_engine hengine), ControllerClosure.globalCancel,
    if_pos horder, if_pos ⟨hengine, hquits⟩]
  exact hstored

theorem cancelledBy_nil (hstate : Consistent recalled state)
    (hnone : recalled.cancelOrder = "NONE") :
    state.cancelledBy recalled callId checks = [] := by
  have hquit : recalled.cancelOrder = "GLOBAL_CANCEL" → recalled.engine ≠ .async true := by
    rw [hnone]
    exact fun horder => absurd horder (by decide)
  apply List.eq_nil_iff_forall_not_mem.mpr
  intro other hmem
  obtain ⟨_, _, _, _, hcovers⟩ := covers_of_mem_cancelledBy hstate hquit hmem
  exact hcovers.order.2 hnone

theorem cancelled_of_afterBuilt {index sent : Nat} {cntl : RecallCntl} {next : CancelState}
    (hnext : afterBuilt recalled index sent cntl state = some next) :
    next.cancelled = state.cancelled := by
  unfold afterBuilt at hnext
  split_ifs at hnext <;> cases hnext <;> rfl

theorem cancelled_nil_step {next : CancelState} {label : CancelLabel}
    (hnone : recalled.cancelOrder = "NONE")
    (hstate : Consistent recalled state ∧ state.cancelled = [])
    (hstep : step recalled state label = some next) :
    Consistent recalled next ∧ next.cancelled = [] := by
  refine ⟨consistent_step hstate.1 hstep, ?_⟩
  obtain ⟨index, cntl, -, hphase, hcntl, rfl⟩ |
    ⟨index, sent, cntl, callId, -, hphase, hcntl, hcall, rfl⟩ |
    ⟨index, -, hphase, rfl⟩ | ⟨index, sent, -, hphase, rfl⟩ |
    ⟨index, sent, cntl, -, hphase, hcntl, hnext⟩ |
    ⟨callId, outcome, -, hmem, hpending, rfl⟩ |
    ⟨callId, checks, -, -, -, -, rfl⟩ := step_cases hstep
  · exact hstate.2
  · exact hstate.2
  · exact hstate.2
  · exact hstate.2
  · exact (cancelled_of_afterBuilt hnext).trans hstate.2
  · exact hstate.2
  · dsimp only
    rw [hstate.2, cancelledBy_nil hstate.1 hnone, List.append_nil]

theorem cancelled_nil_of_run (hnone : recalled.cancelOrder = "NONE")
    {labels : List CancelLabel}
    (hrun : Machine.run (step recalled) recalled.start labels = some state) :
    state.cancelled = [] := by
  have hkept : Consistent recalled state ∧ state.cancelled = [] :=
    Machine.run_invariant (cancelled_nil_step hnone) ⟨start_consistent recalled, rfl⟩ hrun
  exact hkept.2

end CancelState

namespace CancelRecall

open CancelState

variable {recalled : CancelRecall}

/-- A call that the closure is to cancel was listed before that closure was built. -/
theorem listed_of_not_misses {state : CancelState} {callId other : RpcId}
    {cntl otherCntl : RecallCntl} (hstate : Consistent recalled state)
    (hmem : callId ∈ state.launched) (hfound : recalled.cntls[callId.cntl]? = some cntl)
    (hlaunched : other ∈ state.launched) (hne : other.cntl ≠ callId.cntl)
    (hother : recalled.cntls[other.cntl]? = some otherCntl)
    (hgood : ¬ recalled.Misses callId.cntl other.cntl cntl otherCntl)
    (hcovers : Covers recalled.cancelOrder cntl.priority otherCntl.priority) :
    recalled.Listed state.launched callId.cntl other otherCntl.priority := by
  obtain ⟨own, hown, hmade⟩ := hstate.launched other hlaunched
  rw [hother] at hown
  cases hown
  refine ⟨otherCntl, hother, rfl, ?_⟩
  cases other with
  | own owner => exact .inr hmade.2
  | sub owner position =>
      have hdynamic := hmade.2.1
      cases hengine : recalled.engine with
      | sync =>
          rw [Misses, hengine] at hgood
          exact absurd ⟨hdynamic, hcovers⟩ hgood
      | async idsPtr =>
          refine ⟨isAsync_of_engine hengine, ?_, hlaunched⟩
          by_contra hlate
          have hafter : callId.cntl < owner :=
            Nat.lt_of_le_of_ne (Nat.not_lt.mp hlate) hne.symm
          have htable : idsPtr = true ∨ cntl.isDynamic = false := by
            cases idsPtr with
            | true => exact .inl rfl
            | false =>
                right
                by_contra hkind
                rw [Bool.not_eq_false] at hkind
                have hreached := hstate.noTable hengine callId hmem cntl hfound hkind
                have hstarted : owner < state.phase.index + 1 :=
                  Nat.lt_of_lt_of_le hmade.1 state.phase.started_le
                omega
          rw [Misses, hengine] at hgood
          exact hgood (.inr ⟨hdynamic, hafter, htable, hcovers⟩)

theorem cancelsRight_of_noneMissed (hnone : recalled.NoneMissed) : recalled.CancelsRight := by
  constructor
  · intro labels state next callId checks cntl other otherCntl hrun hstep hsucceeds hflight
      hne hother
    have hstate := consistent_of_run hrun
    have hended : (state.ended.lookup callId).isSome := by
      rw [step] at hstep
      split at hstep
      · rename_i henabled
        exact henabled.1
      · cases hstep
    have hgood := hnone callId.cntl other.cntl cntl otherCntl hne.symm hsucceeds.found hother
      hsucceeds.noNext
    constructor
    · intro hmem
      have hquit : recalled.cancelOrder = "GLOBAL_CANCEL" →
          recalled.engine ≠ .async true := by
        intro horder hengine
        apply hgood
        rw [Misses, hengine]
        exact .inl ⟨rfl, horder⟩
      obtain ⟨own, priority, hown, ⟨listed, hlisted, rfl, -⟩, hcovers⟩ :=
        covers_of_mem_cancelledBy hstate hquit hmem
      rw [hsucceeds.found] at hown
      rw [hother] at hlisted
      cases hown
      cases hlisted
      exact hcovers
    · intro hcovers
      have hlisted := listed_of_not_misses hstate (hstate.ended callId hended)
        hsucceeds.found hflight.1 hne hother hgood hcovers
      exact mem_cancelledBy_of_listed hstate hsucceeds hended hlisted hcovers
  · exact fun horder labels state hrun => cancelled_nil_of_run horder hrun

end CancelRecall

/-! Runs in which each controller sends one call, and one of them ends first. -/

namespace CancelState

variable {recalled : CancelRecall} {state : CancelState} {index : Nat} {cntl : RecallCntl}

def firstCall (index : Nat) (cntl : RecallCntl) : RpcId :=
  if cntl.isDynamic then .sub index 0 else .own index

theorem firstCall_cntl : (firstCall index cntl).cntl = index := by
  unfold firstCall
  split_ifs <;> rfl

theorem nextCall_zero : nextCall index 0 cntl = some (firstCall index cntl) := by
  unfold nextCall firstCall
  split
  · rfl
  · rw [if_pos rfl]

/-- A controller has its closure and has sent its first call. -/
def sendFirst (recalled : CancelRecall) (state : CancelState) (index : Nat)
    (cntl : RecallCntl) : CancelState :=
  { state with
    phase := .requesting index 1
    closures := state.closures ++
      [⟨buildControllerClosure recalled.cancelOrder recalled.isAsync,
        state.cntlsCallIds, cntl.priority⟩]
    launched := state.launched ++ [firstCall index cntl] }

theorem step_build (hphase : state.phase = .building index)
    (hcntl : recalled.cntls[index]? = some cntl) :
    step recalled state .build = some { state with
      phase := .requesting index 0
      closures := state.closures ++
        [⟨buildControllerClosure recalled.cancelOrder recalled.isAsync,
          state.cntlsCallIds, cntl.priority⟩] } := by
  rw [step, hphase]
  dsimp only
  rw [hcntl]
  rfl

theorem run_sendFirst (hphase : state.phase = .building index)
    (hcntl : recalled.cntls[index]? = some cntl) :
    Machine.run (step recalled) state [.build, .launch] =
      some (sendFirst recalled state index cntl) := by
  rw [Machine.run, step_build hphase hcntl, Option.bind_some, Machine.run, step]
  dsimp only
  rw [hcntl, Option.bind_eq_bind, Option.bind_some, nextCall_zero]
  rfl

theorem run_built {sent : Nat} {next : CancelState}
    (hphase : state.phase = .requesting index sent)
    (hcntl : recalled.cntls[index]? = some cntl)
    (hnext : afterBuilt recalled index sent cntl
      { state with phase := .requested index sent } = some next) :
    Machine.run (step recalled) state [.requested, .built] = some next := by
  have hrequested : step recalled state .requested =
      some { state with phase := .requested index sent } := by
    rw [step, hphase]
  rw [Machine.run, hrequested, Option.bind_some, Machine.run, step]
  dsimp only
  rw [hcntl, Option.bind_eq_bind, Option.bind_some, hnext]
  rfl

theorem run_buildFailed (hphase : state.phase = .building index)
    (hcntl : recalled.cntls[index]? = some cntl) :
    Machine.run (step recalled) state [.build, .buildFailed] = some { state with
      phase := .building (index + 1)
      closures := state.closures ++
        [⟨buildControllerClosure recalled.cancelOrder recalled.isAsync,
          state.cntlsCallIds, cntl.priority⟩] } := by
  rw [Machine.run, step_build hphase hcntl, Option.bind_some, Machine.run, step]
  rfl

/-- Only first calls have been made, and none has ended. -/
structure OnlyFirst (recalled : CancelRecall) (state : CancelState) : Prop where
  calls : ∀ callId ∈ state.launched, ∃ cntl,
    recalled.cntls[callId.cntl]? = some cntl ∧ callId = firstCall callId.cntl cntl
  ended : state.ended = []
  called : state.called = []

theorem OnlyFirst.sendFirst (hfirst : OnlyFirst recalled state)
    (hcntl : recalled.cntls[index]? = some cntl) :
    OnlyFirst recalled (sendFirst recalled state index cntl) := by
  refine ⟨?_, hfirst.ended, hfirst.called⟩
  unfold CancelState.sendFirst
  rw [List.forall_mem_append, List.forall_mem_singleton, firstCall_cntl]
  exact ⟨hfirst.calls, cntl, hcntl, rfl⟩

/-- The first `count` controllers have sent their first calls, as far as the loop gets
past them. -/
structure AllFirst (recalled : CancelRecall) (count : Nat) (state : CancelState) : Prop
    extends OnlyFirst recalled state where
  phase : state.phase = .building count
  sent : ∀ index cntl, index < count → recalled.cntls[index]? = some cntl →
    (recalled.engine = .async false → cntl.isDynamic = false) →
      firstCall index cntl ∈ state.launched

theorem start_allFirst (recalled : CancelRecall) : AllFirst recalled 0 recalled.start where
  calls := List.forall_mem_nil _
  ended := rfl
  called := rfl
  phase := rfl
  sent _ _ hindex := absurd hindex (Nat.not_lt_zero _)

/-- The loop gets past a controller unless its sub-calls have no table to go to. -/
theorem exists_afterBuilt (index sent : Nat) (state : CancelState)
    (hpasses : recalled.engine = .async false → cntl.isDynamic = false) :
    ∃ next, afterBuilt recalled index sent cntl state = some next ∧
      next.phase = .building (index + 1) ∧ next.launched = state.launched ∧
      next.ended = state.ended ∧ next.called = state.called := by
  unfold afterBuilt
  split
  · rename_i hlists
    rw [Bool.and_eq_true] at hlists
    cases hengine : recalled.engine with
    | sync =>
        rw [CancelRecall.isAsync, hengine] at hlists
        exact absurd hlists.1 (by decide)
    | async idsPtr =>
        cases idsPtr with
        | true => exact ⟨_, rfl, rfl, rfl, rfl, rfl⟩
        | false =>
            rw [hpasses hengine] at hlists
            exact absurd hlists.2 Bool.false_ne_true
  · exact ⟨_, rfl, rfl, rfl, rfl, rfl⟩

theorem AllFirst.next {count : Nat} (hstate : AllFirst recalled count state)
    (hcntl : recalled.cntls[count]? = some cntl) :
    ∃ labels next, Machine.run (step recalled) state labels = some next ∧
      AllFirst recalled (count + 1) next := by
  by_cases hpasses : recalled.engine = .async false → cntl.isDynamic = false
  · obtain ⟨next, hnext, hphase, hlaunched, hended, hcalled⟩ :=
      exists_afterBuilt count 1
        { CancelState.sendFirst recalled state count cntl with phase := .requested count 1 }
        hpasses
    obtain ⟨hcalls, hnoneEnded, hnoneCalled⟩ := hstate.toOnlyFirst.sendFirst hcntl
    refine ⟨[.build, .launch] ++ [.requested, .built], next, ?_,
      ⟨?_, ?_, ?_⟩, hphase, ?_⟩
    · rw [Machine.run_append, run_sendFirst hstate.phase hcntl, Option.bind_some]
      exact run_built rfl hcntl hnext
    · rw [hlaunched]
      exact hcalls
    · exact hended.trans hnoneEnded
    · exact hcalled.trans hnoneCalled
    · intro index other hindex hother hpassesOther
      rw [hlaunched]
      rcases Nat.lt_succ_iff_lt_or_eq.mp hindex with hbefore | rfl
      · exact List.mem_append_left _ (hstate.sent index other hbefore hother hpassesOther)
      · rw [hcntl] at hother
        cases hother
        exact List.mem_append_right _ (List.mem_singleton.mpr rfl)
  · refine ⟨[.build, .buildFailed], _, run_buildFailed hstate.phase hcntl,
      ⟨hstate.calls, hstate.ended, hstate.called⟩, rfl, ?_⟩
    intro index other hindex hother hpassesOther
    rcases Nat.lt_succ_iff_lt_or_eq.mp hindex with hbefore | rfl
    · exact hstate.sent index other hbefore hother hpassesOther
    · rw [hcntl] at hother
      cases hother
      exact absurd hpassesOther hpasses

theorem exists_allFirst (recalled : CancelRecall) {count : Nat}
    (hcount : count ≤ recalled.cntls.length) :
    ∃ labels state, Machine.run (step recalled) recalled.start labels = some state ∧
      AllFirst recalled count state := by
  induction count with
  | zero => exact ⟨[], recalled.start, rfl, start_allFirst recalled⟩
  | succ count ih =>
      obtain ⟨labels, state, hrun, hstate⟩ := ih (Nat.le_of_succ_le hcount)
      obtain ⟨turn, next, hturn, hnext⟩ :=
        hstate.next (List.getElem?_eq_getElem (Nat.lt_of_succ_le hcount))
      refine ⟨labels ++ turn, next, ?_, hnext⟩
      rw [Machine.run_append, hrun]
      exact hturn

/-- The first call of a controller ends well, the others stay in flight. -/
def endFirst (state : CancelState) (callId : RpcId) : CancelState :=
  { state with ended := [(callId, .succeeded 1)] }

theorem run_endFirst {callId : RpcId} (hfirst : OnlyFirst recalled state)
    (hmem : callId ∈ state.launched) :
    Machine.run (step recalled) state [.complete callId (.succeeded 1)] =
      some (state.endFirst callId) := by
  have hended : state.ended = [] := hfirst.ended
  rw [Machine.run, step, hended, if_pos ⟨hmem, rfl⟩]
  rfl

theorem lookup_endFirst_ne {callId other : RpcId} (hne : other.cntl ≠ callId.cntl) :
    (state.endFirst callId).ended.lookup other = none := by
  have hother : other ≠ callId := fun heq => hne (by rw [heq])
  exact Members.lookup_cons_of_ne hother _ _

theorem OnlyFirst.succeeds (hfirst : OnlyFirst recalled state)
    (hcntl : recalled.cntls[index]? = some cntl) (hnoNext : cntl.recallNext = "")
    (hphase : ∀ count, state.phase ≠ .requesting index count) :
    Succeeds recalled (state.endFirst (firstCall index cntl)) (firstCall index cntl)
      ⟨true, true, true, true⟩ cntl := by
  have hanswered : ∀ call ∈ state.launched, call.cntl = index →
      (state.endFirst (firstCall index cntl)).ended.lookup call =
        some (.succeeded 1) := by
    intro call hcall howner
    obtain ⟨own, hown, hfirstCall⟩ := hfirst.calls call hcall
    rw [howner, hcntl] at hown
    cases hown
    rw [hfirstCall, howner]
    exact List.lookup_cons_self
  refine ⟨by rwa [firstCall_cntl], hnoNext, ?_, ?_, ?_, fun _ => rfl⟩
  · rw [firstCall_cntl]
    exact fun _ => hphase
  · rw [firstCall_cntl]
    exact fun call hcall howner => ⟨1, hanswered call hcall howner⟩
  · refine fun _ => ⟨rfl, fun _ => ?_⟩
    rw [allFinished_iff, firstCall_cntl]
    intro call hcall
    obtain ⟨callId, hsent, rfl⟩ := List.mem_map.mp hcall
    rw [List.mem_filter, decide_eq_true_eq] at hsent
    rw [hanswered callId hsent.1 hsent.2]
    exact .inr (by decide)

theorem OnlyFirst.callback (hfirst : OnlyFirst recalled state) (cntl : RecallCntl)
    (hphase : ∀ count, state.phase ≠ .requesting index count) (checks : ClosureChecks) :
    ∃ next, step recalled (state.endFirst (firstCall index cntl))
      (.callback (firstCall index cntl) checks) = some next := by
  have hended : ((state.endFirst (firstCall index cntl)).ended.lookup
      (firstCall index cntl)).isSome := by
    rw [endFirst, List.lookup_cons_self]
    rfl
  have hfresh : firstCall index cntl ∉ (state.endFirst (firstCall index cntl)).called := by
    rw [endFirst, hfirst.called]
    exact List.not_mem_nil
  have hfree : (state.endFirst (firstCall index cntl)).canRun recalled
      (firstCall index cntl) = true := by
    unfold canRun endFirst
    rw [firstCall_cntl]
    split
    · rfl
    · rfl
    · rename_i reached sent heq
      have hne : reached ≠ index := by
        intro hindex
        rw [hindex] at heq
        exact hphase sent heq
      simp [hne]
  rw [step, if_pos ⟨hended, hfresh, hfree⟩]
  exact ⟨_, rfl⟩

end CancelState

namespace CancelRecall

open CancelState

variable {recalled : CancelRecall} {index other : Nat} {cntl otherCntl : RecallCntl}

/-- Both services have sent a call, and the loop is not at the first one. -/
theorem exists_bothFirst (hcntl : recalled.cntls[index]? = some cntl)
    (hother : recalled.cntls[other]? = some otherCntl)
    (hmisses : recalled.Misses index other cntl otherCntl) :
    ∃ labels state, Machine.run (step recalled) recalled.start labels = some state ∧
      OnlyFirst recalled state ∧ firstCall index cntl ∈ state.launched ∧
      firstCall other otherCntl ∈ state.launched ∧
      (∀ count, state.phase ≠ .requesting index count) ∧
      (recalled.engine = .async true → other < state.phase.index) := by
  have hindex := (List.getElem?_eq_some_iff.mp hcntl).1
  have hlength := (List.getElem?_eq_some_iff.mp hother).1
  by_cases hengine : recalled.engine = .async false
  · rw [Misses, hengine] at hmisses
    rcases hmisses with ⟨htable, -⟩ | ⟨-, hbefore, hplain, -⟩
    · cases htable
    · obtain ⟨labels, state, hrun, hstate⟩ :=
        exists_allFirst recalled (Nat.le_of_lt hlength)
      have hfirst := hstate.sent index cntl hbefore hcntl
        fun _ => hplain.resolve_left Bool.false_ne_true
      refine ⟨labels ++ [.build, .launch], sendFirst recalled state other otherCntl, ?_,
        hstate.toOnlyFirst.sendFirst hother, List.mem_append_left _ hfirst,
        List.mem_append_right _ (List.mem_singleton.mpr rfl), ?_, ?_⟩
      · rw [Machine.run_append, hrun, Option.bind_some]
        exact run_sendFirst hstate.phase hother
      · intro count hphase
        cases hphase
        exact Nat.lt_irrefl _ hbefore
      · intro htable
        rw [hengine] at htable
        cases htable
  · have hcount : max index other + 1 ≤ recalled.cntls.length :=
      Nat.succ_le_of_lt (Nat.max_lt.mpr ⟨hindex, hlength⟩)
    obtain ⟨labels, state, hrun, hstate⟩ := exists_allFirst recalled hcount
    refine ⟨labels, state, hrun, hstate.toOnlyFirst, ?_, ?_, ?_, ?_⟩
    · exact hstate.sent index cntl (Nat.lt_succ_of_le (Nat.le_max_left index other)) hcntl
        fun htable => absurd htable hengine
    · exact hstate.sent other otherCntl
        (Nat.lt_succ_of_le (Nat.le_max_right index other)) hother
        fun htable => absurd htable hengine
    · rw [hstate.phase]
      exact fun _ hphase => nomatch hphase
    · rw [hstate.phase]
      exact fun _ => Nat.lt_succ_of_le (Nat.le_max_right index other)

theorem Listed.of_firstCall {launched : List RpcId} {low : Nat} {priority : Int}
    (hlisted : recalled.Listed launched low (firstCall other otherCntl) priority)
    (hdynamic : otherCntl.isDynamic = true) : recalled.isAsync = true ∧ other < low := by
  rw [firstCall, if_pos hdynamic] at hlisted
  obtain ⟨_, _, _, hasync, hbefore, _⟩ := hlisted
  exact ⟨hasync, hbefore⟩

theorem not_misses_of_cancelsRight (hright : recalled.CancelsRight) (hne : index ≠ other)
    (hcntl : recalled.cntls[index]? = some cntl)
    (hother : recalled.cntls[other]? = some otherCntl) (hnoNext : cntl.recallNext = "") :
    ¬ recalled.Misses index other cntl otherCntl := by
  intro hmisses
  obtain ⟨labels, state, hrun, hfirst, hmem, hmemOther, hphase, htable⟩ :=
    exists_bothFirst hcntl hother hmisses
  have hended := run_endFirst hfirst hmem
  have hfinal : Machine.run (step recalled) recalled.start
      (labels ++ [.complete (firstCall index cntl) (.succeeded 1)]) =
        some (state.endFirst (firstCall index cntl)) := by
    rw [Machine.run_append, hrun]
    exact hended
  have hstate := consistent_of_run hfinal
  have hsucceeds := hfirst.succeeds hcntl hnoNext hphase
  have hlookup : ((state.endFirst (firstCall index cntl)).ended.lookup
      (firstCall index cntl)).isSome := by
    rw [endFirst, List.lookup_cons_self]
    rfl
  have howner : (firstCall other otherCntl).cntl ≠ (firstCall index cntl).cntl := by
    rw [firstCall_cntl, firstCall_cntl]
    exact hne.symm
  obtain ⟨next, hnext⟩ := hfirst.callback cntl hphase ⟨true, true, true, true⟩
  have hexact := hright.covered _ _ next _ _ cntl _ otherCntl hfinal hnext hsucceeds
    ⟨hmemOther, lookup_endFirst_ne howner⟩ howner (by rwa [firstCall_cntl])
  cases hengine : recalled.engine with
  | sync =>
      rw [Misses, hengine] at hmisses
      obtain ⟨_, _, _, hlisted, _⟩ := covers_of_mem_cancelledBy hstate
        (fun _ => by rw [hengine]; exact nofun) (hexact.mpr hmisses.2)
      have hasync := (hlisted.of_firstCall hmisses.1).1
      rw [isAsync, hengine] at hasync
      cases hasync
  | async idsPtr =>
      rw [Misses, hengine] at hmisses
      rcases hmisses with ⟨rfl, horder⟩ | ⟨hdynamic, hbefore, -, hcovers⟩
      · have hstored : firstCall other otherCntl ∈ state.stored := by
          cases hkind : otherCntl.isDynamic with
          | false =>
              rw [firstCall, if_neg (by rw [hkind]; exact Bool.false_ne_true)]
              exact hstate.storedOwn other (List.getElem?_eq_some_iff.mp hother).1
          | true =>
              apply hstate.storedSub hengine _ hmemOther otherCntl _ hkind
              · rw [firstCall_cntl]
                exact htable hengine
              · rwa [firstCall_cntl]
        exact (hexact.mp (mem_cancelledBy_of_stored hstate hsucceeds hlookup hengine horder
          rfl hstored)).order.1 horder
      · obtain ⟨_, _, _, hlisted, _⟩ := covers_of_mem_cancelledBy hstate
          (fun horder => absurd horder hcovers.order.1) (hexact.mpr hcovers)
        have hlate := (hlisted.of_firstCall hdynamic).2
        rw [firstCall_cntl] at hlate
        omega

/-- A recall cancels what its order covers unless one of its services may miss, or may
cut off, a call of another. -/
theorem cancelsRight_iff (recalled : CancelRecall) :
    recalled.CancelsRight ↔ recalled.NoneMissed := by
  constructor
  · intro hright index other cntl otherCntl hne hcntl hother hnoNext
    exact not_misses_of_cancelsRight hright hne hcntl hother hnoNext
  · exact cancelsRight_of_noneMissed

/-- An asynchronous recall of an ordinary service and, after it, a dynamic one. -/
def dynamicLast : CancelRecall where
  engine := .async true
  cancelOrder := "ALL"
  cntls := [⟨1, false, ""⟩, ⟨1, true, ""⟩]

/-- The closure of the ordinary service was built when no sub-call was listed. -/
theorem dynamicLast_missed : ¬ dynamicLast.CancelsRight := by
  intro hright
  have hkept : ¬ dynamicLast.Misses 0 1 ⟨1, false, ""⟩ ⟨1, true, ""⟩ :=
    not_misses_of_cancelsRight hright (by decide) rfl rfl rfl
  apply hkept
  exact .inr ⟨rfl, Nat.zero_lt_one, .inl rfl, .inl rfl⟩

end CancelRecall

end Uskit
