import Uskit.Closure.Barrier
import Uskit.Data.Members

namespace Uskit

open Uskit.Data

/-! Cancellation among the calls of one recall: `BackendEngine::run` gives each
controller a closure with the call ids that are listed by then, and the closures
run as the calls end. -/

/-- The id of a controller's own call, or of a sub-call of a dynamic HTTP service. -/
inductive RpcId where
  | own (cntl : Nat)
  | sub (cntl index : Nat)
deriving DecidableEq, Repr

def RpcId.cntl : RpcId → Nat
  | .own cntl => cntl
  | .sub cntl _ => cntl

abbrev CallIdPriorityPair := RpcId × Int

inductive RecallEngine where
  | sync
  /-- With a flow policy; only a global one has a table of call ids behind
  `ids_ptr`. -/
  | async (idsPtr : Bool)
deriving DecidableEq, Repr

structure RecallCntl where
  priority : Int
  isDynamic : Bool
  recallNext : String := ""
deriving DecidableEq, Repr

/-- The known services of a recall, in its order. -/
structure CancelRecall where
  engine : RecallEngine
  cancelOrder : String
  cntls : List RecallCntl
deriving DecidableEq, Repr

inductive ClosureKind where
  | doNothing
  | allCancel
  | priority
  | hierarchy
  | global
deriving DecidableEq, Repr

structure ControllerClosure where
  kind : ClosureKind
  rpcIds : List CallIdPriorityPair
  selfPriority : Int
deriving DecidableEq, Repr

def buildControllerClosure (cancelOrder : String) (flowPolicy : Bool) : ClosureKind :=
  if flowPolicy then .global
  else if cancelOrder = "ALL" then .allCancel
  else if cancelOrder = "PRIORITY" then .priority
  else if cancelOrder = "HIERACHY" then .hierarchy
  else .doNothing

/-- The second loop of `run`. -/
inductive BuildPhase where
  | building (index : Nat)
  /-- Inside `build_request`, with so many calls sent. -/
  | requesting (index sent : Nat)
  /-- It returned 0; the mutex of a dynamic service is free again. -/
  | requested (index sent : Nat)
deriving DecidableEq, Repr

namespace BuildPhase

def index : BuildPhase → Nat
  | .building index => index
  | .requesting index _ | .requested index _ => index

/-- How many controllers have their closure. -/
def started : BuildPhase → Nat
  | .building index => index
  | .requesting index _ | .requested index _ => index + 1

/-- How many calls a controller has sent whose sub-calls are not listed yet. -/
def sentBy (cntl : Nat) : BuildPhase → Option Nat
  | .building _ => none
  | .requesting index sent | .requested index sent =>
      if index = cntl then some sent else none

theorem started_le (phase : BuildPhase) : phase.started ≤ phase.index + 1 := by
  cases phase with
  | building index => exact Nat.le_succ index
  | requesting index => exact Nat.le_refl (index + 1)
  | requested index => exact Nat.le_refl (index + 1)

theorem sentBy_requesting {index sent cntl count : Nat} :
    (requesting index sent).sentBy cntl = some count ↔ index = cntl ∧ sent = count := by
  simp [sentBy]

end BuildPhase

structure CancelState where
  phase : BuildPhase
  cntlsCallIds : List CallIdPriorityPair
  closures : List ControllerClosure
  launched : List RpcId
  ended : Members RpcId SubCallOutcome
  /-- The calls whose closure has run. -/
  called : List RpcId
  /-- The ids in the table, in case there is one. -/
  stored : List RpcId
  cancelled : List RpcId
deriving DecidableEq, Repr

/-- What a closure of the asynchronous engine finds: `parse_response` returned 0,
the next flows, if any, ran to their end, the success flag is true, the quit condition
is met. -/
structure ClosureChecks where
  parsed : Bool
  nextFlowsRun : Bool
  successFlag : Bool
  quits : Bool
deriving DecidableEq, Repr

inductive CancelLabel where
  | build
  | launch
  | buildFailed
  | requested
  | built
  | complete (callId : RpcId) (outcome : SubCallOutcome)
  | callback (callId : RpcId) (checks : ClosureChecks)
deriving DecidableEq, Repr

namespace CancelRecall

def isAsync (recalled : CancelRecall) : Bool :=
  recalled.engine != .sync

/-- The ids that the first loop lists: the asynchronous one leaves out the unused
ones of dynamic services. -/
def ownIds (recalled : CancelRecall) : List CallIdPriorityPair :=
  recalled.cntls.zipIdx.filterMap fun entry =>
    if recalled.isAsync && entry.1.isDynamic then none
    else some (.own entry.2, entry.1.priority)

/-- The ids of all controllers, as `set_call_id` has stored them. -/
def storedIds (recalled : CancelRecall) : List RpcId :=
  (List.range recalled.cntls.length).map .own

/-- After the first loop. -/
def start (recalled : CancelRecall) : CancelState where
  phase := .building 0
  cntlsCallIds := recalled.ownIds
  closures := []
  launched := []
  ended := []
  called := []
  stored := recalled.storedIds
  cancelled := []

end CancelRecall

namespace ControllerClosure

/-- `AllCancelClosure::cancel` and its siblings: is the call to be cancelled? -/
def cancels (closure : ControllerClosure) (priority : Int) : Bool :=
  match closure.kind with
  | .allCancel => true
  | .priority => decide (priority ≤ closure.selfPriority)
  | .hierarchy => decide (priority = closure.selfPriority)
  | .doNothing | .global => false

/-- `BaseRPCClosure::Run`. -/
def run (closure : ControllerClosure) (rpcFailed : Bool) : List RpcId :=
  if rpcFailed then []
  else (closure.rpcIds.filter fun rpcId => closure.cancels rpcId.2).map Prod.fst

/-- `GlobalClosure::cancel`; only a table can be told to quit. -/
def globalCancel (closure : ControllerClosure) (recalled : CancelRecall)
    (priority : Int) (checks : ClosureChecks) (stored : List RpcId) : List RpcId :=
  if recalled.cancelOrder = "GLOBAL_CANCEL" then
    if recalled.engine = .async true ∧ checks.quits = true then stored else []
  else if !checks.successFlag then []
  else (closure.rpcIds.filter fun rpcId =>
    recalled.cancelOrder = "ALL" ∨
      recalled.cancelOrder = "PRIORITY" ∧ rpcId.2 ≤ priority ∨
      recalled.cancelOrder = "HIERACHY" ∧ rpcId.2 = priority).map Prod.fst

end ControllerClosure

namespace CancelState

/-- `brpc_controller().Failed()`; the own call of a dynamic service is never made. -/
def rpcFailed (state : CancelState) (cntl : Nat) : Bool :=
  state.ended.lookup (.own cntl) == some .failed

/-- `brpc_controller_list()`. -/
def subCalls (state : CancelState) (cntl : Nat) : List SubCall :=
  (state.launched.filter (·.cntl = cntl)).map fun callId =>
    { completed := state.ended.lookup callId }

/-- The calls that a closure starts to cancel when it runs, after the next flows. -/
def cancelledBy (recalled : CancelRecall) (state : CancelState) (callId : RpcId)
    (checks : ClosureChecks) : List RpcId :=
  match recalled.cntls[callId.cntl]?, state.closures[callId.cntl]? with
  | some cntl, some closure =>
      match closure.kind with
      | .global =>
          if cntl.isDynamic && !allFinished (state.subCalls callId.cntl) then []
          else if state.rpcFailed callId.cntl || !checks.parsed then []
          else if cntl.recallNext ≠ "" ∧ checks.nextFlowsRun = false then []
          else closure.globalCancel recalled cntl.priority checks state.stored
      | _ => closure.run (state.rpcFailed callId.cntl)
  | _, _ => []

/-- The closure of a dynamic service of the asynchronous engine waits for the mutex
that the request policy holds while it sends. -/
def canRun (recalled : CancelRecall) (state : CancelState) (callId : RpcId) : Bool :=
  match state.phase with
  | .building _ | .requested _ _ => true
  | .requesting index _ => !(recalled.isAsync && index = callId.cntl &&
      (recalled.cntls[index]?).any RecallCntl.isDynamic)

/-- The first call of an ordinary service, the next sub-call of a dynamic one. -/
def nextCall (index sent : Nat) (cntl : RecallCntl) : Option RpcId :=
  if cntl.isDynamic then some (.sub index sent)
  else if sent = 0 then some (.own index)
  else none

def subIds (index sent : Nat) : List RpcId :=
  (List.range sent).map (.sub index)

/-- After `build_request` returned 0.  The asynchronous engine lists the sub-calls of
a dynamic service and stores them through `ids_ptr`, which has to be there.  It returns
if the table refuses them; its controllers are gone then, and so are the steps. -/
def afterBuilt (recalled : CancelRecall) (index sent : Nat) (cntl : RecallCntl)
    (state : CancelState) : Option CancelState :=
  if recalled.isAsync && cntl.isDynamic then
    if recalled.engine = .async true then
      some { state with
        phase := .building (index + 1)
        cntlsCallIds :=
          state.cntlsCallIds ++ (subIds index sent).map fun callId => (callId, cntl.priority)
        stored := state.stored ++ subIds index sent }
    else none
  else some { state with phase := .building (index + 1) }

def step (recalled : CancelRecall) : Machine CancelState CancelLabel
  | state, .build =>
      match state.phase with
      | .building index =>
          (recalled.cntls[index]?).map fun cntl =>
            { state with
              phase := .requesting index 0
              closures := state.closures ++
                [⟨buildControllerClosure recalled.cancelOrder recalled.isAsync,
                  state.cntlsCallIds, cntl.priority⟩] }
      | _ => none
  | state, .launch =>
      match state.phase with
      | .requesting index sent => do
          let cntl ← recalled.cntls[index]?
          let callId ← nextCall index sent cntl
          some { state with
            phase := .requesting index (sent + 1)
            launched := state.launched ++ [callId] }
      | _ => none
  | state, .buildFailed =>
      match state.phase with
      | .requesting index 0 => some { state with phase := .building (index + 1) }
      | _ => none
  | state, .requested =>
      match state.phase with
      | .requesting index sent => some { state with phase := .requested index sent }
      | _ => none
  | state, .built =>
      match state.phase with
      | .requested index sent => do
          let cntl ← recalled.cntls[index]?
          afterBuilt recalled index sent cntl state
      | _ => none
  | state, .complete callId outcome =>
      if callId ∈ state.launched ∧ state.ended.lookup callId = none then
        some { state with ended := state.ended ++ [(callId, outcome)] }
      else none
  | state, .callback callId checks =>
      if (state.ended.lookup callId).isSome ∧ callId ∉ state.called ∧
          state.canRun recalled callId then
        some { state with
          called := callId :: state.called
          cancelled := state.cancelled ++ state.cancelledBy recalled callId checks }
      else none

/-- What a step does, each with what made it possible. -/
theorem step_cases {recalled : CancelRecall} {state next : CancelState} {label : CancelLabel}
    (hstep : step recalled state label = some next) :
    (∃ index cntl, label = .build ∧ state.phase = .building index ∧
      recalled.cntls[index]? = some cntl ∧ next = { state with
        phase := .requesting index 0
        closures := state.closures ++
          [⟨buildControllerClosure recalled.cancelOrder recalled.isAsync,
            state.cntlsCallIds, cntl.priority⟩] }) ∨
    (∃ index sent cntl callId, label = .launch ∧ state.phase = .requesting index sent ∧
      recalled.cntls[index]? = some cntl ∧ nextCall index sent cntl = some callId ∧
      next = { state with
        phase := .requesting index (sent + 1)
        launched := state.launched ++ [callId] }) ∨
    (∃ index, label = .buildFailed ∧ state.phase = .requesting index 0 ∧
      next = { state with phase := .building (index + 1) }) ∨
    (∃ index sent, label = .requested ∧ state.phase = .requesting index sent ∧
      next = { state with phase := .requested index sent }) ∨
    (∃ index sent cntl, label = .built ∧ state.phase = .requested index sent ∧
      recalled.cntls[index]? = some cntl ∧
      afterBuilt recalled index sent cntl state = some next) ∨
    (∃ callId outcome, label = .complete callId outcome ∧ callId ∈ state.launched ∧
      state.ended.lookup callId = none ∧
      next = { state with ended := state.ended ++ [(callId, outcome)] }) ∨
    ∃ callId checks, label = .callback callId checks ∧
      (state.ended.lookup callId).isSome ∧ callId ∉ state.called ∧
      state.canRun recalled callId = true ∧ next = { state with
        called := callId :: state.called
        cancelled := state.cancelled ++ state.cancelledBy recalled callId checks } := by
  cases label with
  | build =>
      rw [step] at hstep
      split at hstep
      · rename_i index hphase
        obtain ⟨cntl, hcntl, hnext⟩ := Option.map_eq_some_iff.mp hstep
        exact .inl ⟨index, cntl, rfl, hphase, hcntl, hnext.symm⟩
      · cases hstep
  | launch =>
      rw [step] at hstep
      split at hstep
      · rename_i index sent hphase
        obtain ⟨cntl, hcntl, hrest⟩ := Option.bind_eq_some_iff.mp hstep
        obtain ⟨callId, hcall, hnext⟩ := Option.bind_eq_some_iff.mp hrest
        exact .inr (.inl ⟨index, sent, cntl, callId, rfl, hphase, hcntl, hcall,
          (Option.some.inj hnext).symm⟩)
      · cases hstep
  | buildFailed =>
      rw [step] at hstep
      split at hstep
      · rename_i index hphase
        exact .inr (.inr (.inl ⟨index, rfl, hphase, (Option.some.inj hstep).symm⟩))
      · cases hstep
  | requested =>
      rw [step] at hstep
      split at hstep
      · rename_i index sent hphase
        exact .inr (.inr (.inr (.inl ⟨index, sent, rfl, hphase,
          (Option.some.inj hstep).symm⟩)))
      · cases hstep
  | built =>
      rw [step] at hstep
      split at hstep
      · rename_i index sent hphase
        obtain ⟨cntl, hcntl, hnext⟩ := Option.bind_eq_some_iff.mp hstep
        exact .inr (.inr (.inr (.inr (.inl
          ⟨index, sent, cntl, rfl, hphase, hcntl, hnext⟩))))
      · cases hstep
  | complete callId outcome =>
      rw [step] at hstep
      split at hstep
      · rename_i henabled
        exact .inr (.inr (.inr (.inr (.inr (.inl ⟨callId, outcome, rfl, henabled.1,
          henabled.2, (Option.some.inj hstep).symm⟩)))))
      · cases hstep
  | callback callId checks =>
      rw [step] at hstep
      split at hstep
      · rename_i henabled
        exact .inr (.inr (.inr (.inr (.inr (.inr ⟨callId, checks, rfl, henabled.1,
          henabled.2.1, henabled.2.2, (Option.some.inj hstep).symm⟩)))))
      · cases hstep

end CancelState

end Uskit
