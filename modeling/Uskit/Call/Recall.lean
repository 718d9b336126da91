import Uskit.Call.CallIds
import Uskit.Data.History
import Uskit.Data.Machine

namespace Uskit

open Uskit.Data

/-! The asynchronous `BackendEngine::run` as threads that share one table of
call ids: register every id, launch the calls, join them.  Other threads stop
the flow meanwhile. -/

/-- A service to recall, with the call id of its controller. -/
structure RecallEntry where
  name : String
  index : Nat
  callId : CallId
  isDynamic : Bool
deriving DecidableEq, Repr

/-- What `build_request` did for a service. -/
inductive BuildOutcome where
  /-- A return code other than 0. -/
  | failed
  /-- Return code 0 with nothing to send: the service has no request policy. -/
  | idle
  /-- Return code 0: the call of an ordinary service is launched, or a sub-call
  for each of the given ids. -/
  | launched (subCallIds : List CallId)
deriving DecidableEq, Repr

inductive RecallPhase where
  /-- The first loop, with the services it has still to register. -/
  | registering (waiting : List RecallEntry)
  /-- The second loop. -/
  | building (waiting : List RecallEntry)
  /-- The second loop, about to register the sub-calls of `entry`. -/
  | registeringSubCalls (entry : RecallEntry) (subCallIds : List CallId)
      (waiting : List RecallEntry)
  /-- The loop of joins over `cntls_call_ids`. -/
  | joining (waiting : List (CallId × String))
  | returned (code : Int)
  /-- A call through the null pointer `ids_ptr`. -/
  | crashed
deriving DecidableEq, Repr

structure RecallLoop where
  phase : RecallPhase
  cntls : List RecallEntry
  cntlsCallIds : List (CallId × String)
  buildRequestResult : List String
  launched : List CallId
  joined : List CallId
deriving DecidableEq, Repr

inductive RecallEvent where
  | accepted (index : Nat) (callId : CallId)
  | acceptedSubCalls (index : Nat) (callIds : List CallId)
  | launched (callId : CallId)
  | quit (cancelled : List CallId)
  | ready
deriving DecidableEq, Repr

inductive RecallAction where
  | register
  | build (outcome : BuildOutcome)
  | registerSubCalls
  | join
  /-- From the end of one loop to the next. -/
  | advance
deriving DecidableEq, Repr

namespace RecallLoop

def start (services : List RecallEntry) : RecallLoop where
  phase := .registering services
  cntls := []
  cntlsCallIds := []
  buildRequestResult := []
  launched := []
  joined := []

/-- The code that follows `set_call_id`: the phase after each of its answers. -/
def afterSet (answer : SetAnswer) (accepted : RecallPhase) : RecallPhase :=
  match answer with
  | .accepted => accepted
  | .rejected => .returned (-1)
  | .quitting => .returned 0

def register (table : Option CallIdsVec) (entry : RecallEntry)
    (waiting : List RecallEntry) (loop : RecallLoop) :
    Option CallIdsVec × RecallLoop × List RecallEvent :=
  let listed :=
    { loop with
      cntls := loop.cntls ++ [entry]
      cntlsCallIds :=
        if entry.isDynamic then loop.cntlsCallIds
        else loop.cntlsCallIds ++ [(entry.callId, entry.name)] }
  match table with
  | none => (none, { listed with phase := .registering waiting }, [])
  | some table =>
      let result := table.setCallId entry.index entry.callId
      (some result.2,
        { listed with phase := afterSet result.1 (.registering waiting) },
        if result.1 = .accepted then [.accepted entry.index entry.callId] else [])

/-- The call of an ordinary service, or the sub-calls of a dynamic one. -/
def launch (entry : RecallEntry) (waiting : List RecallEntry)
    (subCallIds : List CallId) (loop : RecallLoop) :
    RecallLoop × List RecallEvent :=
  let built :=
    { loop with buildRequestResult := loop.buildRequestResult ++ [entry.name] }
  if entry.isDynamic then
    ({ built with
        phase := .registeringSubCalls entry subCallIds waiting
        cntlsCallIds :=
          loop.cntlsCallIds ++ subCallIds.map fun callId => (callId, entry.name)
        launched := loop.launched ++ subCallIds },
      subCallIds.map .launched)
  else
    ({ built with
        phase := .building waiting
        launched := loop.launched ++ [entry.callId] },
      [.launched entry.callId])

def build (entry : RecallEntry) (waiting : List RecallEntry)
    (outcome : BuildOutcome) (loop : RecallLoop) :
    RecallLoop × List RecallEvent :=
  match outcome with
  | .failed => ({ loop with phase := .building waiting }, [])
  | .idle =>
      ({ loop with
          phase :=
            if entry.isDynamic then .registeringSubCalls entry [] waiting
            else .building waiting
          buildRequestResult := loop.buildRequestResult ++ [entry.name] }, [])
  | .launched subCallIds => loop.launch entry waiting subCallIds

/-- `set_call_id` through a pointer that is not checked. -/
def registerSubCalls (table : Option CallIdsVec) (entry : RecallEntry)
    (subCallIds : List CallId) (waiting : List RecallEntry) (loop : RecallLoop) :
    Option CallIdsVec × RecallLoop × List RecallEvent :=
  match table with
  | none => (none, { loop with phase := .crashed }, [])
  | some table =>
      let result := table.setCallIds entry.index subCallIds
      (some result.2,
        { loop with phase := afterSet result.1 (.building waiting) },
        if result.1 = .accepted then [.acceptedSubCalls entry.index subCallIds]
        else [])

/-- `Join` returns for a call that was launched, and blocks for another. -/
def join (call : CallId × String) (waiting : List (CallId × String))
    (loop : RecallLoop) : Option RecallLoop :=
  if call.2 ∈ loop.buildRequestResult then
    if call.1 ∈ loop.launched then
      some { loop with phase := .joining waiting, joined := call.1 :: loop.joined }
    else none
  else some { loop with phase := .joining waiting }

def step (table : Option CallIdsVec) (loop : RecallLoop) (action : RecallAction) :
    Option (Option CallIdsVec × RecallLoop × List RecallEvent) :=
  match loop.phase, action with
  | .registering (entry :: waiting), .register =>
      some (loop.register table entry waiting)
  | .registering [], .advance =>
      some (table, { loop with phase := .building loop.cntls }, [])
  | .building (entry :: waiting), .build outcome =>
      some (table, loop.build entry waiting outcome)
  | .building [], .advance =>
      some (table, { loop with phase := .joining loop.cntlsCallIds }, [])
  | .registeringSubCalls entry subCallIds waiting, .registerSubCalls =>
      some (loop.registerSubCalls table entry subCallIds waiting)
  | .joining (call :: waiting), .join =>
      (loop.join call waiting).map fun loop => (table, loop, [])
  | .joining [], .advance =>
      some (table, { loop with phase := .returned 0 }, [])
  | _, _ => none

end RecallLoop

structure RecallState where
  /-- The shared table; a flow policy without global cancel has none. -/
  table : Option CallIdsVec
  loops : List RecallLoop
  /-- What has happened, the newest first. -/
  history : List RecallEvent
deriving DecidableEq, Repr

inductive RecallLabel where
  | loop (index : Nat) (action : RecallAction)
  | quitFlow
  | setReadyToQuite
deriving DecidableEq, Repr

namespace RecallState

def start (table : Option CallIdsVec) (recalls : List (List RecallEntry)) :
    RecallState where
  table := table
  loops := recalls.map RecallLoop.start
  history := []

def step : Machine RecallState RecallLabel
  | state, .loop index action => do
      let loop ← state.loops[index]?
      let result ← loop.step state.table action
      some ⟨result.1, state.loops.set index result.2.1,
        result.2.2.reverse ++ state.history⟩
  | state, .quitFlow => do
      let table ← state.table
      some { state with
        table := some table.quitFlow.2
        history := .quit table.quitFlow.1 :: state.history }
  | state, .setReadyToQuite => do
      let table ← state.table
      some { state with
        table := some table.setReadyToQuite
        history := .ready :: state.history }

theorem step_cases {state next : RecallState} {label : RecallLabel}
    (hstep : step state label = some next) :
    (∃ index action loop result,
        label = .loop index action ∧ state.loops[index]? = some loop ∧
        loop.step state.table action = some result ∧
        next = ⟨result.1, state.loops.set index result.2.1,
          result.2.2.reverse ++ state.history⟩) ∨
      (∃ table, label = .quitFlow ∧ state.table = some table ∧
        next = { state with
          table := some table.quitFlow.2
          history := .quit table.storedIds :: state.history }) ∨
      (∃ table, label = .setReadyToQuite ∧ state.table = some table ∧
        next = { state with
          table := some table.setReadyToQuite
          history := .ready :: state.history }) := by
  cases label with
  | loop index action =>
      simp only [step, Option.bind_eq_bind, Option.bind_eq_some_iff,
        Option.some.injEq] at hstep
      obtain ⟨loop, hloop, result, hrun, rfl⟩ := hstep
      exact .inl ⟨index, action, loop, result, rfl, hloop, hrun, rfl⟩
  | quitFlow =>
      simp only [step, Option.bind_eq_bind, Option.bind_eq_some_iff,
        Option.some.injEq] at hstep
      obtain ⟨table, htable, rfl⟩ := hstep
      exact .inr (.inl ⟨table, rfl, htable, rfl⟩)
  | setReadyToQuite =>
      simp only [step, Option.bind_eq_bind, Option.bind_eq_some_iff,
        Option.some.injEq] at hstep
      obtain ⟨table, htable, rfl⟩ := hstep
      exact .inr (.inr ⟨table, rfl, htable, rfl⟩)

end RecallState

end Uskit
