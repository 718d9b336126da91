import Uskit.Flow.DefaultPolicy

namespace Uskit

open Uskit.Data

/-! `AsyncInsideNodePolicy::kernel_process`.  Every known service has a context
of its own, which starts as a copy.  Requests, responses and the flows that
follow a response work on these contexts, each call under their locks; at the
end the contexts of the recalled services are merged back. -/

namespace BackendEngine

/-- `_service_context_index`: names are numbered in the order of the
configuration, and the first number of a name is kept. -/
def serviceIndex (engine : BackendEngine) (name : String) : Option Nat :=
  engine.services.findIdx? (·.name == name)

def serviceSize (engine : BackendEngine) : Nat :=
  (engine.services.map (·.name)).eraseDups.length

end BackendEngine

namespace GlobalClosure

/-- `GlobalClosure::ResponseCheck`, with the response it has put in `backend`. -/
def responseCheck (library : Library) (cntl : BackendController)
    (flowContext : Context) : Result (Context × Option Json) :=
  if cntl.brpcController.failed then .ok (flowContext, none)
  else
    match cntl.parseResponse library flowContext with
    | .ok parsed => do
        let context ← parsed.context.addMember "backend" cntl.serviceName
          parsed.response
        .ok (context.leave, some parsed.response)
    | .failed parsed => .ok (parsed.context.leave, none)
    | .undefined => .undefined

/-- Before the recall of a next flow, its services get a copy of `backend`. -/
def handDown (source target : Context) : Result Context :=
  match source.getVariable "backend" with
  | some backend =>
      .ok ((target.eraseVariable "backend").setVariable "backend" backend)
  | none => .undefined

/-- After that recall, their `backend` is merged into that of the controller. -/
def handUp (source target : Context) : Result Context :=
  match source.getVariable "backend" with
  | some .null => .ok target
  | some backend => .ok (target.enter.mergeVariable "backend" backend).leave
  | none => .undefined

end GlobalClosure

/-- The array `flow_context_array` while a node recalls.  `answers` records the
responses that were put in a `backend`, and `carried` for each context those that
have come into it since. -/
structure AsyncRecall where
  contexts : List Context
  answers : JsonMembers := []
  carried : List (Nat × String × Json) := []
deriving DecidableEq

inductive AsyncLabel where
  /-- The definitions of a flow are evaluated for one of its services. -/
  | define (service : String) (definition : KEMap)
  | build (service : String)
  /-- The callback of a service runs, when its calls have ended. -/
  | respond (service : String) (replies : List RpcReply)
  | handDown (source target : String)
  | handUp (source target : String)

namespace AsyncRecall

variable (env : FlowEnvironment)

def contextOf (calls : AsyncRecall) (service : String) :
    Option (Nat × Context) := do
  let index ← env.backendEngine.serviceIndex service
  let context ← calls.contexts[index]?
  some (index, context)

def setContext (calls : AsyncRecall) (index : Nat) (context : Context) :
    AsyncRecall :=
  { calls with contexts := calls.contexts.set index context }

/-- A controller starts with an empty scope, which policies do not fill. -/
def controller (service : BackendService) (replies : List RpcReply) :
    BackendController :=
  { service := service, replies := replies }

def carry (source target : Nat) (carried : List (Nat × String × Json)) :
    List (Nat × String × Json) :=
  (carried.filter (·.1 == source)).map fun entry => (target, entry.2)

def step : Machine AsyncRecall AsyncLabel := fun calls label =>
  match label with
  | .define service definition => do
      let (index, context) ← calls.contextOf env service
      match definition.runDef env.library context with
      | .ok after | .failed after => some (calls.setContext index after)
      | .undefined => none
  | .build service => do
      let (index, context) ← calls.contextOf env service
      let backend ← env.backendEngine.findService service
      match (controller backend []).buildRequest env.library context with
      | .ok (_, after) => some (calls.setContext index after)
      | _ => none
  | .respond service replies => do
      let (index, context) ← calls.contextOf env service
      let backend ← env.backendEngine.findService service
      match GlobalClosure.responseCheck env.library (controller backend replies)
          context with
      | .ok (after, some response) =>
          some
            { contexts := calls.contexts.set index after
              answers := calls.answers ++ [(service, response)]
              carried := calls.carried ++ [(index, service, response)] }
      | .ok (after, none) => some (calls.setContext index after)
      | _ => none
  | .handDown source target => do
      let (sourceIndex, sourceContext) ← calls.contextOf env source
      let (index, context) ← calls.contextOf env target
      match GlobalClosure.handDown sourceContext context with
      | .ok after =>
          some
            { calls.setContext index after with
              carried :=
                if sourceIndex = index then calls.carried
                else calls.carried.filter (·.1 != index) ++
                  carry sourceIndex index calls.carried }
      | _ => none
  | .handUp source target => do
      let (sourceIndex, sourceContext) ← calls.contextOf env source
      let (index, context) ← calls.contextOf env target
      match GlobalClosure.handUp sourceContext context with
      | .ok after =>
          some
            { calls.setContext index after with
              carried := calls.carried ++ carry sourceIndex index calls.carried }
      | _ => none

end AsyncRecall

/-- The state of the loop that merges the contexts back. -/
structure MergeBack where
  context : Context
  contexts : List Context
  successRecallServices : List String := []
deriving DecidableEq

namespace MergeBack

/-- `merge_variable` moves the value out where there is no variable yet. -/
def movedOut (state : MergeBack) (index : Nat) (context : Context) :
    List Context :=
  match state.context.getVariable "backend" with
  | some _ => state.contexts
  | none => state.contexts.set index (context.updateVariable "backend" .null)

def turn (engine : BackendEngine) (service : String) (state : MergeBack) :
    Result MergeBack :=
  match engine.serviceIndex service with
  | none => .ok state
  | some index =>
      match state.contexts[index]? with
      | none => .undefined
      | some context =>
          match context.getVariable "backend" with
          | none => .undefined
          | some .null => .ok state
          | some backend =>
              .ok
                { context := state.context.mergeVariable "backend" backend
                  contexts := state.movedOut index context
                  successRecallServices :=
                    state.successRecallServices ++ [service] }

def run (engine : BackendEngine) : List String → MergeBack → Result MergeBack
  | [], state => .ok state
  | service :: rest, state => do
      let next ← turn engine service state
      run engine rest next

end MergeBack

/-- What a node has merged back: the flow context before, the contexts of the
services, the services that were looked at, and the flow context after. -/
structure MergedRecall where
  before : Context
  calls : AsyncRecall
  services : List String
  after : Context
deriving DecidableEq

/-- How the recall of a node goes: the calls on the contexts of its services, and
whether `BackendEngine::run` reports an error. -/
structure AsyncSchedule where
  labels : List AsyncLabel
  recallFails : Bool := false

namespace FlowConfig

variable (env : FlowEnvironment)

def copyContext (context : Context) : Result Context :=
  match context.getVariable "request" with
  | some request =>
      .ok
        ⟨[("request", request),
          ("backend", (context.getVariable "backend").getD (.object [])),
          ("result", (context.getVariable "result").getD (.object []))], []⟩
  | none => .undefined

def copyContexts (context : Context) : Result (List Context) :=
  if env.backendEngine.serviceSize = 0 then .ok []
  else do
    let copy ← copyContext context
    .ok (List.replicate env.backendEngine.serviceSize copy)

/-- The first loop of the asynchronous `FlowConfig::recall`. -/
def runDefs (definition : KEMap) :
    List String → List Context → Outcome (List Context)
  | [], contexts => .ok contexts
  | service :: rest, contexts =>
      match env.backendEngine.serviceIndex service with
      | none => .failed contexts
      | some index =>
          match contexts[index]? with
          | none => .undefined
          | some context =>
              ((definition.runDef env.library context).map
                fun after => contexts.set index after).andThen
                  (runDefs definition rest)

/-- The intervention of the asynchronous engine is looked up in the context of
the first service. -/
def asyncIntervene (config : FlowConfig) (contexts : List Context) :
    Result String :=
  match contexts[0]? with
  | some context => config.recallConfig.getInterveneService env.library context
  | none => .undefined

/-- `helper->_intervene_service` keeps the value of an earlier node. -/
def noteIntervention (service : String) (node : NodeState ρ) : NodeState ρ :=
  if service = "" then node else { node with interveneService := service }

def servicesToMerge (config : FlowConfig) (node : NodeState ρ) : List String :=
  if node.interveneService = "" then config.getRecallServiceList
  else [node.interveneService]

def mergeRecall (config : FlowConfig) (calls : AsyncRecall)
    (node : NodeState MergedRecall) : Outcome (NodeState MergedRecall) :=
  .evaluate node
    (MergeBack.run env.backendEngine (config.servicesToMerge node)
      { context := node.context, contexts := calls.contexts })
    fun merged =>
      let after := merged.context.setVariable "recall"
        (.array (merged.successRecallServices.map .string))
      .ok
        { node with
          context := after
          recalled := some
            { before := node.context
              calls := calls
              services := config.servicesToMerge node
              after := after } }

/-- The recall of a node, from the copies of the contexts on. -/
def recallAsync (schedule : AsyncSchedule) (config : FlowConfig)
    (contexts : List Context) (node : NodeState MergedRecall) :
    Outcome (NodeState MergedRecall) :=
  match runDefs env config.definition config.getRecallServiceList contexts with
  | .failed _ => .failed node
  | .undefined => .undefined
  | .ok defined =>
      .evaluate node (config.asyncIntervene env defined) fun service =>
        let noted := noteIntervention service node
        match Machine.run (AsyncRecall.step env) { contexts := defined }
            schedule.labels with
        | none => .undefined
        | some calls =>
            if schedule.recallFails then .failed noted
            else config.mergeRecall env calls noted

/-- `AsyncInsideNodePolicy::kernel_process`. -/
def asyncKernelProcess : Kernel AsyncSchedule MergedRecall :=
  fun schedule config node =>
    .evaluate node (copyContexts env node.context) fun contexts =>
    (onContext (config.recallRunDef env.library) node).andThen fun node =>
    (config.recallAsync env schedule contexts node).andThen
      (config.rankAndOutput env)

end FlowConfig

end Uskit
