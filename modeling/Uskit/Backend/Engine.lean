import Uskit.Backend.ResponsePolicy

namespace Uskit

open Uskit.Data

/-! Services, controllers, and the synchronous `BackendEngine::run`. -/

structure BackendService where
  name : String
  protocol : Protocol
  requestPolicy : Option (RequestPolicy protocol) := none
  responsePolicy : Option ResponsePolicy := none

structure BackendController where
  service : BackendService
  /-- The own variables of the context of the controller. -/
  ownVariables : JsonMembers := []
  /-- `build_request` has returned 0. -/
  built : Bool := false
  sent : List RpcRequest := []
  /-- What the calls in `sent` ended with, once they are joined. -/
  replies : List RpcReply := []

namespace BackendController

def serviceName (cntl : BackendController) : String :=
  cntl.service.name

/-- The context of the controller, below the context of the flow. -/
def context (cntl : BackendController) (flowContext : Context) : Context :=
  ⟨cntl.ownVariables, flowContext.scopes⟩

def buildRequest (library : Library) (cntl : BackendController)
    (flowContext : Context) : Result (BackendController × Context) :=
  match cntl.service.requestPolicy with
  | none => .ok ({ cntl with built := true }, flowContext)
  | some policy =>
      match policy.run library (cntl.context flowContext) with
      | .ok exchange =>
          .ok
            ({ cntl with
                built := true
                ownVariables := exchange.context.ownVariables
                sent := exchange.sent },
              exchange.context.leave)
      | .failed exchange =>
          .ok
            ({ cntl with
                ownVariables := exchange.context.ownVariables
                sent := exchange.sent },
              exchange.context.leave)
      | .undefined => .undefined

/-- The RPC controller of the base class; a dynamic controller leaves it unused
and has one of its own for each sub-call. -/
def brpcController (cntl : BackendController) : RpcReply :=
  match cntl.service.protocol with
  | .http | .redis => cntl.replies.headD {}
  | .dynamicHttp => {}

def failed (cntl : BackendController) : Bool :=
  match cntl.service.protocol with
  | .http | .redis => cntl.brpcController.failed
  | .dynamicHttp => cntl.replies.any (·.failed)

/-- The response that a response policy gives to its configuration. -/
def fetched (library : Library) (cntl : BackendController) : Result Json :=
  match cntl.service.protocol with
  | .http => cntl.brpcController.httpResponse library
  | .dynamicHttp => do
      let responses ← RpcReply.httpResponses library cntl.replies
      .ok (.array responses)
  | .redis => do
      let entries ← RpcReply.redisEntries cntl.brpcController.redisReplies
      .ok (.array entries)

def parseResponse (library : Library) (cntl : BackendController)
    (flowContext : Context) : Outcome Parsed :=
  match cntl.service.responsePolicy with
  | none => .ok { context := cntl.context flowContext }
  | some policy =>
      policy.run library (cntl.fetched library) (cntl.context flowContext)

end BackendController

/-- What the calls of a recall end with, by controller and by call. -/
abbrev RpcReplies := (cntl call : Nat) → RpcReply

/-- What the last loop has collected: the services it has put in the variable
`recall`, each with the response it has put in `backend`. -/
structure Collected where
  context : Context
  answers : JsonMembers := []
deriving DecidableEq

namespace Collected

def recalled (collected : Collected) : Json :=
  .array (collected.answers.names.map .string)

end Collected

structure BackendEngine where
  services : List BackendService

namespace BackendEngine

def findService (engine : BackendEngine) (name : String) : Option BackendService :=
  engine.services.find? (·.name == name)

theorem findService_name {engine : BackendEngine} {name : String} {service : BackendService}
    (hfind : engine.findService name = some service) : service.name = name := by
  simpa using List.find?_some hfind

def buildControllers (engine : BackendEngine) (recallServices : List String) :
    List BackendController :=
  recallServices.filterMap fun name =>
    (engine.findService name).map fun service => { service := service }

def buildRequests (library : Library) :
    List BackendController → Context → Result (List BackendController × Context)
  | [], context => .ok ([], context)
  | cntl :: rest, context => do
      let (first, afterFirst) ← cntl.buildRequest library context
      let (others, afterRest) ← buildRequests library rest afterFirst
      .ok (first :: others, afterRest)

def buildRequestResult (cntls : List BackendController) : List String :=
  (cntls.filter (·.built)).map (·.serviceName)

/-- The join of a call that was never issued does not return. -/
def joins (built : List String) (cntl : BackendController) : Bool :=
  match cntl.service.protocol with
  | .http | .redis =>
      !built.contains cntl.serviceName || !cntl.sent.isEmpty
  | .dynamicHttp => true

def receive (rpc : RpcReplies) (cntls : List BackendController) :
    List BackendController :=
  cntls.mapIdx fun index cntl =>
    { cntl with replies := cntl.sent.mapIdx fun call _ => rpc index call }

def request (library : Library) (rpc : RpcReplies) (engine : BackendEngine)
    (recallServices : List String) (context : Context) :
    Result (List BackendController × Context) := do
  let (cntls, afterBuild) ←
    buildRequests library (engine.buildControllers recallServices) context
  if cntls.all (joins (buildRequestResult cntls)) then
    .ok (receive rpc cntls, afterBuild)
  else .undefined

def collectTurn (library : Library) (cntl : BackendController)
    (collected : Collected) : Result Collected :=
  if cntl.brpcController.failed then .ok collected
  else
    match cntl.parseResponse library collected.context with
    | .ok parsed => do
        let context ← parsed.context.leave.addMember "backend" cntl.serviceName
          parsed.response
        .ok
          { context := context
            answers := collected.answers ++
              [(cntl.serviceName, parsed.response)] }
    | .failed parsed => .ok { collected with context := parsed.context.leave }
    | .undefined => .undefined

def collect (library : Library) :
    List BackendController → Collected → Result Collected
  | [], collected => .ok collected
  | cntl :: rest, collected => do
      let next ← collectTurn library cntl collected
      collect library rest next

def run (library : Library) (rpc : RpcReplies) (engine : BackendEngine)
    (recallServices : List String) (context : Context) : Result Collected := do
  let (cntls, afterBuild) ← engine.request library rpc recallServices context
  let collected ← collect library cntls { context := afterBuild }
  .ok
    { collected with
      context := collected.context.setVariable "recall" collected.recalled }

end BackendEngine

/-! What the loops leave of a variable that no policy writes. -/

section Frame

variable {name : String} (library : Library)

theorem BackendController.buildRequest_allNamed
    (hname : name ∉ RequestPolicy.writtenNames) (cntl : BackendController)
    {context after : Context} {next : BackendController}
    (hbuild : cntl.buildRequest library context = .ok (next, after)) :
    after.allNamed name = context.allNamed name := by
  unfold buildRequest at hbuild
  cases hpolicy : cntl.service.requestPolicy with
  | none =>
      rw [hpolicy] at hbuild
      cases hbuild
      rfl
  | some policy =>
      rw [hpolicy] at hbuild
      have hrun := policy.run_allNamed library hname (cntl.context context)
      simp only at hbuild
      generalize policy.run library (cntl.context context) = outcome
        at hbuild hrun
      cases hrun with
      | ok same =>
          cases hbuild
          exact Context.allNamed_leave (Context.outerNamed_of_allNamed same)
      | failed same =>
          cases hbuild
          exact Context.allNamed_leave (Context.outerNamed_of_allNamed same)
      | undefined => cases hbuild

theorem BackendController.parseResponse_controllerNamed (hname : "output" ≠ name)
    (cntl : BackendController) (context : Context) :
    (cntl.parseResponse library context).Leaves fun parsed =>
      parsed.context.allNamed name = (cntl.context context).allNamed name := by
  unfold parseResponse
  cases cntl.service.responsePolicy with
  | none => exact .ok rfl
  | some policy =>
      exact policy.run_allNamed library hname _ (cntl.context context)

theorem BackendController.parseResponse_allNamed (hname : "output" ≠ name)
    (cntl : BackendController) (context : Context) :
    (cntl.parseResponse library context).Leaves fun parsed =>
      parsed.context.leave.allNamed name = context.allNamed name := by
  apply (cntl.parseResponse_controllerNamed library hname context).mono
  intro parsed hsame
  exact Context.allNamed_leave (Context.outerNamed_of_allNamed hsame)

namespace BackendEngine

theorem buildRequests_allNamed (hname : name ∉ RequestPolicy.writtenNames)
    {cntls built : List BackendController} {context after : Context}
    (hbuild : buildRequests library cntls context = .ok (built, after)) :
    after.allNamed name = context.allNamed name := by
  induction cntls generalizing context built with
  | nil =>
      cases hbuild
      rfl
  | cons cntl rest ih =>
      obtain ⟨⟨first, afterFirst⟩, hfirst, hothers⟩ :=
        Result.bind_eq_ok.mp hbuild
      obtain ⟨⟨others, afterRest⟩, hrest, hpair⟩ := Result.bind_eq_ok.mp hothers
      cases hpair
      rw [ih hrest, cntl.buildRequest_allNamed library hname hfirst]

theorem request_allNamed (hname : name ∉ RequestPolicy.writtenNames)
    {rpc : RpcReplies} {engine : BackendEngine} {recallServices : List String}
    {cntls : List BackendController} {context after : Context}
    (hrequest : engine.request library rpc recallServices context =
      .ok (cntls, after)) :
    after.allNamed name = context.allNamed name := by
  obtain ⟨⟨built, afterBuild⟩, hbuild, hjoin⟩ := Result.bind_eq_ok.mp hrequest
  simp only at hjoin
  split at hjoin
  · cases hjoin
    exact buildRequests_allNamed library hname hbuild
  · cases hjoin

end BackendEngine

end Frame

end Uskit
