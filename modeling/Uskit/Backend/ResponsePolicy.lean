import Uskit.Backend.RequestPolicy

namespace Uskit

open Uskit.Data

/-! Response policies: the response that a controller has parsed. -/

inductive RedisReply where
  | nil
  | string (data : String)
  | integer (value : Int)
  | array (elements : List RedisReply)
  | error (message : String)
  | unknown
deriving Repr, Inhabited

namespace RedisReply

def isError : RedisReply → Bool
  | .error _ => true
  | _ => false

mutual
/-- `parse_redis_reply`; the 64 bits of an integer are cut to an `int`. -/
def parse : RedisReply → Result Json
  | .nil => .ok .null
  | .string data => .ok (.string data)
  | .integer value => .ok (.number (.int (value.bmod (2 ^ 32))))
  | .array elements => do
      let values ← parseElements elements
      .ok (.array values)
  | .error message => .ok (.string message)
  | .unknown => .failed

def parseElements : List RedisReply → Result (List Json)
  | [] => .ok []
  | reply :: rest => do
      let value ← parse reply
      let values ← parseElements rest
      .ok (value :: values)
end

def entry (reply : RedisReply) : Result Json := do
  let data ← reply.parse
  .ok (.object
    [("error", .number (.int (if reply.isError then 1 else 0))), ("data", data)])

end RedisReply

/-- What an RPC controller holds when the responses are collected; a controller
that was never sent holds the default. -/
structure RpcReply where
  failed : Bool := false
  contentType : String := ""
  body : String := ""
  redisReplies : List RedisReply := []
deriving Inhabited

namespace RpcReply

/-- A body as JSON, or as a string for other content types. -/
def httpResponse (library : Library) (reply : RpcReply) : Result Json :=
  if HttpRequest.isJsonType reply.contentType then
    match library.parseJson (cStr reply.body) with
    | some value => .ok value
    | none => .failed
  else .ok (.string reply.body)

def httpResponses (library : Library) : List RpcReply → Result (List Json)
  | [] => .ok []
  | reply :: rest => do
      let value ← reply.httpResponse library
      let values ← httpResponses library rest
      .ok (value :: values)

def redisEntries : List RedisReply → Result (List Json)
  | [] => .ok []
  | reply :: rest => do
      let value ← reply.entry
      let values ← redisEntries rest
      .ok (value :: values)

end RpcReply

structure Parsed where
  context : Context
  response : Json := .null
deriving DecidableEq

structure ResponsePolicy where
  config : ResponseConfig
  template : Option ResponseConfig := none

namespace ResponsePolicy

/-- `output->Swap(response)`: the variable `response` has taken the value of the
response before. -/
def takeOutput (parsed : Parsed) : Outcome Parsed :=
  match parsed.context.getVariable "output" with
  | some output =>
      .ok ⟨parsed.context.updateVariable "output" .null, output⟩
  | none => .failed parsed

/-- `run` of the policies; `fetched` is the response before the configuration. -/
def run (library : Library) (fetched : Result Json) (policy : ResponsePolicy)
    (context : Context) : Outcome Parsed :=
  .evaluate { context := context } fetched fun response =>
    (((policy.config.run library policy.template
        (context.enter.setVariable "response" response)).map
      fun responseContext => { context := responseContext }).andThen
        takeOutput).map fun parsed =>
          { parsed with context := parsed.context.leave }

variable {name : String} (library : Library)

theorem takeOutput_outerNamed (hname : "output" ≠ name) (parsed : Parsed) :
    (takeOutput parsed).Keeps (fun parsed => parsed.context.outerNamed name)
      parsed := by
  unfold takeOutput
  split
  · apply Outcome.Leaves.ok
    apply Context.outerNamed_of_allNamed
    exact Context.allNamed_updateVariable_of_ne (by simpa using hname) _ _
  · exact .failed rfl

theorem run_allNamed (hname : "output" ≠ name) (fetched : Result Json)
    (policy : ResponsePolicy) (context : Context) :
    (policy.run library fetched context).Leaves fun parsed =>
      parsed.context.allNamed name = context.allNamed name := by
  refine Outcome.Leaves.evaluate ?_ fun response => ?_
  · rfl
  have hconfig := ResponseConfig.run_outerNamed library hname policy.template
    policy.config (context.enter.setVariable "response" response)
  have hstart : ((policy.config.run library policy.template
      (context.enter.setVariable "response" response)).map
        fun responseContext => ({ context := responseContext } : Parsed)).Leaves
          fun parsed => parsed.context.outerNamed name =
            context.allNamed name :=
    hconfig.map fun responseContext hsame => hsame
  have houtput := hstart.andThen (fun parsed hsame => hsame) fun parsed hsame =>
    (takeOutput_outerNamed hname parsed).mono fun after hafter =>
      hafter.trans hsame
  exact houtput.map fun parsed hsame => Context.allNamed_leave hsame

end ResponsePolicy

end Uskit
