import Uskit.DynamicConfig.If

namespace Uskit

open Uskit.Data

/-! Request policies: what they send, given the configuration they generate. -/

structure HttpRequest where
  /-- The address that a policy with a dynamic host connects to. -/
  server : Option String := none
  uri : String
  isPost : Bool := false
  contentType : String := ""
  headers : List (String × String) := []
  query : List (String × String) := []
  body : String := ""
deriving DecidableEq, Repr

inductive RpcRequest where
  | http (request : HttpRequest)
  | redis (commands : List (List String))
deriving DecidableEq, Repr

/-- What a request policy leaves: its context and the calls it has issued. -/
structure Exchange where
  context : Context
  sent : List RpcRequest := []
deriving DecidableEq, Repr

namespace HttpRequest

def getString : Json → Result String
  | .string text => .ok (cStr text)
  | _ => .undefined

def required (name : String) (context : Context) : Result Json :=
  match context.getVariable name with
  | some value => .ok value
  | none => .failed

def requiredString (name : String) (context : Context) : Result String := do
  let value ← required name context
  match value with
  | .string text => .ok (cStr text)
  | _ => .failed

def fieldText (library : Library) : Json → String
  | .string text => cStr text
  | value => library.jsonEncode value

def setHeader (name value : String) (request : HttpRequest) : HttpRequest :=
  if name = "Content-Type" then { request with contentType := value }
  else { request with headers := request.headers ++ [(name, value)] }

def setQuery (name value : String) (request : HttpRequest) : HttpRequest :=
  { request with query := request.query ++ [(name, value)] }

/-- The loop over the members of a variable; members that are null are left
out. -/
def setEach (library : Library)
    (set : String → String → HttpRequest → HttpRequest) :
    JsonMembers → HttpRequest → HttpRequest
  | [], request => request
  | (name, value) :: rest, request =>
      setEach library set rest
        (if value.isNull then request
        else set (cStr name) (fieldText library value) request)

/-- `GetObject` of a variable that need not be there. -/
def setFields (library : Library) (variableName : String)
    (set : String → String → HttpRequest → HttpRequest) (context : Context)
    (request : HttpRequest) : Result HttpRequest :=
  match context.getVariable variableName with
  | none => .ok request
  | some (.object members) => .ok (setEach library set members request)
  | some _ => .undefined

def containsText (part text : String) : Bool :=
  text.toList.tails.any (part.toList.isPrefixOf ·)

def isJsonType (contentType : String) : Bool :=
  containsText "application/json" contentType

/-- A body is sent with a JSON content type only. -/
def setBody (library : Library) (body : Json) (request : HttpRequest) :
    HttpRequest :=
  if isJsonType request.contentType then
    { request with body := library.jsonEncode body }
  else request

def setBodyVariable (library : Library) (context : Context)
    (request : HttpRequest) : HttpRequest :=
  match context.getVariable "http_body" with
  | some body => request.setBody library body
  | none => request

end HttpRequest

open HttpRequest

structure HttpRequestPolicy where
  config : HttpRequestConfig
  template : Option BackendRequestConfig := none
  /-- The class `HostDynHttpRequestPolicy`. -/
  dynamicHost : Bool := false

namespace HttpRequestPolicy

/-- `HostDynHttpRequestPolicy::call_method` before the call. -/
def hostIpPort (context : Context) : Result String := do
  let address ← requiredString "host_ip_port" context
  if containsText ":" address then .ok address else .failed

def request (library : Library) (policy : HttpRequestPolicy)
    (context : Context) : Result HttpRequest := do
  let uriValue ← required "http_uri" context
  let uri ← getString uriValue
  let methodValue ← required "http_method" context
  let method ← getString methodValue
  let withHeader ← setFields library "http_header" setHeader context
    { uri := uri, isPost := method == "post" }
  let withQuery ← setFields library "http_query" setQuery context withHeader
  let withBody := setBodyVariable library context withQuery
  if policy.dynamicHost then
    let address ← hostIpPort context
    .ok { withBody with server := some address }
  else .ok withBody

def send (library : Library) (policy : HttpRequestPolicy)
    (exchange : Exchange) : Outcome Exchange :=
  .evaluate exchange (policy.request library exchange.context) fun request =>
    .ok { exchange with sent := [.http request] }

end HttpRequestPolicy

structure DynamicHttpRequestPolicy where
  config : DynamicHttpRequestConfig
  template : Option BackendRequestConfig := none

namespace DynamicHttpRequestPolicy

structure Settings where
  argsNode : String
  method : Json
  uri : Json
  args : Json

def settings (context : Context) : Result Settings := do
  let argsNode ← requiredString "dynamic_args_node" context
  let method ← required "http_method" context
  let uri ← required "http_uri" context
  let args ← required "dynamic_args" context
  .ok ⟨argsNode, method, uri, args⟩

/-- The body document with the element put at `dynamic_args_path`. -/
def bodyDocument (context : Context) (path : String) (element : Json) : Json :=
  let doc := match context.getVariable "http_body" with
    | some body => (jsonSetValueByPath "/" .null body).1
    | none => .null
  (jsonSetValueByPath path doc element).1

def request (library : Library) (context : Context) (settings : Settings)
    (name : String) (element : Json) : Result HttpRequest := do
  let elementText := fieldText library element
  let withHeader ← setFields library "http_header" setHeader context { uri := "" }
  let method ← getString settings.method
  let uri ← getString settings.uri
  let fullUri := if settings.argsNode = "uri" then uri ++ elementText else uri
  let withQuery ← setFields library "http_query" setQuery context
    { withHeader with uri := fullUri, isPost := method == "post" }
  let withArg := if settings.argsNode = "query" then
    withQuery.setQuery (cStr name) elementText else withQuery
  if settings.argsNode = "body" then
    let path ← requiredString "dynamic_args_path" context
    .ok (withArg.setBody library (bodyDocument context path element))
  else .ok (setBodyVariable library context withArg)

def sendElements (library : Library) (settings : Settings) (name : String) :
    List Json → Exchange → Outcome Exchange
  | [], exchange => .ok exchange
  | element :: rest, exchange =>
      .evaluate exchange (request library exchange.context settings name element)
        fun request => sendElements library settings name rest
          { exchange with sent := exchange.sent ++ [.http request] }

/-- The elements that went into bodies were moved out of the variable. -/
def moveElements (settings : Settings) (name : String) (elements : List Json) :
    JsonMembers → JsonMembers
  | [] => []
  | (other, value) :: rest =>
      if value.isNull then
        (other, value) :: moveElements settings name elements rest
      else (name, .array (elements.map fun _ => .null)) :: rest

/-- The first member that is not null gives the sub-calls. -/
def sendFirst (library : Library) (settings : Settings) (args : JsonMembers) :
    JsonMembers → Exchange → Outcome Exchange
  | [], exchange => .ok exchange
  | (_, .null) :: rest, exchange => sendFirst library settings args rest exchange
  | (name, .array elements) :: _, exchange =>
      (sendElements library settings name elements exchange).andThen
        fun exchange =>
          .ok (if settings.argsNode = "body" then
            { exchange with
              context := exchange.context.updateVariable "dynamic_args"
                (.object (moveElements settings name elements args)) }
          else exchange)
  | _ :: _, exchange => .failed exchange

def send (library : Library) (exchange : Exchange) : Outcome Exchange :=
  .evaluate exchange (settings exchange.context) fun settings =>
    match settings.args with
    | .object args => sendFirst library settings args args exchange
    | _ => .undefined

end DynamicHttpRequestPolicy

structure RedisRequestPolicy where
  config : RedisRequestConfig
  template : Option BackendRequestConfig := none

namespace RedisRequestPolicy

def texts : List Json → Result (List String)
  | [] => .ok []
  | value :: rest => do
      let text ← getString value
      let others ← texts rest
      .ok (text :: others)

/-- One command, in a buffer of 64 components. -/
def command (value : Json) : Result (List String) :=
  match value.findMember? "op", value.findMember? "arg" with
  | some op, some (.array args) => do
      let opText ← getString op
      let argTexts ← texts args
      if argTexts.length < 64 then .ok (opText :: argTexts) else .undefined
  | _, _ => .undefined

def commands : List Json → Result (List (List String))
  | [] => .ok []
  | value :: rest => do
      let first ← command value
      let others ← commands rest
      .ok (first :: others)

def request (context : Context) : Result (List (List String)) := do
  let redisCmd ← required "redis_cmd" context
  match redisCmd with
  | .array values => commands values
  | _ => .undefined

def send (exchange : Exchange) : Outcome Exchange :=
  .evaluate exchange (request exchange.context) fun commands =>
    .ok { exchange with sent := [.redis commands] }

end RedisRequestPolicy

inductive Protocol where
  | http
  | dynamicHttp
  | redis
deriving DecidableEq, Repr

/-- The request policies for the controllers of a protocol. -/
inductive RequestPolicy : Protocol → Type where
  | http (policy : HttpRequestPolicy) : RequestPolicy .http
  | dynamicHttp (policy : DynamicHttpRequestPolicy) : RequestPolicy .dynamicHttp
  | redis (policy : RedisRequestPolicy) : RequestPolicy .redis

namespace RequestPolicy

variable {protocol : Protocol}

def runConfig (library : Library) :
    RequestPolicy protocol → Context → Outcome Context
  | .http policy =>
      BackendRequestConfig.run library policy.template (.http policy.config)
  | .dynamicHttp policy =>
      BackendRequestConfig.run library policy.template
        (.dynamicHttp policy.config)
  | .redis policy =>
      BackendRequestConfig.run library policy.template (.redis policy.config)

def send (library : Library) :
    RequestPolicy protocol → Exchange → Outcome Exchange
  | .http policy => policy.send library
  | .dynamicHttp _ => DynamicHttpRequestPolicy.send library
  | .redis _ => RedisRequestPolicy.send

/-- `run` of the policies, in the context of the controller. -/
def run (library : Library) (policy : RequestPolicy protocol)
    (context : Context) : Outcome Exchange :=
  (((policy.runConfig library context.enter).map fun requestContext =>
      { context := requestContext }).andThen
    (policy.send library)).map fun exchange =>
      { exchange with context := exchange.context.leave }

/-! Around the request only merged settings and moved arguments change. -/

def writtenNames : List String :=
  "dynamic_args" :: BackendRequestConfig.mergedNames

variable {name : String} (library : Library)

theorem runConfig_outerNamed (hname : name ∉ writtenNames)
    (policy : RequestPolicy protocol) (context : Context) :
    (policy.runConfig library context).Keeps
      (Context.outerNamed name) context := by
  have hmerged : name ∉ BackendRequestConfig.mergedNames :=
    fun hmem => hname (List.mem_cons_of_mem _ hmem)
  cases policy with
  | http policy =>
      exact BackendRequestConfig.run_outerNamed library hmerged _ _ context
  | dynamicHttp policy =>
      exact BackendRequestConfig.run_outerNamed library hmerged _ _ context
  | redis policy =>
      exact BackendRequestConfig.run_outerNamed library hmerged _ _ context

theorem sendElements_context (settings : DynamicHttpRequestPolicy.Settings)
    (key : String) (elements : List Json) (exchange : Exchange) :
    (DynamicHttpRequestPolicy.sendElements library settings key elements
      exchange).Keeps Exchange.context exchange := by
  induction elements generalizing exchange with
  | nil => exact .refl _ exchange
  | cons element rest ih =>
      apply Outcome.Keeps.evaluate
      intro request
      exact ih { exchange with sent := exchange.sent ++ [.http request] }

theorem sendFirst_allNamed (hname : name ∉ writtenNames)
    (settings : DynamicHttpRequestPolicy.Settings) (args members : JsonMembers)
    (exchange : Exchange) :
    (DynamicHttpRequestPolicy.sendFirst library settings args members
      exchange).Keeps (fun exchange => exchange.context.allNamed name)
        exchange := by
  induction members with
  | nil => exact .refl _ exchange
  | cons member rest ih =>
      obtain ⟨key, value⟩ := member
      cases value with
      | null => exact ih
      | array elements =>
          apply Outcome.Keeps.andThen
          · exact (sendElements_context library settings key elements
              exchange).image (Context.allNamed name)
          · intro exchange
            apply Outcome.Leaves.ok
            split
            · apply Context.allNamed_updateVariable_of_ne
              intro heq
              apply hname
              rw [← heq]
              decide
            · rfl
      | bool | number | string | object => exact .failed rfl

theorem send_allNamed (hname : name ∉ writtenNames)
    (policy : RequestPolicy protocol) (exchange : Exchange) :
    (policy.send library exchange).Keeps
      (fun exchange => exchange.context.allNamed name) exchange := by
  cases policy with
  | http policy =>
      apply Outcome.Keeps.evaluate
      intro request
      exact .ok rfl
  | dynamicHttp policy =>
      apply Outcome.Keeps.evaluate
      intro settings
      cases settings.args with
      | object args => exact sendFirst_allNamed library hname _ _ _ exchange
      | null | bool | number | string | array => exact .undefined
  | redis policy =>
      apply Outcome.Keeps.evaluate
      intro commands
      exact .ok rfl

theorem run_allNamed (hname : name ∉ writtenNames)
    (policy : RequestPolicy protocol) (context : Context) :
    (policy.run library context).Leaves fun exchange =>
      exchange.context.allNamed name = context.allNamed name := by
  have hconfig := runConfig_outerNamed library hname policy context.enter
  have hsend : (((policy.runConfig library context.enter).map
      fun requestContext => ({ context := requestContext } : Exchange)).andThen
        (policy.send library)).Leaves fun exchange =>
          exchange.context.outerNamed name = context.allNamed name := by
    have hstart : ((policy.runConfig library context.enter).map
        fun requestContext => ({ context := requestContext } : Exchange)).Leaves
          fun exchange => exchange.context.outerNamed name =
            context.allNamed name :=
      hconfig.map fun requestContext hsame => hsame
    apply hstart.andThen
    · intro exchange hsame
      exact hsame
    · intro exchange hsame
      exact (send_allNamed library hname policy exchange).mono
        fun after hafter => (Context.outerNamed_of_allNamed hafter).trans hsame
  exact hsend.map fun exchange hsame => Context.allNamed_leave hsame

end RequestPolicy

end Uskit
