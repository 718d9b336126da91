import Uskit.Backend.Engine
import Uskit.DynamicConfig.ConfigInit
import Uskit.Flow.ServiceIndex

namespace Uskit

open Uskit.Data

/-! `BackendEngine::init` with the backends, services and policies that it makes.  `channelInit`
is `Channel::Init`, of which the code keeps the protocol. -/

inductive ChannelProtocol where
  | http
  | redis
  | other
deriving DecidableEq, Repr

/-- What `Backend::init` hands to the channel. -/
structure ChannelSetup where
  server : String
  loadBalancer : String
  protocol : String
  connectionType : Option String
  connectTimeoutMs : Option Int
  timeoutMs : Option Int
  maxRetry : Option Int
deriving DecidableEq

namespace Proto

/-- The message `BackendConfig` besides its name and its services. -/
structure BackendSettings where
  server : String := ""
  protocol : String := ""
  connectionType : Option String := none
  loadBalancer : Option String := none
  connectTimeoutMs : Option Int := none
  timeoutMs : Option Int := none
  maxRetry : Option Int := none
  requestTemplate : List RequestConfig := []
  responseTemplate : List ResponseConfig := []
  isDynamic : Bool := false

/-- The message `ServiceConfig` besides its name. -/
structure ServiceSettings where
  requestPolicy : String := "default"
  responsePolicy : String := "default"
  request : Option RequestConfig := none
  response : Option ResponseConfig := none
  successFlag : List String := []

def BackendSettings.channelSetup (settings : BackendSettings) : ChannelSetup where
  server := settings.server
  loadBalancer := settings.loadBalancer.getD ""
  protocol := settings.protocol
  connectionType := settings.connectionType
  connectTimeoutMs := settings.connectTimeoutMs
  timeoutMs := settings.timeoutMs
  maxRetry := settings.maxRetry

end Proto

/-- The section `backend` of a configuration. -/
abbrev BackendSection := BackendConfig Proto.BackendSettings Proto.ServiceSettings

abbrev ServiceSection := ServiceConfig Proto.ServiceSettings

/-- The classes of backend policies, each with one for requests and one for responses. -/
inductive BackendPolicyClass where
  | http
  | redis
  | dynamicHttp
  | hostDynHttp
deriving DecidableEq, Repr

/-- The protocol for whose controllers the class is made. -/
def BackendPolicyClass.protocol : BackendPolicyClass → Protocol
  | .http => .http
  | .redis => .redis
  | .dynamicHttp => .dynamicHttp
  | .hostDynHttp => .http

structure PolicyManager where
  requestPolicyMap : Members String BackendPolicyClass := []
  responsePolicyMap : Members String BackendPolicyClass := []

namespace PolicyManager

def addRequestPolicy (policyName : String) (policyClass : BackendPolicyClass)
    (manager : PolicyManager) : PolicyManager :=
  { manager with
    requestPolicyMap := manager.requestPolicyMap.emplace policyName policyClass }

def addResponsePolicy (policyName : String) (policyClass : BackendPolicyClass)
    (manager : PolicyManager) : PolicyManager :=
  { manager with
    responsePolicyMap := manager.responsePolicyMap.emplace policyName policyClass }

def getRequestPolicy (manager : PolicyManager) (policyName : String) :
    Option BackendPolicyClass :=
  manager.requestPolicyMap.lookup policyName

def getResponsePolicy (manager : PolicyManager) (policyName : String) :
    Option BackendPolicyClass :=
  manager.responsePolicyMap.lookup policyName

/-- `register_policy` for the policies of backends. -/
def registerPolicy (manager : PolicyManager) : PolicyManager :=
  manager
    |>.addRequestPolicy "http_default" .http
    |>.addRequestPolicy "redis_default" .redis
    |>.addRequestPolicy "dynamic_default" .dynamicHttp
    |>.addRequestPolicy "dynamic_host_default" .hostDynHttp
    |>.addResponsePolicy "http_default" .http
    |>.addResponsePolicy "redis_default" .redis
    |>.addResponsePolicy "dynamic_default" .dynamicHttp
    |>.addResponsePolicy "dynamic_host_default" .hostDynHttp

/-- The manager that services are loaded with. -/
def registered : PolicyManager :=
  ({} : PolicyManager).registerPolicy

end PolicyManager

structure Backend where
  protocol : ChannelProtocol
  isDynamic : Bool
  requestConfigTemplateMap : Members String BackendRequestConfig
  responseConfigTemplateMap : Members String ResponseConfig
  services : List String

/-- What `BackendService::init` leaves behind: policies that may be those of another
protocol than the channel speaks. -/
structure LoadedService where
  name : String
  protocol : ChannelProtocol
  isDynamic : Bool
  condition : KEVec
  requestPolicy : Option (Σ protocol, RequestPolicy protocol)
  responsePolicy : Option (Protocol × ResponsePolicy)

/-- The class of controller that `build_backend_controller` makes, if it makes one. -/
def buildBackendController (protocol : ChannelProtocol) (isDynamic : Bool) : Option Protocol :=
  if protocol = .http ∧ isDynamic = false then some .http
  else if protocol = .http ∧ isDynamic = true then some .dynamicHttp
  else if protocol = .redis then some .redis
  else none

section Init

variable (runtime : Expression.Runtime) (trimString : String → String → String)

def BackendRequestConfig.init (protocol : String) (isDynamic : Bool)
    (config : Proto.RequestConfig) : Option BackendRequestConfig :=
  if protocol = "http" then
    if isDynamic then (DynamicHttpRequestConfig.init runtime trimString config).map .dynamicHttp
    else (HttpRequestConfig.init runtime trimString config).map .http
  else if protocol = "redis" then (RedisRequestConfig.init runtime trimString config).map .redis
  else none

namespace Backend

def initRequestTemplates (settings : Proto.BackendSettings) :
    Option (Members String BackendRequestConfig) := do
  let templates ← settings.requestTemplate.mapM fun template =>
    (BackendRequestConfig.init runtime trimString settings.protocol settings.isDynamic
      template).map (template.name, ·)
  some (Members.emplaceAll [] templates)

def initResponseTemplates (settings : Proto.BackendSettings) :
    Option (Members String ResponseConfig) := do
  let templates ← settings.responseTemplate.mapM fun template =>
    (ResponseConfig.init runtime trimString template).map (template.name, ·)
  some (Members.emplaceAll [] templates)

def init (channelInit : ChannelSetup → Option ChannelProtocol) (config : BackendSection) :
    Option Backend := do
  let protocol ← channelInit config.settings.channelSetup
  let requestTemplates ← initRequestTemplates runtime trimString config.settings
  let responseTemplates ← initResponseTemplates runtime trimString config.settings
  some
    { protocol := protocol
      isDynamic := config.settings.isDynamic
      requestConfigTemplateMap := requestTemplates
      responseConfigTemplateMap := responseTemplates
      services := config.service.map (·.name) }

def requestConfig (backend : Backend) (name : String) : Option BackendRequestConfig :=
  backend.requestConfigTemplateMap.lookup name

def responseConfig (backend : Backend) (name : String) : Option ResponseConfig :=
  backend.responseConfigTemplateMap.lookup name

/-- `default` becomes the policy of the protocol, if that has one. -/
def policyName (backend : Backend) (name : String) : String :=
  if name = "default" then
    if backend.protocol = .http ∧ backend.isDynamic = false then "http_default"
    else if backend.protocol = .http ∧ backend.isDynamic = true then "dynamic_default"
    else if backend.protocol = .redis then "redis_default"
    else name
  else name

end Backend

/-- `init` of the request policies. -/
def BackendPolicyClass.initRequest (config : Proto.RequestConfig) (backend : Backend) :
    BackendPolicyClass → Option (Σ protocol, RequestPolicy protocol)
  | .http =>
      (HttpRequestConfig.init runtime trimString config).map fun requestConfig =>
        ⟨.http, .http
          { config := requestConfig
            template := config.includeName.bind backend.requestConfig }⟩
  | .hostDynHttp =>
      (HttpRequestConfig.init runtime trimString config).map fun requestConfig =>
        ⟨.http, .http
          { config := requestConfig
            template := config.includeName.bind backend.requestConfig
            dynamicHost := true }⟩
  | .dynamicHttp =>
      (DynamicHttpRequestConfig.init runtime trimString config).map fun requestConfig =>
        ⟨.dynamicHttp, .dynamicHttp
          { config := requestConfig
            template := config.includeName.bind backend.requestConfig }⟩
  | .redis =>
      (RedisRequestConfig.init runtime trimString config).map fun requestConfig =>
        ⟨.redis, .redis
          { config := requestConfig
            template := config.includeName.bind backend.requestConfig }⟩

/-- `init` of the response policies, which do the same in every class. -/
def BackendPolicyClass.initResponse (config : Proto.ResponseConfig) (backend : Backend)
    (policyClass : BackendPolicyClass) : Option (Protocol × ResponsePolicy) :=
  (ResponseConfig.init runtime trimString config).map fun responseConfig =>
    (policyClass.protocol,
      { config := responseConfig
        template := config.includeName.bind backend.responseConfig })

namespace LoadedService

def initRequestPolicy (settings : Proto.ServiceSettings) (backend : Backend) :
    Option (Option (Σ protocol, RequestPolicy protocol)) :=
  settings.request.mapM fun config => do
    let policyClass ← PolicyManager.registered.getRequestPolicy
      (backend.policyName settings.requestPolicy)
    policyClass.initRequest runtime trimString config backend

def initResponsePolicy (settings : Proto.ServiceSettings) (backend : Backend) :
    Option (Option (Protocol × ResponsePolicy)) :=
  settings.response.mapM fun config => do
    let policyClass ← PolicyManager.registered.getResponsePolicy
      (backend.policyName settings.responsePolicy)
    policyClass.initResponse runtime trimString config backend

/-- `BackendService::init`. -/
def init (config : ServiceSection) (backend : Backend) : Option LoadedService := do
  let condition ← KEVec.init runtime config.settings.successFlag
  let requestPolicy ← initRequestPolicy runtime trimString config.settings backend
  let responsePolicy ← initResponsePolicy runtime trimString config.settings backend
  some
    { name := config.name
      protocol := backend.protocol
      isDynamic := backend.isDynamic
      condition := condition
      requestPolicy := requestPolicy
      responsePolicy := responsePolicy }

end LoadedService

abbrev LoadedTables := EngineTables Backend LoadedService

/-- `BackendEngine::init`. -/
def LoadedTables.load (channelInit : ChannelSetup → Option ChannelProtocol)
    (config : List BackendSection) : Option LoadedTables :=
  EngineTables.init (Backend.init runtime trimString channelInit)
    (LoadedService.init runtime trimString) config

end Init

end Uskit
