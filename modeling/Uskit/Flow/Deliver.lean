import Uskit.Flow.Init
import Uskit.Function.Access

namespace Uskit

open Uskit.Data
open Uskit.Function (getType isString)

/-! The flow policy `leveldeliver`: the flows that it makes of the `deliver_config`
of a node, and the services that a response filters out of them. -/

structure DeliverService where
  serviceName : String
  threshold : Expr

structure DeliverConfig where
  classNum : UInt32
  classifyService : String
  deliverService : List DeliverService

/-- The services and their thresholds, side by side. -/
structure FlowDeliverConfig where
  classNum : Nat
  classifyService : String
  deliverServiceVec : List String
  thresholdVec : List Json
  sameSize : deliverServiceVec.length = thresholdVec.length

namespace FlowDeliverConfig

def generatedName (classifyService : String) : String :=
  classifyService ++ FlowRecallConfig.deliverSuffix

def getFlowName (config : FlowDeliverConfig) : String :=
  generatedName config.classifyService

def addDeliverService (library : Library) (config : FlowDeliverConfig)
    (service : DeliverService) : Result FlowDeliverConfig := do
  let value ← service.threshold.run library ⟨[], []⟩
  .ok
    { config with
      deliverServiceVec := config.deliverServiceVec ++ [service.serviceName]
      thresholdVec := config.thresholdVec ++ [value]
      sameSize := by simp [config.sameSize] }

/-- `static_cast<int>(_class_num - 1)`. -/
def serviceNum (classNum : UInt32) : Int :=
  (classNum.toUInt64 - 1).toUInt32.toInt32.toInt

def init (library : Library) (config : DeliverConfig) : Result FlowDeliverConfig :=
  if config.deliverService.length = serviceNum config.classNum then
    config.deliverService.foldlM (addDeliverService library)
      { classNum := config.classNum.toNat
        classifyService := config.classifyService
        deliverServiceVec := []
        thresholdVec := []
        sameSize := rfl }
  else .failed

/-- The longest text, in bytes, that a value holds itself, without an allocator. -/
def shortStringMaxSize : Nat :=
  13

/-- A longer text is with the allocator of the context in which the threshold was
evaluated, and that context has ended. -/
def freed : Json → Bool
  | .string text => decide (shortStringMaxSize < text.length)
  | _ => false

/-- The tests of one turn of the loop of `filterout_by_response`. -/
def filtersOut (entry threshold : Json) : Result Bool :=
  if getType entry ≠ getType threshold then .ok true
  else
    match entry, threshold with
    | .string text, .string other =>
        if freed threshold then .undefined else .ok (cStr text != cStr other)
    | .number value, .number bound => .ok (value.getDouble.lt bound.getDouble)
    | _, _ => .ok false

def filterTurn (config : FlowDeliverConfig) (entries : List Json)
    (filterout : List String) (index : Nat) : Result (List String) :=
  match config.deliverServiceVec[index]?, entries[index + 1]?,
      config.thresholdVec[index]? with
  | some service, some entry, some threshold => do
      let out ← filtersOut entry threshold
      .ok (if out then filterout ++ [service] else filterout)
  | _, _, _ => .undefined

/-- `PushBack` takes the value, and leaves null where it was. -/
def pushCopies (value : Json) : Nat → List Json
  | 0 => []
  | count + 1 => value :: pushCopies .null count

/-- The array to compare, with the copies of a single string. -/
def responseArray (config : FlowDeliverConfig) (elements : List Json) : List Json :=
  match elements with
  | [element] => element :: pushCopies element (config.classNum - 1)
  | _ => elements

def filterout (config : FlowDeliverConfig) (elements : List Json) :
    Result (List String) :=
  let entries := config.responseArray elements
  if config.classNum ≠ entries.length then .ok []
  else (List.range (config.classNum - 1)).foldlM (config.filterTurn entries) []

end FlowDeliverConfig

/-- A node with its `deliver_config` in full. -/
structure DeliverNodeConfig where
  node : FlowNodeConfig
  deliverConfigs : List DeliverConfig
  classifyServices : node.deliverConfig = deliverConfigs.map DeliverConfig.classifyService

/-- A flow and what the policy `leveldeliver` adds to it. -/
structure DeliverFlow extends FlowConfig where
  deliverMap : Members String FlowDeliverConfig := []
  deliverConfig : Option FlowDeliverConfig := none

namespace DeliverFlow

def addDeliverConfig (library : Library) (deliverMap : Members String FlowDeliverConfig)
    (config : DeliverConfig) : Result (Members String FlowDeliverConfig) := do
  let deliverConfig ← FlowDeliverConfig.init library config
  .ok (deliverMap.emplace deliverConfig.getFlowName deliverConfig)

/-- The loop over the field `deliver_config` stands twice in `FlowConfig::init`. -/
def init (library : Library) (config : DeliverNodeConfig) : Result DeliverFlow := do
  let deliverMap ← config.deliverConfigs.foldlM (addDeliverConfig library) []
  match FlowConfig.init config.node with
  | some flow => do
      let deliverMap ← config.deliverConfigs.foldlM (addDeliverConfig library) deliverMap
      .ok { flow with deliverMap := deliverMap }
  | none => .failed

/-- `FlowConfig::init` of a generated flow. -/
def ofDeliver (config : FlowDeliverConfig) : DeliverFlow where
  name := config.getFlowName
  recallConfig := FlowRecallConfig.initRecall config.deliverServiceVec config.getFlowName
  deliverConfig := some config

def setQuitConfig (cancelConfig : FlowGlobalCancelConfig) (flow : DeliverFlow) :
    DeliverFlow :=
  { flow with quitConfig := cancelConfig }

def deliverClear (flow : DeliverFlow) : DeliverFlow :=
  { flow with deliverMap := [] }

def filteroutByResponse (flow : DeliverFlow) : Json → Result (List String)
  | .array elements =>
      if elements.isEmpty then .ok []
      else if elements.length = 1 ∧ elements.all isString = false then .ok []
      else
        match flow.deliverConfig with
        | some config => config.filterout elements
        | none => .undefined
  | _ => .ok []

end DeliverFlow

/-- The orders in which two kinds of table are gone through. -/
structure HashOrder where
  flows : Members String DeliverFlow → Members String DeliverFlow
  delivers : Members String FlowDeliverConfig → Members String FlowDeliverConfig
  flows_perm : ∀ entries, (flows entries).Perm entries
  delivers_perm : ∀ entries, (delivers entries).Perm entries

theorem FlowDeliverConfig.id_perm (entries : Members String FlowDeliverConfig) :
    (id entries).Perm entries :=
  .refl entries

def HashOrder.insertion : HashOrder where
  flows := id
  delivers := id
  flows_perm := .refl
  delivers_perm := FlowDeliverConfig.id_perm

structure CascadeAsyncPolicy where
  flowMap : Members String DeliverFlow
  startFlow : String

namespace CascadeAsyncPolicy

def addNode (library : Library) (flowMap : Members String DeliverFlow)
    (config : DeliverNodeConfig) : Result (Members String DeliverFlow) := do
  let flow ← DeliverFlow.init library config
  .ok (flowMap.emplace config.node.name flow)

def configParser (library : Library) :
    List DeliverNodeConfig → Result CascadeAsyncPolicy
  | [] => .failed
  | first :: rest => do
      let flowMap ← (first :: rest).foldlM (addNode library) []
      .ok { flowMap := flowMap, startFlow := first.node.name }

def flowCheck (policy : CascadeAsyncPolicy) (configs : List DeliverNodeConfig) : Bool :=
  configs.all fun config =>
    match config.node.next with
    | some next => (policy.flowMap.lookup next).isSome
    | none => true

/-- The configuration of `build_default_gc_config`. -/
def defaultCancelConfig : FlowGlobalCancelConfig where
  condition := [.boolean false]

/-- `AsyncGlobalPolicy::init_post_process`. -/
def setQuitConfigs (cancelConfig : Option FlowGlobalCancelConfig)
    (flowMap : Members String DeliverFlow) : Members String DeliverFlow :=
  flowMap.map fun entry =>
    (entry.1, entry.2.setQuitConfig (cancelConfig.getD defaultCancelConfig))

/-- One turn of the inner loop of `init_post_process`. -/
def generate (flowMap cascadeFlowMap : Members String DeliverFlow)
    (deliver : String × FlowDeliverConfig) : Option (Members String DeliverFlow) :=
  if (flowMap.lookup deliver.1).isSome then none
  else some (cascadeFlowMap.emplace deliver.1 (.ofDeliver deliver.2))

/-- The `deliver_config` of all flows, in the order of the loops. -/
def delivers (order : HashOrder) (flowMap : Members String DeliverFlow) :
    Members String FlowDeliverConfig :=
  (order.flows flowMap).flatMap fun entry => order.delivers entry.2.deliverMap

def initPostProcess (order : HashOrder) (cancelConfig : Option FlowGlobalCancelConfig)
    (policy : CascadeAsyncPolicy) : Option CascadeAsyncPolicy := do
  let flowMap := setQuitConfigs cancelConfig policy.flowMap
  let cascadeFlowMap ← (delivers order flowMap).foldlM (generate flowMap) []
  let cleared := flowMap.map fun entry => (entry.1, entry.2.deliverClear)
  some { policy with flowMap := Members.emplaceAll cleared (order.flows cascadeFlowMap) }

/-- `AsyncGlobalPolicy::init`, with the `global_cancel_config` of the first node. -/
def init (order : HashOrder) (library : Library)
    (cancelConfig : Option FlowGlobalCancelConfig)
    (configs : List DeliverNodeConfig) : Result CascadeAsyncPolicy := do
  let policy ← configParser library configs
  if policy.flowCheck configs then
    match policy.initPostProcess order cancelConfig with
    | some final => .ok final
    | none => .failed
  else .failed

def getFilteroutServices (policy : CascadeAsyncPolicy) (currFlow : String)
    (response : Json) : Result (List String) :=
  match policy.flowMap.lookup currFlow with
  | some flow => flow.filteroutByResponse response
  | none => .failed

end CascadeAsyncPolicy

end Uskit
