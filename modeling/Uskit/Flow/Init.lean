import Uskit.Flow.DefaultPolicy

namespace Uskit

open Uskit.Data

/-! `DefaultPolicy::init`.  The expressions of a configuration are taken as
parsed, and what `FlowDeliverConfig::init` checks as passed. -/

structure RecallService where
  recallName : String
  priority : Option Int := none
  nextFlow : Option String := none

structure RecallConfig where
  cancelOrder : String
  recallService : List RecallService

structure FlowNodeConfig where
  name : String
  definition : KEMap := []
  /-- The field `recall`. -/
  recallNames : List String := []
  rank : List FlowRankConfig := []
  ifBlocks : List FlowIfConfig := []
  output : KEMap := []
  next : Option String := none
  recallConfig : Option RecallConfig := none
  /-- The field `classify_service` of each `deliver_config`. -/
  deliverConfig : List String := []
  interveneConfig : Option FlowInterveneConfig := none

namespace FlowRecallConfig

def addRecallService (config : FlowRecallConfig) (service : RecallService) :
    Option FlowRecallConfig :=
  let listed :=
    { config with
      recallServices :=
        config.recallServices ++ [(service.recallName, service.priority.getD 0)] }
  match service.nextFlow with
  | none => some listed
  | some nextFlow =>
      if nextFlow = config.flowName then none
      else
        some
          { listed with
            recallNext := config.recallNext.emplace service.recallName nextFlow }

def initRecallConfig (recallConfig : RecallConfig) (flowName : String) :
    Option FlowRecallConfig :=
  recallConfig.recallService.foldlM addRecallService
    { cancelOrder := recallConfig.cancelOrder, flowName := flowName }

/-- The suffix `FlowDeliverConfig::_SUFFIX`. -/
def deliverSuffix : String :=
  "__NEXT"

def initDeliverConfigs (services : List String) (flowName : String) :
    FlowRecallConfig where
  cancelOrder := "GLOBAL_CANCEL"
  recallServices := services.map fun service => (service, 0)
  recallNext := services.foldl
    (fun recallNext service =>
      Members.emplace recallNext service (service ++ deliverSuffix)) []
  flowName := flowName

def initRecall (services : List String) (flowName : String) : FlowRecallConfig where
  recallServices := services.map fun service => (service, 0)
  flowName := flowName

end FlowRecallConfig

namespace FlowConfig

def initRecall (config : FlowNodeConfig) : Option FlowRecallConfig :=
  match config.recallConfig with
  | some recallConfig =>
      FlowRecallConfig.initRecallConfig recallConfig config.name
  | none =>
      if config.deliverConfig.length > 0 then
        some (FlowRecallConfig.initDeliverConfigs config.deliverConfig config.name)
      else some (FlowRecallConfig.initRecall config.recallNames config.name)

/-- With `set_intervene_config`, which follows. -/
def init (config : FlowNodeConfig) : Option FlowConfig :=
  (initRecall config).map fun recallConfig =>
    { name := config.name
      definition := config.definition
      recallConfig := { recallConfig with interveneConfig := config.interveneConfig }
      ifBlocks := config.ifBlocks
      rankBlocks := config.rank
      output := config.output
      next := config.next }

end FlowConfig

namespace DefaultPolicy

/-- `config_parser`, once every node is parsed. -/
def configParser : List FlowConfig → Option DefaultPolicy
  | [] => none
  | first :: rest =>
      some
        { flowMap := (first :: rest).foldl
            (fun flowMap config => flowMap.emplace config.name config) []
          startFlow := first.name }

def flowCheck (policy : DefaultPolicy) (nodes : List FlowConfig) : Bool :=
  nodes.all fun node =>
    match node.next with
    | some next => (policy.flowMap.lookup next).isSome
    | none => true

def init (nodes : List FlowConfig) : Option DefaultPolicy :=
  (configParser nodes).filter (·.flowCheck nodes)

def initNodes (config : List FlowNodeConfig) : Option DefaultPolicy := do
  let nodes ← config.mapM FlowConfig.init
  init nodes

/-! What the map of a policy holds. -/

theorem lookup_foldl_emplace {nodes : List FlowConfig} {name : String}
    {before : Members String FlowConfig} {config : FlowConfig}
    (hfound : (nodes.foldl (fun flowMap node => flowMap.emplace node.name node)
      before).lookup name = some config) :
    before.lookup name = some config ∨ config ∈ nodes := by
  induction nodes generalizing before with
  | nil => exact .inl hfound
  | cons node rest ih =>
      cases ih hfound with
      | inr hrest => exact .inr (.tail node hrest)
      | inl hnode =>
          simp only [Members.emplace] at hnode
          split at hnode
          · exact .inl hnode
          · rw [List.lookup_append, Option.or_eq_some_iff] at hnode
            rcases hnode with hbefore | ⟨-, hnew⟩
            · exact .inl hbefore
            · have hpair := List.mem_singleton.mp (Members.mem_of_lookup hnew)
              rw [(Prod.mk.inj hpair).2]
              exact .inr List.mem_cons_self

theorem mem_names_foldl_emplace {nodes : List FlowConfig} {name : String}
    {before : Members String FlowConfig} (hname : name ∈ before.names) :
    name ∈ (nodes.foldl (fun flowMap node => flowMap.emplace node.name node)
      before).names := by
  induction nodes generalizing before with
  | nil => exact hname
  | cons node rest ih => exact ih (Members.mem_names_emplace_of_mem hname)

/-- The map of an initialized policy holds parsed nodes only, has the start, and
has the `next` of every node. -/
theorem init_spec {nodes : List FlowConfig} {policy : DefaultPolicy}
    (hinit : init nodes = some policy) :
    (∀ name config, policy.flowMap.lookup name = some config → config ∈ nodes) ∧
      (policy.flowMap.lookup policy.startFlow).isSome ∧
        ∀ node ∈ nodes, ∀ next, node.next = some next →
          (policy.flowMap.lookup next).isSome := by
  obtain ⟨hparser, hcheck⟩ := Option.filter_eq_some_iff.mp hinit
  cases nodes with
  | nil => cases hparser
  | cons first rest =>
      cases hparser
      refine ⟨fun name config hfound => ?_, ?_, fun node hnode next hnext => ?_⟩
      · exact (lookup_foldl_emplace hfound).resolve_left (by simp)
      · rw [Members.lookup_isSome, List.foldl_cons]
        exact mem_names_foldl_emplace (Members.mem_names_emplace_self _ _ _)
      · have hnode := List.all_eq_true.mp hcheck node hnode
        rwa [hnext] at hnode

theorem initNodes_spec {config : List FlowNodeConfig} {policy : DefaultPolicy}
    (hinit : initNodes config = some policy) :
    ∃ nodes, config.mapM FlowConfig.init = some nodes ∧
      init nodes = some policy :=
  Option.bind_eq_some_iff.mp hinit

end DefaultPolicy

end Uskit
