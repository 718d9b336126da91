import Uskit.Flow.Deliver

namespace Uskit

open Uskit.Data

/-! What `init` of the policy `leveldeliver` leaves in its map of flows. -/

/-- A loop that emplaces what it makes of each element keeps, under each name, what
it makes of the first element of that name. -/
theorem lookup_foldlM_emplace {κ γ α : Type} [DecidableEq κ] {make : γ → Result α}
    {key : γ → κ} {elements : List γ} {before after : Members κ α}
    (hfold : elements.foldlM (fun members element => do
      let value ← make element
      .ok (Members.emplace members (key element) value)) before = Result.ok after) :
    (∀ element ∈ elements, ∃ value, make element = .ok value) ∧
    (before.names.Nodup → after.names.Nodup) ∧
    ∀ name value, after.lookup name = some value ↔
      before.lookup name = some value ∨
        before.lookup name = none ∧
          ∃ element, elements.find? (fun element => key element = name) = some element ∧
            make element = .ok value := by
  induction elements generalizing before with
  | nil =>
      cases hfold
      simp
  | cons element rest ih =>
      rw [List.foldlM_cons, Result.bind_assoc, Result.bind_eq_ok] at hfold
      obtain ⟨made, hmade, hrest⟩ := hfold
      obtain ⟨hall, hnodup, hlookup⟩ := ih hrest
      refine ⟨?_, ?_, ?_⟩
      · intro other hother
        cases hother with
        | head => exact ⟨made, hmade⟩
        | tail _ htail => exact hall other htail
      · intro hbefore
        exact hnodup (Members.nodup_names_emplace hbefore _ _)
      · intro name value
        rw [hlookup, Members.lookup_emplace, List.find?_cons]
        by_cases hname : key element = name
        · simp only [hname, if_true, decide_true]
          cases before.lookup name with
          | some old => simp
          | none => simp [hmade]
        · simp only [hname, if_false, decide_false, Option.or_none]

namespace FlowDeliverConfig

theorem serviceNum_spec {classNum : UInt32} {size : Nat}
    (hsize : (size : Int) = serviceNum classNum) : classNum.toNat = size + 1 := by
  have hint : serviceNum classNum =
      ((classNum.toBitVec.setWidth 64 - 1#64).setWidth 32).toInt := rfl
  rw [hint, BitVec.toInt_eq_toNat_cond, BitVec.toNat_setWidth, BitVec.toNat_sub,
    BitVec.toNat_setWidth, BitVec.toNat_ofNat, UInt32.toNat_toBitVec] at hsize
  have hlt := classNum.toNat_lt
  omega

def thresholds (library : Library) (services : List DeliverService) :
    List (Result Json) :=
  services.map fun service => service.threshold.run library ⟨[], []⟩

theorem addDeliverServices_spec {library : Library} {services : List DeliverService}
    {before after : FlowDeliverConfig}
    (hfold : services.foldlM (addDeliverService library) before = .ok after) :
    after.classNum = before.classNum ∧
      after.classifyService = before.classifyService ∧
      after.deliverServiceVec =
        before.deliverServiceVec ++ services.map DeliverService.serviceName ∧
      after.thresholdVec.map Result.ok =
        before.thresholdVec.map Result.ok ++ thresholds library services := by
  induction services generalizing before with
  | nil =>
      cases hfold
      exact ⟨rfl, rfl, (List.append_nil _).symm, (List.append_nil _).symm⟩
  | cons service rest ih =>
      rw [List.foldlM_cons, Result.bind_eq_ok] at hfold
      obtain ⟨next, hservice, hrest⟩ := hfold
      obtain ⟨value, hvalue, hnext⟩ := Result.bind_eq_ok.mp hservice
      cases hnext
      obtain ⟨hnum, hclassify, hservices, hthresholds⟩ := ih hrest
      refine ⟨hnum, hclassify, ?_, ?_⟩
      · rw [hservices, List.map_cons, List.append_assoc]
        rfl
      · rw [hthresholds, thresholds, thresholds, List.map_cons, hvalue, List.map_append,
          List.append_assoc]
        rfl

theorem init_spec {library : Library} {config : DeliverConfig}
    {deliver : FlowDeliverConfig} (hinit : init library config = .ok deliver) :
    deliver.classNum = deliver.deliverServiceVec.length + 1 ∧
      deliver.getFlowName = generatedName config.classifyService ∧
      deliver.deliverServiceVec = config.deliverService.map DeliverService.serviceName ∧
      deliver.thresholdVec.map Result.ok = thresholds library config.deliverService := by
  unfold init at hinit
  split at hinit
  · rename_i hsize
    obtain ⟨hnum, hclassify, hservices, hthresholds⟩ := addDeliverServices_spec hinit
    refine ⟨?_, ?_, hservices, hthresholds⟩
    · rw [hnum, serviceNum_spec hsize, hservices, List.nil_append, List.length_map]
    · rw [getFlowName, hclassify]
  · cases hinit

end FlowDeliverConfig

namespace DeliverFlow

theorem addDeliverConfig_eq (library : Library) :
    addDeliverConfig library = fun deliverMap config => (do
      let deliver ← FlowDeliverConfig.init library config
      .ok (Members.emplace deliverMap
        (FlowDeliverConfig.generatedName config.classifyService) deliver)) := by
  funext deliverMap config
  unfold addDeliverConfig
  cases hinit : FlowDeliverConfig.init library config with
  | ok deliver =>
      rw [Result.ok_bind, Result.ok_bind, (FlowDeliverConfig.init_spec hinit).2.1]
  | failed => rfl
  | undefined => rfl

/-- The first `deliver_config` of a node whose flow has a name. -/
def firstDeliver (config : DeliverNodeConfig) (name : String) : Option DeliverConfig :=
  config.deliverConfigs.find? fun deliver =>
    FlowDeliverConfig.generatedName deliver.classifyService = name

theorem firstDeliver_spec {config : DeliverNodeConfig} {name : String}
    {deliver : DeliverConfig} (hfirst : firstDeliver config name = some deliver) :
    deliver ∈ config.deliverConfigs ∧
      FlowDeliverConfig.generatedName deliver.classifyService = name :=
  ⟨List.mem_of_find?_eq_some hfirst, by simpa using List.find?_some hfirst⟩

structure OfConfig (library : Library) (config : DeliverNodeConfig)
    (flow : DeliverFlow) : Prop where
  base : FlowConfig.init config.node = some flow.toFlowConfig
  noConfig : flow.deliverConfig = none
  delivers : ∀ deliver ∈ config.deliverConfigs,
    ∃ made, FlowDeliverConfig.init library deliver = .ok made
  nodup : flow.deliverMap.names.Nodup
  lookup : ∀ name made, flow.deliverMap.lookup name = some made ↔
    ∃ deliver, firstDeliver config name = some deliver ∧
      FlowDeliverConfig.init library deliver = .ok made

theorem init_spec {library : Library} {config : DeliverNodeConfig} {flow : DeliverFlow}
    (hinit : init library config = .ok flow) : OfConfig library config flow := by
  obtain ⟨once, honce, hrest⟩ := Result.bind_eq_ok.mp hinit
  cases hbase : FlowConfig.init config.node with
  | none =>
      rw [hbase] at hrest
      cases hrest
  | some base =>
      rw [hbase] at hrest
      obtain ⟨twice, htwice, hflow⟩ := Result.bind_eq_ok.mp hrest
      cases hflow
      rw [addDeliverConfig_eq] at honce htwice
      obtain ⟨hall, hnodup, hlookup⟩ := lookup_foldlM_emplace honce
      obtain ⟨-, hagain, hsame⟩ := lookup_foldlM_emplace htwice
      refine ⟨hbase, rfl, hall, hagain (hnodup List.nodup_nil), ?_⟩
      intro name made
      have hfirst := hlookup name made
      simp only [List.lookup_nil, reduceCtorEq, true_and, false_or] at hfirst
      simp only [hsame, hfirst]
      constructor
      · intro heither
        rcases heither with hfound | ⟨-, hfound⟩
        · exact hfound
        · exact hfound
      · intro hfound
        exact .inl hfound

end DeliverFlow

namespace CascadeAsyncPolicy

/-- The first node of a name. -/
def firstNode (configs : List DeliverNodeConfig) (name : String) :
    Option DeliverNodeConfig :=
  configs.find? fun config => config.node.name = name

theorem configParser_spec {library : Library} {configs : List DeliverNodeConfig}
    {policy : CascadeAsyncPolicy} (hparser : configParser library configs = .ok policy) :
    (∀ config ∈ configs, ∃ flow, DeliverFlow.init library config = .ok flow) ∧
      policy.flowMap.names.Nodup ∧
      ∀ name flow, policy.flowMap.lookup name = some flow ↔
        ∃ config, firstNode configs name = some config ∧
          DeliverFlow.init library config = .ok flow := by
  cases configs with
  | nil => cases hparser
  | cons first rest =>
      obtain ⟨flowMap, hfold, hpolicy⟩ := Result.bind_eq_ok.mp hparser
      cases hpolicy
      obtain ⟨hall, hnodup, hlookup⟩ := lookup_foldlM_emplace hfold
      refine ⟨hall, hnodup List.nodup_nil, ?_⟩
      intro name flow
      rw [hlookup]
      simp only [List.lookup_nil, reduceCtorEq, true_and, false_or]
      rfl

theorem foldlM_generate {flowMap before after : Members String DeliverFlow}
    {delivers : Members String FlowDeliverConfig} :
    delivers.foldlM (generate flowMap) before = some after ↔
      (∀ deliver ∈ delivers, flowMap.lookup deliver.1 = none) ∧
        after = before.emplaceAll
          (delivers.map fun deliver => (deliver.1, .ofDeliver deliver.2)) := by
  induction delivers generalizing before with
  | nil =>
      rw [List.foldlM_nil, Option.pure_def, Option.some_inj, eq_comm]
      exact (and_iff_right (by simp)).symm
  | cons deliver rest ih =>
      rw [List.foldlM_cons, generate, List.forall_mem_cons]
      cases hfound : flowMap.lookup deliver.1 with
      | some flow => simp
      | none =>
          rw [Option.isSome_none, if_neg Bool.false_ne_true, and_iff_right rfl]
          exact ih

/-- What `init_post_process` makes of the flow of a node. -/
def keepFlow (cancelConfig : Option FlowGlobalCancelConfig) (flow : DeliverFlow) :
    DeliverFlow :=
  (flow.setQuitConfig (cancelConfig.getD defaultCancelConfig)).deliverClear

variable {order : HashOrder} {cancelConfig : Option FlowGlobalCancelConfig}

theorem lookup_setQuitConfigs (flowMap : Members String DeliverFlow) (name : String) :
    (setQuitConfigs cancelConfig flowMap).lookup name =
      (flowMap.lookup name).map
        (DeliverFlow.setQuitConfig (cancelConfig.getD defaultCancelConfig)) :=
  Members.lookup_map _ flowMap name

/-- The flow of a node stays under its name, and a generated name leads to the first
`deliver_config` that was met. -/
theorem lookup_initPostProcess {parsed policy : CascadeAsyncPolicy}
    (hprocess : initPostProcess order cancelConfig parsed = some policy) (name : String) :
    policy.flowMap.lookup name =
      ((parsed.flowMap.lookup name).map (keepFlow cancelConfig)).or
        (((delivers order (setQuitConfigs cancelConfig parsed.flowMap)).lookup name).map
          .ofDeliver) := by
  obtain ⟨cascade, hgenerate, hpolicy⟩ := Option.bind_eq_some_iff.mp hprocess
  obtain ⟨-, rfl⟩ := foldlM_generate.mp hgenerate
  cases hpolicy
  have hnodup : ∀ entries : Members String DeliverFlow,
      (Members.emplaceAll [] entries).names.Nodup :=
    fun entries => Members.nodup_names_emplaceAll (by simp) entries
  rw [Members.lookup_emplaceAll, Members.lookup_perm (order.flows_perm _) (hnodup _),
    Members.lookup_emplaceAll, Members.lookup_map, Members.lookup_map,
    lookup_setQuitConfigs, Option.map_map, List.lookup_nil, Option.none_or]
  rfl

theorem initPostProcess_isSome {parsed : CascadeAsyncPolicy} :
    (initPostProcess order cancelConfig parsed).isSome ↔
      ∀ deliver ∈ delivers order (setQuitConfigs cancelConfig parsed.flowMap),
        parsed.flowMap.lookup deliver.1 = none := by
  have hlookup : ∀ name, (setQuitConfigs cancelConfig parsed.flowMap).lookup name = none ↔
      parsed.flowMap.lookup name = none := by
    intro name
    rw [lookup_setQuitConfigs, Option.map_eq_none_iff]
  rw [Option.isSome_iff_exists]
  constructor
  · intro hsome
    obtain ⟨policy, hpolicy⟩ := hsome
    obtain ⟨cascade, hgenerate, -⟩ := Option.bind_eq_some_iff.mp hpolicy
    intro deliver hdeliver
    exact (hlookup _).mp ((foldlM_generate.mp hgenerate).1 deliver hdeliver)
  · intro hfresh
    have hunknown := fun deliver hdeliver =>
      (hlookup _).mpr (hfresh deliver hdeliver)
    have hgenerate : (delivers order (setQuitConfigs cancelConfig parsed.flowMap)).foldlM
        (generate (setQuitConfigs cancelConfig parsed.flowMap)) [] = some _ :=
      foldlM_generate.mpr ⟨hunknown, rfl⟩
    exact ⟨_, Option.bind_eq_some_iff.mpr ⟨_, hgenerate, rfl⟩⟩

theorem mem_delivers {flowMap : Members String DeliverFlow}
    {deliver : String × FlowDeliverConfig} :
    deliver ∈ delivers order flowMap ↔
      ∃ entry ∈ flowMap, deliver ∈ entry.2.deliverMap := by
  simp only [delivers, List.mem_flatMap, (order.flows_perm _).mem_iff,
    (order.delivers_perm _).mem_iff]

theorem mem_delivers_setQuitConfigs {flowMap : Members String DeliverFlow}
    {deliver : String × FlowDeliverConfig} :
    deliver ∈ delivers order (setQuitConfigs cancelConfig flowMap) ↔
      ∃ entry ∈ flowMap, deliver ∈ entry.2.deliverMap := by
  rw [mem_delivers, setQuitConfigs]
  simp [DeliverFlow.setQuitConfig]

theorem init_spec {library : Library} {configs : List DeliverNodeConfig}
    {policy : CascadeAsyncPolicy} :
    init order library cancelConfig configs = .ok policy ↔
      ∃ parsed, configParser library configs = .ok parsed ∧
        parsed.flowCheck configs = true ∧
        initPostProcess order cancelConfig parsed = some policy := by
  unfold init
  rw [Result.bind_eq_ok]
  apply exists_congr
  intro parsed
  apply and_congr_right
  intro hparser
  cases parsed.flowCheck configs with
  | false => simp
  | true =>
      cases initPostProcess order cancelConfig parsed with
      | none => simp
      | some final => simp

/-- Whether a configuration is accepted does not depend on the order of the tables. -/
theorem init_order {library : Library} {configs : List DeliverNodeConfig}
    {policy : CascadeAsyncPolicy}
    (hinit : init order library cancelConfig configs = .ok policy) (other : HashOrder) :
    ∃ final, init other library cancelConfig configs = .ok final := by
  obtain ⟨parsed, hparser, hcheck, hprocess⟩ := init_spec.mp hinit
  have hfresh := initPostProcess_isSome.mp (Option.isSome_of_mem hprocess)
  have hsome : (initPostProcess other cancelConfig parsed).isSome := by
    rw [initPostProcess_isSome]
    intro deliver hdeliver
    exact hfresh deliver (mem_delivers_setQuitConfigs.mpr
      (mem_delivers_setQuitConfigs.mp hdeliver))
  obtain ⟨final, hfinal⟩ := Option.isSome_iff_exists.mp hsome
  exact ⟨final, init_spec.mpr ⟨parsed, hparser, hcheck, hfinal⟩⟩

/-- The `deliver_config` of a parsed flow, from the configuration of its node. -/
theorem mem_deliverMap {library : Library} {configs : List DeliverNodeConfig}
    {parsed : CascadeAsyncPolicy} (hparser : configParser library configs = .ok parsed)
    {entry : String × DeliverFlow} (hentry : entry ∈ parsed.flowMap)
    {name : String} {made : FlowDeliverConfig} :
    (name, made) ∈ entry.2.deliverMap ↔
      ∃ config deliver, firstNode configs entry.1 = some config ∧
        DeliverFlow.firstDeliver config name = some deliver ∧
        FlowDeliverConfig.init library deliver = .ok made := by
  obtain ⟨-, hnodup, hlookup⟩ := configParser_spec hparser
  obtain ⟨config, hfirst, hflow⟩ :=
    (hlookup entry.1 entry.2).mp (Members.lookup_of_mem hnodup hentry)
  have hof := DeliverFlow.init_spec hflow
  constructor
  · intro hmem
    obtain ⟨deliver, hdeliver, hmade⟩ :=
      (hof.lookup name made).mp (Members.lookup_of_mem hof.nodup hmem)
    exact ⟨config, deliver, hfirst, hdeliver, hmade⟩
  · intro hconfig
    obtain ⟨other, deliver, hother, hdeliver, hmade⟩ := hconfig
    rw [hfirst] at hother
    cases hother
    exact Members.mem_of_lookup ((hof.lookup name made).mpr ⟨deliver, hdeliver, hmade⟩)

/-- Every flow made of a `deliver_config` comes from the first of its name in the
first node of some name. -/
theorem source_of_delivers {library : Library} {configs : List DeliverNodeConfig}
    {parsed : CascadeAsyncPolicy} (hparser : configParser library configs = .ok parsed)
    {name : String} {made : FlowDeliverConfig}
    (hfound : (delivers order (setQuitConfigs cancelConfig parsed.flowMap)).lookup name =
      some made) :
    ∃ node config deliver, firstNode configs node = some config ∧
      DeliverFlow.firstDeliver config name = some deliver ∧
      FlowDeliverConfig.init library deliver = .ok made := by
  obtain ⟨entry, hentry, hmem⟩ :=
    mem_delivers_setQuitConfigs.mp (Members.mem_of_lookup hfound)
  exact ⟨entry.1, (mem_deliverMap hparser hentry).mp hmem⟩

/-- A flow with a `deliver_config` is a generated one. -/
theorem deliverConfig_source {library : Library} {configs : List DeliverNodeConfig}
    {policy : CascadeAsyncPolicy}
    (hinit : init order library cancelConfig configs = .ok policy) {name : String}
    {flow : DeliverFlow} {made : FlowDeliverConfig}
    (hflow : policy.flowMap.lookup name = some flow)
    (hconfig : flow.deliverConfig = some made) :
    ∃ deliver, FlowDeliverConfig.init library deliver = .ok made := by
  obtain ⟨parsed, hparser, -, hprocess⟩ := init_spec.mp hinit
  rw [lookup_initPostProcess hprocess, Option.or_eq_some_iff] at hflow
  rcases hflow with hnode | ⟨-, hgenerated⟩
  · obtain ⟨before, hbefore, rfl⟩ := Option.map_eq_some_iff.mp hnode
    obtain ⟨config, -, hmade⟩ := ((configParser_spec hparser).2.2 name before).mp hbefore
    have hnone : before.deliverConfig = some made := hconfig
    rw [(DeliverFlow.init_spec hmade).noConfig] at hnone
    cases hnone
  · obtain ⟨found, hfound, rfl⟩ := Option.map_eq_some_iff.mp hgenerated
    cases hconfig
    obtain ⟨-, -, deliver, -, -, hdeliver⟩ := source_of_delivers hparser hfound
    exact ⟨deliver, hdeliver⟩

/-- The policy without what `leveldeliver` adds. -/
def toDefaultPolicy (policy : CascadeAsyncPolicy) : DefaultPolicy where
  flowMap := policy.flowMap.map fun entry => (entry.1, entry.2.toFlowConfig)
  startFlow := policy.startFlow

theorem foldlM_addNode {library : Library} {configs : List DeliverNodeConfig}
    {before after : Members String DeliverFlow}
    (hfold : configs.foldlM (addNode library) before = .ok after) :
    ∃ nodes, (configs.map DeliverNodeConfig.node).mapM FlowConfig.init = some nodes ∧
      nodes.map FlowConfig.name = configs.map (·.node.name) ∧
      nodes.map FlowConfig.next = configs.map (·.node.next) ∧
      (after.map fun entry => (entry.1, entry.2.toFlowConfig)) =
        nodes.foldl (fun flowMap node => Members.emplace flowMap node.name node)
          (before.map fun entry => (entry.1, entry.2.toFlowConfig)) := by
  induction configs generalizing before with
  | nil =>
      cases hfold
      exact ⟨[], rfl, rfl, rfl, rfl⟩
  | cons config rest ih =>
      rw [List.foldlM_cons, Result.bind_eq_ok] at hfold
      obtain ⟨next, hnode, hrest⟩ := hfold
      obtain ⟨flow, hflow, hnext⟩ := Result.bind_eq_ok.mp hnode
      cases hnext
      obtain ⟨nodes, hnodes, hnames, hnexts, hmap⟩ := ih hrest
      have hbase := (DeliverFlow.init_spec hflow).base
      obtain ⟨recallConfig, -, hconfig⟩ := Option.map_eq_some_iff.mp hbase
      have hname : flow.name = config.node.name := by rw [← hconfig]
      have hnodeNext : flow.next = config.node.next := by rw [← hconfig]
      refine ⟨flow.toFlowConfig :: nodes, ?_, ?_, ?_, ?_⟩
      · rw [List.map_cons, List.mapM_cons, hbase, hnodes]
        rfl
      · rw [List.map_cons, List.map_cons, hnames, hname]
      · rw [List.map_cons, List.map_cons, hnexts, hnodeNext]
      · rw [hmap, List.foldl_cons, hname, Members.emplace, Members.emplace,
          Members.lookup_map, Option.isSome_map]
        split
        · rfl
        · rw [List.map_append]
          rfl

/-- `AsyncGlobalPolicy::init` runs `DefaultPolicy::init` first. -/
theorem initNodes_toDefaultPolicy {library : Library} {configs : List DeliverNodeConfig}
    {parsed : CascadeAsyncPolicy} (hparser : configParser library configs = .ok parsed)
    (hcheck : parsed.flowCheck configs = true) :
    DefaultPolicy.initNodes (configs.map DeliverNodeConfig.node) =
      some parsed.toDefaultPolicy := by
  cases configs with
  | nil => cases hparser
  | cons first rest =>
      obtain ⟨flowMap, hfold, hparsed⟩ := Result.bind_eq_ok.mp hparser
      cases hparsed
      obtain ⟨nodes, hnodes, hnames, hnexts, hmap⟩ := foldlM_addNode hfold
      apply Option.bind_eq_some_iff.mpr
      refine ⟨nodes, hnodes, Option.filter_eq_some_iff.mpr ⟨?_, ?_⟩⟩
      · cases nodes with
        | nil => cases hnames
        | cons node others =>
            rw [List.map_cons, List.map_cons, List.cons.injEq] at hnames
            rw [DefaultPolicy.configParser, toDefaultPolicy, hmap, hnames.1]
            rfl
      · apply List.all_eq_true.mpr
        intro node hnode
        cases hname : node.next with
        | none => rfl
        | some name =>
            have hmem := List.mem_map_of_mem (f := FlowConfig.next) hnode
            rw [hnexts] at hmem
            obtain ⟨config, hconfig, hnext⟩ := List.mem_map.mp hmem
            have hone := List.all_eq_true.mp hcheck config hconfig
            simp only [hnext, hname] at hone
            have hsome : (List.lookup name (flowMap.map fun entry =>
                (entry.1, entry.2.toFlowConfig))).isSome := by
              rw [Members.lookup_map, Option.isSome_map]
              exact hone
            exact hsome

end CascadeAsyncPolicy

end Uskit
