import Uskit.Flow.DeliverInit

namespace Uskit

open Uskit.Data

/-! Whether every `deliver_config` has its flow, in whatever order the tables are
gone through. -/

/-- The table that has one flow before the others. -/
def HashOrder.first (name : String) : HashOrder where
  flows := fun entries =>
    entries.filter (·.1 == name) ++ entries.filter fun entry => !(entry.1 == name)
  delivers := id
  flows_perm := List.filter_append_perm _
  delivers_perm := FlowDeliverConfig.id_perm

namespace CascadeAsyncPolicy

/-- The services of a `deliver_config`, each with its threshold. -/
def deliveries (library : Library) (config : DeliverConfig) :
    List (String × Result Json) :=
  config.deliverService.map fun service =>
    (service.serviceName, service.threshold.run library ⟨[], []⟩)

/-- What a threshold keeps with the allocator of the context in which it was
evaluated: a longer text, elements or members. -/
def dangles : Json → Bool
  | .array elements => !elements.isEmpty
  | .object members => !members.isEmpty
  | value => FlowDeliverConfig.freed value

/-- Under the name there is a flow for the services and thresholds of a
`deliver_config`, all of them still there. -/
def HasDelivery (library : Library) (policy : CascadeAsyncPolicy) (name : String)
    (config : DeliverConfig) : Prop :=
  ∃ flow made, policy.flowMap.lookup name = some flow ∧
    flow.deliverConfig = some made ∧
    made.deliverServiceVec.zip (made.thresholdVec.map .ok) = deliveries library config ∧
    (∀ threshold ∈ made.thresholdVec, dangles threshold = false) ∧
    flow.getRecallServiceList = made.deliverServiceVec

/-- The name that the recall of a node follows for a service. -/
def followedName (node : FlowNodeConfig) (service : String) : Option String :=
  (FlowConfig.initRecall node).bind fun recallConfig =>
    recallConfig.recallNext.lookup service

/-- Each `deliver_config` has its flow where the node goes for it, and under its
generated name no other one is in its place. -/
def DeliverFlows (library : Library) (configs : List DeliverNodeConfig)
    (policy : CascadeAsyncPolicy) : Prop :=
  ∀ config ∈ configs, ∀ deliver ∈ config.deliverConfigs,
    (∃ name, followedName config.node deliver.classifyService = some name ∧
      HasDelivery library policy name deliver) ∧
    HasDelivery library policy
      (FlowDeliverConfig.generatedName deliver.classifyService) deliver

/-- No threshold outlives what it refers to. -/
def Intact (library : Library) (config : DeliverConfig) : Prop :=
  ∀ delivery ∈ deliveries library config, ∀ threshold,
    delivery.2 = .ok threshold → dangles threshold = false

/-- A first node of its name generates a flow with the name, and every one that does
has the same services and thresholds first; and the thresholds are intact. -/
structure Stands (library : Library) (configs : List DeliverNodeConfig) (name : String)
    (deliver : DeliverConfig) : Prop where
  generated : ∃ node config other, firstNode configs node = some config ∧
    DeliverFlow.firstDeliver config name = some other
  same : ∀ node config other, firstNode configs node = some config →
    DeliverFlow.firstDeliver config name = some other →
    deliveries library other = deliveries library deliver
  intact : Intact library deliver

def DeliversApart (library : Library) (configs : List DeliverNodeConfig) : Prop :=
  ∀ config ∈ configs, ∀ deliver ∈ config.deliverConfigs,
    (∃ name, followedName config.node deliver.classifyService = some name ∧
      Stands library configs name deliver) ∧
    Stands library configs (FlowDeliverConfig.generatedName deliver.classifyService)
      deliver

variable {order : HashOrder} {library : Library}
  {cancelConfig : Option FlowGlobalCancelConfig} {configs : List DeliverNodeConfig}
  {parsed policy : CascadeAsyncPolicy}

theorem zip_thresholds {config : DeliverConfig} {made : FlowDeliverConfig}
    (hinit : FlowDeliverConfig.init library config = .ok made) :
    made.deliverServiceVec.zip (made.thresholdVec.map .ok) = deliveries library config := by
  obtain ⟨-, -, hservices, hthresholds⟩ := FlowDeliverConfig.init_spec hinit
  rw [hservices, hthresholds, FlowDeliverConfig.thresholds, List.zip_map']
  rfl

theorem intact_iff {config : DeliverConfig} {made : FlowDeliverConfig}
    (hsame : made.deliverServiceVec.zip (made.thresholdVec.map .ok) =
      deliveries library config) :
    Intact library config ↔ ∀ threshold ∈ made.thresholdVec, dangles threshold = false := by
  have hvalues : (deliveries library config).map Prod.snd = made.thresholdVec.map .ok := by
    rw [← hsame, List.map_snd_zip]
    rw [List.length_map, made.sameSize]
  constructor
  · intro hintact threshold hthreshold
    have hmem : Result.ok threshold ∈ (deliveries library config).map Prod.snd := by
      rw [hvalues]
      exact List.mem_map_of_mem hthreshold
    obtain ⟨delivery, hdelivery, hvalue⟩ := List.mem_map.mp hmem
    exact hintact delivery hdelivery threshold hvalue
  · intro hkept delivery hdelivery threshold hvalue
    have hmem : Result.ok threshold ∈ made.thresholdVec.map .ok := by
      rw [← hvalues, ← hvalue]
      exact List.mem_map_of_mem hdelivery
    obtain ⟨other, hother, heq⟩ := List.mem_map.mp hmem
    cases heq
    exact hkept threshold hother

theorem firstNode_entry (hparser : configParser library configs = .ok parsed)
    {node : String} {config : DeliverNodeConfig}
    (hfirst : firstNode configs node = some config) :
    ∃ flow, (node, flow) ∈ parsed.flowMap := by
  obtain ⟨hall, -, hlookup⟩ := configParser_spec hparser
  obtain ⟨flow, hflow⟩ := hall config (List.mem_of_find?_eq_some hfirst)
  exact ⟨flow, Members.mem_of_lookup ((hlookup node flow).mpr ⟨config, hfirst, hflow⟩)⟩

theorem firstDeliver_made (hparser : configParser library configs = .ok parsed)
    {node name : String} {config : DeliverNodeConfig} {deliver : DeliverConfig}
    (hfirst : firstNode configs node = some config)
    (hdeliver : DeliverFlow.firstDeliver config name = some deliver) :
    ∃ made, FlowDeliverConfig.init library deliver = .ok made := by
  obtain ⟨hall, -, -⟩ := configParser_spec hparser
  obtain ⟨flow, hflow⟩ := hall config (List.mem_of_find?_eq_some hfirst)
  exact (DeliverFlow.init_spec hflow).delivers deliver (List.mem_of_find?_eq_some hdeliver)

theorem delivers_isSome (order : HashOrder) (cancelConfig : Option FlowGlobalCancelConfig)
    (hparser : configParser library configs = .ok parsed)
    {node name : String} {config : DeliverNodeConfig} {deliver : DeliverConfig}
    (hfirst : firstNode configs node = some config)
    (hdeliver : DeliverFlow.firstDeliver config name = some deliver) :
    ((delivers order (setQuitConfigs cancelConfig parsed.flowMap)).lookup name).isSome := by
  obtain ⟨flow, hentry⟩ := firstNode_entry hparser hfirst
  obtain ⟨made, hmade⟩ := firstDeliver_made hparser hfirst hdeliver
  have hmem := (mem_deliverMap hparser hentry).mpr ⟨config, deliver, hfirst, hdeliver, hmade⟩
  rw [Members.lookup_isSome, Members.mem_names_iff]
  exact ⟨made, mem_delivers_setQuitConfigs.mpr ⟨_, hentry, hmem⟩⟩

theorem lookup_flatMap_of_forall {entries : Members String DeliverFlow} {name : String}
    {made : FlowDeliverConfig} (hne : entries ≠ [])
    (hall : ∀ entry ∈ entries, entry.2.deliverMap.lookup name = some made) :
    (entries.flatMap fun entry => entry.2.deliverMap).lookup name = some made := by
  cases entries with
  | nil => exact absurd rfl hne
  | cons entry rest =>
      rw [List.flatMap_cons, List.lookup_append, hall entry List.mem_cons_self]
      rfl

/-- Some order meets a given `deliver_config` before all others of its name. -/
theorem delivers_first (hparser : configParser library configs = .ok parsed)
    {node name : String} {config : DeliverNodeConfig} {deliver : DeliverConfig}
    {made : FlowDeliverConfig} (hfirst : firstNode configs node = some config)
    (hdeliver : DeliverFlow.firstDeliver config name = some deliver)
    (hmade : FlowDeliverConfig.init library deliver = .ok made) :
    (delivers (HashOrder.first node)
      (setQuitConfigs cancelConfig parsed.flowMap)).lookup name = some made := by
  obtain ⟨flow, hentry⟩ := firstNode_entry hparser hfirst
  have hset : (node, flow.setQuitConfig (cancelConfig.getD defaultCancelConfig)) ∈
      (setQuitConfigs cancelConfig parsed.flowMap).filter (·.1 == node) :=
    List.mem_filter.mpr ⟨List.mem_map.mpr ⟨_, hentry, rfl⟩, beq_self_eq_true node⟩
  have hleading : (((setQuitConfigs cancelConfig parsed.flowMap).filter
      (·.1 == node)).flatMap fun entry => entry.2.deliverMap).lookup name = some made := by
    apply lookup_flatMap_of_forall (List.ne_nil_of_mem hset)
    intro entry hmem
    obtain ⟨hfrom, hnode⟩ := List.mem_filter.mp hmem
    obtain ⟨before, hbefore, rfl⟩ := List.mem_map.mp hfrom
    obtain ⟨-, hnodup, hlookup⟩ := configParser_spec hparser
    obtain ⟨other, -, hother⟩ :=
      (hlookup _ _).mp (Members.lookup_of_mem hnodup hbefore)
    have hof := DeliverFlow.init_spec hother
    apply Members.lookup_of_mem hof.nodup
    rw [beq_iff_eq] at hnode
    exact (mem_deliverMap hparser hbefore).mpr
      ⟨config, deliver, hnode ▸ hfirst, hdeliver, hmade⟩
  simp only [delivers, HashOrder.first, List.flatMap_append, List.lookup_append, id]
  rw [hleading]
  rfl

theorem hasDelivery_iff (hparser : configParser library configs = .ok parsed)
    (hprocess : initPostProcess order cancelConfig parsed = some policy) {name : String}
    {deliver : DeliverConfig} :
    HasDelivery library policy name deliver ↔
      ∃ made, (delivers order
          (setQuitConfigs cancelConfig parsed.flowMap)).lookup name = some made ∧
        made.deliverServiceVec.zip (made.thresholdVec.map .ok) =
          deliveries library deliver ∧ Intact library deliver := by
  have hlookup := lookup_initPostProcess hprocess name
  constructor
  · intro hdelivery
    obtain ⟨flow, made, hflow, hconfig, hsame, hkept, -⟩ := hdelivery
    cases hnode : parsed.flowMap.lookup name with
    | some before =>
        obtain ⟨config, -, hbefore⟩ :=
          ((configParser_spec hparser).2.2 name before).mp hnode
        rw [hlookup, hnode] at hflow
        cases hflow
        have hnone : before.deliverConfig = some made := hconfig
        rw [(DeliverFlow.init_spec hbefore).noConfig] at hnone
        cases hnone
    | none =>
        rw [hlookup, hnode, Option.map_none, Option.none_or,
          Option.map_eq_some_iff] at hflow
        obtain ⟨found, hfound, rfl⟩ := hflow
        cases hconfig
        exact ⟨made, hfound, hsame, (intact_iff hsame).mpr hkept⟩
  · intro hmade
    obtain ⟨made, hfound, hsame, hintact⟩ := hmade
    have hfresh := initPostProcess_isSome.mp (Option.isSome_of_mem hprocess) _
      (Members.mem_of_lookup hfound)
    rw [hfresh, hfound] at hlookup
    refine ⟨.ofDeliver made, made, hlookup, rfl, hsame, (intact_iff hsame).mp hintact, ?_⟩
    rw [FlowConfig.getRecallServiceList, FlowRecallConfig.recallServiceList,
      DeliverFlow.ofDeliver, FlowRecallConfig.initRecall, List.map_map]
    exact List.map_id _

theorem hasDelivery_of_stands {name : String} {deliver : DeliverConfig}
    (hinit : init order library cancelConfig configs = .ok policy)
    (hstands : Stands library configs name deliver) :
    HasDelivery library policy name deliver := by
  obtain ⟨parsed, hparser, -, hprocess⟩ := init_spec.mp hinit
  obtain ⟨⟨node, config, other, hfirst, hother⟩, hsame, hintact⟩ := hstands
  obtain ⟨made, hmade⟩ := Option.isSome_iff_exists.mp
    (delivers_isSome order cancelConfig hparser hfirst hother)
  obtain ⟨source, origin, given, hsource, hgiven, hinitGiven⟩ :=
    source_of_delivers hparser hmade
  apply (hasDelivery_iff hparser hprocess).mpr
  exact ⟨made, hmade, (zip_thresholds hinitGiven).trans (hsame _ _ _ hsource hgiven),
    hintact⟩

/-- A name has the flow of a `deliver_config` in every order just where it stands. -/
theorem hasDelivery_forall_iff {name : String} {deliver : DeliverConfig}
    (hinit : init order library cancelConfig configs = .ok policy) :
    (∀ other final, init other library cancelConfig configs = .ok final →
      HasDelivery library final name deliver) ↔ Stands library configs name deliver := by
  constructor
  · intro hall
    obtain ⟨parsed, hparser, -, hprocess⟩ := init_spec.mp hinit
    constructor
    · obtain ⟨made, hmade, -⟩ :=
        (hasDelivery_iff hparser hprocess).mp (hall order policy hinit)
      obtain ⟨node, config, other, hfirst, hother, -⟩ := source_of_delivers hparser hmade
      exact ⟨node, config, other, hfirst, hother⟩
    · intro node config other hfirst hother
      obtain ⟨made, hmade⟩ := firstDeliver_made hparser hfirst hother
      obtain ⟨final, hfinal⟩ := init_order hinit (HashOrder.first node)
      obtain ⟨again, hagain, -, hlast⟩ := init_spec.mp hfinal
      obtain ⟨found, hfound, hsame, -⟩ :=
        (hasDelivery_iff hagain hlast).mp (hall _ final hfinal)
      rw [delivers_first hagain hfirst hother hmade] at hfound
      cases hfound
      exact (zip_thresholds hmade).symm.trans hsame
    · obtain ⟨made, -, -, hintact⟩ :=
        (hasDelivery_iff hparser hprocess).mp (hall order policy hinit)
      exact hintact
  · intro hstands other final hfinal
    exact hasDelivery_of_stands hfinal hstands

theorem deliverFlows_iff {order : HashOrder} {library : Library}
    {cancelConfig : Option FlowGlobalCancelConfig} {configs : List DeliverNodeConfig}
    {policy : CascadeAsyncPolicy}
    (hinit : init order library cancelConfig configs = .ok policy) :
    (∀ other final, init other library cancelConfig configs = .ok final →
      DeliverFlows library configs final) ↔ DeliversApart library configs := by
  constructor
  · intro hall config hconfig deliver hdeliver
    obtain ⟨⟨name, hname, -⟩, -⟩ := hall order policy hinit config hconfig deliver hdeliver
    refine ⟨⟨name, hname, ?_⟩, ?_⟩
    · apply (hasDelivery_forall_iff hinit).mp
      intro other final hfinal
      obtain ⟨⟨again, hagain, hdelivery⟩, -⟩ :=
        hall other final hfinal config hconfig deliver hdeliver
      rw [hname] at hagain
      cases hagain
      exact hdelivery
    · apply (hasDelivery_forall_iff hinit).mp
      intro other final hfinal
      exact (hall other final hfinal config hconfig deliver hdeliver).2
  · intro hapart other final hfinal config hconfig deliver hdeliver
    obtain ⟨⟨name, hname, hstands⟩, hown⟩ := hapart config hconfig deliver hdeliver
    exact ⟨⟨name, hname, hasDelivery_of_stands hfinal hstands⟩,
      hasDelivery_of_stands hfinal hown⟩

theorem generatedName_inj {first second : String}
    (hname : FlowDeliverConfig.generatedName first =
      FlowDeliverConfig.generatedName second) : first = second :=
  (String.append_left_inj _).mp hname

theorem lookup_emplace_deliver {services : List String} {service : String}
    {before : Members String String}
    (hbefore : ∀ next, before.lookup service = some next →
      next = FlowDeliverConfig.generatedName service)
    (hservice : service ∈ services ∨ (before.lookup service).isSome) :
    (services.foldl (fun recallNext service => Members.emplace recallNext service
      (FlowDeliverConfig.generatedName service)) before).lookup service =
        some (FlowDeliverConfig.generatedName service) := by
  induction services generalizing before with
  | nil =>
      obtain ⟨next, hnext⟩ := Option.isSome_iff_exists.mp
        (hservice.resolve_left List.not_mem_nil)
      rw [List.foldl_nil, hnext, hbefore next hnext]
  | cons first rest ih =>
      rw [List.foldl_cons]
      apply ih
      · intro next hnext
        rw [Members.lookup_emplace, Option.or_eq_some_iff] at hnext
        rcases hnext with hold | ⟨-, hnew⟩
        · exact hbefore next hold
        · split at hnew
          · rename_i heq
            cases hnew
            rw [heq]
          · cases hnew
      · by_cases heq : first = service
        · right
          rw [Members.lookup_emplace, if_pos heq, Option.isSome_or]
          simp
        · rcases hservice with hmem | hsome
          · exact .inl ((List.mem_cons.mp hmem).resolve_left (Ne.symm heq))
          · right
            rw [Members.lookup_emplace, Option.isSome_or, hsome]
            rfl

theorem firstNode_self (hnodes : (configs.map (·.node.name)).Nodup)
    {config : DeliverNodeConfig} (hconfig : config ∈ configs) :
    firstNode configs config.node.name = some config := by
  induction configs with
  | nil => cases hconfig
  | cons first rest ih =>
      rw [List.map_cons, List.nodup_cons] at hnodes
      cases hconfig with
      | head => rw [firstNode, List.find?_cons, decide_eq_true rfl]
      | tail _ hrest =>
          have hne : first.node.name ≠ config.node.name := by
            intro heq
            exact hnodes.1 (heq ▸ List.mem_map_of_mem hrest)
          rw [firstNode, List.find?_cons, decide_eq_false hne]
          exact ih hnodes.2 hrest

/-- Without a `recall_config`, a node goes to the generated name. -/
theorem followedName_eq {node : FlowNodeConfig} {service : String}
    (hrecall : node.recallConfig = none) (hservice : service ∈ node.deliverConfig) :
    followedName node service = some (FlowDeliverConfig.generatedName service) := by
  have hlength : node.deliverConfig.length > 0 := List.length_pos_of_mem hservice
  rw [followedName, FlowConfig.initRecall, hrecall]
  dsimp only
  rw [if_pos hlength, Option.bind_some]
  exact lookup_emplace_deliver (by simp) (.inl hservice)

/-- Nodes of different names, none of which has a `recall_config` beside its
`deliver_config`, and for each classify service the same services and thresholds, all of
them intact. -/
theorem DeliversApart.of_separate
    (hnodes : (configs.map (·.node.name)).Nodup)
    (hrecall : ∀ config ∈ configs, config.node.recallConfig = none)
    (hsame : ∀ config ∈ configs, ∀ deliver ∈ config.deliverConfigs, ∀ other ∈ configs,
      ∀ again ∈ other.deliverConfigs,
        again.classifyService = deliver.classifyService →
          deliveries library again = deliveries library deliver)
    (hintact : ∀ config ∈ configs, ∀ deliver ∈ config.deliverConfigs,
      Intact library deliver) :
    DeliversApart library configs := by
  intro config hconfig deliver hdeliver
  have hstands : Stands library configs
      (FlowDeliverConfig.generatedName deliver.classifyService) deliver := by
    constructor
    · have hsome : (DeliverFlow.firstDeliver config
          (FlowDeliverConfig.generatedName deliver.classifyService)).isSome := by
        rw [DeliverFlow.firstDeliver, List.find?_isSome]
        exact ⟨deliver, hdeliver, by simp⟩
      obtain ⟨other, hother⟩ := Option.isSome_iff_exists.mp hsome
      exact ⟨_, config, other, firstNode_self hnodes hconfig, hother⟩
    · intro node other again hfirst hagain
      obtain ⟨hmem, hname⟩ := DeliverFlow.firstDeliver_spec hagain
      exact hsame config hconfig deliver hdeliver other (List.mem_of_find?_eq_some hfirst)
        again hmem (generatedName_inj hname)
    · exact hintact config hconfig deliver hdeliver
  have hservice : deliver.classifyService ∈ config.node.deliverConfig := by
    rw [config.classifyServices]
    exact List.mem_map_of_mem hdeliver
  exact ⟨⟨_, followedName_eq (hrecall config hconfig) hservice, hstands⟩, hstands⟩

/-- A node with one `deliver_config`, for one service. -/
def deliverNode (name classifyService service threshold : String) :
    DeliverNodeConfig where
  node := { name := name, deliverConfig := [classifyService] }
  deliverConfigs :=
    [{ classNum := 2
       classifyService := classifyService
       deliverService := [⟨service, .string threshold⟩] }]
  classifyServices := rfl

theorem intact_deliverNode (library : Library) (name classifyService service : String)
    {threshold : String}
    (hshort : threshold.length ≤ FlowDeliverConfig.shortStringMaxSize) :
    ∀ deliver ∈ (deliverNode name classifyService service threshold).deliverConfigs,
      Intact library deliver := by
  intro deliver hdeliver
  cases List.mem_singleton.mp hdeliver
  intro delivery hdelivery value hvalue
  cases List.mem_singleton.mp hdelivery
  cases hvalue
  exact decide_eq_false (Nat.not_lt.mpr hshort)

theorem deliverFlows_separate :
    let configs :=
      [deliverNode "start" "topic" "faq" "help", deliverNode "second" "mood" "chat" "sad"]
    ∃ policy, init HashOrder.insertion Library.bare none configs = .ok policy ∧
      DeliverFlows Library.bare configs policy := by
  intro configs
  have hinit : init HashOrder.insertion Library.bare none configs = .ok _ := rfl
  have hapart : DeliversApart Library.bare configs := by
    apply DeliversApart.of_separate
    · decide
    · simp [configs, deliverNode]
    · simp [configs, deliverNode]
    · intro config hconfig
      rcases List.mem_cons.mp hconfig with rfl | hsecond
      · exact intact_deliverNode _ _ _ _ (by decide)
      · cases List.mem_singleton.mp hsecond
        exact intact_deliverNode _ _ _ _ (by decide)
  exact ⟨_, hinit, (deliverFlows_iff hinit).mpr hapart HashOrder.insertion _ hinit⟩

/-- Two nodes classify with the same service. -/
theorem deliver_collapsed :
    ¬ ∀ (order : HashOrder) (library : Library)
        (cancelConfig : Option FlowGlobalCancelConfig) (configs : List DeliverNodeConfig)
        (policy : CascadeAsyncPolicy),
      init order library cancelConfig configs = .ok policy →
        DeliverFlows library configs policy := by
  intro hall
  have hflows := hall HashOrder.insertion Library.bare none
    [deliverNode "start" "topic" "faq" "help", deliverNode "second" "topic" "chat" "sad"]
    _ rfl
  obtain ⟨-, flow, made, hflow, hconfig, hsame, -⟩ :=
    hflows (deliverNode "second" "topic" "chat" "sad") (by simp) _ List.mem_cons_self
  cases (show some _ = some flow from hflow)
  cases (show some _ = some made from hconfig)
  have hservices := congrArg (List.map Prod.fst) hsame
  revert hservices
  decide

end CascadeAsyncPolicy

end Uskit
