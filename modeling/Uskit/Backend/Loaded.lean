import Mathlib.Data.Option.Basic
import Uskit.Backend.Load

namespace Uskit

open Uskit.Data

/-! What `BackendEngine::init` accepts, and what its tables hold then. -/

section Listed

variable {β σ : Type}

/-- The backend whose channel and templates a name stands for. -/
def firstBackend (config : List (BackendConfig β σ)) (name : String) :
    Option (BackendConfig β σ) :=
  config.find? fun backend => backend.name = name

/-- Every service with the backend that it is listed in. -/
def listedServices (config : List (BackendConfig β σ)) :
    List (BackendConfig β σ × ServiceConfig σ) :=
  config.flatMap fun backend => backend.service.map (backend, ·)

def firstService (config : List (BackendConfig β σ)) (name : String) :
    Option (BackendConfig β σ × ServiceConfig σ) :=
  (listedServices config).find? fun listed => listed.2.name = name

end Listed

namespace EngineTables

section Loop

variable {β σ B S : Type} (initBackend : BackendConfig β σ → Option B)
  (initService : ServiceConfig σ → B → Option S)

/-- The backend of a name when the loop has come to `config`. -/
def backendOf (backendMap : Members String B) (config : List (BackendConfig β σ))
    (name : String) : Option B :=
  (backendMap.lookup name).or ((firstBackend config name).bind initBackend)

/-- A service is made with the first backend that has the name of its own. -/
def makeService (backendMap : Members String B) (config : List (BackendConfig β σ))
    (listed : BackendConfig β σ × ServiceConfig σ) : Option S :=
  (backendOf initBackend backendMap config listed.1.name).bind (initService listed.2)

variable {initBackend initService}

theorem backendOf_cons {backendMap : Members String B} {backend : BackendConfig β σ}
    {built : B} (hbuilt : initBackend backend = some built)
    (rest : List (BackendConfig β σ)) (name : String) :
    backendOf initBackend (backendMap.emplace backend.name built) rest name =
      backendOf initBackend backendMap (backend :: rest) name := by
  rw [backendOf, backendOf, Members.lookup_emplace, Option.or_assoc, firstBackend, firstBackend,
    List.find?_cons]
  by_cases hname : backend.name = name
  · rw [if_pos hname, decide_eq_true hname]
    exact congrArg _ (by rw [Option.some_or, Option.bind_some, hbuilt])
  · rw [if_neg hname, decide_eq_false hname, Option.none_or]

theorem makeService_cons {backendMap : Members String B} {backend : BackendConfig β σ}
    {built : B} (hbuilt : initBackend backend = some built)
    (rest : List (BackendConfig β σ)) :
    makeService initBackend initService (backendMap.emplace backend.name built) rest =
      makeService initBackend initService backendMap (backend :: rest) := by
  funext listed
  rw [makeService, makeService, backendOf_cons hbuilt]

def withBackend (state : EngineTables B S × Nat) (name : String) (built : B) :
    EngineTables B S × Nat :=
  ({ state.1 with backendMap := state.1.backendMap.emplace name built }, state.2)

/-- The backend that the services of the section get. -/
def shared (state : EngineTables B S × Nat) (name : String) (built : B) : B :=
  (state.1.backendMap.lookup name).getD built

theorem lookup_withBackend (state : EngineTables B S × Nat) (name : String) (built : B) :
    (withBackend state name built).1.backendMap.lookup name =
      some (shared state name built) := by
  rw [withBackend, Members.lookup_emplace, if_pos rfl, shared]
  cases state.1.backendMap.lookup name <;> rfl

theorem addBackends_cons {backend : BackendConfig β σ} {built : B}
    (hbuilt : initBackend backend = some built) (rest : List (BackendConfig β σ))
    (state : EngineTables B S × Nat) :
    addBackends initBackend initService (backend :: rest) state =
      (addServices initService (shared state backend.name built) backend.service
        (withBackend state backend.name built)).bind
          (addBackends initBackend initService rest) := by
  have hlookup := lookup_withBackend state backend.name built
  rw [withBackend] at hlookup
  simp only [addBackends, hbuilt, Option.bind_eq_bind, Option.bind_some, hlookup]
  rfl

theorem makeService_own {state : EngineTables B S × Nat} {backend : BackendConfig β σ}
    {built : B} (hbuilt : initBackend backend = some built) (rest : List (BackendConfig β σ))
    (service : ServiceConfig σ) :
    makeService initBackend initService state.1.backendMap (backend :: rest)
        (backend, service) =
      initService service (shared state backend.name built) := by
  have hlookup := lookup_withBackend state backend.name built
  rw [withBackend] at hlookup
  rw [← makeService_cons hbuilt, makeService, backendOf, hlookup, Option.some_or,
    Option.bind_some]

theorem addServices_isSome_iff {backend : B} {services : List (ServiceConfig σ)}
    {state : EngineTables B S × Nat} :
    (addServices initService backend services state).isSome ↔
      ∀ service ∈ services, (initService service backend).isSome := by
  induction services generalizing state with
  | nil => simp [addServices]
  | cons config rest ih =>
      rw [addServices, List.forall_mem_cons]
      cases hmade : initService config backend with
      | none => simp
      | some service => simpa using ih

theorem addServices_tables {backend : B} {services : List (ServiceConfig σ)}
    {state final : EngineTables B S × Nat}
    (hadd : addServices initService backend services state = some final) :
    final.1.backendMap = state.1.backendMap ∧
      ∀ name, final.1.serviceMap.lookup name =
        (state.1.serviceMap.lookup name).or
          ((services.find? fun service => service.name = name).bind
            (initService · backend)) := by
  induction services generalizing state with
  | nil =>
      cases hadd
      exact ⟨rfl, fun name => Option.or_none.symm⟩
  | cons config rest ih =>
      rw [addServices, Option.bind_eq_bind, Option.bind_eq_some_iff] at hadd
      obtain ⟨service, hservice, hrest⟩ := hadd
      obtain ⟨hbackends, hservices⟩ := ih hrest
      refine ⟨hbackends, fun name => ?_⟩
      rw [hservices, Members.lookup_emplace, Option.or_assoc, List.find?_cons]
      by_cases hname : config.name = name
      · rw [if_pos hname, decide_eq_true hname]
        exact congrArg _ (by rw [Option.some_or, Option.bind_some, hservice])
      · rw [if_neg hname, decide_eq_false hname, Option.none_or]

theorem firstService_cons (backend : BackendConfig β σ) (rest : List (BackendConfig β σ))
    (name : String) :
    firstService (backend :: rest) name =
      ((backend.service.find? fun service => service.name = name).map (backend, ·)).or
        (firstService rest name) := by
  rw [firstService, listedServices, List.flatMap_cons, List.find?_append, List.find?_map]
  rfl

theorem addBackends_isSome_iff {config : List (BackendConfig β σ)}
    (state : EngineTables B S × Nat) :
    (addBackends initBackend initService config state).isSome ↔
      (∀ backend ∈ config, (initBackend backend).isSome) ∧
        ∀ listed ∈ listedServices config,
          (makeService initBackend initService state.1.backendMap config listed).isSome := by
  induction config generalizing state with
  | nil => simp [addBackends, listedServices]
  | cons backend rest ih =>
      cases hbuilt : initBackend backend with
      | none => simp [addBackends, hbuilt]
      | some built =>
          have hown : ∀ service, makeService initBackend initService state.1.backendMap
              (backend :: rest) (backend, service) =
                initService service (shared state backend.name built) :=
            makeService_own hbuilt rest
          rw [addBackends_cons hbuilt, List.forall_mem_cons, hbuilt, listedServices,
            List.flatMap_cons, List.forall_mem_append, List.forall_mem_map]
          simp only [hown, Option.isSome_some, true_and]
          cases hadd : addServices initService (shared state backend.name built)
              backend.service (withBackend state backend.name built) with
          | none =>
              have hnot : ¬ ∀ service ∈ backend.service,
                  (initService service (shared state backend.name built)).isSome := by
                intro hall
                have hsome : (addServices initService (shared state backend.name built)
                    backend.service (withBackend state backend.name built)).isSome :=
                  addServices_isSome_iff.mpr hall
                rw [hadd] at hsome
                cases hsome
              simp [hnot]
          | some middle =>
              have hservices := addServices_isSome_iff.mp (Option.isSome_of_eq_some hadd)
              rw [Option.bind_some, ih, (addServices_tables hadd).1, withBackend,
                makeService_cons hbuilt]
              exact and_congr_right fun _ => (and_iff_right hservices).symm

theorem addBackends_serviceMap {config : List (BackendConfig β σ)}
    {state final : EngineTables B S × Nat}
    (hadd : addBackends initBackend initService config state = some final) (name : String) :
    final.1.serviceMap.lookup name =
      (state.1.serviceMap.lookup name).or ((firstService config name).bind
        (makeService initBackend initService state.1.backendMap config)) := by
  induction config generalizing state with
  | nil =>
      cases hadd
      exact Option.or_none.symm
  | cons backend rest ih =>
      cases hbuilt : initBackend backend with
      | none => simp [addBackends, hbuilt] at hadd
      | some built =>
          rw [addBackends_cons hbuilt, Option.bind_eq_some_iff] at hadd
          obtain ⟨middle, hservices, hrest⟩ := hadd
          obtain ⟨hbackends, htables⟩ := addServices_tables hservices
          rw [ih hrest, htables, hbackends, withBackend, makeService_cons hbuilt,
            Option.or_assoc, firstService_cons]
          refine congrArg _ ?_
          cases hfind : backend.service.find? fun service => service.name = name with
          | none => rfl
          | some service =>
              have hmade := addServices_isSome_iff.mp (Option.isSome_of_eq_some hservices)
                service (List.mem_of_find?_eq_some hfind)
              obtain ⟨made, hmade⟩ := Option.isSome_iff_exists.mp hmade
              rw [Option.map_some, Option.some_or, Option.bind_some, Option.bind_some,
                makeService_own hbuilt, hmade, Option.some_or]

theorem addServices_nodup {backend : B} {services : List (ServiceConfig σ)}
    {state final : EngineTables B S × Nat} (hnodup : state.1.serviceMap.names.Nodup)
    (hadd : addServices initService backend services state = some final) :
    final.1.serviceMap.names.Nodup := by
  induction services generalizing state with
  | nil =>
      cases hadd
      exact hnodup
  | cons config rest ih =>
      rw [addServices, Option.bind_eq_bind, Option.bind_eq_some_iff] at hadd
      obtain ⟨service, -, hrest⟩ := hadd
      exact ih (Members.nodup_names_emplace hnodup config.name service) hrest

theorem addBackends_nodup {config : List (BackendConfig β σ)}
    {state final : EngineTables B S × Nat} (hnodup : state.1.serviceMap.names.Nodup)
    (hadd : addBackends initBackend initService config state = some final) :
    final.1.serviceMap.names.Nodup := by
  induction config generalizing state with
  | nil =>
      cases hadd
      exact hnodup
  | cons backend rest ih =>
      simp only [addBackends, Option.bind_eq_bind, Option.bind_eq_some_iff] at hadd
      obtain ⟨built, -, shared, -, middle, hservices, hrest⟩ := hadd
      exact ih (addServices_nodup (by exact hnodup) hservices) hrest

end Loop

end EngineTables

section Load

variable (runtime : Expression.Runtime) (trimString : String → String → String)
  (channelInit : ChannelSetup → Option ChannelProtocol)

/-- A listed service, made over the first backend that has the name of its own. -/
def loadService (config : List BackendSection) (listed : BackendSection × ServiceSection) :
    Option LoadedService := do
  let first ← firstBackend config listed.1.name
  let backend ← Backend.init runtime trimString channelInit first
  LoadedService.init runtime trimString listed.2 backend

theorem loadService_eq (config : List BackendSection) :
    loadService runtime trimString channelInit config =
      EngineTables.makeService (Backend.init runtime trimString channelInit)
        (LoadedService.init runtime trimString) [] config := by
  funext listed
  exact (Option.bind_assoc ..).symm

/-- A configuration is loaded if every backend is, and every service over the first backend
of the name, whether or not its name has come before.  The tables hold under a name what the
first service of the name is made of. -/
theorem LoadedTables.load_iff (config : List BackendSection) :
    (∃ tables, LoadedTables.load runtime trimString channelInit config = some tables ∧
        ∀ name, tables.serviceMap.lookup name =
          (firstService config name).bind (loadService runtime trimString channelInit config)) ↔
      (∀ backend ∈ config, (Backend.init runtime trimString channelInit backend).isSome) ∧
        ∀ listed ∈ listedServices config,
          (loadService runtime trimString channelInit config listed).isSome := by
  rw [loadService_eq, LoadedTables.load, EngineTables.init]
  refine Iff.trans ?_ (EngineTables.addBackends_isSome_iff ({}, 0))
  constructor
  · rintro ⟨tables, hload, -⟩
    obtain ⟨state, hadd, -⟩ := Option.map_eq_some_iff.mp hload
    exact Option.isSome_of_eq_some hadd
  · intro hsome
    obtain ⟨state, hadd⟩ := Option.isSome_iff_exists.mp hsome
    refine ⟨state.1, Option.map_eq_some_iff.mpr ⟨state, hadd, rfl⟩, fun name => ?_⟩
    exact EngineTables.addBackends_serviceMap hadd name

theorem LoadedTables.lookup_serviceMap {config : List BackendSection} {tables : LoadedTables}
    (hload : LoadedTables.load runtime trimString channelInit config = some tables)
    (name : String) :
    tables.serviceMap.lookup name =
      (firstService config name).bind (loadService runtime trimString channelInit config) := by
  obtain ⟨state, hadd, rfl⟩ := Option.map_eq_some_iff.mp hload
  rw [loadService_eq]
  exact EngineTables.addBackends_serviceMap hadd name

end Load

/-! Loaded services whose policies are for the controllers that they get. -/

/-- The service of the other models, in which a policy of another protocol cannot be. -/
structure LoadedService.Models (loaded : LoadedService) (service : BackendService) : Prop where
  name : service.name = loaded.name
  controller : buildBackendController loaded.protocol loaded.isDynamic = some service.protocol
  request : loaded.requestPolicy = service.requestPolicy.map (⟨service.protocol, ·⟩)
  response : loaded.responsePolicy = service.responsePolicy.map (service.protocol, ·)

/-- A controller is made, and both policies are for its protocol. -/
structure LoadedService.Fits (loaded : LoadedService) (protocol : Protocol) : Prop where
  controller : buildBackendController loaded.protocol loaded.isDynamic = some protocol
  request : ∀ policy ∈ loaded.requestPolicy, policy.1 = protocol
  response : ∀ policy ∈ loaded.responsePolicy, policy.1 = protocol

theorem LoadedService.exists_models_iff (loaded : LoadedService) :
    (∃ service, loaded.Models service) ↔ ∃ protocol, loaded.Fits protocol := by
  constructor
  · rintro ⟨service, hmodels⟩
    refine ⟨service.protocol, hmodels.controller, ?_, ?_⟩
    · rw [hmodels.request]
      rintro policy hpolicy
      obtain ⟨found, -, rfl⟩ := Option.map_eq_some_iff.mp hpolicy
      rfl
    · rw [hmodels.response]
      rintro policy hpolicy
      obtain ⟨found, -, rfl⟩ := Option.map_eq_some_iff.mp hpolicy
      rfl
  · rintro ⟨protocol, hfits⟩
    have hrequest : ∃ policy : Option (RequestPolicy protocol),
        loaded.requestPolicy = policy.map (⟨protocol, ·⟩) := by
      cases hpolicy : loaded.requestPolicy with
      | none => exact ⟨none, rfl⟩
      | some policy =>
          obtain ⟨other, policy⟩ := policy
          obtain rfl := hfits.request _ hpolicy
          exact ⟨some policy, rfl⟩
    have hresponse : ∃ policy : Option ResponsePolicy,
        loaded.responsePolicy = policy.map (protocol, ·) := by
      cases hpolicy : loaded.responsePolicy with
      | none => exact ⟨none, rfl⟩
      | some policy =>
          obtain ⟨other, policy⟩ := policy
          obtain rfl := hfits.response _ hpolicy
          exact ⟨some policy, rfl⟩
    obtain ⟨requestPolicy, hrequest⟩ := hrequest
    obtain ⟨responsePolicy, hresponse⟩ := hresponse
    exact ⟨⟨loaded.name, protocol, requestPolicy, responsePolicy⟩,
      ⟨rfl, hfits.controller, hrequest, hresponse⟩⟩

/-- The names by which a configuration can choose the policies of a protocol. -/
def Protocol.policyNames : Protocol → List String
  | .http => ["default", "http_default", "dynamic_host_default"]
  | .dynamicHttp => ["default", "dynamic_default"]
  | .redis => ["default", "redis_default"]

/-- The policies of a service, as far as it has any, are those of the protocol. -/
structure Proto.ServiceSettings.Suits (settings : Proto.ServiceSettings) (protocol : Protocol) :
    Prop where
  request : settings.request.isSome → settings.requestPolicy ∈ protocol.policyNames
  response : settings.response.isSome → settings.responsePolicy ∈ protocol.policyNames

def controllerProtocol (channelInit : ChannelSetup → Option ChannelProtocol)
    (backend : BackendSection) : Option Protocol :=
  (channelInit backend.settings.channelSetup).bind
    (buildBackendController · backend.settings.isDynamic)

section Fits

variable {runtime : Expression.Runtime} {trimString : String → String → String}
  {channelInit : ChannelSetup → Option ChannelProtocol}

/-- What `register_policy` puts in both tables. -/
def registeredPolicies : Members String BackendPolicyClass :=
  [("http_default", .http), ("redis_default", .redis), ("dynamic_default", .dynamicHttp),
    ("dynamic_host_default", .hostDynHttp)]

theorem getRequestPolicy_registered (name : String) :
    PolicyManager.registered.getRequestPolicy name = registeredPolicies.lookup name := rfl

theorem getResponsePolicy_registered (name : String) :
    PolicyManager.registered.getResponsePolicy name = registeredPolicies.lookup name := rfl

theorem BackendPolicyClass.initRequest_protocol {policyClass : BackendPolicyClass}
    {config : Proto.RequestConfig} {backend : Backend}
    {policy : Σ protocol, RequestPolicy protocol}
    (hinit : policyClass.initRequest runtime trimString config backend = some policy) :
    policy.1 = policyClass.protocol := by
  cases policyClass <;>
    (obtain ⟨requestConfig, -, rfl⟩ := Option.map_eq_some_iff.mp hinit
     rfl)

/-- A registered name, with `default` resolved, is one of those for the protocol of the
controller exactly if its class is made for these. -/
theorem policyClass_protocol_iff {backend : Backend} {protocol : Protocol} {name : String}
    {policyClass : BackendPolicyClass}
    (hcontroller : buildBackendController backend.protocol backend.isDynamic = some protocol)
    (hclass : registeredPolicies.lookup (backend.policyName name) = some policyClass) :
    policyClass.protocol = protocol ↔ name ∈ protocol.policyNames := by
  by_cases hname : name = "default"
  · subst hname
    have hprotocol : policyClass.protocol = protocol := by
      rw [Backend.policyName, if_pos rfl] at hclass
      have hnames : registeredPolicies.lookup "http_default" = some .http ∧
          registeredPolicies.lookup "dynamic_default" = some .dynamicHttp ∧
            registeredPolicies.lookup "redis_default" = some .redis := by
        decide
      unfold buildBackendController at hcontroller
      split at hcontroller
      case isTrue hhttp =>
        rw [if_pos hhttp, hnames.1] at hclass
        cases hclass
        exact Option.some.inj hcontroller
      case isFalse hhttp =>
        rw [if_neg hhttp] at hclass
        split at hcontroller
        case isTrue hdynamic =>
          rw [if_pos hdynamic, hnames.2.1] at hclass
          cases hclass
          exact Option.some.inj hcontroller
        case isFalse hdynamic =>
          rw [if_neg hdynamic] at hclass
          split at hcontroller
          case isTrue hredis =>
            rw [if_pos hredis, hnames.2.2] at hclass
            cases hclass
            exact Option.some.inj hcontroller
          case isFalse => cases hcontroller
    refine iff_of_true hprotocol ?_
    cases protocol <;> exact List.mem_cons_self
  · rw [Backend.policyName, if_neg hname] at hclass
    have hmem := Members.mem_of_lookup hclass
    simp only [registeredPolicies, List.mem_cons, Prod.mk.injEq, List.not_mem_nil, or_false]
      at hmem
    rcases hmem with ⟨rfl, rfl⟩ | ⟨rfl, rfl⟩ | ⟨rfl, rfl⟩ | ⟨rfl, rfl⟩ <;>
      cases protocol <;> decide

section Chosen

variable {settings : Proto.ServiceSettings} {backend : Backend} {protocol : Protocol}
  (hcontroller : buildBackendController backend.protocol backend.isDynamic = some protocol)

include hcontroller

theorem requestPolicy_protocol_iff {loaded : Option (Σ protocol, RequestPolicy protocol)}
    (hinit : LoadedService.initRequestPolicy runtime trimString settings backend = some loaded) :
    (∀ policy ∈ loaded, policy.1 = protocol) ↔
      (settings.request.isSome → settings.requestPolicy ∈ protocol.policyNames) := by
  unfold LoadedService.initRequestPolicy at hinit
  cases hrequest : settings.request with
  | none =>
      rw [hrequest] at hinit
      cases hinit
      simp
  | some config =>
      rw [hrequest] at hinit
      obtain ⟨policy, hpolicy, rfl⟩ := Option.map_eq_some_iff.mp hinit
      obtain ⟨policyClass, hclass, hpolicy⟩ := Option.bind_eq_some_iff.mp hpolicy
      rw [getRequestPolicy_registered] at hclass
      simp only [Option.mem_some_iff, forall_eq', Option.isSome_some, forall_const]
      rw [BackendPolicyClass.initRequest_protocol hpolicy,
        policyClass_protocol_iff hcontroller hclass]

theorem responsePolicy_protocol_iff {loaded : Option (Protocol × ResponsePolicy)}
    (hinit : LoadedService.initResponsePolicy runtime trimString settings backend = some loaded) :
    (∀ policy ∈ loaded, policy.1 = protocol) ↔
      (settings.response.isSome → settings.responsePolicy ∈ protocol.policyNames) := by
  unfold LoadedService.initResponsePolicy at hinit
  cases hresponse : settings.response with
  | none =>
      rw [hresponse] at hinit
      cases hinit
      simp
  | some config =>
      rw [hresponse] at hinit
      obtain ⟨policy, hpolicy, rfl⟩ := Option.map_eq_some_iff.mp hinit
      obtain ⟨policyClass, hclass, hpolicy⟩ := Option.bind_eq_some_iff.mp hpolicy
      rw [getResponsePolicy_registered] at hclass
      obtain ⟨responseConfig, -, rfl⟩ := Option.map_eq_some_iff.mp hpolicy
      simp only [Option.mem_some_iff, forall_eq', Option.isSome_some, forall_const]
      exact policyClass_protocol_iff hcontroller hclass

end Chosen

/-- The policies of a loaded service are for its controllers exactly if the names in its
section suit the channel of its backend. -/
theorem exists_fits_iff {config : ServiceSection} {backend : Backend} {loaded : LoadedService}
    (hinit : LoadedService.init runtime trimString config backend = some loaded) :
    (∃ protocol, loaded.Fits protocol) ↔
      ∃ protocol, buildBackendController backend.protocol backend.isDynamic = some protocol ∧
        config.settings.Suits protocol := by
  simp only [LoadedService.init, Option.bind_eq_bind, Option.bind_eq_some_iff,
    Option.some.injEq] at hinit
  obtain ⟨condition, -, requestPolicy, hrequest, responsePolicy, hresponse, rfl⟩ := hinit
  refine exists_congr fun protocol => ⟨fun hfits => ?_, fun ⟨hcontroller, hsuits⟩ => ?_⟩
  · exact ⟨hfits.controller,
      (requestPolicy_protocol_iff hfits.controller hrequest).mp hfits.request,
      (responsePolicy_protocol_iff hfits.controller hresponse).mp hfits.response⟩
  · exact ⟨hcontroller, (requestPolicy_protocol_iff hcontroller hrequest).mpr hsuits.request,
      (responsePolicy_protocol_iff hcontroller hresponse).mpr hsuits.response⟩

theorem Backend.init_channel {config : BackendSection} {backend : Backend}
    (hinit : Backend.init runtime trimString channelInit config = some backend) :
    channelInit config.settings.channelSetup = some backend.protocol ∧
      backend.isDynamic = config.settings.isDynamic := by
  simp only [Backend.init, Option.bind_eq_bind, Option.bind_eq_some_iff,
    Option.some.injEq] at hinit
  obtain ⟨protocol, hprotocol, requestTemplates, -, responseTemplates, -, rfl⟩ := hinit
  exact ⟨hprotocol, rfl⟩

theorem LoadedService.init_name {config : ServiceSection} {backend : Backend}
    {loaded : LoadedService}
    (hinit : LoadedService.init runtime trimString config backend = some loaded) :
    loaded.name = config.name := by
  simp only [LoadedService.init, Option.bind_eq_bind, Option.bind_eq_some_iff,
    Option.some.injEq] at hinit
  obtain ⟨condition, -, requestPolicy, -, responsePolicy, -, rfl⟩ := hinit
  rfl

/-- The first backend of the name speaks a protocol that the names of the policies suit. -/
def WellConfigured (channelInit : ChannelSetup → Option ChannelProtocol)
    (config : List BackendSection) (listed : BackendSection × ServiceSection) : Prop :=
  ∃ first protocol, firstBackend config listed.1.name = some first ∧
    controllerProtocol channelInit first = some protocol ∧ listed.2.settings.Suits protocol

theorem exists_models_iff_wellConfigured {config : List BackendSection}
    {listed : BackendSection × ServiceSection} {loaded : LoadedService}
    (hload : loadService runtime trimString channelInit config listed = some loaded) :
    (∃ service, loaded.Models service) ↔ WellConfigured channelInit config listed := by
  simp only [loadService, Option.bind_eq_bind, Option.bind_eq_some_iff] at hload
  obtain ⟨first, hfirst, backend, hbackend, hservice⟩ := hload
  obtain ⟨hchannel, hdynamic⟩ := Backend.init_channel hbackend
  have hcontroller : controllerProtocol channelInit first =
      buildBackendController backend.protocol backend.isDynamic := by
    rw [controllerProtocol, hchannel, Option.bind_some, hdynamic]
  rw [loaded.exists_models_iff, exists_fits_iff hservice, ← hcontroller]
  constructor
  · rintro ⟨protocol, hprotocol, hsuits⟩
    exact ⟨first, protocol, hfirst, hprotocol, hsuits⟩
  · rintro ⟨other, protocol, hother, hprotocol, hsuits⟩
    cases hfirst.symm.trans hother
    exact ⟨protocol, hprotocol, hsuits⟩

/-- Under every name the tables hold what the engine holds, in the terms of the other
models. -/
def LoadedTables.Describes (tables : LoadedTables) (engine : BackendEngine) : Prop :=
  ∀ name, Option.Rel LoadedService.Models (tables.serviceMap.lookup name)
    (engine.findService name)

theorem exists_services {entries : Members String LoadedService}
    (hnames : ∀ entry ∈ entries, entry.2.name = entry.1)
    (hmodels : ∀ entry ∈ entries, ∃ service, entry.2.Models service) :
    ∃ engine : BackendEngine, ∀ name,
      Option.Rel LoadedService.Models (entries.lookup name) (engine.findService name) := by
  induction entries with
  | nil => exact ⟨⟨[]⟩, fun name => .none⟩
  | cons entry rest ih =>
      rw [List.forall_mem_cons] at hnames hmodels
      obtain ⟨service, hservice⟩ := hmodels.1
      obtain ⟨engine, hengine⟩ := ih hnames.2 hmodels.2
      refine ⟨⟨service :: engine.services⟩, fun name => ?_⟩
      have hname : service.name = entry.1 := hservice.name.trans hnames.1
      obtain ⟨own, loaded⟩ := entry
      rw [BackendEngine.findService, List.find?_cons, hname]
      by_cases hsame : name = own
      · rw [hsame, List.lookup_cons_self, beq_self_eq_true]
        exact .some hservice
      · rw [Members.lookup_cons_of_ne hsame, beq_false_of_ne (Ne.symm hsame)]
        exact hengine name

theorem LoadedTables.nodup_serviceMap {config : List BackendSection} {tables : LoadedTables}
    (hload : LoadedTables.load runtime trimString channelInit config = some tables) :
    tables.serviceMap.names.Nodup := by
  obtain ⟨state, hadd, rfl⟩ := Option.map_eq_some_iff.mp hload
  have hempty : ({} : LoadedTables).serviceMap.names.Nodup := List.nodup_nil
  exact EngineTables.addBackends_nodup (by exact hempty) hadd

theorem LoadedTables.exists_loaded {config : List BackendSection} {tables : LoadedTables}
    (hload : LoadedTables.load runtime trimString channelInit config = some tables) {name : String}
    {listed : BackendSection × ServiceSection}
    (hlisted : firstService config name = some listed) :
    ∃ loaded, loadService runtime trimString channelInit config listed = some loaded ∧
      tables.serviceMap.lookup name = some loaded := by
  have haccepted := ((LoadedTables.load_iff runtime trimString channelInit config).mp
    ⟨tables, hload, LoadedTables.lookup_serviceMap runtime trimString channelInit hload⟩).2
  obtain ⟨loaded, hloaded⟩ := Option.isSome_iff_exists.mp
    (haccepted listed (List.mem_of_find?_eq_some hlisted))
  refine ⟨loaded, hloaded, ?_⟩
  rw [LoadedTables.lookup_serviceMap runtime trimString channelInit hload, hlisted,
    Option.bind_some, hloaded]

/-- A loaded configuration can be run with a controller for every service, and with policies
that are for these controllers, exactly if the services that are found name policies of the
protocols that their channels speak. -/
theorem LoadedTables.exists_engine_iff {config : List BackendSection} {tables : LoadedTables}
    (hload : LoadedTables.load runtime trimString channelInit config = some tables) :
    (∃ engine, tables.Describes engine) ↔
      ∀ name listed, firstService config name = some listed →
        WellConfigured channelInit config listed := by
  constructor
  · rintro ⟨engine, hengine⟩ name listed hlisted
    obtain ⟨loaded, hloaded, hlookup⟩ := LoadedTables.exists_loaded hload hlisted
    have hrel := hengine name
    rw [hlookup] at hrel
    cases hfind : engine.findService name with
    | none => rw [hfind] at hrel; cases hrel
    | some service =>
        rw [hfind] at hrel
        cases hrel with
        | some hmodels => exact (exists_models_iff_wellConfigured hloaded).mp ⟨service, hmodels⟩
  · intro hall
    have hentries : ∀ entry ∈ tables.serviceMap, entry.2.name = entry.1 ∧
        ∃ service, entry.2.Models service := by
      rintro ⟨name, loaded⟩ hentry
      have hlookup := Members.lookup_of_mem (LoadedTables.nodup_serviceMap hload) hentry
      rw [LoadedTables.lookup_serviceMap runtime trimString channelInit hload,
        Option.bind_eq_some_iff] at hlookup
      obtain ⟨listed, hlisted, hloaded⟩ := hlookup
      refine ⟨?_, (exists_models_iff_wellConfigured hloaded).mpr (hall name listed hlisted)⟩
      simp only [loadService, Option.bind_eq_bind, Option.bind_eq_some_iff] at hloaded
      obtain ⟨first, -, backend, -, hservice⟩ := hloaded
      rw [LoadedService.init_name hservice]
      simpa using List.find?_some hlisted
    exact exists_services (fun entry hentry => (hentries entry hentry).1)
      fun entry hentry => (hentries entry hentry).2

end Fits

def namedChannels (setup : ChannelSetup) : Option ChannelProtocol :=
  if setup.protocol = "http" then some .http
  else if setup.protocol = "redis" then some .redis
  else none

/-- Two backends of one name, the second one of another protocol. -/
def sharedName : List BackendSection :=
  [{ name := "nlu", settings := { protocol := "http" }
     service := [{ name := "weather", settings := { request := some {} } }] },
    { name := "nlu", settings := { protocol := "redis" }
      service :=
        [{ name := "cache"
           settings := { request := some {}, requestPolicy := "redis_default" } }] }]

/-- The second service is loaded with the channel of the first backend. -/
theorem LoadedTables.exists_engine_iff_sharedName :
    ∃ tables,
      LoadedTables.load .plain Function.trimBoth namedChannels sharedName = some tables ∧
      ¬ ∃ engine, LoadedTables.Describes tables engine := by
  have hsome :
      (LoadedTables.load .plain Function.trimBoth namedChannels sharedName).isSome := by
    decide +kernel
  obtain ⟨tables, hload⟩ := Option.isSome_iff_exists.mp hsome
  refine ⟨tables, hload, fun hengine => ?_⟩
  obtain ⟨first, protocol, hfirst, hprotocol, hsuits⟩ :=
    (LoadedTables.exists_engine_iff hload).mp hengine "cache" _ rfl
  cases hfirst
  cases hprotocol
  exact absurd (hsuits.request rfl) (by decide)

end Uskit
