import Uskit.Data.Numbering
import Uskit.Flow.AsyncNode

namespace Uskit

open Uskit.Data

/-! `BackendEngine::init`, and the numbers of the services by which the
asynchronous policies find their contexts.  What the configurations of a backend
and of a service hold besides their names is left open, and so is how `init` of
the two classes reads it. -/

structure ServiceConfig (σ : Type u) where
  name : String
  settings : σ

structure BackendConfig (β : Type u) (σ : Type v) where
  name : String
  settings : β
  service : List (ServiceConfig σ)

structure EngineTables (B : Type u) (S : Type v) where
  backendMap : Members String B := []
  serviceMap : Members String S := []
  serviceContextIndex : Members String Nat := []

namespace EngineTables

variable {β σ B S : Type} (initBackend : BackendConfig β σ → Option B)
  (initService : ServiceConfig σ → B → Option S)

/-- The loop over the services of a backend, with the counter `service_beg`. -/
def addServices (backend : B) :
    List (ServiceConfig σ) → EngineTables B S × Nat → Option (EngineTables B S × Nat)
  | [], state => some state
  | config :: rest, (tables, serviceBeg) => do
      let service ← initService config backend
      addServices backend rest
        ({ tables with
            serviceMap := tables.serviceMap.emplace config.name service
            serviceContextIndex :=
              tables.serviceContextIndex.emplace config.name serviceBeg },
          serviceBeg + 1)

/-- The services get the backend that the table has under the name. -/
def addBackends :
    List (BackendConfig β σ) → EngineTables B S × Nat →
      Option (EngineTables B S × Nat)
  | [], state => some state
  | config :: rest, (tables, serviceBeg) => do
      let backend ← initBackend config
      let backendMap := tables.backendMap.emplace config.name backend
      let shared ← backendMap.lookup config.name
      let state ← addServices initService shared config.service
        ({ tables with backendMap := backendMap }, serviceBeg)
      addBackends rest state

def init (config : List (BackendConfig β σ)) : Option (EngineTables B S) :=
  (addBackends initBackend initService config ({}, 0)).map Prod.fst

def getServiceSize (tables : EngineTables B S) : Nat :=
  tables.serviceContextIndex.length

def getServiceIndex (tables : EngineTables B S) (serviceName : String) :
    Option Nat :=
  tables.serviceContextIndex.lookup serviceName

end EngineTables

/-- The names of all services, in the order of the configuration. -/
def serviceNames (config : List (BackendConfig β σ)) : List String :=
  config.flatMap fun backend => backend.service.map (·.name)

/-- Every service has a number, no two have one number, and every number is one
of a context in an array of `get_service_size()` contexts. -/
structure EngineTables.IndexesFit (tables : EngineTables B S) : Prop where
  known : ∀ name, (tables.serviceMap.lookup name).isSome →
    (tables.getServiceIndex name).isSome
  injective : ∀ first second index,
    tables.getServiceIndex first = some index →
      tables.getServiceIndex second = some index → first = second
  below : ∀ name index, tables.getServiceIndex name = some index →
    index < tables.getServiceSize
  access : ∀ flowContextArray : List Context,
    flowContextArray.length = tables.getServiceSize →
      ∀ name index, tables.getServiceIndex name = some index →
        ∃ context, flowContextArray[index]? = some context

namespace EngineTables

variable {β σ B S : Type} {initBackend : BackendConfig β σ → Option B}
  {initService : ServiceConfig σ → B → Option S}

theorem addServices_index {backend : B} {services : List (ServiceConfig σ)}
    {tables final : EngineTables B S} {serviceBeg next : Nat}
    (hadd : addServices initService backend services (tables, serviceBeg) =
      some (final, next)) :
    final.serviceContextIndex =
        Members.numberFrom tables.serviceContextIndex serviceBeg
          (services.map (·.name)) ∧
      next = serviceBeg + services.length := by
  induction services generalizing tables serviceBeg with
  | nil =>
      cases hadd
      exact ⟨rfl, rfl⟩
  | cons config rest ih =>
      rw [addServices, Option.bind_eq_bind, Option.bind_eq_some_iff] at hadd
      obtain ⟨service, -, hrest⟩ := hadd
      obtain ⟨hindex, hnext⟩ := ih hrest
      refine ⟨hindex, ?_⟩
      rw [hnext, List.length_cons]
      omega

theorem addBackends_index {config : List (BackendConfig β σ)}
    {tables final : EngineTables B S} {serviceBeg next : Nat}
    (hadd : addBackends initBackend initService config (tables, serviceBeg) =
      some (final, next)) :
    final.serviceContextIndex =
      Members.numberFrom tables.serviceContextIndex serviceBeg
        (serviceNames config) := by
  induction config generalizing tables serviceBeg with
  | nil =>
      cases hadd
      rfl
  | cons backend rest ih =>
      simp only [addBackends, Option.bind_eq_bind, Option.bind_eq_some_iff] at hadd
      obtain ⟨built, -, shared, -, ⟨middle, counter⟩, hservices, hrest⟩ := hadd
      obtain ⟨hindex, hcounter⟩ := addServices_index hservices
      have hnames : serviceNames (backend :: rest) =
          backend.service.map (·.name) ++ serviceNames rest := rfl
      rw [ih hrest, hindex, hcounter, hnames, Members.numberFrom_append,
        List.length_map]

theorem addServices_known {backend : B} {services : List (ServiceConfig σ)}
    {state final : EngineTables B S × Nat}
    (hknown : state.1.serviceMap.names = state.1.serviceContextIndex.names)
    (hadd : addServices initService backend services state = some final) :
    final.1.serviceMap.names = final.1.serviceContextIndex.names := by
  induction services generalizing state with
  | nil =>
      cases hadd
      exact hknown
  | cons config rest ih =>
      rw [addServices, Option.bind_eq_bind, Option.bind_eq_some_iff] at hadd
      obtain ⟨service, -, hrest⟩ := hadd
      exact ih (Members.names_emplace_congr hknown config.name service state.2) hrest

theorem addBackends_known {config : List (BackendConfig β σ)}
    {state final : EngineTables B S × Nat}
    (hknown : state.1.serviceMap.names = state.1.serviceContextIndex.names)
    (hadd : addBackends initBackend initService config state = some final) :
    final.1.serviceMap.names = final.1.serviceContextIndex.names := by
  induction config generalizing state with
  | nil =>
      cases hadd
      exact hknown
  | cons backend rest ih =>
      simp only [addBackends, Option.bind_eq_bind, Option.bind_eq_some_iff] at hadd
      obtain ⟨built, -, shared, -, middle, hservices, hrest⟩ := hadd
      exact ih (addServices_known (by exact hknown) hservices) hrest

theorem index_of_init {config : List (BackendConfig β σ)}
    {tables : EngineTables B S}
    (hinit : init initBackend initService config = some tables) :
    tables.serviceContextIndex = Members.number (serviceNames config) := by
  obtain ⟨⟨final, next⟩, hadd, rfl⟩ := Option.map_eq_some_iff.mp hinit
  exact addBackends_index hadd

/-- The numbers of the flat list of services that the policies use elsewhere. -/
theorem getServiceIndex_eq {config : List (BackendConfig β σ)}
    {tables : EngineTables B S} {engine : BackendEngine}
    (hinit : init initBackend initService config = some tables)
    (hservices : engine.services.map (·.name) = serviceNames config)
    (name : String) :
    tables.getServiceIndex name = engine.serviceIndex name ∧
      tables.getServiceSize = engine.serviceSize := by
  rw [getServiceIndex, getServiceSize, index_of_init hinit, ← hservices,
    Members.lookup_number, List.findIdx?_map, BackendEngine.serviceIndex,
    BackendEngine.serviceSize, ← Members.names_number]
  exact ⟨rfl, (List.length_map _).symm⟩

/-- The services are numbered within the arrays of contexts exactly when the
configuration names no new service after it has named one again. -/
theorem indexesFit_iff {config : List (BackendConfig β σ)}
    {tables : EngineTables B S}
    (hinit : init initBackend initService config = some tables) :
    tables.IndexesFit ↔ Members.RepeatsLast (serviceNames config) := by
  rw [← Members.number_lt_length_iff, ← index_of_init hinit]
  constructor
  · intro hfit
    exact hfit.below
  · intro hbelow
    refine ⟨?_, ?_, hbelow, ?_⟩
    · intro name hname
      obtain ⟨⟨final, next⟩, hadd, rfl⟩ := Option.map_eq_some_iff.mp hinit
      rw [Members.lookup_isSome, addBackends_known rfl hadd] at hname
      exact Members.lookup_isSome.mpr hname
    · intro first second index hfirst hsecond
      rw [getServiceIndex, index_of_init hinit] at hfirst hsecond
      exact Members.lookup_number_inj hfirst hsecond
    · intro flowContextArray hlength name index hindex
      have hlt : index < flowContextArray.length := by
        rw [hlength]
        exact hbelow name index hindex
      exact ⟨flowContextArray[index], List.getElem?_eq_getElem hlt⟩

end EngineTables

def namedService (name : String) : ServiceConfig Unit :=
  ⟨name, ()⟩

/-- Two backends; the second names a service of the first again, before or after
a service of its own. -/
def twoBackends (second : List String) : List (BackendConfig Unit Unit) :=
  [⟨"nlu", (), [namedService "weather"]⟩, ⟨"skill", (), second.map namedService⟩]

/-- The tables of the two backends, the repeated service last. -/
def weatherLastTables : EngineTables Unit Unit where
  backendMap := [("nlu", ()), ("skill", ())]
  serviceMap := [("weather", ()), ("news", ())]
  serviceContextIndex := [("weather", 0), ("news", 1)]

theorem weatherLast_fits : weatherLastTables.IndexesFit := by
  have hinit : EngineTables.init (fun _ => some ()) (fun _ _ => some ())
      (twoBackends ["news", "weather"]) = some weatherLastTables := rfl
  rw [EngineTables.indexesFit_iff hinit]
  exact ⟨["weather", "news"], ["weather"], rfl, by decide, by decide⟩

theorem newsLast_beyond :
    ¬ ∀ (initBackend : BackendConfig Unit Unit → Option Unit)
        (initService : ServiceConfig Unit → Unit → Option Unit)
        (config : List (BackendConfig Unit Unit)) tables,
      EngineTables.init initBackend initService config = some tables →
        tables.IndexesFit := by
  intro hall
  have hfit := hall (fun _ => some ()) (fun _ _ => some ())
    (twoBackends ["weather", "news"]) _ rfl
  have hlt := hfit.below "news" 2 (by decide)
  revert hlt
  decide

end Uskit
