import Uskit.Flow.ServiceContexts

namespace Uskit

open Uskit.Data

/-! Which services the variable `recall` lists after an asynchronous node. -/

namespace MergeBack

variable {engine : BackendEngine} {contexts : List Context}

/-- The contexts of services that are not listed yet are untouched. -/
def Agrees (engine : BackendEngine) (contexts : List Context)
    (state : MergeBack) : Prop :=
  ∀ service index, engine.serviceIndex service = some index →
    service ∉ state.successRecallServices →
      state.contexts[index]? = contexts[index]?

end MergeBack

namespace MergedRecall

/-- The record comes from the merge loop. -/
def FromLoop (engine : BackendEngine) (record : MergedRecall) : Prop :=
  ∃ merged,
    MergeBack.run engine record.services
      { context := record.before, contexts := record.calls.contexts } =
        .ok merged ∧
    record.after = merged.context.setVariable "recall"
      (.array (merged.successRecallServices.map .string))

variable {engine : BackendEngine} {record : MergedRecall}

end MergedRecall

namespace MergeBack

variable {engine : BackendEngine} {service : String}

end MergeBack

namespace FlowConfig

variable (env : FlowEnvironment) (config : FlowConfig)

/-- What is recorded comes from the merge loop, after the calls of the schedule. -/
structure Recorded (schedule : AsyncSchedule) (contexts : List Context)
    (node : NodeState MergedRecall) (record : MergedRecall) : Prop where
  loop : record.FromLoop env.backendEngine
  followed : ∃ defined service,
    runDefs env config.definition config.getRecallServiceList contexts = .ok defined ∧
      config.asyncIntervene env defined = .ok service ∧
      Machine.run (AsyncRecall.step env) { contexts := defined } schedule.labels =
        some record.calls ∧
      record.services = config.servicesToMerge (noteIntervention service node)

variable {env config}

end FlowConfig

def bothNode (next : Option String) : FlowConfig :=
  { weatherNode next with
    recallConfig :=
      { flowName := "start"
        recallServices := [("weather", 0), ("news", 0)] } }

/-- Both requests are sent, and the second service answers first. -/
def newsFirst : AsyncSchedule where
  labels :=
    [.build "weather", .build "news",
      .respond "news" [{ contentType := "text/plain", body := "late" }],
      .respond "weather" [{ contentType := "text/plain", body := "sunny" }]]

/-- What `newsFirst` leaves in the two contexts. -/
def newsRecall : AsyncRecall where
  contexts :=
    [⟨weatherTop [weatherAnswer "sunny"] (.object []), []⟩,
      ⟨weatherTop [lateNews] (.object []), []⟩]
  answers := [lateNews, weatherAnswer "sunny"]
  carried := [(1, lateNews), (0, weatherAnswer "sunny")]

end Uskit
