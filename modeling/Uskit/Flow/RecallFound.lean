import Uskit.Flow.DefaultPolicy

namespace Uskit

open Uskit.Data

/-! What a recall under the default policy leaves to be looked up. -/

/-- Each service that the variable `recall` lists has in `backend` a response
parsed in this recall, and no member name occurs twice. -/
def Collected.Found (collected : Collected) : Prop :=
  ∃ listed members,
    collected.context.getVariable "recall" = some (.array listed) ∧
    collected.context.getVariable "backend" = some (.object members) ∧
    (Members.names members).Nodup ∧
    ∀ service, .string service ∈ listed →
      ∃ response, (service, response) ∈ collected.answers ∧
        members.lookup service = some response

def DistinctNames (value : Json) : Prop :=
  ∃ members, value = .object members ∧ (Members.names members).Nodup

abbrev FlowRun.RecallsFound (run : FlowRun Collected) : Prop :=
  run.Sound Collected.Found DistinctNames

def recallAnswers (env : FlowEnvironment) (rpc : RpcReplies)
    (services : List String) (context : Context) : JsonMembers :=
  (env.backendEngine.recallTurns env.library rpc services context).filterMap
    (Turn.collected env.library)

/-- No definition of the node hides `backend` or `recall`, and the services that
answer are distinct and not yet members of `backend`. -/
structure FreshRecall (env : FlowEnvironment) (rpc : RpcReplies)
    (services : List String) (before : Context) : Prop where
  recallUnset : before.ownVariables.lookup "recall" = none
  backendUnset : before.ownVariables.lookup "backend" = none
  distinct : (Members.names (recallAnswers env rpc services before)).Nodup
  absent : ∀ members, before.getVariable "backend" = some (.object members) →
    ∀ service ∈ Members.names (recallAnswers env rpc services before),
      service ∉ Members.names members

/-- The context in which the engine is called: the definitions ran twice. -/
def FlowConfig.beforeRecall (env : FlowEnvironment) (config : FlowConfig)
    (context : Context) : Outcome Context :=
  (config.recallRunDef env.library context).andThen
    (config.definition.runDef env.library)

def DefaultPolicy.RecallsFresh (env : FlowEnvironment) (policy : DefaultPolicy)
    (run : FlowRun Collected) (label : FlowLabel RpcReplies) : Prop :=
  ∀ rpc currFlow config before services,
    label = .process rpc → run.phase = .node currFlow →
    policy.flowMap.lookup currFlow = some config →
    config.beforeRecall env run.topContext.enter = .ok before →
    config.servicesToRecall env before = .ok services →
      FreshRecall env rpc services before

@[simp] theorem cStr_recall : cStr "recall" = "recall" := by decide

section Recall

variable {env : FlowEnvironment} {rpc : RpcReplies} {services : List String}
  {before around : Context} {backend : Json} {collected : Collected}

theorem FreshRecall.collected_sound
    (hfresh : FreshRecall env rpc services before)
    (houter : before.outerNamed "backend" = around.allNamed "backend")
    (haround : around.getVariable "backend" = some backend)
    (hdistinct : DistinctNames backend) (node : NodeState Collected)
    (hrun : env.backendEngine.run env.library rpc services before =
      .ok collected) :
    NodeState.Sound Collected.Found DistinctNames
      { node with context := collected.context, recalled := some collected } := by
  obtain ⟨after, hcontext, hcollects⟩ := BackendEngine.run_collects hrun
  obtain ⟨members, rfl, hnodup⟩ := hdistinct
  have hanswers : collected.answers = recallAnswers env rpc services before := by
    have heq := hcollects.answers
    rwa [List.nil_append] at heq
  have hbefore : before.getVariable "backend" = some (.object members) := by
    rw [Context.getVariable_of_unset (by simpa using hfresh.backendUnset),
      ← haround]
    rw [Context.getVariable, BackendEngine.cStr_backend]
    exact Context.findVariable_congr houter
  have hbackend : after.getVariable "backend" =
      some (.object (members ++ collected.answers)) := by
    have heq := hcollects.backend
    rw [hbefore] at heq
    rw [hanswers]
    exact heq
  have hnames : (Members.names (members ++ collected.answers)).Nodup := by
    rw [Members.names_append, hanswers]
    apply List.nodup_append.mpr
    refine ⟨hnodup, hfresh.distinct, ?_⟩
    intro old hold new hnew heq
    exact hfresh.absent members hbefore new hnew (heq ▸ hold)
  have hrecallNamed := hcollects.others "recall" (by decide)
  have hrecallUnset : after.ownVariables.lookup "recall" = none :=
    (Context.lookup_of_allNamed hrecallNamed).trans hfresh.recallUnset
  have hbackendUnset := hcollects.unset hfresh.backendUnset
  have hunset : collected.context.ownVariables.lookup "backend" = none := by
    rw [hcontext, Context.setVariable,
      Members.lookup_append_singleton_of_ne (by decide)]
    exact hbackendUnset
  have hfound : collected.context.getVariable "backend" =
      some (.object (members ++ collected.answers)) := by
    rw [hcontext, BackendEngine.getVariable_backend_congr
      (Context.allNamed_setVariable_of_ne (by decide) _ _)]
    exact hbackend
  apply NodeState.Sound.of_unset _ hunset hfound ⟨_, rfl, hnames⟩
  intro other hother
  cases hother
  refine ⟨(Members.names collected.answers).map .string,
    members ++ collected.answers, ?_, hfound, hnames, ?_⟩
  · rw [hcontext, Context.getVariable_eq, Context.setVariable, cStr_recall,
      Members.lookup_append_of_not_mem (Members.lookup_eq_none.mp hrecallUnset)]
    simp [Collected.recalled]
  · intro service hlisted
    obtain ⟨name, hname, heq⟩ := List.mem_map.mp hlisted
    cases heq
    obtain ⟨response, hresponse⟩ := Members.mem_names_iff.mp hname
    refine ⟨response, hresponse, ?_⟩
    exact Members.lookup_of_mem hnames (List.mem_append_right _ hresponse)

end Recall

section Node

variable {env : FlowEnvironment} {rpc : RpcReplies} {config : FlowConfig}
  {backend : Json}

theorem FlowConfig.runRecall_sound {before around : Context}
    {interveneService : String}
    (houter : before.outerNamed "backend" = around.allNamed "backend")
    (haround : around.getVariable "backend" = some backend)
    (hdistinct : DistinctNames backend)
    (hfresh : ∀ services, config.servicesToRecall env before = .ok services →
      FreshRecall env rpc services before) :
    (config.runRecall env rpc
      { context := before, interveneService := interveneService }).Leaves
        (NodeState.Sound Collected.Found DistinctNames) := by
  have hbefore : NodeState.Sound Collected.Found DistinctNames
      { context := before, interveneService := interveneService } :=
    .of_outer houter haround hdistinct
  unfold runRecall
  cases hservices : config.servicesToRecall env before with
  | failed => exact .failed hbefore
  | undefined => exact .undefined
  | ok services =>
      simp only [Outcome.evaluate_ok]
      cases hrun : env.backendEngine.run env.library rpc services before with
      | failed => exact .failed hbefore
      | undefined => exact .undefined
      | ok collected =>
          exact .ok ((hfresh services hservices).collected_sound houter haround
            hdistinct { context := before, interveneService := interveneService }
            hrun)

theorem FlowConfig.kernelProcess_sound {top : Context} {interveneService : String}
    (htop : top.getVariable "backend" = some backend)
    (hdistinct : DistinctNames backend)
    (hfresh : ∀ before services,
      config.beforeRecall env top.enter = .ok before →
      config.servicesToRecall env before = .ok services →
        FreshRecall env rpc services before) :
    (kernelProcess env rpc config
      { context := top.enter, interveneService := interveneService }).Leaves
        (NodeState.Sound Collected.Found DistinctNames) := by
  have hkeepsFirst := config.recallRunDef_outerNamed env.library "backend"
    top.enter
  unfold kernelProcess onContext
  cases hfirst : config.recallRunDef env.library top.enter with
  | undefined => exact .undefined
  | failed context =>
      rw [hfirst] at hkeepsFirst
      cases hkeepsFirst with
      | failed same => exact .failed (.of_outer same htop hdistinct)
  | ok first =>
      rw [hfirst] at hkeepsFirst
      have houter := hkeepsFirst.of_ok
      have hkeepsSecond := KEMap.runDef_outerNamed env.library "backend"
        config.definition first
      simp only [Outcome.map, Outcome.ok_andThen]
      cases hsecond : config.definition.runDef env.library first with
      | undefined => exact .undefined
      | failed context =>
          rw [hsecond] at hkeepsSecond
          cases hkeepsSecond with
          | failed same =>
              exact .failed (.of_outer (same.trans houter) htop hdistinct)
      | ok before =>
          rw [hsecond] at hkeepsSecond
          have hbefore : config.beforeRecall env top.enter = .ok before := by
            rw [beforeRecall, hfirst, Outcome.ok_andThen, hsecond]
          have hrecall : (config.runRecall env rpc
              { context := before
                interveneService := interveneService }).Leaves
                (NodeState.Sound Collected.Found DistinctNames) :=
            runRecall_sound (hkeepsSecond.of_ok.trans houter) htop hdistinct
              fun services => hfresh before services hbefore
          apply hrecall.andThen (fun _ hnode => hnode)
          intro node hnode
          exact hnode.rankAndOutput env config

end Node

/-- In a run whose recalls are fresh every recall is found, and `backend` has
distinct names throughout. -/
theorem DefaultPolicy.recallsFound_of_fresh (env : FlowEnvironment)
    (policy : DefaultPolicy) (request response : Json)
    (labels : List (FlowLabel RpcReplies)) (final : FlowRun Collected)
    (hfresh : Machine.Guarded (policy.step env (FlowConfig.kernelProcess env))
      (policy.RecallsFresh env) (policy.start request response) labels)
    (hrun : Machine.run (policy.step env (FlowConfig.kernelProcess env))
      (policy.start request response) labels = some final) :
    final.RecallsFound := by
  apply run_sound ⟨[], rfl, List.nodup_nil⟩ _ hfresh hrun
  intro run label hsound hguard info currFlow config hlabel hphase hconfig
  obtain ⟨backend, htop, hdistinct⟩ := hsound.backend
  exact FlowConfig.kernelProcess_sound htop hdistinct fun before services =>
    hguard info currFlow config before services hlabel hphase hconfig

def weatherRecall (backend : JsonMembers) (text : String) : Collected where
  context :=
    ⟨[("recall", .array [.string "weather"])],
      [weatherTop (backend ++ [weatherAnswer text]) (.object [])]⟩
  answers := [weatherAnswer text]

/-- The condition on the recall of a node, when what it starts from is known. -/
theorem DefaultPolicy.recallsFresh_process {env : FlowEnvironment} {policy : DefaultPolicy}
    {run : FlowRun Collected} {rpc : RpcReplies} {currFlow : String} {config : FlowConfig}
    {before : Context} {services : List String} (hphase : run.phase = .node currFlow)
    (hconfig : policy.flowMap.lookup currFlow = some config)
    (hbefore : config.beforeRecall env run.topContext.enter = .ok before)
    (hservices : config.servicesToRecall env before = .ok services)
    (hfresh : FreshRecall env rpc services before) :
    policy.RecallsFresh env run (.process rpc) := by
  intro otherRpc otherFlow other otherBefore otherServices hlabel hflow hother hdefined hlisted
  cases hlabel
  cases hphase.symm.trans hflow
  cases hconfig.symm.trans hother
  cases hbefore.symm.trans hdefined
  cases hservices.symm.trans hlisted
  exact hfresh

/-! Two nodes, of which the second one recalls another service. -/

def laterNode : FlowConfig where
  name := "news"
  recallConfig := { flowName := "news", recallServices := [("news", 0)] }

def laterPolicy : DefaultPolicy where
  flowMap := [("start", weatherNode (some "news")), ("news", laterNode)]
  startFlow := "start"

def late : RpcReplies := fun _ _ =>
  { contentType := "text/plain", body := "late" }

def laterRecall : Collected where
  context :=
    ⟨[("recall", .array [.string "news"])],
      [weatherTop [weatherAnswer "sunny", lateNews] (.object [])]⟩
  answers := [lateNews]

def laterLabels : List (FlowLabel RpcReplies) :=
  [.enter, .process BackendEngine.sunny, .enter, .process late]

def laterHalf : FlowRun Collected where
  topContext := ⟨weatherTop [weatherAnswer "sunny"] (.object []), []⟩
  phase := .head "news"
  response := .null
  recalls := [weatherRecall [] "sunny"]

/-- A recall is fresh whose services answer under names that `backend` does not have. -/
theorem freshRecall_weatherTop {services : List String} {rpc : RpcReplies}
    {members : JsonMembers}
    (hdistinct : (Members.names (recallAnswers newsEnv rpc services
      ⟨[], [weatherTop members (.object [])]⟩)).Nodup)
    (habsent : ∀ service ∈ Members.names (recallAnswers newsEnv rpc services
      ⟨[], [weatherTop members (.object [])]⟩), service ∉ Members.names members) :
    FreshRecall newsEnv rpc services ⟨[], [weatherTop members (.object [])]⟩ := by
  refine ⟨rfl, rfl, hdistinct, ?_⟩
  intro others hothers
  have hsame : (Context.mk [] [weatherTop members (.object [])]).getVariable "backend" =
      some (.object members) := rfl
  cases hsame.symm.trans hothers
  exact habsent

theorem later_fresh :
    Machine.Guarded (laterPolicy.step newsEnv (FlowConfig.kernelProcess newsEnv))
      (laterPolicy.RecallsFresh newsEnv) (laterPolicy.start .null .null) laterLabels := by
  have henter : ∀ run, laterPolicy.RecallsFresh newsEnv run .enter := by
    intro run rpc currFlow config before services hlabel
    cases hlabel
  have hfirst : FreshRecall newsEnv BackendEngine.sunny ["weather"]
      ⟨[], [weatherTop [] (.object [])]⟩ :=
    freshRecall_weatherTop (by decide +kernel) fun _ _ => List.not_mem_nil
  have hsecond : FreshRecall newsEnv late ["news"]
      ⟨[], [weatherTop [weatherAnswer "sunny"] (.object [])]⟩ :=
    freshRecall_weatherTop (by decide +kernel) (by decide +kernel)
  have hbegins : laterPolicy.step newsEnv (FlowConfig.kernelProcess newsEnv)
      (laterPolicy.start .null .null) .enter =
        some { laterPolicy.start .null .null with phase := .node "start" } := rfl
  have hruns : laterPolicy.step newsEnv (FlowConfig.kernelProcess newsEnv)
      { laterPolicy.start .null .null with phase := .node "start" }
      (.process BackendEngine.sunny) = some laterHalf := by
    decide +kernel
  have hgoesOn : laterPolicy.step newsEnv (FlowConfig.kernelProcess newsEnv) laterHalf .enter =
      some { laterHalf with phase := .node "news" } := rfl
  apply Machine.Guarded.cons (henter _) hbegins
  apply Machine.Guarded.cons (DefaultPolicy.recallsFresh_process rfl rfl rfl rfl hfirst) hruns
  apply Machine.Guarded.cons (henter _) hgoesOn
  exact ⟨DefaultPolicy.recallsFresh_process rfl rfl rfl rfl hsecond, fun _ _ => trivial⟩

theorem recallsFound_later :
    FlowRun.RecallsFound
      { topContext := ⟨weatherTop [weatherAnswer "sunny", lateNews] .null, []⟩
        phase := .returned 0
        response := .object []
        recalls := [laterRecall, weatherRecall [] "sunny"] } :=
  DefaultPolicy.recallsFound_of_fresh newsEnv laterPolicy .null .null laterLabels _
    later_fresh (by decide +kernel)

def stormy : RpcReplies := fun _ _ =>
  { contentType := "text/plain", body := "stormy" }

/-- The second recall of a service leaves a second member of its name. -/
theorem secondRecall_hidden :
    ¬ ∀ env (policy : DefaultPolicy) request response labels final,
      Machine.run (policy.step env (FlowConfig.kernelProcess env))
        (policy.start request response) labels = some final →
          final.RecallsFound := by
  intro hall
  have hfound := hall weatherEnv (weatherPolicy (some "start")) .null .null
    [.enter, .process BackendEngine.sunny, .enter, .process stormy]
    { topContext :=
        ⟨weatherTop [weatherAnswer "sunny", weatherAnswer "stormy"] (.object []),
          []⟩
      phase := .head "start"
      response := .null
      recalls :=
        [weatherRecall [weatherAnswer "sunny"] "stormy",
          weatherRecall [] "sunny"] }
    (by decide +kernel)
  obtain ⟨backend, hmembers, members, rfl, hnodup⟩ := hfound.backend
  have hsame : members = [weatherAnswer "sunny", weatherAnswer "stormy"] := by
    have heq : some (Json.object members) =
        some (.object [weatherAnswer "sunny", weatherAnswer "stormy"]) := by
      rw [← hmembers]
      decide
    exact Json.object.inj (Option.some.inj heq)
  rw [hsame] at hnodup
  revert hnodup
  decide

end Uskit
