import Uskit.Flow.MergeBack

namespace Uskit

open Uskit.Data

/-! Runs of the asynchronous policy: whether the responses of a node stand in
`backend` after its merge loop, in whatever order the services are. -/

/-- `backend` and the responses agree with one table of shapes. -/
def ResponsesAgree (env : FlowEnvironment) (top : Context)
    (defined : List Context) (labels : List AsyncLabel) : Prop :=
  ∃ shapes : List String → Option Shape,
    (∀ backend, top.getVariable "backend" = some backend →
      backend.Within shapes) ∧
    Machine.Guarded (AsyncRecall.step env)
      (AsyncRecall.Admits env
        (fun service response => response.Distinct ∧
          response.Within fun path => shapes (service :: path))
        True)
      { contexts := defined } labels

/-- One context is merged back, and only responses have come into it. -/
def OneMergedBack (env : FlowEnvironment) (defined : List Context)
    (labels : List AsyncLabel) (calls : AsyncRecall) (services : List String) :
    Prop :=
  (∃ service, services = [service]) ∧
    (∀ index, (Members.names
      (AsyncRecall.carriedTo index calls.carried)).Nodup) ∧
    Machine.Guarded (AsyncRecall.step env)
      (AsyncRecall.Admits env (fun _ response => response.Distinct) False)
      { contexts := defined } labels

/-- Definitions leave `backend` and its copies alone, the responses come into
contexts that are merged back, and no stale copy contradicts them. -/
structure FaithfulMerge (env : FlowEnvironment) (top before : Context)
    (defined : List Context) (labels : List AsyncLabel) (calls : AsyncRecall)
    (services : List String) : Prop where
  unset : before.ownVariables.lookup "backend" = none
  copied : ∀ members, top.getVariable "backend" = some (.object members) →
    ∀ context ∈ defined, context.BackendIs members
  delivered : MergedRecall.Delivered env.backendEngine calls services
  agrees : ResponsesAgree env top defined labels ∨
    OneMergedBack env defined labels calls services

section Recall

variable {env : FlowEnvironment} {top before : Context} {defined : List Context}
  {labels : List AsyncLabel} {calls : AsyncRecall} {services : List String}
  {members : JsonMembers}

theorem FaithfulMerge.start_stores
    (hfaithful : FaithfulMerge env top before defined labels calls services)
    (htop : top.getVariable "backend" = some (.object members))
    {content : JsonMembers → JsonMembers → Prop} (hcontent : content [] members) :
    AsyncRecall.Stores content { contexts := defined } := by
  intro index context hcontext
  exact ⟨members, hfaithful.copied members htop context
    (List.mem_of_getElem? hcontext), hcontent⟩

theorem FaithfulMerge.merged
    (hfaithful : FaithfulMerge env top before defined labels calls services)
    (htop : top.getVariable "backend" = some (.object members))
    (hbefore : before.getVariable "backend" = some (.object members))
    (hdistinct : (Json.object members).Distinct)
    (hrun : Machine.run (AsyncRecall.step env) { contexts := defined } labels =
      some calls) {record : MergedRecall} (hcontext : record.before = before)
    (hrecall : record.calls = calls) (hservices : record.services = services)
    (hloop : record.FromLoop env.backendEngine) :
    (record.KeepsAnswers ∧ record.OrderIrrelevant env.backendEngine) ∧
      record.after.ownVariables.lookup "backend" = none ∧
      ∃ backend, record.after.getVariable "backend" = some backend ∧
        DistinctObject backend := by
  subst hcontext hrecall hservices
  have hvalues := (Json.distinct_object.mp hdistinct).2
  cases hfaithful.agrees with
  | inl hagree =>
      obtain ⟨shapes, hshapes, hguarded⟩ := hagree
      have hwithin := membersWithin_of_within (hshapes _ htop)
      have hstart := hfaithful.start_stores htop
        (⟨hwithin, hvalues, by simp⟩ : AgreeingContent shapes [] members)
      have hstores := AsyncRecall.run_stores
        ⟨fun _ _ _ _ hcontent haccepts => hcontent.append haccepts.1 haccepts.2,
          fun _ _ _ _ _ hsource hcontent => hsource.merge hcontent⟩
        hstart hguarded hrun
      constructor
      · exact MergedRecall.merged_of_agreeing hstores hfaithful.unset hbefore
          hwithin hdistinct hfaithful.delivered hloop
      · exact MergedRecall.after_distinct hstores
          (fun _ _ hcontent => hcontent.distinct) hfaithful.unset hbefore
          hdistinct hloop
  | inr hone =>
      obtain ⟨hsingle, hnames, hguarded⟩ := hone
      have hstart := hfaithful.start_stores htop
        (⟨(List.append_nil _).symm, by simp⟩ : AppendedContent members [] members)
      have hstores := AsyncRecall.run_stores
        ⟨fun _ _ _ _ hcontent haccepts => hcontent.append haccepts,
          fun hnever => hnever.elim⟩
        hstart hguarded hrun
      constructor
      · exact MergedRecall.merged_of_single hstores hfaithful.unset hbefore
          hdistinct hfaithful.delivered hnames hsingle hloop
      · apply MergedRecall.after_distinct hstores _ hfaithful.unset hbefore
          hdistinct hloop
        intro carried source hcontent member hmember
        rw [hcontent.eq] at hmember
        cases List.mem_append.mp hmember with
        | inl hold => exact hvalues member hold
        | inr hnew => exact hcontent.distinct member hnew

end Recall

namespace FlowConfig

variable {env : FlowEnvironment} {config : FlowConfig}

def MergesAnswers (env : FlowEnvironment) (record : MergedRecall) : Prop :=
  record.KeepsAnswers ∧ record.OrderIrrelevant env.backendEngine

theorem mergeRecall_sound {top : Context} {defined : List Context}
    {labels : List AsyncLabel} {calls : AsyncRecall} {members : JsonMembers}
    {node : NodeState MergedRecall} (hnone : node.recalled = none)
    (hfaithful : FaithfulMerge env top node.context defined labels calls
      (config.servicesToMerge node))
    (houter : node.context.outerNamed "backend" = top.allNamed "backend")
    (htop : top.getVariable "backend" = some (.object members))
    (hdistinct : (Json.object members).Distinct)
    (hrun : Machine.run (AsyncRecall.step env) { contexts := defined } labels =
      some calls) :
    (config.mergeRecall env calls node).Leaves
      (NodeState.Sound (MergesAnswers env) DistinctObject) := by
  have hcut := BackendEngine.cStr_backend
  have hbefore : node.context.getVariable "backend" =
      some (.object members) := by
    rw [Context.getVariable_of_unset (by rw [hcut]; exact hfaithful.unset),
      ← htop, Context.getVariable, hcut]
    exact Context.findVariable_congr houter
  unfold mergeRecall
  cases hloop : MergeBack.run env.backendEngine (config.servicesToMerge node)
      { context := node.context, contexts := calls.contexts } with
  | undefined => exact .undefined
  | failed =>
      apply Outcome.Leaves.failed
      refine ⟨?_, top, houter, _, htop, members, rfl, hdistinct⟩
      intro record hrecord
      rw [hnone] at hrecord
      cases hrecord
  | ok merged =>
      let record : MergedRecall :=
        { before := node.context
          calls := calls
          services := config.servicesToMerge node
          after := merged.context.setVariable "recall"
            (.array (merged.successRecallServices.map .string)) }
      have hfrom : record.FromLoop env.backendEngine := ⟨merged, hloop, rfl⟩
      obtain ⟨hmerges, hunset, backend, hbackend, hobject⟩ :=
        hfaithful.merged htop hbefore hdistinct hrun rfl rfl rfl hfrom
      apply Outcome.Leaves.ok
      apply NodeState.Sound.of_unset _ hunset hbackend hobject
      intro other hother
      cases hother
      exact hmerges

theorem recallAsync_sound {schedule : AsyncSchedule} {top : Context}
    {contexts : List Context} {members : JsonMembers}
    {node : NodeState MergedRecall} (hnone : node.recalled = none)
    (houter : node.context.outerNamed "backend" = top.allNamed "backend")
    (htop : top.getVariable "backend" = some (.object members))
    (hdistinct : (Json.object members).Distinct)
    (hfaithful : ∀ defined service calls,
      runDefs env config.definition config.getRecallServiceList contexts =
        .ok defined →
      config.asyncIntervene env defined = .ok service →
      Machine.run (AsyncRecall.step env) { contexts := defined }
        schedule.labels = some calls →
      schedule.recallFails = false →
        FaithfulMerge env top node.context defined schedule.labels calls
          (config.servicesToMerge (noteIntervention service node))) :
    (config.recallAsync env schedule contexts node).Leaves
      (NodeState.Sound (MergesAnswers env) DistinctObject) := by
  have hnode : ∀ other : NodeState MergedRecall, other.recalled = none →
      other.context = node.context →
        other.Sound (MergesAnswers env) DistinctObject := by
    intro other hother hcontext
    refine ⟨?_, top, ?_, _, htop, members, rfl, hdistinct⟩
    · intro record hrecord
      rw [hother] at hrecord
      cases hrecord
    · rw [hcontext]
      exact houter
  unfold recallAsync
  cases hdefined : runDefs env config.definition config.getRecallServiceList
      contexts with
  | failed contexts => exact .failed (hnode node hnone rfl)
  | undefined => exact .undefined
  | ok defined =>
      simp only
      cases hservice : config.asyncIntervene env defined with
      | failed => exact .failed (hnode node hnone rfl)
      | undefined => exact .undefined
      | ok service =>
          have hnoted : (noteIntervention service node).recalled = none ∧
              (noteIntervention service node).context = node.context := by
            unfold noteIntervention
            split
            · exact ⟨hnone, rfl⟩
            · exact ⟨hnone, rfl⟩
          simp only [Outcome.evaluate_ok]
          cases hrun : Machine.run (AsyncRecall.step env)
              { contexts := defined } schedule.labels with
          | none => exact .undefined
          | some calls =>
              simp only
              split
              · exact .failed (hnode _ hnoted.1 hnoted.2)
              · rename_i hfails
                have hmerge := hfaithful defined service calls hdefined hservice
                  hrun (Bool.eq_false_iff.mpr hfails)
                rw [← hnoted.2] at hmerge houter
                exact mergeRecall_sound hnoted.1 hmerge houter htop hdistinct
                  hrun

theorem asyncKernelProcess_sound {schedule : AsyncSchedule} {top : Context}
    {members : JsonMembers} {interveneService : String}
    (htop : top.getVariable "backend" = some (.object members))
    (hdistinct : (Json.object members).Distinct)
    (hfaithful : ∀ before contexts defined service calls,
      config.recallRunDef env.library top.enter = .ok before →
      copyContexts env top.enter = .ok contexts →
      runDefs env config.definition config.getRecallServiceList contexts =
        .ok defined →
      config.asyncIntervene env defined = .ok service →
      Machine.run (AsyncRecall.step env) { contexts := defined }
        schedule.labels = some calls →
      schedule.recallFails = false →
        FaithfulMerge env top before defined schedule.labels calls
          (config.servicesToMerge (noteIntervention service
            ({ context := before
               interveneService := interveneService } :
                NodeState MergedRecall)))) :
    (asyncKernelProcess env schedule config
      { context := top.enter, interveneService := interveneService }).Leaves
        (NodeState.Sound (MergesAnswers env) DistinctObject) := by
  have hkeeps := config.recallRunDef_outerNamed env.library "backend" top.enter
  have hobject : DistinctObject (.object members) := ⟨members, rfl, hdistinct⟩
  unfold asyncKernelProcess
  cases hcontexts : copyContexts env top.enter with
  | undefined => exact .undefined
  | failed => exact .failed (.of_outer rfl htop hobject)
  | ok contexts =>
      simp only [Outcome.evaluate_ok, onContext]
      cases hdefined : config.recallRunDef env.library top.enter with
      | undefined => exact .undefined
      | failed context =>
          rw [hdefined] at hkeeps
          cases hkeeps with
          | failed houter => exact .failed (.of_outer houter htop hobject)
      | ok before =>
          rw [hdefined] at hkeeps
          simp only [Outcome.map, Outcome.ok_andThen]
          apply Outcome.Leaves.andThen
          · apply recallAsync_sound rfl hkeeps.of_ok htop hdistinct
            intro defined service calls
            exact hfaithful before contexts defined service calls hdefined
              hcontexts
          · intro node hnode
            exact hnode
          · intro node hnode
            exact hnode.rankAndOutput env config

end FlowConfig

/-- In every node that is processed, the recall is merged faithfully. -/
def DefaultPolicy.MergesFaithfully (env : FlowEnvironment)
    (policy : DefaultPolicy) (run : FlowRun MergedRecall)
    (label : FlowLabel AsyncSchedule) : Prop :=
  ∀ schedule currFlow config before contexts defined service calls,
    label = .process schedule → run.phase = .node currFlow →
    policy.flowMap.lookup currFlow = some config →
    config.recallRunDef env.library run.topContext.enter = .ok before →
    FlowConfig.copyContexts env run.topContext.enter = .ok contexts →
    FlowConfig.runDefs env config.definition config.getRecallServiceList
      contexts = .ok defined →
    config.asyncIntervene env defined = .ok service →
    Machine.run (AsyncRecall.step env) { contexts := defined }
      schedule.labels = some calls →
    schedule.recallFails = false →
      FaithfulMerge env run.topContext before defined schedule.labels calls
        (config.servicesToMerge (FlowConfig.noteIntervention service
          ({ context := before
             interveneService := run.interveneService } :
              NodeState MergedRecall)))

theorem DefaultPolicy.MergesFaithfully.admits {env : FlowEnvironment}
    {policy : DefaultPolicy} {run : FlowRun MergedRecall}
    {label : FlowLabel AsyncSchedule}
    (hsound : run.Sound (FlowConfig.MergesAnswers env) DistinctObject)
    (hguard : policy.MergesFaithfully env run label) :
    policy.Admits (FlowConfig.asyncKernelProcess env)
      (FlowConfig.MergesAnswers env) DistinctObject run label := by
  intro schedule currFlow config hlabel hphase hconfig
  obtain ⟨backend, htop, members, rfl, hdistinct⟩ := hsound.backend
  apply FlowConfig.asyncKernelProcess_sound htop hdistinct
  intro before contexts defined service calls
  exact hguard schedule currFlow config before contexts defined service calls
    hlabel hphase hconfig

/-- The condition on the merge of a node, when what comes before it is known. -/
theorem DefaultPolicy.mergesFaithfully_process {env : FlowEnvironment}
    {policy : DefaultPolicy} {run : FlowRun MergedRecall} {schedule : AsyncSchedule}
    {currFlow service : String} {config : FlowConfig} {before : Context}
    {contexts defined : List Context} {calls : AsyncRecall}
    (hphase : run.phase = .node currFlow)
    (hconfig : policy.flowMap.lookup currFlow = some config)
    (hbefore : config.recallRunDef env.library run.topContext.enter = .ok before)
    (hcontexts : FlowConfig.copyContexts env run.topContext.enter = .ok contexts)
    (hdefined : FlowConfig.runDefs env config.definition config.getRecallServiceList
      contexts = .ok defined)
    (hservice : config.asyncIntervene env defined = .ok service)
    (hrun : Machine.run (AsyncRecall.step env) { contexts := defined } schedule.labels =
      some calls)
    (hfaithful : FaithfulMerge env run.topContext before defined schedule.labels calls
      (config.servicesToMerge (FlowConfig.noteIntervention service
        ({ context := before
           interveneService := run.interveneService } : NodeState MergedRecall)))) :
    policy.MergesFaithfully env run (.process schedule) := by
  intro otherSchedule otherFlow other otherBefore otherContexts otherDefined otherService
    otherCalls hlabel hflow hother hran hcopies hdefs hintervene hcalls _
  cases hlabel
  cases hphase.symm.trans hflow
  cases hconfig.symm.trans hother
  cases hbefore.symm.trans hran
  cases hcontexts.symm.trans hcopies
  cases hdefined.symm.trans hdefs
  cases hservice.symm.trans hintervene
  cases hrun.symm.trans hcalls
  exact hfaithful

/-- In a run that merges faithfully every answer is found in `backend`, and the
order of the services does not matter. -/
theorem DefaultPolicy.answersMerged_of_faithful (env : FlowEnvironment)
    (policy : DefaultPolicy) (request response : Json)
    (labels : List (FlowLabel AsyncSchedule)) (final : FlowRun MergedRecall)
    (hfaithful : Machine.Guarded
      (policy.step env (FlowConfig.asyncKernelProcess env))
      (policy.MergesFaithfully env) (policy.start request response) labels)
    (hrun : Machine.run (policy.step env (FlowConfig.asyncKernelProcess env))
      (policy.start request response) labels = some final) :
    ∀ record ∈ final.recalls,
      record.KeepsAnswers ∧ record.OrderIrrelevant env.backendEngine := by
  have hstart : DistinctObject (.object []) :=
    ⟨[], rfl, .object List.nodup_nil (by simp)⟩
  have hsound : final.Sound (FlowConfig.MergesAnswers env) DistinctObject :=
    run_sound hstart MergesFaithfully.admits hfaithful hrun
  exact hsound.recalls

/-- The weather service answers, and no other one. -/
def weatherSays (text : String) : AsyncSchedule where
  labels :=
    [.build "weather",
      .respond "weather" [{ contentType := "text/plain", body := text }]]

def answeredCopy (answers : List String) : Context :=
  ⟨weatherTop (answers.map weatherAnswer) (.object []), []⟩

def newsPolicy (next : Option String) : DefaultPolicy where
  flowMap := [("start", bothNode next)]
  startFlow := "start"

def newsRecord : MergedRecall where
  before := (answeredCopy []).enter
  calls := newsRecall
  services := ["weather", "news"]
  after := ⟨[("recall", .array [.string "weather", .string "news"])],
    [weatherTop [weatherAnswer "sunny", lateNews] (.object [])]⟩

theorem AsyncRecall.admits_respond {env : FlowEnvironment} {accepts : String → Json → Prop}
    {handsUp : Prop} {calls : AsyncRecall} {service : String} {replies : List RpcReply}
    {index : Nat} {context after : Context} {backend : BackendService} {response : Json}
    (hcontext : calls.contextOf env service = some (index, context))
    (hservice : env.backendEngine.findService service = some backend)
    (hcheck : GlobalClosure.responseCheck env.library (controller backend replies)
      context = .ok (after, some response)) (haccepts : accepts service response) :
    calls.Admits env accepts handsUp (.respond service replies) := by
  intro otherIndex otherContext otherBackend otherAfter otherResponse hother hfound hgiven
  cases hcontext.symm.trans hother
  cases hservice.symm.trans hfound
  cases hcheck.symm.trans hgiven
  exact haccepts

theorem answer_distinct (text : String) :
    (Json.object [("answer", .string text)]).Distinct := by
  refine .object (List.nodup_singleton _) ?_
  intro member hmember
  cases List.mem_singleton.mp hmember
  exact .leaf rfl

theorem newsFirst_steps :
    AsyncRecall.step newsEnv { contexts := [answeredCopy [], answeredCopy []] }
        (.build "weather") = some { contexts := [answeredCopy [], answeredCopy []] } ∧
    AsyncRecall.step newsEnv { contexts := [answeredCopy [], answeredCopy []] }
        (.build "news") = some { contexts := [answeredCopy [], answeredCopy []] } ∧
    AsyncRecall.step newsEnv { contexts := [answeredCopy [], answeredCopy []] }
        (.respond "news" [{ contentType := "text/plain", body := "late" }]) =
      some
        { contexts := [answeredCopy [], ⟨weatherTop [lateNews] (.object []), []⟩]
          answers := [lateNews]
          carried := [(1, lateNews)] } := by
  refine ⟨?_, ?_, ?_⟩
  · decide +kernel
  · decide +kernel
  · decide +kernel

/-- The two responses and the empty `backend` agree with what they are merged to. -/
theorem newsFirst_agrees :
    ResponsesAgree newsEnv (answeredCopy []) [answeredCopy [], answeredCopy []]
      newsFirst.labels := by
  obtain ⟨hweather, hnews, hlate⟩ := newsFirst_steps
  refine ⟨(Json.object [weatherAnswer "sunny", lateNews]).shapeAt, ?_,
    .cons trivial hweather (.cons trivial hnews (.cons ?_ hlate ?_))⟩
  · intro backend hbackend path shape hholds
    have hempty : (answeredCopy []).getVariable "backend" = some (.object []) := by
      decide
    cases hempty.symm.trans hbackend
    cases hholds with
    | here => rfl
    | member hmem => cases hmem
  · have hcheck : GlobalClosure.responseCheck newsEnv.library
        (AsyncRecall.controller
          { BackendEngine.weatherService BackendEngine.weatherRequest with name := "news" }
          [{ contentType := "text/plain", body := "late" }]) (answeredCopy []) =
        .ok (⟨weatherTop [lateNews] (.object []), []⟩, some lateNews.2) := by
      decide +kernel
    have hcontext : AsyncRecall.contextOf newsEnv
        { contexts := [answeredCopy [], answeredCopy []] } "news" =
          some (1, answeredCopy []) := by
      decide +kernel
    exact AsyncRecall.admits_respond hcontext rfl hcheck
      ⟨answer_distinct "late", fun path shape hholds =>
        (answer_distinct "late").shapeAt hholds⟩
  · refine ⟨?_, fun _ _ => trivial⟩
    have hcheck : GlobalClosure.responseCheck newsEnv.library
        (AsyncRecall.controller
          (BackendEngine.weatherService BackendEngine.weatherRequest)
          [{ contentType := "text/plain", body := "sunny" }]) (answeredCopy []) =
        .ok (answeredCopy ["sunny"], some (weatherAnswer "sunny").2) := by
      decide +kernel
    have hcontext : AsyncRecall.contextOf newsEnv
        { contexts := [answeredCopy [], ⟨weatherTop [lateNews] (.object []), []⟩]
          answers := [lateNews]
          carried := [(1, lateNews)] } "weather" = some (0, answeredCopy []) := by
      decide +kernel
    exact AsyncRecall.admits_respond hcontext rfl hcheck
      ⟨answer_distinct "sunny", fun path shape hholds =>
        (answer_distinct "sunny").shapeAt hholds⟩

theorem newsFirst_faithful :
    FaithfulMerge newsEnv (answeredCopy []) (answeredCopy []).enter
      [answeredCopy [], answeredCopy []] newsFirst.labels newsRecall ["weather", "news"] := by
  refine ⟨rfl, ?_, ?_, .inl newsFirst_agrees⟩
  · intro members hmembers context hcontext
    have hempty : (answeredCopy []).getVariable "backend" =
        some (.object []) := by
      decide
    cases hempty.symm.trans hmembers
    have hcopy : context = answeredCopy [] := by simpa using hcontext
    rw [hcopy]
    rfl
  · intro answer hanswer
    rcases List.mem_cons.mp hanswer with rfl | hweather
    · exact ⟨"news", by decide, 1, rfl, by decide⟩
    · cases List.mem_singleton.mp hweather
      exact ⟨"weather", by decide, 0, rfl, by decide⟩

theorem news_faithful :
    Machine.Guarded ((newsPolicy none).step newsEnv
        (FlowConfig.asyncKernelProcess newsEnv))
      ((newsPolicy none).MergesFaithfully newsEnv)
      ((newsPolicy none).start .null .null)
      [.enter, .process newsFirst] := by
  have hstart : (newsPolicy none).step newsEnv (FlowConfig.asyncKernelProcess newsEnv)
      ((newsPolicy none).start .null .null) .enter =
        some { (newsPolicy none).start .null .null with phase := .node "start" } := rfl
  have hcopies : FlowConfig.copyContexts newsEnv (answeredCopy []).enter =
      .ok [answeredCopy [], answeredCopy []] := by
    decide +kernel
  have hdefined : FlowConfig.runDefs newsEnv (bothNode none).definition
      (bothNode none).getRecallServiceList [answeredCopy [], answeredCopy []] =
        .ok [answeredCopy [], answeredCopy []] := by
    decide +kernel
  have hintervene : (bothNode none).asyncIntervene newsEnv
      [answeredCopy [], answeredCopy []] = .ok "" := by
    decide +kernel
  have hrecall : Machine.run (AsyncRecall.step newsEnv)
      { contexts := [answeredCopy [], answeredCopy []] } newsFirst.labels =
        some newsRecall := by
    decide +kernel
  refine .cons ?_ hstart ⟨?_, fun _ _ => trivial⟩
  · intro schedule currFlow config before contexts defined service calls hlabel
    cases hlabel
  · exact DefaultPolicy.mergesFaithfully_process rfl rfl rfl hcopies hdefined hintervene
      hrecall newsFirst_faithful

theorem answersMerged_news :
    newsRecord.KeepsAnswers ∧ newsRecord.OrderIrrelevant newsEnv.backendEngine :=
  DefaultPolicy.answersMerged_of_faithful newsEnv (newsPolicy none) .null
    .null [.enter, .process newsFirst]
    { topContext := ⟨weatherTop [weatherAnswer "sunny", lateNews] .null, []⟩
      phase := .returned 0
      response := .object []
      recalls := [newsRecord] }
    news_faithful (by decide +kernel) newsRecord List.mem_cons_self

/-- What the second node leaves: the copy of the other service still has the
answer of the first node. -/
def staleRecord : MergedRecall where
  before := (answeredCopy ["sunny"]).enter
  calls :=
    { contexts := [answeredCopy ["sunny", "stormy"], answeredCopy ["sunny"]]
      answers := [weatherAnswer "stormy"]
      carried := [(0, weatherAnswer "stormy")] }
  services := ["weather", "news"]
  after := (answeredCopy ["sunny"]).enter.setVariable "recall"
    (.array [.string "weather", .string "news"])

/-- The stale copy of another service wins over the answer of this node. -/
theorem staleCopy_wins :
    ¬ ∀ env (policy : DefaultPolicy) request response labels final,
      Machine.run (policy.step env (FlowConfig.asyncKernelProcess env))
        (policy.start request response) labels = some final →
          ∀ record ∈ final.recalls, record.services.Nodup →
            record.KeepsAnswers ∧ record.OrderIrrelevant env.backendEngine := by
  intro hall
  have hstale : (Machine.run ((newsPolicy (some "start")).step newsEnv
      (FlowConfig.asyncKernelProcess newsEnv))
      ((newsPolicy (some "start")).start .null .null)
      [.enter, .process (weatherSays "sunny"), .enter,
        .process (weatherSays "stormy")]).bind (·.recalls.head?) =
          some staleRecord := by
    decide +kernel
  obtain ⟨final, hrun, hhead⟩ := Option.bind_eq_some_iff.mp hstale
  obtain ⟨hkeeps, -⟩ := hall newsEnv (newsPolicy (some "start")) .null
    .null _ final hrun staleRecord (List.mem_of_mem_head? hhead) (by decide)
  obtain ⟨backend, hbackend, hshape⟩ := hkeeps "weather" (weatherAnswer "stormy").2
    List.mem_cons_self ["answer"] (.leaf (.string "stormy")) rfl
  have hsunny : staleRecord.after.getVariable "backend" =
      some (.object [weatherAnswer "sunny"]) := by
    decide
  rw [hsunny] at hbackend
  cases hbackend
  revert hshape
  decide

end Uskit
