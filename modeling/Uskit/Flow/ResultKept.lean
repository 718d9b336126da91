import Uskit.Flow.AsyncNode
import Uskit.Json.Shape

namespace Uskit

open Uskit.Data

/-! What a run of the default policy answers: the outputs of its nodes, merged
one after another. -/

/-- A node does not touch the variable `result` of the contexts around it. -/
def Kernel.KeepsResult (kernel : Kernel κ ρ) : Prop :=
  ∀ info config node,
    (kernel info config node).Keeps
      (fun after => after.context.outerNamed "result") node

namespace DefaultPolicy

variable (env : FlowEnvironment) (policy : DefaultPolicy)

/-- The output that a step merges into the result, if it is an object. -/
def nodeOutput (kernel : Kernel κ ρ) (run : FlowRun ρ) :
    FlowLabel κ → Option JsonMembers
  | .process info =>
      match run.phase with
      | .node currFlow =>
          match policy.flowMap.lookup currFlow with
          | some config =>
              match kernel info config
                { context := run.topContext.enter
                  interveneService := run.interveneService } with
              | .ok node =>
                  match node.context.getVariable "output" with
                  | some (.object members) => some members
                  | _ => none
              | _ => none
          | none => none
      | _ => none
  | _ => none

/-- The outputs of the nodes of a run, in the order of their execution. -/
def outputs (kernel : Kernel κ ρ) :
    FlowRun ρ → List (FlowLabel κ) → List JsonMembers
  | _, [] => []
  | run, label :: labels =>
      (policy.nodeOutput kernel run label).toList ++
        match policy.step env kernel run label with
        | some next => outputs kernel next labels
        | none => []

end DefaultPolicy

/-- Every leaf of an output is in the response, unless a later output stands in
its way. -/
def LeavesKept (outputs : List JsonMembers) (response : Json) : Prop :=
  (∀ output ∈ outputs, (Json.object output).Distinct) →
    ∀ earlier output later, outputs = earlier ++ output :: later →
      ∀ path leaf, (Json.object output).shapeAt path = some (.leaf leaf) →
        (∀ other ∈ later, (Json.object other).LeavesAlone path) →
          response.shapeAt path = some (.leaf leaf)

/-- What the policy promises of a run that has returned. -/
structure FlowRun.Answers (before : Json) (outputs : List JsonMembers)
    (run : FlowRun ρ) : Prop where
  failed : run.phase = .returned (-1) → run.response = before
  succeeded : run.phase = .returned 0 → LeavesKept outputs run.response

/-- Every run of the policy with this kernel answers what its nodes output. -/
def Kernel.Answers (env : FlowEnvironment) (kernel : Kernel κ ρ) : Prop :=
  ∀ (policy : DefaultPolicy) request response labels final,
    Machine.run (policy.step env kernel) (policy.start request response) labels =
        some final →
      final.Answers response
        (policy.outputs env kernel (policy.start request response) labels)

/-- The result so far: in the top context during the run, in the response after
its success. -/
structure FlowRun.Accumulates (before : Json) (result : JsonMembers)
    (run : FlowRun ρ) : Prop where
  during : (∀ code, run.phase ≠ .returned code) →
    run.response = before ∧
      run.topContext.getVariable "result" = some (.object result)
  failed : run.phase = .returned (-1) → run.response = before
  succeeded : run.phase = .returned 0 → run.response = .object result

@[simp] theorem cStr_result : cStr "result" = "result" := by decide

section Frame

variable {env : FlowEnvironment}

theorem onContext_keeps {name : String} {call : Context → Outcome Context}
    {node : NodeState ρ}
    (hkeeps : (call node.context).Keeps (Context.outerNamed name) node.context) :
    (onContext call node).Keeps (fun after => after.context.outerNamed name)
      node :=
  Outcome.Leaves.map hkeeps fun _ hsame => hsame

theorem FlowConfig.rankAndOutput_keeps {name : String} (houtput : "output" ≠ name)
    (hnext : "next" ≠ name) (config : FlowConfig) (node : NodeState ρ) :
    (config.rankAndOutput env node).Keeps
      (fun after => after.context.outerNamed name) node := by
  have hrank := onContext_keeps
    ((FlowRankConfig.runAll_parents env.library env.rankEngine config.rankBlocks
      node.context).image (List.map (Members.named name)))
  apply Outcome.Keeps.andThen hrank
  intro next
  exact onContext_keeps
    (FlowConfig.runOutput_outerNamed env.library houtput hnext config
      next.context)

theorem FlowConfig.runRecall_allNamed {name : String}
    (hname : name ∉ BackendEngine.recallNames) (hrecall : "recall" ≠ name)
    (rpc : RpcReplies) (config : FlowConfig) (node : NodeState Collected) :
    (config.runRecall env rpc node).Keeps
      (fun after => after.context.allNamed name) node := by
  unfold runRecall
  apply Outcome.Keeps.evaluate
  intro services
  cases hrun : env.backendEngine.run env.library rpc services node.context with
  | failed => exact .failed rfl
  | undefined => exact .undefined
  | ok collected =>
      obtain ⟨after, hcontext, hcollects⟩ := BackendEngine.run_collects hrun
      apply Outcome.Leaves.ok
      simp only [hcontext, Context.allNamed_setVariable_of_ne hrecall]
      exact hcollects.others name hname

theorem kernelProcess_keepsResult (env : FlowEnvironment) :
    Kernel.KeepsResult (FlowConfig.kernelProcess env) := by
  intro rpc config node
  apply Outcome.Keeps.andThen
  · exact onContext_keeps
      (config.recallRunDef_outerNamed env.library "result" node.context)
  · intro node
    apply Outcome.Keeps.andThen
    · exact onContext_keeps
        (KEMap.runDef_outerNamed env.library "result" config.definition
          node.context)
    · intro node
      apply Outcome.Keeps.andThen
      · exact (config.runRecall_allNamed (by decide) (by decide) rpc node).mono
          fun _ => Context.outerNamed_of_allNamed
      · intro node
        exact config.rankAndOutput_keeps (by decide) (by decide) node

theorem MergeBack.run_allNamed {name : String} (hname : "backend" ≠ name)
    {engine : BackendEngine} {services : List String} {state final : MergeBack}
    (hrun : MergeBack.run engine services state = .ok final) :
    final.context.allNamed name = state.context.allNamed name := by
  induction services generalizing state with
  | nil =>
      cases hrun
      rfl
  | cons service rest ih =>
      obtain ⟨next, hturn, hrest⟩ := Result.bind_eq_ok.mp hrun
      rw [ih hrest]
      unfold MergeBack.turn at hturn
      split at hturn
      · cases hturn
        rfl
      · split at hturn
        · cases hturn
        · split at hturn
          · cases hturn
          · cases hturn
            rfl
          · cases hturn
            exact Context.allNamed_mergeVariable_of_ne
              (by simpa using hname) hname _ _

theorem FlowConfig.recallAsync_allNamed {name : String} (hname : "backend" ≠ name)
    (hrecall : "recall" ≠ name) (schedule : AsyncSchedule) (config : FlowConfig)
    (contexts : List Context) (node : NodeState MergedRecall) :
    (config.recallAsync env schedule contexts node).Keeps
      (fun after => after.context.allNamed name) node := by
  have hnoted : ∀ service,
      (noteIntervention service node).context = node.context := by
    intro service
    unfold noteIntervention
    split <;> rfl
  unfold recallAsync
  split
  · exact .failed rfl
  · exact .undefined
  · apply Outcome.Keeps.evaluate
    intro service
    simp only
    split
    · exact .undefined
    · split
      · apply Outcome.Leaves.failed
        exact congrArg (Context.allNamed name) (hnoted service)
      · rename_i calls _ _
        unfold mergeRecall
        cases hrun : MergeBack.run env.backendEngine
            (config.servicesToMerge (noteIntervention service node))
            { context := (noteIntervention service node).context
              contexts := calls.contexts } with
        | failed =>
            apply Outcome.Leaves.failed
            exact congrArg (Context.allNamed name) (hnoted service)
        | undefined => exact .undefined
        | ok merged =>
            apply Outcome.Leaves.ok
            simp only [Context.allNamed_setVariable_of_ne hrecall,
              MergeBack.run_allNamed hname hrun]
            exact congrArg (Context.allNamed name) (hnoted service)

theorem asyncKernelProcess_keepsResult (env : FlowEnvironment) :
    Kernel.KeepsResult (FlowConfig.asyncKernelProcess env) := by
  intro schedule config node
  apply Outcome.Keeps.evaluate
  intro contexts
  apply Outcome.Keeps.andThen
  · exact onContext_keeps
      (config.recallRunDef_outerNamed env.library "result" node.context)
  · intro node
    apply Outcome.Keeps.andThen
    · exact (config.recallAsync_allNamed (by decide) (by decide) schedule contexts
        node).mono fun _ => Context.outerNamed_of_allNamed
    · intro node
      exact config.rankAndOutput_keeps (by decide) (by decide) node

end Frame

section Run

variable {env : FlowEnvironment} {policy : DefaultPolicy} {kernel : Kernel κ ρ}
  {before : Json} {result : JsonMembers}

theorem getVariable_result_congr {first second : Context}
    (hsame : first.allNamed "result" = second.allNamed "result") :
    first.getVariable "result" = second.getVariable "result" :=
  Context.getVariable_congr (by simpa using hsame)

theorem mergeResult_accumulates {node after : NodeState ρ} {top : Context}
    (houter : node.context.outerNamed "result" = top.allNamed "result")
    (htop : top.getVariable "result" = some (.object result))
    (hmerge : FlowConfig.mergeResult node = .ok after) :
    after.context.leave.getVariable "result" =
      some (.object (mergeAll
        (match node.context.getVariable "output" with
          | some (.object members) => [members]
          | _ => []) result)) := by
  have hleave : node.context.leave.getVariable "result" =
      some (.object result) := by
    rw [← htop]
    exact getVariable_result_congr (Context.allNamed_leave houter)
  cases houtput : node.context.getVariable "output" with
  | none =>
      simp only [FlowConfig.mergeResult, houtput] at hmerge
      cases hmerge
      exact hleave
  | some output =>
      cases output with
      | object members =>
          simp only [FlowConfig.mergeResult, houtput, hleave, mergeJsonObjects]
            at hmerge
          cases hmerge
          exact Context.getVariable_updateVariable_self hleave _
      | null | bool | number | string | array =>
          simp only [FlowConfig.mergeResult, houtput] at hmerge
          cases hmerge
          exact hleave

theorem FlowRun.Accumulates.fail {run : FlowRun ρ} (hrun : run.Accumulates before result)
    (hlive : ∀ code, run.phase ≠ .returned code) :
    run.fail.Accumulates before result where
  during := fun hother => absurd rfl (hother (-1))
  failed := fun _ => (hrun.during hlive).1
  succeeded := fun hcode => by cases hcode

theorem FlowRun.Accumulates.atNode {run : FlowRun ρ}
    (hrun : run.Accumulates before result)
    (hlive : ∀ code, run.phase ≠ .returned code) (flow : String) :
    FlowRun.Accumulates before result { run with phase := .node flow } where
  during := fun _ => hrun.during hlive
  failed := fun hcode => by cases hcode
  succeeded := fun hcode => by cases hcode

theorem DefaultPolicy.processNode_accumulates {run next : FlowRun ρ} {info : κ}
    {currFlow : String} (hkernel : kernel.KeepsResult)
    (hphase : run.phase = .node currFlow)
    (hrun : run.Accumulates before result)
    (hprocess : policy.processNode kernel info currFlow run = some next) :
    next.Accumulates before
      (mergeAll (policy.nodeOutput kernel run (.process info)).toList result) := by
  obtain ⟨hresponse, htop⟩ := hrun.during fun code => by
    rw [hphase]
    exact fun heq => by cases heq
  obtain ⟨config, hconfig, hdone⟩ := processNode_cases hprocess
  rcases hdone with ⟨after, hok, hfinish⟩ | ⟨node, -, rfl⟩
  · obtain ⟨node, hnode, hmerge⟩ := Outcome.andThen_eq_ok.mp hok
    have hkeeps := hkernel info config
      { context := run.topContext.enter
        interveneService := run.interveneService }
    rw [hnode] at hkeeps
    have hmerged := mergeResult_accumulates hkeeps.of_ok htop hmerge
    have hlist : (policy.nodeOutput kernel run (.process info)).toList =
        match node.context.getVariable "output" with
        | some (.object members) => [members]
        | _ => [] := by
      simp only [nodeOutput, hphase, hconfig, hnode]
      split <;> rfl
    rw [hlist]
    unfold FlowRun.finishNode at hfinish
    simp only at hfinish
    split at hfinish
    · cases hfinish
      exact ⟨fun _ => ⟨hresponse, hmerged⟩,
        fun hcode => (by cases hcode), fun hcode => by cases hcode⟩
    · cases hfinish
    · obtain ⟨found, hfound, rfl⟩ := Option.map_eq_some_iff.mp hfinish
      refine ⟨fun hlive => absurd rfl (hlive 0),
        fun hcode => (by cases hcode), fun _ => ?_⟩
      exact Option.some.inj (hfound.symm.trans hmerged)
  · exact ⟨fun hlive => absurd rfl (hlive (-1)), fun _ => hresponse,
      fun hcode => by cases hcode⟩

theorem DefaultPolicy.step_accumulates {run next : FlowRun ρ}
    {label : FlowLabel κ} (hkernel : kernel.KeepsResult)
    (hrun : run.Accumulates before result)
    (hstep : policy.step env kernel run label = some next) :
    next.Accumulates before
      (mergeAll (policy.nodeOutput kernel run label).toList result) := by
  cases step_cases hstep with
  | notFound hphase => exact hrun.fail (by simp [hphase])
  | enter hphase => exact hrun.atNode (by simp [hphase]) _
  | intervene hphase => exact hrun.atNode (by simp [hphase]) _
  | interveneFails hphase => exact hrun.fail (by simp [hphase])
  | process hphase _ hprocess =>
      exact processNode_accumulates hkernel hphase hrun hprocess

theorem DefaultPolicy.run_accumulates (hkernel : kernel.KeepsResult)
    {run final : FlowRun ρ} {labels : List (FlowLabel κ)}
    (hstart : run.Accumulates before result)
    (hrun : Machine.run (policy.step env kernel) run labels = some final) :
    final.Accumulates before
      (mergeAll (policy.outputs env kernel run labels) result) := by
  induction labels generalizing run result with
  | nil =>
      cases hrun
      exact hstart
  | cons label labels ih =>
      obtain ⟨next, hstep, hrest⟩ := Machine.run_cons.mp hrun
      have hnext := step_accumulates hkernel hstart hstep
      rw [outputs, hstep, mergeAll_append]
      exact ih hnext hrest

theorem DefaultPolicy.start_accumulates (policy : DefaultPolicy)
    (request response : Json) :
    FlowRun.Accumulates (ρ := ρ) response [] (policy.start request response) where
  during := fun _ => ⟨rfl, rfl⟩
  failed := by
    intro hcode
    cases hcode
  succeeded := by
    intro hcode
    cases hcode

theorem leavesKept_mergeAll (outputs : List JsonMembers) :
    LeavesKept outputs (.object (mergeAll outputs [])) := by
  intro hdistinct earlier output later hsplit path leaf hleaf halone
  subst hsplit
  have hempty : (Json.object []).Distinct := by
    simp [Json.distinct_object]
  exact mergeAll_shapeAt_of_last hdistinct hempty hleaf halone

theorem Kernel.answers_of_keepsResult (hkernel : kernel.KeepsResult) :
    kernel.Answers env := by
  intro policy request response labels final hrun
  have haccumulates := DefaultPolicy.run_accumulates hkernel
    (policy.start_accumulates request response) hrun
  refine ⟨haccumulates.failed, fun hcode => ?_⟩
  rw [haccumulates.succeeded hcode]
  exact leavesKept_mergeAll _

end Run

/-- `inner_run` with the kernel of the default policy, and with that of the
asynchronous one. -/
theorem innerRun_answers (env : FlowEnvironment) :
    (FlowConfig.kernelProcess env).Answers env ∧
      (FlowConfig.asyncKernelProcess env).Answers env :=
  ⟨Kernel.answers_of_keepsResult (kernelProcess_keepsResult env),
    Kernel.answers_of_keepsResult (asyncKernelProcess_keepsResult env)⟩

def outputNode (name key : String) (next : Option String) : FlowConfig where
  name := name
  recallConfig := { flowName := name }
  output := [(key, .string name)]
  next := next

def noRecall (result : JsonMembers) : Collected where
  context := ⟨[("recall", .array [])], [weatherTop [] (.object result)]⟩

def twoNodesRun : FlowRun Collected where
  topContext := ⟨weatherTop [] .null, []⟩
  phase := .returned 0
  response := .object [("first", .string "start"), ("second", .string "end")]
  recalls := [noRecall [("first", .string "start")], noRecall []]

theorem answers_twoNodes :
    twoNodesRun.Answers .null
      [[("first", .string "start")], [("second", .string "end")]] :=
  (innerRun_answers weatherEnv).1
    { flowMap :=
        [("start", outputNode "start" "first" (some "end")),
          ("end", outputNode "end" "second" none)]
      startFlow := "start" }
    .null .null
    [.enter, .process BackendEngine.sunny, .enter, .process BackendEngine.sunny]
    twoNodesRun (by decide +kernel)

end Uskit
