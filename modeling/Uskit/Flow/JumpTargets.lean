import Uskit.Flow.NextFlows
import Uskit.Flow.ResultKept

namespace Uskit

open Uskit.Data

/-! The targets of the jumps between flow nodes, and the lookups of a run:
`inner_run` follows the variable `next`, `GlobalClosure::Run` the `next_flow` of
a service. -/

namespace FlowConfig

def ifNexts (config : FlowConfig) : List String :=
  config.ifBlocks.filterMap fun block => block.next.map cStr

/-- A recall with an empty `next_flow` is followed by none. -/
def nextFlows (config : FlowConfig) : List String :=
  (config.recallConfig.recallNext.map Prod.snd).filter (· ≠ "")

/-- The targets as a run looks them up, cut at the first NUL where the run goes
through `GetString`. -/
def jumpTargets (config : FlowConfig) : List String :=
  (config.next.map cStr).toList ++ config.ifNexts ++ config.nextFlows

/-- The targets that `flow_check` does not look up. -/
def uncheckedTargets (config : FlowConfig) : List String :=
  ((config.next.filter fun next => cStr next ≠ next).map cStr).toList ++
    config.ifNexts ++ config.nextFlows

def SparesNext (config : FlowConfig) : Prop :=
  config.definition.Spares "next" ∧
    ∀ block ∈ config.ifBlocks, block.definition.Spares "next"

end FlowConfig

namespace DefaultPolicy

variable (policy : DefaultPolicy)

def Names (flow : String) : Prop :=
  (policy.flowMap.lookup flow).isSome

def AllNamed (targets : FlowConfig → List String) : Prop :=
  ∀ name config, policy.flowMap.lookup name = some config →
    ∀ target ∈ targets config, policy.Names target

/-- A node that the step processes defines no variable `next`. -/
def SparesNext (run : FlowRun ρ) (label : FlowLabel κ) : Prop :=
  ∀ info currFlow config, label = .process info → run.phase = .node currFlow →
    policy.flowMap.lookup currFlow = some config → config.SparesNext

/-- `inner_run` never gets to a flow that is not found. -/
def NeverLost (env : FlowEnvironment) (kernel : Kernel κ ρ) : Prop :=
  ∀ request response labels final,
    Machine.Guarded (policy.step env kernel) policy.SparesNext
        (policy.start request response) labels →
      Machine.run (policy.step env kernel) (policy.start request response)
          labels = some final →
        ∀ currFlow, final.phase = .head currFlow → policy.Names currFlow

/-- Every jump target is the name of a node, and no run looks up another. -/
structure JumpsFound : Prop where
  named : policy.AllNamed FlowConfig.jumpTargets
  nodes : ∀ env, policy.NeverLost env (FlowConfig.kernelProcess env)
  asyncNodes : ∀ env, policy.NeverLost env (FlowConfig.asyncKernelProcess env)
  recalls : ∀ env flow labels final,
    Machine.run (RecallChain.step env policy) (RecallChain.start flow) labels =
      some final → final.notFound = []

end DefaultPolicy

/-! The variable `next` within a node. -/

namespace Context

def Lacks (name : String) (context : Context) : Prop :=
  ∀ members ∈ context.allNamed name, members = []

/-- The node has set `next` to one of the targets, or not at all. -/
structure JumpsFrom (targets : List String) (before context : Context) : Prop where
  outer : context.outerNamed "next" = before.outerNamed "next"
  own : ∀ value, context.ownVariables.lookup "next" = some value →
    ∃ next, value = .string next ∧ cStr next ∈ targets

variable {name : String} {targets : List String} {before context : Context}

theorem Lacks.congr {first second : Context} (hlacks : first.Lacks name)
    (hsame : second.allNamed name = first.allNamed name) : second.Lacks name := by
  intro members hmem
  exact hlacks members (hsame ▸ hmem)

theorem Lacks.enter (hlacks : context.Lacks name) : context.enter.Lacks name := by
  intro members hmem
  cases hmem with
  | head => rfl
  | tail _ hmem => exact hlacks members hmem

theorem Lacks.lookup_own (hlacks : context.Lacks name) :
    context.ownVariables.lookup name = none := by
  rw [Members.lookup_eq_head_named, hlacks _ List.mem_cons_self]
  rfl

theorem findVariable_of_named {scopes : List JsonMembers}
    (hnone : ∀ members ∈ scopes.map (Members.named name), members = []) :
    findVariable name scopes = none := by
  induction scopes with
  | nil => rfl
  | cons scope parents ih =>
      have hscope : scope.lookup name = none := by
        rw [Members.lookup_eq_head_named, hnone _ List.mem_cons_self]
        rfl
      rw [findVariable, hscope]
      exact ih fun members hmem => hnone members (.tail _ hmem)

theorem Lacks.getVariable_next (hlacks : context.Lacks "next") :
    context.getVariable "next" = none := by
  rw [Context.getVariable, show cStr "next" = "next" by decide]
  exact findVariable_of_named hlacks

theorem JumpsFrom.of_lacks (hlacks : context.Lacks "next") :
    JumpsFrom targets context context where
  outer := rfl
  own := by
    intro value hvalue
    rw [hlacks.lookup_own] at hvalue
    cases hvalue

theorem JumpsFrom.of_frame {middle : Context}
    (hjumps : JumpsFrom targets middle context)
    (hsame : middle.allNamed "next" = before.allNamed "next") :
    JumpsFrom targets before context :=
  ⟨hjumps.outer.trans (outerNamed_of_allNamed hsame), hjumps.own⟩

theorem JumpsFrom.mono {more : List String}
    (hjumps : JumpsFrom targets before context)
    (hsub : ∀ target ∈ targets, target ∈ more) :
    JumpsFrom more before context := by
  refine ⟨hjumps.outer, fun value hvalue => ?_⟩
  obtain ⟨next, rfl, hnext⟩ := hjumps.own value hvalue
  exact ⟨next, rfl, hsub _ hnext⟩

theorem Lacks.setNext (hlacks : context.Lacks "next") {next : String}
    (hnext : cStr next ∈ targets) :
    JumpsFrom targets context (context.setVariable "next" (.string next)) where
  outer := rfl
  own := by
    intro value hvalue
    have hown := hlacks.lookup_own
    simp only [setVariable, List.lookup_append, hown, Option.none_or,
      List.lookup_cons_self, Option.some.injEq] at hvalue
    exact ⟨next, hvalue.symm, hnext⟩

/-- What `inner_run` reads of a node is one of the targets. -/
theorem JumpsFrom.getVariable_next (hjumps : JumpsFrom targets before context)
    (hlacks : before.Lacks "next") {value : Json}
    (hvalue : context.getVariable "next" = some value) :
    ∃ next, value = .string next ∧ cStr next ∈ targets := by
  have houter : ∀ members ∈ context.outerNamed "next", members = [] := by
    rw [hjumps.outer]
    exact fun members hmem => hlacks members (.tail _ hmem)
  rw [getVariable_eq, show cStr "next" = "next" by decide,
    findVariable_of_named houter, Option.or_none] at hvalue
  exact hjumps.own value hvalue

end Context

section Frame

variable {name : String} (library : Library)

theorem runOutputs_allNamed (hname : "output" ≠ name) (output : KEMap)
    (context : Context) :
    (runDocument library output (Context.mergeVariable "output") context).Keeps
      (Context.allNamed name) context :=
  BackendRequestConfig.runDocument_view library (mergeOutput_allNamed hname) output
    context

theorem BaseIfConfig.run_allNamed (houtput : "output" ≠ name)
    (hcond : "cond" ≠ name) {config : BaseIfConfig}
    (hspares : config.definition.Spares name) (context : Context) :
    (config.run library context).Keeps (Context.allNamed name) context := by
  apply Outcome.Keeps.evaluate
  intro condValue
  have hset : (context.setVariable "cond" (.bool condValue)).allNamed name =
      context.allNamed name := Context.allNamed_setVariable_of_ne hcond _ context
  cases condValue with
  | false => exact .ok hset
  | true =>
      have hbody := (KEMap.runDef_allNamed library hspares
        (context.setVariable "cond" (.bool true))).andThen
          (runOutputs_allNamed library houtput config.output)
      exact hbody.mono fun after hafter => hafter.trans hset

/-! A node whose definitions spare `next` sets it to one of its targets. -/

theorem runNext_jumpsFrom {context : Context} (hlacks : context.Lacks "next")
    (next : Option String) :
    (runSetting library "next" (next.map .string) context).Leaves
      (Context.JumpsFrom (next.map cStr).toList context) := by
  cases next with
  | none => exact .ok (.of_lacks hlacks)
  | some next => exact .ok (hlacks.setNext (by simp))

theorem FlowIfConfig.run_jumpsFrom {config : FlowIfConfig}
    (hspares : config.definition.Spares "next") {context : Context}
    (hlacks : context.Lacks "next") :
    (config.run library context).Leaves
      (Context.JumpsFrom (config.next.map cStr).toList context) := by
  have hbase := (BaseIfConfig.run_allNamed library (by decide) (by decide) hspares
    context).ignoreCode
  apply Outcome.Leaves.andThen hbase
  · intro after hsame
    exact (Context.JumpsFrom.of_lacks (hlacks.congr hsame)).of_frame hsame
  · intro after hsame
    exact (runNext_jumpsFrom library (hlacks.congr hsame) config.next).mono
      fun last hlast => hlast.of_frame hsame

/-- What a loop over if blocks that ends in `choice` says about `next`. -/
inductive IfChoice.JumpsFrom (targets : List String) (before : Context) :
    IfChoice → Prop
  | chosen {index : Nat} {ifContext : Context} :
      Context.JumpsFrom targets before.enter ifContext →
        JumpsFrom targets before (.chosen index ifContext)
  | default {context : Context}
      (same : context.allNamed "next" = before.allNamed "next") :
      JumpsFrom targets before (.default context)
  | condMissing {context : Context}
      (same : context.allNamed "next" = before.allNamed "next") :
      JumpsFrom targets before (.condMissing context)
  | undefined : JumpsFrom targets before .undefined

theorem IfChoice.JumpsFrom.shift {targets : List String}
    {before middle : Context} {choice : IfChoice}
    (hchoice : choice.JumpsFrom targets middle)
    (hsame : middle.allNamed "next" = before.allNamed "next") (skipped : Nat) :
    (choice.shift skipped).JumpsFrom targets before := by
  cases hchoice with
  | chosen hjumps => exact .chosen ⟨hjumps.outer.trans hsame, hjumps.own⟩
  | default same => exact .default (same.trans hsame)
  | condMissing same => exact .condMissing (same.trans hsame)
  | undefined => exact .undefined

theorem chooseIf_jumpsFrom {targets : List String}
    {runBlocks : List (Context → Outcome Context)}
    (hblocks : ∀ runBlock ∈ runBlocks, ∀ context : Context, context.Lacks "next" →
      (runBlock context).Leaves (Context.JumpsFrom targets context))
    {context : Context} (hlacks : context.Lacks "next") :
    (chooseIf runBlocks context).JumpsFrom targets context := by
  induction runBlocks generalizing context with
  | nil => exact .default rfl
  | cons runBlock rest ih =>
      have hblock := hblocks runBlock List.mem_cons_self _ hlacks.enter
      have hleave : ∀ ifContext : Context,
          Context.JumpsFrom targets context.enter ifContext →
            ifContext.leave.allNamed "next" = context.allNamed "next" :=
        fun ifContext hjumps => Context.allNamed_leave hjumps.outer
      have hrest : ∀ ifContext : Context,
          Context.JumpsFrom targets context.enter ifContext →
            ((chooseIf rest ifContext.leave).shift 1).JumpsFrom targets context := by
        intro ifContext hjumps
        have hsame := hleave ifContext hjumps
        have htail := ih (fun other hother => hblocks other (.tail _ hother))
          (hlacks.congr hsame)
        exact htail.shift hsame 1
      rw [chooseIf]
      cases hrun : runBlock context.enter with
      | undefined => exact .undefined
      | failed ifContext =>
          rw [hrun] at hblock
          cases hblock with
          | failed hjumps => exact hrest ifContext hjumps
      | ok ifContext =>
          rw [hrun] at hblock
          have hjumps := hblock.of_ok
          simp only
          split
          · exact .condMissing (hleave ifContext hjumps)
          · exact .chosen hjumps
          · exact hrest ifContext hjumps

theorem takeNext_jumpsFrom {targets : List String}
    {before ifContext context : Context} (hlacks : before.Lacks "next")
    (hjumps : Context.JumpsFrom targets before.enter ifContext)
    (hsame : context.allNamed "next" = before.allNamed "next") :
    Context.JumpsFrom targets before (takeNext ifContext context) := by
  have hcontext := hlacks.congr hsame
  unfold takeNext
  split
  · rename_i ifNext hnext
    obtain ⟨next, rfl, hmem⟩ := hjumps.own ifNext hnext
    exact (hcontext.setNext hmem).of_frame hsame
  · rw [hcontext.getVariable_next]
    exact (Context.JumpsFrom.of_lacks hcontext).of_frame hsame

theorem FlowConfig.runOutput_jumpsFrom {config : FlowConfig}
    (hspares : config.SparesNext) {context : Context}
    (hlacks : context.Lacks "next") :
    (config.runOutput library context).Leaves
      (Context.JumpsFrom config.jumpTargets context) := by
  have hchoice : (config.chooseIfBlock library context).JumpsFrom
      config.jumpTargets context := by
    apply chooseIf_jumpsFrom _ hlacks
    intro runBlock hmem before hbefore
    obtain ⟨block, hblock, rfl⟩ := List.mem_map.mp hmem
    apply (FlowIfConfig.run_jumpsFrom library (hspares.2 block hblock) hbefore).mono
    intro after hafter
    apply hafter.mono
    intro target htarget
    have hnext : target ∈ config.ifNexts :=
      List.mem_filterMap.mpr ⟨block, hblock, Option.mem_toList.mp htarget⟩
    simp [jumpTargets, hnext]
  unfold FlowConfig.runOutput
  generalize config.chooseIfBlock library context = choice at hchoice
  cases hchoice with
  | chosen hjumps =>
      apply Outcome.Leaves.ok
      exact takeNext_jumpsFrom hlacks hjumps
        (takeOutput_allNamed (by decide) hjumps.outer)
  | default same =>
      have houtput : "output" ≠ "next" := by decide
      have hdocument := runOutputs_allNamed library houtput config.output
      apply Outcome.Leaves.andThen ((hdocument _).mono fun after hafter =>
        hafter.trans same)
      · intro after hsame
        exact (Context.JumpsFrom.of_lacks (hlacks.congr hsame)).of_frame hsame
      · intro after hsame
        apply (runNext_jumpsFrom library (hlacks.congr hsame) config.next).mono
        intro last hlast
        apply (hlast.of_frame hsame).mono
        intro target htarget
        simp only [jumpTargets, List.mem_append]
        exact .inl (.inl htarget)
  | condMissing same =>
      exact .failed ((Context.JumpsFrom.of_lacks (hlacks.congr same)).of_frame same)
  | undefined => exact .undefined

end Frame

/-- A node that starts without a `next` leaves one of its targets in it. -/
def Kernel.Jumps (kernel : Kernel κ ρ) : Prop :=
  ∀ info config node, config.SparesNext → node.context.Lacks "next" →
    (kernel info config node).Leaves fun after =>
      Context.JumpsFrom config.jumpTargets node.context after.context

section Kernels

variable {env : FlowEnvironment} {targets : List String}

/-- A part of a kernel that leaves `next` alone, before the rest. -/
theorem jumps_andThen {node : NodeState ρ} {outcome : Outcome (NodeState ρ)}
    {next : NodeState ρ → Outcome (NodeState ρ)}
    (hfirst : outcome.Keeps (fun after => after.context.allNamed "next") node)
    (hlacks : node.context.Lacks "next")
    (hnext : ∀ middle : NodeState ρ, middle.context.Lacks "next" →
      (next middle).Leaves fun after =>
        Context.JumpsFrom targets middle.context after.context) :
    (outcome.andThen next).Leaves fun after =>
      Context.JumpsFrom targets node.context after.context := by
  apply Outcome.Leaves.andThen hfirst
  · intro middle hsame
    exact (Context.JumpsFrom.of_lacks (hlacks.congr hsame)).of_frame hsame
  · intro middle hsame
    exact (hnext middle (hlacks.congr hsame)).mono fun after hafter =>
      hafter.of_frame hsame

theorem onContext_allNamed {call : Context → Outcome Context} {node : NodeState ρ}
    (hkeeps : (call node.context).Keeps (Context.allNamed "next") node.context) :
    (onContext call node).Keeps (fun after => after.context.allNamed "next") node :=
  Outcome.Leaves.map hkeeps fun _ hsame => hsame

theorem FlowConfig.rankAndOutput_jumps {config : FlowConfig}
    (hspares : config.SparesNext) {node : NodeState ρ}
    (hlacks : node.context.Lacks "next") :
    (config.rankAndOutput env node).Leaves fun after =>
      Context.JumpsFrom config.jumpTargets node.context after.context := by
  apply jumps_andThen _ hlacks
  · intro middle hmiddle
    exact (config.runOutput_jumpsFrom env.library hspares hmiddle).map
      fun _ hjumps => hjumps
  · exact onContext_allNamed (FlowRankConfig.runAll_allNamed (by decide) (by decide)
      env.library env.rankEngine config.rankBlocks node.context)

theorem kernelProcess_jumps (env : FlowEnvironment) :
    Kernel.Jumps (FlowConfig.kernelProcess env) := by
  intro rpc config node hspares hlacks
  have hdefine : ∀ node : NodeState Collected,
      (onContext (config.definition.runDef env.library) node).Keeps
        (fun after => after.context.allNamed "next") node := fun node =>
    onContext_allNamed (KEMap.runDef_allNamed env.library hspares.1 node.context)
  apply jumps_andThen (hdefine node) hlacks
  intro node hlacks
  apply jumps_andThen (hdefine node) hlacks
  intro node hlacks
  apply jumps_andThen _ hlacks
  · intro node hlacks
    exact config.rankAndOutput_jumps hspares hlacks
  · exact config.runRecall_allNamed (by decide) (by decide) rpc node

theorem asyncKernelProcess_jumps (env : FlowEnvironment) :
    Kernel.Jumps (FlowConfig.asyncKernelProcess env) := by
  intro schedule config node hspares hlacks
  apply Outcome.Leaves.evaluate (.of_lacks hlacks)
  intro contexts
  have hdefine : (onContext (config.recallRunDef env.library) node).Keeps
      (fun after => after.context.allNamed "next") node :=
    onContext_allNamed (KEMap.runDef_allNamed env.library hspares.1 node.context)
  apply jumps_andThen hdefine hlacks
  intro node hlacks
  apply jumps_andThen _ hlacks
  · intro node hlacks
    exact config.rankAndOutput_jumps hspares hlacks
  · exact config.recallAsync_allNamed (by decide) (by decide) schedule contexts node

end Kernels

section Run

variable {env : FlowEnvironment} {policy : DefaultPolicy} {kernel : Kernel κ ρ}

/-- Between the nodes there is no `next`, and the flow to look up is found. -/
structure FlowRun.Found (policy : DefaultPolicy) (run : FlowRun ρ) : Prop where
  lacks : run.topContext.Lacks "next"
  named : ∀ currFlow, run.phase = .head currFlow → policy.Names currFlow

theorem mergeResult_jumps {node : NodeState ρ} {top : Context}
    {targets : List String}
    (hjumps : Context.JumpsFrom targets top.enter node.context) :
    (FlowConfig.mergeResult node).Leaves fun after =>
      Context.JumpsFrom targets top.enter after.context := by
  unfold FlowConfig.mergeResult
  split
  · split
    · split
      · apply Outcome.Leaves.ok
        refine ⟨?_, hjumps.own⟩
        have hleave : node.context.leave.allNamed "next" = top.allNamed "next" :=
          Context.allNamed_leave hjumps.outer
        rw [Context.outerNamed_enter, ← hleave]
        exact Context.allNamed_updateVariable_of_ne (by decide) _ _
      · exact .failed hjumps
    · exact .undefined
  · exact .ok hjumps

theorem FlowRun.finishNode_found {run next : FlowRun ρ} {node : NodeState ρ}
    {targets : List String} (hrun : run.Found policy)
    (hjumps : Context.JumpsFrom targets run.topContext.enter node.context)
    (hnamed : ∀ target ∈ targets, policy.Names target)
    (hfinish : run.finishNode node = some next) : next.Found policy := by
  have hleave : node.context.leave.Lacks "next" :=
    hrun.lacks.congr (Context.allNamed_leave hjumps.outer)
  unfold FlowRun.finishNode at hfinish
  simp only at hfinish
  split at hfinish
  · rename_i target htarget
    cases hfinish
    refine ⟨hleave, fun currFlow hphase => ?_⟩
    obtain ⟨other, heq, hmem⟩ :=
      hjumps.getVariable_next hrun.lacks.enter htarget
    cases heq
    cases hphase
    exact hnamed _ hmem
  · cases hfinish
  · obtain ⟨result, -, rfl⟩ := Option.map_eq_some_iff.mp hfinish
    refine ⟨?_, fun currFlow hphase => by cases hphase⟩
    exact hleave.congr (Context.allNamed_updateVariable_of_ne (by decide) _ _)

theorem FlowRun.Found.fail {run : FlowRun ρ} (hlacks : run.topContext.Lacks "next") :
    run.fail.Found policy :=
  ⟨hlacks, fun currFlow hphase => by cases hphase⟩

theorem DefaultPolicy.processNode_found {run next : FlowRun ρ} {info : κ}
    {currFlow : String} (hkernel : kernel.Jumps)
    (htargets : policy.AllNamed FlowConfig.jumpTargets)
    (hrun : run.Found policy)
    (hspares : ∀ config, policy.flowMap.lookup currFlow = some config →
      config.SparesNext)
    (hprocess : policy.processNode kernel info currFlow run = some next) :
    next.Found policy := by
  obtain ⟨config, hconfig, hdone⟩ := processNode_cases hprocess
  have hnode := hkernel info config
    { context := run.topContext.enter
      interveneService := run.interveneService }
    (hspares config hconfig) hrun.lacks.enter
  have hmerged := hnode.andThen (fun _ hjumps => hjumps)
    fun _ hjumps => mergeResult_jumps hjumps
  rcases hdone with ⟨node, hok, hfinish⟩ | ⟨node, hfailed, rfl⟩
  · rw [FlowConfig.singleNode] at hok
    rw [hok] at hmerged
    exact FlowRun.finishNode_found hrun hmerged.of_ok (htargets currFlow config hconfig)
      hfinish
  · rw [FlowConfig.singleNode] at hfailed
    rw [hfailed] at hmerged
    exact .fail (hrun.lacks.congr (Context.allNamed_leave hmerged.of_failed.outer))

theorem DefaultPolicy.step_found {run next : FlowRun ρ} {label : FlowLabel κ}
    (hkernel : kernel.Jumps) (htargets : policy.AllNamed FlowConfig.jumpTargets)
    (hrun : run.Found policy) (hspares : policy.SparesNext run label)
    (hstep : policy.step env kernel run label = some next) :
    next.Found policy := by
  cases step_cases hstep with
  | notFound => exact .fail hrun.lacks
  | enter => exact ⟨hrun.lacks, fun currFlow hphase => by cases hphase⟩
  | intervene => exact ⟨hrun.lacks, fun currFlow hphase => by cases hphase⟩
  | interveneFails => exact .fail hrun.lacks
  | @process currFlow info _ hphase _ hprocess =>
      exact processNode_found hkernel htargets hrun
        (fun config => hspares info currFlow config rfl hphase) hprocess

theorem DefaultPolicy.neverLost_of_targets (hkernel : kernel.Jumps)
    (htargets : policy.AllNamed FlowConfig.jumpTargets)
    (hstart : policy.Names policy.startFlow) : policy.NeverLost env kernel := by
  intro request response labels final hguarded hrun
  have hfound : (policy.start request response : FlowRun ρ).Found policy := by
    refine ⟨?_, fun currFlow hphase => ?_⟩
    · intro members hmem
      simpa [start, Context.allNamed, Context.scopes, Members.named] using hmem
    · cases hphase
      exact hstart
  exact (Machine.guarded_invariant
    (fun hrun hspares hstep => step_found hkernel htargets hrun hspares hstep)
    hfound hguarded hrun).named

end Run

section Recalls

variable {env : FlowEnvironment} {policy : DefaultPolicy}

def RecallTask.Found (policy : DefaultPolicy) : RecallTask → Prop
  | .recalling _ => True
  | .calling _ next => next = "" ∨ policy.Names next
  | .looking next | .recalled next => policy.Names next

structure RecallChain.Found (policy : DefaultPolicy) (chain : RecallChain) :
    Prop where
  tasks : ∀ task ∈ chain.tasks, task.Found policy
  notFound : chain.notFound = []

theorem RecallTask.Found.spawned {task other : RecallTask}
    (htargets : policy.AllNamed FlowConfig.jumpTargets) (htask : task.Found policy)
    (hspawns : Spawns env policy other task) : other.Found policy := by
  cases hspawns with
  | @call _ service next hrecalls =>
      obtain ⟨config, _, _, _, hconfig, -, -, hnext⟩ := hrecalls
      by_cases hne : next = ""
      · exact .inl hne
      · apply Or.inr
        apply htargets _ config hconfig
        have hmem : next ∈ config.nextFlows := by
          simp only [FlowConfig.nextFlows, List.mem_filter, List.mem_map]
          refine ⟨⟨_, Members.mem_of_lookup (config.lookup_of_recallNextOf ?_), hnext⟩, ?_⟩
          · rw [hnext]
            exact hne
          · simpa using hne
        simp only [FlowConfig.jumpTargets, List.mem_append]
        exact .inr hmem
  | look hne _ => exact htask.resolve_left hne
  | recalling _ => trivial
  | recalled => exact htask

theorem RecallChain.step_found {chain next : RecallChain} {label : ChainLabel}
    (htargets : policy.AllNamed FlowConfig.jumpTargets)
    (hchain : chain.Found policy)
    (hstep : RecallChain.step env policy chain label = some next) :
    next.Found policy := by
  obtain ⟨index, task, spawned, hreplaces⟩ := RecallChain.step_replaces hstep
  have htask : task.Found policy :=
    hchain.tasks task (List.mem_of_getElem? hreplaces.at_index)
  constructor
  · intro other hother
    rw [hreplaces.tasks] at hother
    cases List.mem_append.mp hother with
    | inr hold => exact hchain.tasks other (List.mem_of_mem_eraseIdx hold)
    | inl hnew =>
        rcases hreplaces.spawns with hspawns | ⟨recallNext, -, rfl, rfl⟩
        · exact htask.spawned htargets (hspawns other hnew)
        · rw [List.mem_singleton.mp hnew]
          exact htask
  · rcases hreplaces.notFound with hsame | ⟨recallNext, rfl, hnone⟩
    · exact hsame.trans hchain.notFound
    · rw [RecallTask.Found, DefaultPolicy.Names, hnone] at htask
      cases htask

theorem RecallChain.run_found {flow : String} {labels : List ChainLabel}
    {final : RecallChain} (htargets : policy.AllNamed FlowConfig.jumpTargets)
    (hrun : Machine.run (RecallChain.step env policy) (RecallChain.start flow)
      labels = some final) : final.notFound = [] := by
  have hstart : (RecallChain.start flow).Found policy := by
    refine ⟨fun task hmem => ?_, rfl⟩
    rw [List.mem_singleton.mp hmem]
    trivial
  exact (Machine.run_invariant
    (fun hchain hstep => RecallChain.step_found htargets hchain hstep)
    hstart hrun).notFound

end Recalls

/-- What `flow_check` looks up are the `next` of the nodes, uncut. -/
theorem allNamed_jumpTargets_iff {nodes : List FlowConfig} {policy : DefaultPolicy}
    (hinit : DefaultPolicy.init nodes = some policy) :
    policy.AllNamed FlowConfig.jumpTargets ↔
      policy.AllNamed FlowConfig.uncheckedTargets := by
  obtain ⟨hmem, -, hnext⟩ := DefaultPolicy.init_spec hinit
  constructor
  · intro hnamed name config hconfig target htarget
    apply hnamed name config hconfig target
    simp only [FlowConfig.uncheckedTargets, FlowConfig.jumpTargets, List.mem_append,
      Option.mem_toList] at htarget ⊢
    rcases htarget with (hown | hif) | hflow
    · obtain ⟨next, hfilter, rfl⟩ := Option.map_eq_some_iff.mp hown
      rw [(Option.filter_eq_some_iff.mp hfilter).1]
      exact .inl (.inl rfl)
    · exact .inl (.inr hif)
    · exact .inr hflow
  · intro hnamed name config hconfig target htarget
    simp only [FlowConfig.jumpTargets, List.mem_append, Option.mem_toList] at htarget
    have hunchecked : target ∈ config.uncheckedTargets → policy.Names target :=
      hnamed name config hconfig target
    simp only [FlowConfig.uncheckedTargets, List.mem_append,
      Option.mem_toList] at hunchecked
    rcases htarget with (hown | hif) | hflow
    · obtain ⟨next, hsome, rfl⟩ := Option.map_eq_some_iff.mp hown
      by_cases hcut : cStr next = next
      · rw [hcut]
        exact hnext config (hmem name config hconfig) next hsome
      · apply hunchecked
        apply Or.inl
        apply Or.inl
        rw [hsome, Option.filter_some_pos (by simpa using hcut), Option.map_some]
    · exact hunchecked (.inl (.inr hif))
    · exact hunchecked (.inr hflow)

/-- The jumps of an initialized policy are found exactly when those are that
`flow_check` does not look up. -/
theorem jumpsFound_iff {config : List FlowNodeConfig} {policy : DefaultPolicy}
    (hinit : DefaultPolicy.initNodes config = some policy) :
    policy.JumpsFound ↔ policy.AllNamed FlowConfig.uncheckedTargets := by
  obtain ⟨nodes, -, hnodes⟩ := DefaultPolicy.initNodes_spec hinit
  obtain ⟨-, hstart, -⟩ := DefaultPolicy.init_spec hnodes
  have hchecked := allNamed_jumpTargets_iff hnodes
  constructor
  · intro hfound
    exact hchecked.mp hfound.named
  · intro hunchecked
    have htargets := hchecked.mpr hunchecked
    exact
      { named := htargets
        nodes := fun env => DefaultPolicy.neverLost_of_targets
          (kernelProcess_jumps env) htargets hstart
        asyncNodes := fun env => DefaultPolicy.neverLost_of_targets
          (asyncKernelProcess_jumps env) htargets hstart
        recalls := fun _ _ _ _ hrun => RecallChain.run_found htargets hrun }

/-- A flow that is the target of an if block and the `next_flow` of a service,
before the flow `news`. -/
def jumpingTo (next : String) : List FlowNodeConfig :=
  [{ name := "start"
     recallConfig :=
       some ⟨"ALL", [{ recallName := "weather", nextFlow := some next }]⟩
     ifBlocks := [{ next := some next }] },
    { name := "news" }]

def jumpingPolicy (next : String) : DefaultPolicy where
  flowMap :=
    [("start",
        { weatherNodeTo "start" next with ifBlocks := [{ next := some next }] }),
      ("news", { name := "news", recallConfig := { flowName := "news" } })]
  startFlow := "start"

theorem newsTarget_found : (jumpingPolicy "news").JumpsFound := by
  have hinit : DefaultPolicy.initNodes (jumpingTo "news") =
      some (jumpingPolicy "news") := rfl
  have hnews : (jumpingPolicy "news").Names "news" := rfl
  apply (jumpsFound_iff hinit).mpr
  intro name config hconfig target htarget
  have hmem := Members.mem_of_lookup hconfig
  simp only [jumpingPolicy, List.mem_cons, List.not_mem_nil, or_false,
    Prod.mk.injEq] at hmem
  rcases hmem with ⟨-, rfl⟩ | ⟨-, rfl⟩
  · have htargets : target ∈ ["news", "news"] := htarget
    simp only [List.mem_cons, List.not_mem_nil, or_false, or_self] at htargets
    rw [htargets]
    exact hnews
  · cases htarget

theorem jumpingPolicy_sparesNext {next name : String} {config : FlowConfig}
    (hconfig : (jumpingPolicy next).flowMap.lookup name = some config) :
    config.SparesNext := by
  have hnil : KEMap.Spares "next" [] := fun entry hentry => by cases hentry
  have hmem := Members.mem_of_lookup hconfig
  simp only [jumpingPolicy, List.mem_cons, List.not_mem_nil, or_false,
    Prod.mk.injEq] at hmem
  rcases hmem with ⟨-, rfl⟩ | ⟨-, rfl⟩
  · refine ⟨hnil, fun block hblock => ?_⟩
    rw [List.mem_singleton.mp hblock]
    exact hnil
  · exact ⟨hnil, fun block hblock => by cases hblock⟩

theorem missingTarget_lost :
    ¬ ∀ (config : List FlowNodeConfig) (policy : DefaultPolicy),
      DefaultPolicy.initNodes config = some policy → policy.JumpsFound := by
  intro hall
  have hfound := hall (jumpingTo "missing") (jumpingPolicy "missing") rfl
  obtain ⟨final, hrun, hphase⟩ : ∃ final,
      Machine.run ((jumpingPolicy "missing").step weatherEnv
          (FlowConfig.kernelProcess weatherEnv))
        ((jumpingPolicy "missing").start .null .null)
        [.enter, .process BackendEngine.sunny] = some final ∧
          final.phase = .head "missing" := ⟨_, rfl, rfl⟩
  have hnamed := hfound.nodes weatherEnv .null .null
    [.enter, .process BackendEngine.sunny] final
    ⟨fun _ _ _ _ _ => jumpingPolicy_sparesNext,
      fun _ _ => ⟨fun _ _ _ _ _ => jumpingPolicy_sparesNext, fun _ _ => trivial⟩⟩
    hrun "missing" hphase
  cases hnamed

end Uskit
