import Uskit.Backend.Collect
import Uskit.Data.Machine
import Uskit.DynamicConfig.Flow

namespace Uskit

open Uskit.Data

/-! The default flow policy: one flow node after another.  What `kernel_process`
does in a node is up to the class, and so is what it records of its recall. -/

structure FlowEnvironment where
  library : Library
  rankEngine : RankEngine
  backendEngine : BackendEngine

/-- A node at work: its context, the field `_intervene_service` of the helper,
and the record of its recall once there is one. -/
structure NodeState (ρ : Type u) where
  context : Context
  interveneService : String := ""
  recalled : Option ρ := none
deriving DecidableEq

def onContext (call : Context → Outcome Context) (node : NodeState ρ) :
    Outcome (NodeState ρ) :=
  (call node.context).map fun context => { node with context := context }

/-- `kernel_process`, for what the labels of a run tell about its recall. -/
abbrev Kernel (κ : Type v) (ρ : Type u) :=
  κ → FlowConfig → NodeState ρ → Outcome (NodeState ρ)

namespace FlowConfig

/-- The services that `FlowRecallConfig::run` hands to the engine. -/
def servicesToRecall (env : FlowEnvironment) (config : FlowConfig)
    (context : Context) : Result (List String) := do
  let intervene ← config.recallConfig.getInterveneService env.library context
  .ok (if intervene = "" then config.getRecallServiceList else [intervene])

/-- `FlowRecallConfig::run`; the engine itself never fails. -/
def runRecall (env : FlowEnvironment) (rpc : RpcReplies) (config : FlowConfig)
    (node : NodeState Collected) : Outcome (NodeState Collected) :=
  .evaluate node (config.servicesToRecall env node.context) fun services =>
  .evaluate node
    (env.backendEngine.run env.library rpc services node.context)
    fun collected =>
      .ok { node with context := collected.context, recalled := some collected }

def rankAndOutput (env : FlowEnvironment) (config : FlowConfig)
    (node : NodeState ρ) : Outcome (NodeState ρ) :=
  (onContext (config.rank env.library env.rankEngine) node).andThen
    (onContext (config.runOutput env.library))

/-- `DefaultPolicy::kernel_process`: the definitions are evaluated before the
recall, and by `FlowConfig::recall` once more. -/
def kernelProcess (env : FlowEnvironment) : Kernel RpcReplies Collected :=
  fun rpc config node =>
    (onContext (config.recallRunDef env.library) node).andThen fun node =>
    (onContext (config.definition.runDef env.library) node).andThen fun node =>
    (config.runRecall env rpc node).andThen (config.rankAndOutput env)

/-- The output of the node is merged into the result in the top context. -/
def mergeResult (node : NodeState ρ) : Outcome (NodeState ρ) :=
  match node.context.getVariable "output" with
  | some (.object flowOutput) =>
      match node.context.leave.getVariable "result" with
      | some result =>
          match mergeJsonObjects result (.object flowOutput) with
          | some merged =>
              .ok
                { node with
                  context := ⟨node.context.ownVariables,
                    (node.context.leave.updateVariable "result" merged).scopes⟩ }
          | none => .failed node
      | none => .undefined
  | _ => .ok node

/-- `DefaultPolicy::single_node` after the interventions. -/
def singleNode (kernel : Kernel κ ρ) (info : κ) (config : FlowConfig)
    (node : NodeState ρ) : Outcome (NodeState ρ) :=
  (kernel info config node).andThen mergeResult

end FlowConfig

structure DefaultPolicy where
  flowMap : Members String FlowConfig
  startFlow : String

/-- Where `DefaultPolicy::inner_run` is. -/
inductive FlowPhase where
  /-- At the head of its loop. -/
  | head (currFlow : String)
  /-- In the loop over the interventions. -/
  | node (currFlow : String)
  | returned (code : Int)
deriving DecidableEq

/-- The state of a run.  `recalls` has the records of all recalls, the newest
first. -/
structure FlowRun (ρ : Type u) where
  topContext : Context
  phase : FlowPhase
  response : Json
  interveneService : String := ""
  recalls : List ρ := []
deriving DecidableEq

inductive FlowLabel (κ : Type v) where
  | enter
  | intervene
  | process (info : κ)

namespace FlowRun

def fail (run : FlowRun ρ) : FlowRun ρ :=
  { run with phase := .returned (-1) }

/-- The context of the node is left, and its recall recorded. -/
def addNode (run : FlowRun ρ) (node : NodeState ρ) : FlowRun ρ :=
  { run with
    topContext := node.context.leave
    interveneService := node.interveneService
    recalls := node.recalled.toList ++ run.recalls }

def finishNode (run : FlowRun ρ) (node : NodeState ρ) : Option (FlowRun ρ) :=
  let after := run.addNode node
  match node.context.getVariable "next" with
  | some (.string next) => some { after with phase := .head (cStr next) }
  | some _ => none
  | none =>
      (after.topContext.getVariable "result").map fun result =>
        { after with
          topContext := after.topContext.updateVariable "result" run.response
          response := result
          phase := .returned 0 }

end FlowRun

namespace DefaultPolicy

variable (env : FlowEnvironment) (policy : DefaultPolicy)

def start (request response : Json) : FlowRun ρ where
  topContext :=
    ⟨[("request", request), ("backend", .object []), ("result", .object [])], []⟩
  phase := .head policy.startFlow
  response := response

def interveneTarget (currFlow : String) (context : Context) :
    Result (Option String) :=
  match policy.flowMap.lookup currFlow with
  | none => .undefined
  | some config => do
      let target ← config.getInterveneFlow env.library context
      .ok (if target = "" ∨ (policy.flowMap.lookup target).isNone then none
        else some target)

/-- `single_node` runs in a context of its own. -/
def processNode (kernel : Kernel κ ρ) (info : κ) (currFlow : String)
    (run : FlowRun ρ) : Option (FlowRun ρ) :=
  match policy.flowMap.lookup currFlow with
  | none => none
  | some config =>
      match config.singleNode kernel info
        { context := run.topContext.enter
          interveneService := run.interveneService } with
      | .ok node => run.finishNode node
      | .failed node => some (run.addNode node).fail
      | .undefined => none

/-- A step of `inner_run`.  After behaviour that is undefined there is none. -/
def step (kernel : Kernel κ ρ) : Machine (FlowRun ρ) (FlowLabel κ) :=
  fun run label =>
    match run.phase, label with
    | .head currFlow, .enter =>
        some
          (if (policy.flowMap.lookup currFlow).isNone then run.fail
          else { run with phase := .node currFlow })
    | .node currFlow, .intervene =>
        match policy.interveneTarget env currFlow run.topContext.enter with
        | .ok (some target) => some { run with phase := .node target }
        | .failed => some run.fail
        | _ => none
    | .node currFlow, .process info =>
        match policy.interveneTarget env currFlow run.topContext.enter with
        | .ok none => policy.processNode kernel info currFlow run
        | _ => none
    | _, _ => none

/-- What a step can do. -/
inductive Steps (kernel : Kernel κ ρ) (run : FlowRun ρ) :
    FlowLabel κ → FlowRun ρ → Prop
  | notFound {currFlow : String} (phase : run.phase = .head currFlow)
      (missing : policy.flowMap.lookup currFlow = none) :
      Steps kernel run .enter run.fail
  | enter {currFlow : String} (phase : run.phase = .head currFlow)
      (found : policy.flowMap.lookup currFlow ≠ none) :
      Steps kernel run .enter { run with phase := .node currFlow }
  | intervene {currFlow target : String} (phase : run.phase = .node currFlow)
      (intervenes : policy.interveneTarget env currFlow run.topContext.enter =
        .ok (some target)) :
      Steps kernel run .intervene { run with phase := .node target }
  | interveneFails {currFlow : String} (phase : run.phase = .node currFlow)
      (fails : policy.interveneTarget env currFlow run.topContext.enter = .failed) :
      Steps kernel run .intervene run.fail
  | process {currFlow : String} {info : κ} {next : FlowRun ρ}
      (phase : run.phase = .node currFlow)
      (stays : policy.interveneTarget env currFlow run.topContext.enter = .ok none)
      (processed : policy.processNode kernel info currFlow run = some next) :
      Steps kernel run (.process info) next

theorem step_cases {policy : DefaultPolicy} {env : FlowEnvironment}
    {kernel : Kernel κ ρ} {run next : FlowRun ρ} {label : FlowLabel κ}
    (hstep : policy.step env kernel run label = some next) :
    policy.Steps env kernel run label next := by
  unfold step at hstep
  split at hstep
  · rename_i hphase
    cases hstep
    split
    · rename_i hnone
      exact .notFound hphase (Option.isNone_iff_eq_none.mp hnone)
    · rename_i hfound
      exact .enter hphase (by simpa using hfound)
  · rename_i hphase
    split at hstep
    · rename_i htarget
      cases hstep
      exact .intervene hphase htarget
    · rename_i hfails
      cases hstep
      exact .interveneFails hphase hfails
    · cases hstep
  · rename_i hphase
    split at hstep
    · rename_i hstays
      exact .process hphase hstays hstep
    · cases hstep
  · cases hstep

/-- The node ended well and the run goes on from it, or it failed. -/
theorem processNode_cases {policy : DefaultPolicy} {kernel : Kernel κ ρ} {info : κ}
    {currFlow : String} {run next : FlowRun ρ}
    (hprocess : policy.processNode kernel info currFlow run = some next) :
    ∃ config, policy.flowMap.lookup currFlow = some config ∧
      ((∃ node, config.singleNode kernel info
          { context := run.topContext.enter
            interveneService := run.interveneService } = .ok node ∧
          run.finishNode node = some next) ∨
        ∃ node, config.singleNode kernel info
          { context := run.topContext.enter
            interveneService := run.interveneService } = .failed node ∧
          next = (run.addNode node).fail) := by
  unfold processNode at hprocess
  split at hprocess
  · cases hprocess
  · rename_i config hconfig
    refine ⟨config, hconfig, ?_⟩
    split at hprocess
    · rename_i node hnode
      exact .inl ⟨node, hnode, hprocess⟩
    · rename_i node hnode
      cases hprocess
      exact .inr ⟨node, hnode, rfl⟩
    · cases hprocess

end DefaultPolicy

/-! What every node keeps: `records` holds of all records, and `store` of the
value that the variable `backend` has around the nodes. -/

structure NodeState.Sound (records : ρ → Prop) (store : Json → Prop)
    (node : NodeState ρ) : Prop where
  recalled : ∀ record, node.recalled = some record → records record
  outer : ∃ around : Context,
    node.context.outerNamed "backend" = around.allNamed "backend" ∧
      ∃ backend, around.getVariable "backend" = some backend ∧ store backend

structure FlowRun.Sound (records : ρ → Prop) (store : Json → Prop)
    (run : FlowRun ρ) : Prop where
  recalls : ∀ record ∈ run.recalls, records record
  backend : ∃ backend,
    run.topContext.getVariable "backend" = some backend ∧ store backend

/-- A node that `guard` admits has its kernel leave a sound state. -/
def DefaultPolicy.Admits (policy : DefaultPolicy) (kernel : Kernel κ ρ)
    (records : ρ → Prop) (store : Json → Prop) (run : FlowRun ρ)
    (label : FlowLabel κ) : Prop :=
  ∀ info currFlow config, label = .process info → run.phase = .node currFlow →
    policy.flowMap.lookup currFlow = some config →
    (kernel info config
      { context := run.topContext.enter
        interveneService := run.interveneService }).Leaves
        (NodeState.Sound records store)

section Sound

variable {records : ρ → Prop} {store : Json → Prop}

theorem NodeState.Sound.of_outer {context around : Context} {backend : Json}
    {interveneService : String}
    (houter : context.outerNamed "backend" = around.allNamed "backend")
    (hbackend : around.getVariable "backend" = some backend)
    (hstore : store backend) :
    NodeState.Sound records store
      { context := context, interveneService := interveneService } where
  recalled := by
    intro record hnone
    cases hnone
  outer := ⟨around, houter, backend, hbackend, hstore⟩

theorem NodeState.Sound.of_unset {node : NodeState ρ} {backend : Json}
    (hrecalled : ∀ record, node.recalled = some record → records record)
    (hunset : node.context.ownVariables.lookup "backend" = none)
    (hbackend : node.context.getVariable "backend" = some backend)
    (hstore : store backend) : node.Sound records store := by
  rw [Context.getVariable_of_unset (by simpa using hunset)] at hbackend
  have hparents : node.context.parents ≠ [] := by
    intro hnil
    rw [hnil] at hbackend
    cases hbackend
  have hscopes := Context.scopes_leave hparents
  refine ⟨hrecalled, node.context.leave, ?_, backend, ?_, hstore⟩
  · rw [Context.allNamed, hscopes, Context.outerNamed]
  · rw [Context.getVariable, hscopes, hbackend]

theorem NodeState.Sound.onContext {node : NodeState ρ}
    (hsound : node.Sound records store) {call : Context → Outcome Context}
    (hkeeps : (call node.context).Keeps (Context.outerNamed "backend")
      node.context) :
    (Uskit.onContext call node).Leaves (NodeState.Sound records store) := by
  apply Outcome.Leaves.map hkeeps
  intro context hsame
  obtain ⟨around, houter, hbackend⟩ := hsound.outer
  exact ⟨hsound.recalled, around, hsame.trans houter, hbackend⟩

theorem NodeState.Sound.rankAndOutput {node : NodeState ρ}
    (hsound : node.Sound records store) (env : FlowEnvironment)
    (config : FlowConfig) :
    (config.rankAndOutput env node).Leaves (NodeState.Sound records store) := by
  have hrank := hsound.onContext
    ((FlowRankConfig.runAll_parents env.library env.rankEngine config.rankBlocks
      node.context).image (List.map (Members.named "backend")))
  apply hrank.andThen (fun _ hnode => hnode)
  intro next hnext
  exact hnext.onContext
    (FlowConfig.runOutput_outerNamed env.library (by decide) (by decide) config
      next.context)

theorem NodeState.Sound.mergeResult {node : NodeState ρ}
    (hsound : node.Sound records store) :
    (FlowConfig.mergeResult node).Leaves (NodeState.Sound records store) := by
  obtain ⟨around, houter, hbackend⟩ := hsound.outer
  unfold FlowConfig.mergeResult
  split
  · split
    · split
      · apply Outcome.Leaves.ok
        refine ⟨hsound.recalled, around, ?_, hbackend⟩
        rw [← Context.allNamed_leave houter]
        exact Context.allNamed_updateVariable_of_ne (by decide) _ _
      · exact .failed hsound
    · exact .undefined
  · exact .ok hsound

theorem FlowRun.Sound.addNode {run : FlowRun ρ} {node : NodeState ρ}
    (hrun : run.Sound records store) (hnode : node.Sound records store) :
    (run.addNode node).Sound records store := by
  obtain ⟨around, houter, backend, hbackend, hstore⟩ := hnode.outer
  constructor
  · intro record hmem
    cases List.mem_append.mp hmem with
    | inl hnew => exact hnode.recalled record (Option.mem_toList.mp hnew)
    | inr hold => exact hrun.recalls record hold
  · refine ⟨backend, ?_, hstore⟩
    rw [← hbackend]
    exact BackendEngine.getVariable_backend_congr (Context.allNamed_leave houter)

theorem FlowRun.Sound.finishNode {run next : FlowRun ρ} {node : NodeState ρ}
    (hrun : run.Sound records store) (hnode : node.Sound records store)
    (hfinish : run.finishNode node = some next) : next.Sound records store := by
  have hadded := hrun.addNode hnode
  unfold FlowRun.finishNode at hfinish
  simp only at hfinish
  split at hfinish
  · cases hfinish
    exact ⟨hadded.recalls, hadded.backend⟩
  · cases hfinish
  · obtain ⟨result, -, rfl⟩ := Option.map_eq_some_iff.mp hfinish
    obtain ⟨backend, hbackend, hstore⟩ := hadded.backend
    refine ⟨hadded.recalls, backend, ?_, hstore⟩
    rw [← hbackend]
    exact BackendEngine.getVariable_backend_congr
      (Context.allNamed_updateVariable_of_ne (by decide) _ _)

variable {env : FlowEnvironment} {policy : DefaultPolicy} {kernel : Kernel κ ρ}

theorem DefaultPolicy.processNode_sound {run next : FlowRun ρ} {info : κ}
    {currFlow : String} (hrun : run.Sound records store)
    (hphase : run.phase = .node currFlow)
    (hadmits : policy.Admits kernel records store run (.process info))
    (hprocess : policy.processNode kernel info currFlow run = some next) :
    next.Sound records store := by
  obtain ⟨config, hconfig, hdone⟩ := processNode_cases hprocess
  have hkernel := hadmits info currFlow config rfl hphase hconfig
  have hnode := hkernel.andThen (fun _ hsound => hsound)
    fun node hsound => NodeState.Sound.mergeResult hsound
  rcases hdone with ⟨node, hok, hfinish⟩ | ⟨node, hfailed, rfl⟩
  · rw [FlowConfig.singleNode] at hok
    rw [hok] at hnode
    exact hrun.finishNode hnode.of_ok hfinish
  · rw [FlowConfig.singleNode] at hfailed
    rw [hfailed] at hnode
    have hadded := hrun.addNode hnode.of_failed
    exact ⟨hadded.recalls, hadded.backend⟩

theorem DefaultPolicy.step_sound {run next : FlowRun ρ} {label : FlowLabel κ}
    (hrun : run.Sound records store)
    (hadmits : policy.Admits kernel records store run label)
    (hstep : policy.step env kernel run label = some next) :
    next.Sound records store := by
  cases step_cases hstep with
  | notFound => exact ⟨hrun.recalls, hrun.backend⟩
  | enter => exact ⟨hrun.recalls, hrun.backend⟩
  | intervene => exact ⟨hrun.recalls, hrun.backend⟩
  | interveneFails => exact ⟨hrun.recalls, hrun.backend⟩
  | process hphase _ hprocess => exact processNode_sound hrun hphase hadmits hprocess

theorem DefaultPolicy.start_sound (request response : Json)
    (hstore : store (.object [])) :
    FlowRun.Sound records store (policy.start request response) where
  recalls := by simp [start]
  backend := ⟨.object [], rfl, hstore⟩

/-- In a run all of whose steps are admitted, every record is good, and so is
`backend` in every state. -/
theorem DefaultPolicy.run_sound {request response : Json}
    {labels : List (FlowLabel κ)} {final : FlowRun ρ}
    {guard : FlowRun ρ → FlowLabel κ → Prop} (hstore : store (.object []))
    (hguard : ∀ {run label}, run.Sound records store → guard run label →
      policy.Admits kernel records store run label)
    (hguarded : Machine.Guarded (policy.step env kernel) guard
      (policy.start request response) labels)
    (hrun : Machine.run (policy.step env kernel)
      (policy.start request response) labels = some final) :
    final.Sound records store :=
  Machine.guarded_invariant
    (fun hsound hadmitted hstep =>
      step_sound hsound (hguard hsound hadmitted) hstep)
    (start_sound request response hstore) hguarded hrun

end Sound

def weatherNode (next : Option String) : FlowConfig where
  name := "start"
  recallConfig := { flowName := "start", recallServices := [("weather", 0)] }
  next := next

def weatherPolicy (next : Option String) : DefaultPolicy where
  flowMap := [("start", weatherNode next)]
  startFlow := "start"

def weatherEnv : FlowEnvironment where
  library := .bare
  rankEngine := { rankMap := [], sort := fun _ entries => entries }
  backendEngine := BackendEngine.weather BackendEngine.weatherRequest

/-- A second service with the configuration of the first. -/
def newsEnv : FlowEnvironment where
  library := weatherEnv.library
  rankEngine := weatherEnv.rankEngine
  backendEngine :=
    ⟨weatherEnv.backendEngine.services ++
      weatherEnv.backendEngine.services.map ({ · with name := "news" })⟩

def weatherAnswer (text : String) : String × Json :=
  ("weather", .object [("answer", .string text)])

def lateNews : String × Json :=
  ("news", .object [("answer", .string "late")])

def weatherTop (backend : JsonMembers) (result : Json) : JsonMembers :=
  [("request", .null), ("backend", .object backend), ("result", result)]

end Uskit
