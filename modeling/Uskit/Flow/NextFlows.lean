import Uskit.Data.Endless
import Uskit.Flow.AsyncNode
import Uskit.Flow.Init

namespace Uskit

open Uskit.Data

/-! The recalls that follow one another through `next_flow`: `BackendEngine::run`
and the callbacks `GlobalClosure::Run`, as tasks that run in any order.  Every
check that ends a recall or a callback is made, in contexts that the labels choose
freely, since other tasks write to them in between. -/

inductive RecallTask where
  /-- `FlowConfig::recall` of a flow. -/
  | recalling (flow : String)
  /-- A controller that waits for its response, with its `recall_next`. -/
  | calling (service recallNext : String)
  /-- `GlobalClosure::Run` at the head of its loop. -/
  | looking (recallNext : String)
  /-- The same after its recall, before it looks for the variable `next`. -/
  | recalled (recallNext : String)
deriving DecidableEq, Repr

structure RecallChain where
  tasks : List RecallTask
  /-- The flows for which the log says that they were not found. -/
  notFound : List String := []
deriving DecidableEq, Repr

inductive ChainLabel where
  /-- The contexts of the services, the services that a filter leaves out, and those
  that get a callback; a dynamic service has one for each of its sub-calls. -/
  | recall (index : Nat) (contexts : List Context) (filterout launched : List String)
  | respond (index : Nat) (context : Context) (replies : List RpcReply)
  | look (index : Nat) (context : Context)
  | finish (index : Nat) (nextSet : Bool)
  /-- The task ends with an error. -/
  | stop (index : Nat)

/-- No variable `next` is visible to a callback after its recall. -/
def ChainLabel.NextUnset : ChainLabel → Prop
  | .finish _ nextSet => nextSet = false
  | .recall _ _ _ _ | .respond _ _ _ | .look _ _ | .stop _ => True

namespace FlowConfig

variable (env : FlowEnvironment)

/-- The services whose request is built, one after the other in their contexts. -/
def buildServices : List String → List Context → Result (List String)
  | [], _ => .ok []
  | service :: rest, contexts =>
      match env.backendEngine.findService service with
      | none => buildServices rest contexts
      | some backend =>
          match AsyncRecall.contextOf env { contexts := contexts } service with
          | none => .undefined
          | some (index, context) => do
              let (cntl, after) ←
                (AsyncRecall.controller backend []).buildRequest env.library context
              let built ← buildServices rest (contexts.set index after)
              .ok (if cntl.built then service :: built else built)

/-- The asynchronous `FlowConfig::recall`: the services that it calls. -/
def recallServices (config : FlowConfig) (filterout : List String)
    (contexts : List Context) : Result (List String) :=
  match runDefs env config.definition config.getRecallServiceList contexts with
  | .failed _ => .failed
  | .undefined => .undefined
  | .ok defined => do
      let intervene ← config.asyncIntervene env defined
      buildServices env
        (if intervene = "" then
          config.getRecallServiceList.filter fun service =>
            !filterout.contains service
        else [intervene])
        defined

/-- The field that `set_recall_next` sets, empty without an entry. -/
def recallNextOf (config : FlowConfig) (service : String) : String :=
  (config.recallConfig.recallNext.lookup service).getD ""

theorem lookup_of_recallNextOf (config : FlowConfig) {service : String}
    (hne : config.recallNextOf service ≠ "") :
    config.recallConfig.recallNext.lookup service =
      some (config.recallNextOf service) := by
  unfold recallNextOf at hne ⊢
  cases hnext : config.recallConfig.recallNext.lookup service with
  | none =>
      rw [hnext] at hne
      exact absurd rfl hne
  | some next => rfl

end FlowConfig

namespace RecallChain

variable (env : FlowEnvironment) (policy : DefaultPolicy)

def start (flow : String) : RecallChain where
  tasks := [.recalling flow]

def replace (chain : RecallChain) (index : Nat) (spawned : List RecallTask) :
    RecallChain :=
  { chain with tasks := spawned ++ chain.tasks.eraseIdx index }

/-- `GlobalClosure::ResponseCheck` of a service, or of one of its sub-calls. -/
def accepts (service : String) (context : Context) (replies : List RpcReply) :
    Bool :=
  match env.backendEngine.findService service with
  | none => false
  | some backend =>
      match GlobalClosure.responseCheck env.library
          (AsyncRecall.controller backend replies) context with
      | .ok (_, response) => response.isSome
      | _ => false

/-- A callback recalls the flow that it has found; it stops at an intervention that
fails, and stays in its loop at one that names a flow. -/
def enters (config : FlowConfig) (context : Context) : Bool :=
  match config.getInterveneFlow env.library context with
  | .ok target => target == "" || (policy.flowMap.lookup target).isNone
  | _ => false

def step : Machine RecallChain ChainLabel := fun chain label =>
  match label with
  | .recall index contexts filterout launched =>
      match chain.tasks[index]? with
      | some (.recalling flow) =>
          (policy.flowMap.lookup flow).bind fun config =>
            match config.recallServices env filterout contexts with
            | .ok built =>
                if ∀ service ∈ launched, service ∈ built then
                  some
                    (chain.replace index
                      (launched.map fun service =>
                        .calling service (config.recallNextOf service)))
                else none
            | _ => none
      | _ => none
  | .respond index context replies =>
      match chain.tasks[index]? with
      | some (.calling service recallNext) =>
          some
            (chain.replace index
              (if accepts env service context replies = true ∧ recallNext ≠ "" then
                [.looking recallNext]
              else []))
      | _ => none
  | .look index context =>
      match chain.tasks[index]? with
      | some (.looking recallNext) =>
          match policy.flowMap.lookup recallNext with
          | none =>
              some
                { chain.replace index [] with
                  notFound := recallNext :: chain.notFound }
          | some config =>
              if enters env policy config context then
                some (chain.replace index [.recalling recallNext, .recalled recallNext])
              else none
      | _ => none
  | .finish index nextSet =>
      match chain.tasks[index]? with
      | some (.recalled recallNext) =>
          -- The head of the loop reads `recall_next` again, not `next`.
          some (chain.replace index (if nextSet then [.looking recallNext] else []))
      | _ => none
  | .stop index =>
      (chain.tasks[index]?).map fun _ => chain.replace index []

end RecallChain

section Chain

variable (env : FlowEnvironment) (policy : DefaultPolicy)

/-- In some contexts the recall of the flow calls the service. -/
def Recalls (flow service recallNext : String) : Prop :=
  ∃ config contexts filterout built, policy.flowMap.lookup flow = some config ∧
    config.recallServices env filterout contexts = .ok built ∧ service ∈ built ∧
    config.recallNextOf service = recallNext

/-- Some reply to the service is accepted. -/
def Answers (service : String) : Prop :=
  ∃ context replies, RecallChain.accepts env service context replies = true

/-- In some context a callback that looks for the flow recalls it. -/
def Entered (flow : String) : Prop :=
  ∃ config context, policy.flowMap.lookup flow = some config ∧
    RecallChain.enters env policy config context = true

/-- A response to a call of the first flow can make its callback recall the
second. -/
def NextFlow (first second : String) : Prop :=
  second ≠ "" ∧ Entered env policy second ∧
    ∃ service, Recalls env policy first service second ∧ Answers env service

/-- The recalls that a flow starts come to an end, whatever the contexts and the
responses. -/
def RecallsEnd (flow : String) : Prop :=
  ¬ Machine.Endless (RecallChain.step env policy) ChainLabel.NextUnset
    (RecallChain.start flow)

/-- What a step may put in the place of a task. -/
inductive Spawns : RecallTask → RecallTask → Prop where
  | call {flow service next : String} :
      Recalls env policy flow service next →
      Spawns (.calling service next) (.recalling flow)
  | look {service next : String} : next ≠ "" → Answers env service →
      Spawns (.looking next) (.calling service next)
  | recalling {next : String} : Entered env policy next →
      Spawns (.recalling next) (.looking next)
  | recalled {next : String} : Spawns (.recalled next) (.looking next)

variable {env : FlowEnvironment} {policy : DefaultPolicy}

instance : Std.Irrefl (Spawns env policy) where
  irrefl := by
    intro task hspawns
    cases hspawns

theorem mem_names_of_nextFlow {first second : String}
    (hnext : NextFlow env policy first second) :
    first ∈ Members.names policy.flowMap := by
  obtain ⟨-, -, service, ⟨config, _, _, _, hconfig, -⟩, -⟩ := hnext
  exact Members.lookup_isSome.mp (by rw [hconfig]; rfl)

theorem acc_recalled (next : String) : Acc (Spawns env policy) (.recalled next) := by
  constructor
  intro task hspawns
  cases hspawns

theorem acc_looking {next : String}
    (hrecall : Entered env policy next → Acc (Spawns env policy) (.recalling next)) :
    Acc (Spawns env policy) (.looking next) := by
  constructor
  intro task hspawns
  cases hspawns with
  | recalling hentered => exact hrecall hentered
  | recalled => exact acc_recalled next

theorem acc_recalling {flow : String}
    (hacc : Acc (fun second first => NextFlow env policy first second) flow) :
    Acc (Spawns env policy) (.recalling flow) := by
  induction hacc with
  | intro flow _ ih =>
      constructor
      intro task hspawns
      cases hspawns with
      | @call _ service next hrecalls =>
          constructor
          intro spawned hspawned
          cases hspawned with
          | look hne hanswers =>
              apply acc_looking
              intro hentered
              exact ih next ⟨hne, hentered, service, hrecalls, hanswers⟩

theorem cutExpand_replace {chain : RecallChain} {index : Nat} {task : RecallTask}
    {spawned : List RecallTask} (htask : chain.tasks[index]? = some task)
    (hspawned : ∀ other ∈ spawned, Spawns env policy other task) :
    Relation.CutExpand (Spawns env policy) ↑(chain.replace index spawned).tasks
      (↑chain.tasks : Multiset RecallTask) := by
  obtain ⟨hindex, rfl⟩ := List.getElem?_eq_some_iff.mp htask
  have htasks : (↑chain.tasks : Multiset RecallTask) =
      {chain.tasks[index]} + ↑(chain.tasks.eraseIdx index) :=
    Multiset.coe_eq_coe.mpr (List.getElem_cons_eraseIdx_perm hindex).symm
  refine ⟨↑spawned, chain.tasks[index], ?_, ?_⟩
  · intro other hother
    exact hspawned other (Multiset.mem_coe.mp hother)
  · rw [RecallChain.replace, ← Multiset.coe_add, htasks]
    ac_rfl

/-- A task is replaced: by what it spawns, or by its own repetition where a callback
finds `next` set; a flow is noted as not found only where a callback looks for it. -/
structure RecallChain.Replaces (env : FlowEnvironment) (policy : DefaultPolicy)
    (chain : RecallChain) (label : ChainLabel) (next : RecallChain) (index : Nat)
    (task : RecallTask) (spawned : List RecallTask) : Prop where
  at_index : chain.tasks[index]? = some task
  tasks : next.tasks = (chain.replace index spawned).tasks
  spawns : (∀ other ∈ spawned, Spawns env policy other task) ∨
    ∃ recallNext, label = .finish index true ∧ task = .recalled recallNext ∧
      spawned = [.looking recallNext]
  notFound : next.notFound = chain.notFound ∨
    ∃ recallNext, task = .looking recallNext ∧ policy.flowMap.lookup recallNext = none

theorem RecallChain.step_replaces {chain next : RecallChain} {label : ChainLabel}
    (hstep : RecallChain.step env policy chain label = some next) :
    ∃ index task spawned,
      chain.Replaces env policy label next index task spawned := by
  unfold RecallChain.step at hstep
  split at hstep
  · split at hstep
    · rename_i flow htask
      obtain ⟨config, hconfig, hlaunch⟩ := Option.bind_eq_some_iff.mp hstep
      split at hlaunch
      · rename_i built hbuilt
        rw [Option.ite_none_right_eq_some] at hlaunch
        obtain ⟨hlaunched, heq⟩ := hlaunch
        cases heq
        refine ⟨_, _, _, htask, rfl, .inl fun other hother => ?_, .inl rfl⟩
        obtain ⟨service, hservice, rfl⟩ := List.mem_map.mp hother
        exact .call
          ⟨config, _, _, built, hconfig, hbuilt, hlaunched service hservice, rfl⟩
      · cases hlaunch
    · cases hstep
  · split at hstep
    · rename_i htask
      cases hstep
      refine ⟨_, _, _, htask, rfl, .inl fun other hother => ?_, .inl rfl⟩
      split at hother
      · rename_i hlooks
        rw [List.mem_singleton.mp hother]
        exact .look hlooks.2 ⟨_, _, hlooks.1⟩
      · cases hother
    · cases hstep
  · split at hstep
    · rename_i recallNext htask
      split at hstep
      · rename_i hnone
        cases hstep
        exact ⟨_, _, [], htask, rfl, .inl (by simp), .inr ⟨recallNext, rfl, hnone⟩⟩
      · rename_i config hconfig
        rw [Option.ite_none_right_eq_some] at hstep
        obtain ⟨henters, heq⟩ := hstep
        cases heq
        refine ⟨_, _, _, htask, rfl, .inl fun other hother => ?_, .inl rfl⟩
        cases hother with
        | head => exact .recalling ⟨config, _, hconfig, henters⟩
        | tail _ hlast =>
            rw [List.mem_singleton.mp hlast]
            exact .recalled
    · cases hstep
  · split at hstep
    · rename_i index nextSet _ recallNext htask
      cases hstep
      cases nextSet with
      | false => exact ⟨_, _, [], htask, rfl, .inl (by simp), .inl rfl⟩
      | true =>
          exact ⟨_, _, _, htask, rfl, .inr ⟨recallNext, rfl, rfl, rfl⟩, .inl rfl⟩
    · cases hstep
  · obtain ⟨task, htask, heq⟩ := Option.map_eq_some_iff.mp hstep
    cases heq
    exact ⟨_, _, [], htask, rfl, .inl (by simp), .inl rfl⟩

/-- Without a variable `next` a step replaces one task by what it spawns. -/
theorem step_spawns {chain next : RecallChain} {label : ChainLabel}
    (hunset : label.NextUnset)
    (hstep : RecallChain.step env policy chain label = some next) :
    Relation.CutExpand (Spawns env policy) ↑next.tasks
      (↑chain.tasks : Multiset RecallTask) := by
  obtain ⟨index, task, spawned, hreplaces⟩ := RecallChain.step_replaces hstep
  rw [hreplaces.tasks]
  apply cutExpand_replace hreplaces.at_index
  cases hreplaces.spawns with
  | inl hspawns => exact hspawns
  | inr hrepeat =>
      obtain ⟨recallNext, rfl, -, -⟩ := hrepeat
      cases hunset

/-- A chain that goes on: its first task leads to a flow that reaches itself. -/
inductive Turning (env : FlowEnvironment) (policy : DefaultPolicy) :
    List RecallTask → Prop where
  | recalling {flow node : String} {rest : List RecallTask} :
      Relation.ReflTransGen (NextFlow env policy) flow node →
      Relation.TransGen (NextFlow env policy) node node →
      Turning env policy (.recalling flow :: rest)
  | calling {service flow node : String} {rest : List RecallTask} : flow ≠ "" →
      Answers env service → Entered env policy flow →
      Relation.ReflTransGen (NextFlow env policy) flow node →
      Relation.TransGen (NextFlow env policy) node node →
      Turning env policy (.calling service flow :: rest)
  | looking {flow node : String} {rest : List RecallTask} : Entered env policy flow →
      Relation.ReflTransGen (NextFlow env policy) flow node →
      Relation.TransGen (NextFlow env policy) node node →
      Turning env policy (.looking flow :: rest)

theorem turning_step {chain : RecallChain}
    (hturning : Turning env policy chain.tasks) :
    ∃ label next, ChainLabel.NextUnset label ∧
      RecallChain.step env policy chain label = some next ∧
        Turning env policy next.tasks := by
  obtain ⟨tasks, notFound⟩ := chain
  cases hturning with
  | @recalling flow node rest hreach hcycle =>
      obtain ⟨second, ⟨hne, hentered, service, hrecalls, hanswers⟩, hrest⟩ :=
        Graph.edge_to_cycle hreach hcycle
      obtain ⟨config, contexts, filterout, built, hconfig, hbuilt, hservice, hnext⟩ :=
        hrecalls
      refine ⟨.recall 0 contexts filterout [service],
        ⟨.calling service second :: rest, notFound⟩, trivial, ?_,
        .calling hne hanswers hentered hrest hcycle⟩
      simp only [RecallChain.step, List.getElem?_cons_zero, hconfig, Option.bind_some,
        hbuilt]
      rw [if_pos (by simpa using hservice)]
      simp only [RecallChain.replace, hnext, List.map_cons, List.map_nil]
      rfl
  | @calling service flow node rest hne hanswers hentered hreach hcycle =>
      obtain ⟨context, replies, haccepts⟩ := hanswers
      refine ⟨.respond 0 context replies, ⟨.looking flow :: rest, notFound⟩, trivial,
        ?_, .looking hentered hreach hcycle⟩
      simp only [RecallChain.step, List.getElem?_cons_zero, RecallChain.replace]
      rw [if_pos ⟨haccepts, hne⟩]
      rfl
  | @looking flow node rest hentered hreach hcycle =>
      obtain ⟨config, context, hconfig, henters⟩ := hentered
      refine ⟨.look 0 context, ⟨.recalling flow :: .recalled flow :: rest, notFound⟩,
        trivial, ?_, .recalling hreach hcycle⟩
      simp only [RecallChain.step, List.getElem?_cons_zero, hconfig, henters,
        RecallChain.replace]
      rfl

theorem endless_of_cycle {flow node : String}
    (hreach : Relation.ReflTransGen (NextFlow env policy) flow node)
    (hcycle : Relation.TransGen (NextFlow env policy) node node) :
    ¬ RecallsEnd env policy flow := by
  intro hend
  apply hend
  let turning (chain : RecallChain) : Prop := Turning env policy chain.tasks
  have hstart : turning (RecallChain.start flow) := .recalling hreach hcycle
  exact .of_kept hstart fun chain hchain => turning_step hchain

/-- The recalls that a flow starts come to an end, with every choice of contexts and
responses, exactly when no flow that it leads to leads back to itself. -/
theorem recallsEnd_iff (env : FlowEnvironment) (policy : DefaultPolicy)
    (flow : String) :
    RecallsEnd env policy flow ↔
      Graph.AcyclicFrom (NextFlow env policy) flow := by
  constructor
  · intro hend node hreach hcycle
    exact endless_of_cycle hreach hcycle hend
  · intro hacyclic
    have hacc := Graph.acc_of_acyclic mem_names_of_nextFlow hacyclic
    let tasks (chain : RecallChain) : Multiset RecallTask := ↑chain.tasks
    have hstart : ∀ task ∈ tasks (RecallChain.start flow),
        Acc (Spawns env policy) task := by
      intro task htask
      rw [Multiset.mem_coe, RecallChain.start, List.mem_singleton] at htask
      rw [htask]
      exact acc_recalling hacc
    have hstep : ∀ {chain label next}, ChainLabel.NextUnset label →
        RecallChain.step env policy chain label = some next →
          Relation.CutExpand (Spawns env policy) (tasks next) (tasks chain) :=
      step_spawns
    exact Machine.not_endless_of_tasks tasks hstart hstep

end Chain

def weatherTo (name next : String) : FlowNodeConfig where
  name := name
  recallConfig := some ⟨"ALL", [{ recallName := "weather", nextFlow := some next }]⟩

/-- Two flows, each the `next_flow` of the other. -/
def pingPong : List FlowNodeConfig :=
  [weatherTo "ping" "pong", weatherTo "pong" "ping"]

def weatherNodeTo (name next : String) : FlowConfig where
  name := name
  recallConfig :=
    { cancelOrder := "ALL"
      recallServices := [("weather", 0)]
      recallNext := [("weather", next)]
      flowName := name }

def pingPongPolicy : DefaultPolicy where
  flowMap :=
    [("ping", weatherNodeTo "ping" "pong"), ("pong", weatherNodeTo "pong" "ping")]
  startFlow := "ping"

theorem weather_answers : Answers weatherEnv "weather" :=
  ⟨BackendEngine.emptyFlow, [BackendEngine.sunny 0 0], rfl⟩

theorem pingPong_endless :
    ¬ ∀ (env : FlowEnvironment) (config : List FlowNodeConfig)
        (policy : DefaultPolicy) (flow : String),
      DefaultPolicy.initNodes config = some policy → RecallsEnd env policy flow := by
  intro hall
  have hinit : DefaultPolicy.initNodes pingPong = some pingPongPolicy := rfl
  let contexts : List Context := [BackendEngine.emptyFlow]
  have hrecalls (name next : String) :
      (weatherNodeTo name next).recallServices weatherEnv [] contexts =
        .ok ["weather"] := rfl
  have henters (name next : String) :
      RecallChain.enters weatherEnv pingPongPolicy (weatherNodeTo name next)
        BackendEngine.emptyFlow = true := rfl
  have hping : NextFlow weatherEnv pingPongPolicy "ping" "pong" :=
    ⟨by decide, ⟨_, _, rfl, henters "pong" "ping"⟩, "weather",
      ⟨_, contexts, [], _, rfl, hrecalls "ping" "pong", .head _, rfl⟩, weather_answers⟩
  have hpong : NextFlow weatherEnv pingPongPolicy "pong" "ping" :=
    ⟨by decide, ⟨_, _, rfl, henters "ping" "pong"⟩, "weather",
      ⟨_, contexts, [], _, rfl, hrecalls "pong" "ping", .head _, rfl⟩, weather_answers⟩
  exact endless_of_cycle .refl (.tail (.single hping) hpong)
    (hall weatherEnv pingPong pingPongPolicy "ping" hinit)

end Uskit
