import Uskit.Data.Loop
import Uskit.Flow.Init

namespace Uskit

open Uskit.Data

/-! The jumps between flow nodes that interventions make, in
`DefaultPolicy::single_node` and in `GlobalClosure::Run`. -/

inductive InterveneEnd where
  | halted (flow : String)
  | failed
  | undefined
deriving DecidableEq

namespace DefaultPolicy

variable (env : FlowEnvironment) (policy : DefaultPolicy) (context : Context)

/-- A turn of the loop of `single_node`. -/
def interveneTurn : Loop String InterveneEnd :=
  fun currFlow =>
    match policy.interveneTarget env currFlow context with
    | .ok (some target) => .inl target
    | .ok none => .inr (.halted currFlow)
    | .failed => .inr .failed
    | .undefined => .inr .undefined

/-- A turn of the inner loop of `GlobalClosure::Run`: `next_flow` moves on, the
iterator that gives `config` does not. -/
def closureTurn (config : FlowConfig) : Loop String InterveneEnd :=
  fun nextFlow =>
    match config.getInterveneFlow env.library context with
    | .ok interveneFlow =>
        if interveneFlow = "" ∨ (policy.flowMap.lookup interveneFlow).isNone then
          .inr (.halted nextFlow)
        else .inl interveneFlow
    | .failed => .inr .failed
    | .undefined => .inr .undefined

/-! The graph of the jumps, read off the configuration. -/

/-- The flow that the rules of `flow` match, if its source can be read. -/
def MatchedFlow (flow target : String) : Prop :=
  ∃ config, policy.flowMap.lookup flow = some config ∧
    config.getInterveneFlow env.library context = .ok target

def JumpsTo (flow target : String) : Prop :=
  policy.MatchedFlow env context flow target ∧ target ≠ "" ∧
    (policy.flowMap.lookup target).isSome

/-- No node on the way from `start` is jumped to again from itself, and the
source of every node there can be read. -/
def ChainEnds (start : String) : Prop :=
  ∀ flow, Relation.ReflTransGen (policy.JumpsTo env context) start flow →
    ¬ Relation.TransGen (policy.JumpsTo env context) flow flow ∧
      ∃ target, policy.MatchedFlow env context flow target

/-- The loop of `single_node` comes to an end at a node whose matching target is
empty or not in the flow map. -/
def InterventionsEnd (start : String) : Prop :=
  ∃ flow target,
    Loop.Returns (policy.interveneTurn env context) start (.halted flow) ∧
      policy.MatchedFlow env context flow target ∧
        (target = "" ∨ policy.flowMap.lookup target = none)

/-- Where the loop of `single_node` from `flow` halts at a node, the loop of
`GlobalClosure::Run` halts too, and recalls the services of that node under its
definitions. -/
def ClosureFollows (flow : String) : Prop :=
  ∀ last,
    Loop.Returns (policy.interveneTurn env context) flow (.halted last) →
      ∃ config lastConfig, policy.flowMap.lookup flow = some config ∧
        policy.flowMap.lookup last = some lastConfig ∧
        (∃ nextFlow, Loop.Returns (policy.closureTurn env context config) flow
          (.halted nextFlow)) ∧
        config.recallConfig.recallServices =
          lastConfig.recallConfig.recallServices ∧
        config.definition = lastConfig.definition

end DefaultPolicy

namespace DefaultPolicy

variable {env : FlowEnvironment} {policy : DefaultPolicy} {context : Context}

theorem interveneTarget_of_lookup {flow : String} {config : FlowConfig}
    (hconfig : policy.flowMap.lookup flow = some config) :
    policy.interveneTarget env flow context =
      (config.getInterveneFlow env.library context >>= fun target =>
        .ok (if target = "" ∨ (policy.flowMap.lookup target).isNone then none
          else some target)) := by
  rw [interveneTarget, hconfig]

theorem interveneTarget_eq_ok {flow : String} {found : Option String} :
    policy.interveneTarget env flow context = .ok found ↔
      ∃ target, policy.MatchedFlow env context flow target ∧
        found = if target = "" ∨ (policy.flowMap.lookup target).isNone then none
          else some target := by
  unfold MatchedFlow
  cases hconfig : policy.flowMap.lookup flow with
  | none => simp [interveneTarget, hconfig]
  | some config =>
      rw [interveneTarget_of_lookup hconfig, Result.bind_eq_ok]
      constructor
      · intro hjump
        obtain ⟨target, htarget, hfound⟩ := hjump
        exact ⟨target, ⟨config, rfl, htarget⟩, (Result.ok.inj hfound).symm⟩
      · intro hjump
        obtain ⟨target, ⟨_, hsame, htarget⟩, rfl⟩ := hjump
        cases hsame
        exact ⟨target, htarget, rfl⟩

theorem interveneTarget_eq_some {flow target : String} :
    policy.interveneTarget env flow context = .ok (some target) ↔
      policy.JumpsTo env context flow target := by
  rw [interveneTarget_eq_ok]
  constructor
  · intro hjump
    obtain ⟨matched, hmatched, hfound⟩ := hjump
    split at hfound
    · cases hfound
    · rename_i hother
      rw [not_or, Option.isNone_iff_eq_none] at hother
      cases hfound
      exact ⟨hmatched, hother.1, Option.ne_none_iff_isSome.mp hother.2⟩
  · intro hjump
    obtain ⟨hmatched, hne, hsome⟩ := hjump
    refine ⟨target, hmatched, (if_neg ?_).symm⟩
    rw [not_or, Option.isNone_iff_eq_none]
    exact ⟨hne, Option.ne_none_iff_isSome.mpr hsome⟩

theorem interveneTarget_eq_none {flow : String} :
    policy.interveneTarget env flow context = .ok none ↔
      ∃ target, policy.MatchedFlow env context flow target ∧
        (target = "" ∨ policy.flowMap.lookup target = none) := by
  rw [interveneTarget_eq_ok]
  constructor
  · intro hjump
    obtain ⟨target, hmatched, hfound⟩ := hjump
    split at hfound
    · rename_i hstays
      rw [Option.isNone_iff_eq_none] at hstays
      exact ⟨target, hmatched, hstays⟩
    · cases hfound
  · intro hstays
    obtain ⟨target, hmatched, hstays⟩ := hstays
    refine ⟨target, hmatched, (if_pos ?_).symm⟩
    rwa [Option.isNone_iff_eq_none]

theorem goesOn_eq_jumpsTo :
    Loop.GoesOn (policy.interveneTurn env context) =
      policy.JumpsTo env context := by
  funext flow target
  rw [← interveneTarget_eq_some, Loop.GoesOn, interveneTurn]
  cases policy.interveneTarget env flow context with
  | ok found => cases found <;> simp
  | failed => simp
  | undefined => simp

theorem interveneTurn_halted {flow last : String} :
    policy.interveneTurn env context flow = .inr (.halted last) ↔
      flow = last ∧ policy.interveneTarget env flow context = .ok none := by
  rw [interveneTurn]
  cases policy.interveneTarget env flow context with
  | ok found => cases found <;> simp
  | failed => simp
  | undefined => simp

theorem finite_targets :
    {flow | (policy.flowMap.lookup flow).isSome = true}.Finite := by
  apply (policy.flowMap.names.finite_toSet).subset
  intro flow hflow
  exact Members.lookup_isSome.mp hflow

/-- The loop is the `intervene` steps of a run. -/
theorem run_intervene {kernel : Kernel κ ρ} {run : FlowRun ρ} {flow last : String}
    (hreaches : Loop.Reaches (policy.interveneTurn env run.topContext.enter)
      flow last) :
    ∃ labels : List (FlowLabel κ),
      (∀ label ∈ labels, label = .intervene) ∧
        Machine.run (policy.step env kernel) { run with phase := .node flow }
          labels = some { run with phase := .node last } := by
  induction hreaches using Relation.ReflTransGen.head_induction_on with
  | refl => exact ⟨[], by simp, rfl⟩
  | head hstep _ ih =>
      obtain ⟨labels, hall, hrun⟩ := ih
      refine ⟨.intervene :: labels, ?_, ?_⟩
      · intro label hmem
        cases List.mem_cons.mp hmem with
        | inl heq => exact heq
        | inr hrest => exact hall label hrest
      · rw [goesOn_eq_jumpsTo, ← interveneTarget_eq_some] at hstep
        rw [Machine.run_cons]
        exact ⟨_, by simp only [step, hstep], hrun⟩

theorem returns_halted_iff {start last : String} :
    Loop.Returns (policy.interveneTurn env context) start (.halted last) ↔
      Relation.ReflTransGen (policy.JumpsTo env context) start last ∧
        policy.interveneTarget env last context = .ok none := by
  rw [Loop.Returns, Loop.Reaches, goesOn_eq_jumpsTo]
  constructor
  · intro hreturns
    obtain ⟨flow, hreaches, hturn⟩ := hreturns
    obtain ⟨rfl, hnone⟩ := interveneTurn_halted.mp hturn
    exact ⟨hreaches, hnone⟩
  · intro hchain
    obtain ⟨hreaches, hnone⟩ := hchain
    exact ⟨last, hreaches, interveneTurn_halted.mpr ⟨rfl, hnone⟩⟩

/-- A loop that returns has read the source of every node it passed, if it
returns from a node. -/
theorem matched_of_returns {start last flow : String}
    (hreturns : Loop.Returns (policy.interveneTurn env context) start
      (.halted last))
    (hreaches : Relation.ReflTransGen (policy.JumpsTo env context) start flow) :
    ∃ target, policy.MatchedFlow env context flow target := by
  rw [← goesOn_eq_jumpsTo] at hreaches
  have hrest := hreturns.along hreaches
  obtain ⟨hpath, hnone⟩ := returns_halted_iff.mp hrest
  cases hpath.cases_head with
  | inl hhere =>
      subst hhere
      obtain ⟨target, hmatched, -⟩ := interveneTarget_eq_none.mp hnone
      exact ⟨target, hmatched⟩
  | inr hnext =>
      obtain ⟨target, hjump, -⟩ := hnext
      exact ⟨target, hjump.1⟩

theorem interventionsEnd_iff_returns {start : String} :
    policy.InterventionsEnd env context start ↔
      ∃ last, Loop.Returns (policy.interveneTurn env context) start
        (.halted last) := by
  constructor
  · intro hends
    obtain ⟨last, -, hreturns, -⟩ := hends
    exact ⟨last, hreturns⟩
  · intro hends
    obtain ⟨last, hreturns⟩ := hends
    obtain ⟨target, hmatched, hstays⟩ :=
      interveneTarget_eq_none.mp (returns_halted_iff.mp hreturns).2
    exact ⟨last, target, hreturns, hmatched, hstays⟩

theorem exists_halted_iff (start : String) :
    (∃ last, Loop.Returns (policy.interveneTurn env context) start
      (.halted last)) ↔ policy.ChainEnds env context start := by
  have htargets : ∀ flow target,
      Loop.GoesOn (policy.interveneTurn env context) flow target →
        (policy.flowMap.lookup target).isSome := by
    intro flow target hgoes
    rw [goesOn_eq_jumpsTo] at hgoes
    exact hgoes.2.2
  have hreturns := Loop.exists_returns_iff finite_targets htargets start
  rw [Loop.Reaches, goesOn_eq_jumpsTo] at hreturns
  constructor
  · rintro ⟨last, hlast⟩ flow hflow
    exact ⟨hreturns.mp ⟨_, hlast⟩ flow hflow, matched_of_returns hlast hflow⟩
  · intro hchain
    obtain ⟨result, last, hlast, hturn⟩ :=
      hreturns.mpr fun flow hflow => (hchain flow hflow).1
    rw [Loop.Reaches, goesOn_eq_jumpsTo] at hlast
    obtain ⟨target, hmatched⟩ := (hchain last hlast).2
    have hfound := interveneTarget_eq_ok.mpr ⟨target, hmatched, rfl⟩
    refine ⟨last, returns_halted_iff.mpr ⟨hlast, ?_⟩⟩
    split at hfound
    · exact hfound
    · -- a turn that goes on does not return
      rw [interveneTurn, hfound] at hturn
      cases hturn

end DefaultPolicy

/-- The interventions come to an end exactly when no node is jumped to again and
no source fails on the way. -/
theorem interventionsEnd_iff_chainEnds (env : FlowEnvironment)
    (policy : DefaultPolicy) (context : Context) (start : String) :
    policy.InterventionsEnd env context start ↔
      policy.ChainEnds env context start := by
  rw [DefaultPolicy.interventionsEnd_iff_returns]
  exact DefaultPolicy.exists_halted_iff start

/-- A node whose rules match every source and lead to `target`. -/
def interveningNode (name target : String) : FlowConfig where
  name := name
  recallConfig :=
    { flowName := name
      recallServices := [(name, 0)]
      interveneConfig := some
        { source := .string "query"
          matchList := [".*"]
          searchList := []
          patternServiceMap := []
          patternFlowMap := [(".*", target)] } }

def matchingEnv : FlowEnvironment :=
  { weatherEnv with library := { Library.bare with regexMatch := fun _ _ => true } }

theorem selfIntervention_never_ends :
    ¬ ∀ env nodes policy context start,
      DefaultPolicy.init nodes = some policy → start ∈ policy.flowMap.names →
        policy.InterventionsEnd env context start := by
  intro hall
  have hend := hall matchingEnv [interveningNode "start" "start"]
    { flowMap := [("start", interveningNode "start" "start")]
      startFlow := "start" } ⟨[], []⟩ "start" rfl (by decide)
  obtain ⟨last, hlast⟩ := DefaultPolicy.interventionsEnd_iff_returns.mp hend
  have hchain := (DefaultPolicy.exists_halted_iff _).mp ⟨last, hlast⟩
  refine (hchain "start" .refl).1 (.single ?_)
  exact DefaultPolicy.interveneTarget_eq_some.mp rfl

section Closure

variable {env : FlowEnvironment} {policy : DefaultPolicy} {context : Context}

/-- The closure asks the same node again and again. -/
theorem DefaultPolicy.closureTurn_of_jump {flow target : String}
    {config : FlowConfig} (hconfig : policy.flowMap.lookup flow = some config)
    (hjump : policy.JumpsTo env context flow target) (nextFlow : String) :
    policy.closureTurn env context config nextFlow = .inl target := by
  obtain ⟨⟨other, hother, htarget⟩, hne, hsome⟩ := hjump
  obtain rfl := Option.some.inj (hother.symm.trans hconfig)
  have hpresent : ¬ (policy.flowMap.lookup target).isNone := by
    rw [Option.isNone_iff_eq_none]
    exact Option.ne_none_iff_isSome.mpr hsome
  simp only [closureTurn, htarget]
  exact if_neg (not_or.mpr ⟨hne, hpresent⟩)

theorem DefaultPolicy.closure_never_halts {flow target : String}
    {config : FlowConfig} (hconfig : policy.flowMap.lookup flow = some config)
    (hjump : policy.JumpsTo env context flow target) (nextFlow : String)
    (result : InterveneEnd) :
    ¬ Loop.Returns (policy.closureTurn env context config) nextFlow result := by
  refine Loop.not_returns (fun _ => True) ?_ trivial result
  intro other _
  exact ⟨target, closureTurn_of_jump hconfig hjump other, trivial⟩

theorem DefaultPolicy.closureTurn_of_stays {flow : String}
    (hstays : policy.interveneTarget env flow context = .ok none) :
    ∃ config, policy.flowMap.lookup flow = some config ∧
      policy.closureTurn env context config flow = .inr (.halted flow) := by
  obtain ⟨target, ⟨config, hconfig, htarget⟩, hnone⟩ :=
    interveneTarget_eq_none.mp hstays
  rw [← Option.isNone_iff_eq_none] at hnone
  refine ⟨config, hconfig, ?_⟩
  simp only [closureTurn, htarget]
  exact if_pos hnone

end Closure

/-- The closure follows the interventions of the policy exactly when there is no
jump to follow, or no end to the jumps. -/
theorem closureFollows_iff (env : FlowEnvironment) (policy : DefaultPolicy)
    (context : Context) (flow : String) :
    policy.ClosureFollows env context flow ↔
      ((∃ target, policy.JumpsTo env context flow target) →
        ¬ policy.ChainEnds env context flow) := by
  rw [← DefaultPolicy.exists_halted_iff]
  constructor
  · rintro hfollows ⟨target, hjump⟩ ⟨last, hreturns⟩
    obtain ⟨config, -, hconfig, -, ⟨nextFlow, hclosure⟩, -⟩ :=
      hfollows last hreturns
    exact DefaultPolicy.closure_never_halts hconfig hjump flow _ hclosure
  · intro hnever last hreturns
    obtain ⟨hpath, hstays⟩ := DefaultPolicy.returns_halted_iff.mp hreturns
    cases hpath.cases_head with
    | inl hhere =>
        subst hhere
        obtain ⟨config, hconfig, hturn⟩ :=
          DefaultPolicy.closureTurn_of_stays hstays
        exact ⟨config, config, hconfig, hconfig,
          ⟨flow, flow, .refl, hturn⟩, rfl, rfl⟩
    | inr hnext =>
        obtain ⟨target, hjump, -⟩ := hnext
        exact absurd ⟨last, hreturns⟩ (hnever ⟨target, hjump⟩)

def newsNode : FlowConfig where
  name := "news"
  recallConfig := { flowName := "news", recallServices := [("news", 0)] }

theorem oneJump_closure_stuck :
    ¬ ∀ env nodes policy context flow,
      DefaultPolicy.init nodes = some policy → flow ∈ policy.flowMap.names →
        policy.ClosureFollows env context flow := by
  intro hall
  have hfollows := hall matchingEnv [interveningNode "start" "news", newsNode]
    { flowMap := [("start", interveningNode "start" "news"), ("news", newsNode)]
      startFlow := "start" } ⟨[], []⟩ "start" rfl (by decide)
  have hjump : Loop.GoesOn
      (DefaultPolicy.interveneTurn matchingEnv
        { flowMap :=
            [("start", interveningNode "start" "news"), ("news", newsNode)]
          startFlow := "start" } ⟨[], []⟩) "start" "news" := rfl
  obtain ⟨config, -, hconfig, -, ⟨nextFlow, hclosure⟩, -⟩ :=
    hfollows "news" ⟨"news", .single hjump, rfl⟩
  rw [DefaultPolicy.goesOn_eq_jumpsTo] at hjump
  exact DefaultPolicy.closure_never_halts hconfig hjump "start" _ hclosure

end Uskit
