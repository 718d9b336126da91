import Uskit.DynamicConfig.If
import Uskit.DynamicConfig.Rank

namespace Uskit

open Uskit.Data

/-! The configuration of a flow node. -/

/-- Regular expressions that redirect a node, by the text of their pattern. -/
structure FlowInterveneConfig where
  source : Expr
  matchList : List String
  searchList : List String
  patternServiceMap : Members String String
  patternFlowMap : Members String String

namespace FlowInterveneConfig

def requireString : Json → Result String
  | .string text => .ok (cStr text)
  | _ => .failed

def evaluateSource (library : Library) (config : FlowInterveneConfig)
    (context : Context) : Result String := do
  let value ← config.source.run library context
  requireString value

/-- The target of the first pattern that has one and fits. -/
def findTarget (targets : Members String String) (suffix : String)
    (fits : String → Bool) : List String → Option String
  | [] => none
  | pattern :: rest =>
      match targets.lookup (pattern ++ suffix) with
      | some target =>
          if fits pattern then some target
          else findTarget targets suffix fits rest
      | none => findTarget targets suffix fits rest

/-- The shared body of `evaluate_target_service` and `evaluate_target_flow`:
patterns for the whole source first, then patterns searched in it. -/
def evaluateTarget (library : Library) (config : FlowInterveneConfig)
    (targets : Members String String) (source : String) : Option String :=
  (findTarget targets "" (library.regexMatch · source) config.matchList).or
    (findTarget targets "__SEARCH" (library.regexSearch · source)
      config.searchList)

def evaluateTargetService (library : Library) (config : FlowInterveneConfig)
    (source : String) : Option String :=
  config.evaluateTarget library config.patternServiceMap source

def evaluateTargetFlow (library : Library) (config : FlowInterveneConfig)
    (source : String) : Option String :=
  config.evaluateTarget library config.patternFlowMap source

end FlowInterveneConfig

structure FlowRecallConfig where
  cancelOrder : String := ""
  recallServices : List (String × Int) := []
  recallNext : Members String String := []
  flowName : String
  interveneConfig : Option FlowInterveneConfig := none

namespace FlowRecallConfig

/-- The service that replaces the configured ones; empty when there is none. -/
def getInterveneService (library : Library) (config : FlowRecallConfig)
    (context : Context) : Result String :=
  match config.interveneConfig with
  | none => .ok ""
  | some intervene => do
      let source ← intervene.evaluateSource library context
      .ok ((intervene.evaluateTargetService library source).getD "")

def getInterveneFlow (library : Library) (config : FlowRecallConfig)
    (context : Context) : Result String :=
  match config.interveneConfig with
  | none => .ok ""
  | some intervene => do
      let source ← intervene.evaluateSource library context
      .ok ((intervene.evaluateTargetFlow library source).getD "")

def recallServiceList (config : FlowRecallConfig) : List String :=
  config.recallServices.map Prod.fst

end FlowRecallConfig

structure FlowIfConfig extends BaseIfConfig where
  next : Option String := none

namespace FlowIfConfig

/-- The return code of the base class is not looked at. -/
def run (library : Library) (config : FlowIfConfig) (context : Context) :
    Outcome Context :=
  (config.toBaseIfConfig.run library context).ignoreCode.andThen
    (runSetting library "next" (config.next.map .string))

end FlowIfConfig

structure FlowGlobalCancelConfig where
  condition : KEVec := []

namespace FlowGlobalCancelConfig

/-- The function returns `bool`: its `return -1` after a failure is true. -/
def run (library : Library) (config : FlowGlobalCancelConfig)
    (context : Context) : Result (Bool × Context) :=
  match config.condition.logicalAnd library context with
  | .ok condValue =>
      .ok (condValue, context.setVariable "cond" (.bool condValue))
  | .failed => .ok (true, context)
  | .undefined => .undefined

end FlowGlobalCancelConfig

structure FlowConfig where
  name : String
  definition : KEMap := []
  recallConfig : FlowRecallConfig
  ifBlocks : List FlowIfConfig := []
  quitConfig : FlowGlobalCancelConfig := {}
  rankBlocks : List FlowRankConfig := []
  output : KEMap := []
  next : Option String := none

/-- `context.set_variable("next", *if_next)`: the value is moved out of where it
was found. -/
def takeNext (ifContext context : Context) : Context :=
  match ifContext.ownVariables.lookup "next" with
  | some ifNext => context.setVariable "next" ifNext
  | none =>
      match context.getVariable "next" with
      | some ifNext =>
          (context.updateVariable "next" .null).setVariable "next" ifNext
      | none => context

namespace FlowConfig

def getRecallServiceList (config : FlowConfig) : List String :=
  config.recallConfig.recallServiceList

def getInterveneFlow (library : Library) (config : FlowConfig)
    (context : Context) : Result String :=
  config.recallConfig.getInterveneFlow library context

/-- Evaluates the definitions before the recall evaluates them again. -/
def recallRunDef (library : Library) (config : FlowConfig) (context : Context) :
    Outcome Context :=
  config.definition.runDef library context

def rank (library : Library) (engine : RankEngine) (config : FlowConfig)
    (context : Context) : Outcome Context :=
  FlowRankConfig.runAll library engine config.rankBlocks context

/-- What follows the loop over the if blocks in `FlowConfig::output`. -/
def conclude (library : Library) (config : FlowConfig) :
    IfChoice → Outcome Context
  | .chosen _ ifContext => .ok (takeNext ifContext (takeOutput ifContext))
  | .default context =>
      (runDocument library config.output (Context.mergeVariable "output")
        context).andThen
          (runSetting library "next" (config.next.map .string))
  | .condMissing context => .failed context
  | .undefined => .undefined

def chooseIfBlock (library : Library) (config : FlowConfig) (context : Context) :
    IfChoice :=
  chooseIf (config.ifBlocks.map (·.run library)) context

def runOutput (library : Library) (config : FlowConfig) (context : Context) :
    Outcome Context :=
  config.conclude library (config.chooseIfBlock library context)

end FlowConfig

/-! A node writes into outer scopes only what its outputs and `next` move. -/

section Frame

variable {name : String} (library : Library)

theorem FlowIfConfig.run_outerNamed (hname : "output" ≠ name)
    (config : FlowIfConfig) (context : Context) :
    (config.run library context).Keeps (Context.outerNamed name) context := by
  apply Outcome.Keeps.andThen
  · exact (BaseIfConfig.run_outerNamed library hname _ context).ignoreCode
  · exact BackendRequestConfig.runSetting_outerNamed library _ _

theorem FlowConfig.recallRunDef_outerNamed (name : String)
    (config : FlowConfig) (context : Context) :
    (config.recallRunDef library context).Keeps
      (Context.outerNamed name) context :=
  KEMap.runDef_outerNamed library name config.definition context

theorem takeNext_allNamed (hname : "next" ≠ name) (ifContext context : Context) :
    (takeNext ifContext context).allNamed name = context.allNamed name := by
  unfold takeNext
  split
  · exact Context.allNamed_setVariable_of_ne hname _ context
  · split
    · rw [Context.allNamed_setVariable_of_ne hname]
      exact Context.allNamed_updateVariable_of_ne
        (by rw [show cStr "next" = "next" by decide]; exact hname) _ context
    · rfl

theorem FlowConfig.runOutput_outerNamed (houtput : "output" ≠ name)
    (hnext : "next" ≠ name) (config : FlowConfig) (context : Context) :
    (config.runOutput library context).Keeps
      (Context.outerNamed name) context := by
  have hchoice : (config.chooseIfBlock library context).Keeps name context := by
    apply chooseIf_keeps
    intro runBlock hmem
    obtain ⟨block, -, rfl⟩ := List.mem_map.mp hmem
    exact FlowIfConfig.run_outerNamed library houtput block
  unfold FlowConfig.runOutput
  generalize config.chooseIfBlock library context = choice at hchoice
  cases hchoice with
  | chosen same =>
      apply Outcome.Leaves.ok
      apply Context.outerNamed_of_allNamed
      rw [takeNext_allNamed hnext, takeOutput_allNamed houtput same]
  | default same =>
      have hdocument := BackendRequestConfig.runDocument_outerNamed library
        (fun doc context => Context.outerNamed_of_allNamed
          (mergeOutput_allNamed houtput doc context))
        config.output
      have hbefore := Context.outerNamed_of_allNamed same
      apply Outcome.Keeps.andThen
      · exact (hdocument _).mono fun after hafter => hafter.trans hbefore
      · exact BackendRequestConfig.runSetting_outerNamed library _ _
  | condMissing same => exact .failed (Context.outerNamed_of_allNamed same)
  | undefined => exact .undefined

end Frame

end Uskit
