import Uskit.DynamicConfig.Request

namespace Uskit

/-! If blocks, and the response configurations that choose among them. -/

structure BaseIfConfig where
  definition : KEMap := []
  condition : KEVec := []
  output : KEMap := []

/-- What a loop over if blocks ends with: the block it chose and the context
that block left, or the context in which the default branch runs. -/
inductive IfChoice where
  | chosen (index : Nat) (ifContext : Context)
  | default (context : Context)
  /-- The return code -1: no variable `cond` is in sight. -/
  | condMissing (context : Context)
  | undefined
deriving DecidableEq

namespace BaseIfConfig

/-- What follows the conditions in `BaseIfConfig::run`. -/
def runBody (library : Library) (config : BaseIfConfig) (context : Context) :
    Outcome Context :=
  (config.definition.runDef library context).andThen
    (runDocument library config.output (Context.mergeVariable "output"))

def run (library : Library) (config : BaseIfConfig) (context : Context) :
    Outcome Context :=
  .evaluate context (config.condition.logicalAnd library context)
    fun condValue =>
      let context := context.setVariable "cond" (.bool condValue)
      if condValue then config.runBody library context else .ok context

end BaseIfConfig

namespace IfChoice

/-- The index of the choice among the blocks after `skipped` others. -/
def shift (skipped : Nat) : IfChoice → IfChoice
  | .chosen index ifContext => .chosen (index + skipped) ifContext
  | choice => choice

def index? : IfChoice → Option Nat
  | .chosen index _ => some index
  | _ => none

end IfChoice

/-- The loop over the if blocks: each runs in a context of its own, a failed
one is skipped, and `cond` as seen from there decides. -/
def chooseIf : List (Context → Outcome Context) → Context → IfChoice
  | [], context => .default context
  | runBlock :: rest, context =>
      match runBlock context.enter with
      | .undefined => .undefined
      | .failed ifContext => (chooseIf rest ifContext.leave).shift 1
      | .ok ifContext =>
          match ifContext.getVariable "cond" with
          | none => .condMissing ifContext.leave
          | some (.bool true) => .chosen 0 ifContext
          | some _ => (chooseIf rest ifContext.leave).shift 1

/-- `context.merge_variable("output", *if_output)`.  An output seen in an outer
scope is merged into itself. -/
def takeOutput (ifContext : Context) : Context :=
  match ifContext.ownVariables.lookup "output" with
  | some ifOutput => ifContext.leave.mergeVariable "output" ifOutput
  | none =>
      match ifContext.leave.getVariable "output" with
      | some (.object members) =>
          ifContext.leave.updateVariable "output" (.object (mergeSelf members))
      | _ => ifContext.leave

/-- A response configuration of a backend or of a service, without template. -/
structure ResponseConfig where
  definition : KEMap := []
  ifBlocks : List BaseIfConfig := []
  output : KEMap := []

namespace ResponseConfig

/-- `BackendResponseConfig::run` after the template. -/
def runOutput (library : Library) (config : ResponseConfig) (context : Context) :
    Outcome Context :=
  match chooseIf (config.ifBlocks.map (·.run library)) context with
  | .chosen _ ifContext => .ok (takeOutput ifContext)
  | .default context =>
      runDocument library config.output (Context.mergeVariable "output") context
  | .condMissing context => .failed context
  | .undefined => .undefined

def runTemplate (library : Library) :
    Option ResponseConfig → Context → Outcome Context
  | none, context => .ok context
  | some template, context =>
      (template.definition.runDef library context).andThen
        (template.runOutput library)

/-- `BackendResponseConfig::run`. -/
def run (library : Library) (template : Option ResponseConfig)
    (config : ResponseConfig) (context : Context) : Outcome Context :=
  (config.definition.runDef library context).andThen fun context =>
  (runTemplate library template context).andThen (config.runOutput library)

end ResponseConfig

/-! Outer scopes change in their `output` only. -/

section Frame

variable {name : String} (library : Library)

/-- What a loop over if blocks leaves of the scopes around it. -/
inductive IfChoice.Keeps (name : String) (before : Context) : IfChoice → Prop
  | chosen {index : Nat} {ifContext : Context}
      (same : ifContext.outerNamed name = before.allNamed name) :
      Keeps name before (.chosen index ifContext)
  | default {context : Context}
      (same : context.allNamed name = before.allNamed name) :
      Keeps name before (.default context)
  | condMissing {context : Context}
      (same : context.allNamed name = before.allNamed name) :
      Keeps name before (.condMissing context)
  | undefined : Keeps name before .undefined

theorem IfChoice.Keeps.shift {before middle : Context} {choice : IfChoice}
    (hkeeps : choice.Keeps name middle)
    (hsame : middle.allNamed name = before.allNamed name) (skipped : Nat) :
    (choice.shift skipped).Keeps name before := by
  cases hkeeps with
  | chosen same => exact .chosen (same.trans hsame)
  | default same => exact .default (same.trans hsame)
  | condMissing same => exact .condMissing (same.trans hsame)
  | undefined => exact .undefined

theorem chooseIf_keeps {runBlocks : List (Context → Outcome Context)}
    (hblocks : ∀ runBlock ∈ runBlocks, ∀ context,
      (runBlock context).Keeps (Context.outerNamed name) context)
    (context : Context) : (chooseIf runBlocks context).Keeps name context := by
  induction runBlocks generalizing context with
  | nil => exact .default rfl
  | cons runBlock rest ih =>
      have hrest := ih fun other hother =>
        hblocks other (List.mem_cons_of_mem runBlock hother)
      have hblock := hblocks runBlock List.mem_cons_self context.enter
      rw [chooseIf]
      cases hrun : runBlock context.enter with
      | undefined => exact .undefined
      | failed ifContext =>
          rw [hrun] at hblock
          cases hblock with
          | failed same =>
              exact (hrest _).shift (Context.allNamed_leave same) 1
      | ok ifContext =>
          rw [hrun] at hblock
          have same : ifContext.outerNamed name = context.allNamed name :=
            hblock.of_ok
          have hleave := Context.allNamed_leave same
          simp only
          split
          · exact .condMissing hleave
          · exact .chosen same
          · exact (hrest _).shift hleave 1

@[simp] theorem cStr_output : cStr "output" = "output" := by decide

theorem mergeOutput_allNamed (hname : "output" ≠ name) (doc : Json)
    (context : Context) :
    (context.mergeVariable "output" doc).allNamed name = context.allNamed name :=
  Context.allNamed_mergeVariable_of_ne (by simpa using hname) hname doc context

theorem BaseIfConfig.run_outerNamed (hname : "output" ≠ name)
    (config : BaseIfConfig) (context : Context) :
    (config.run library context).Keeps (Context.outerNamed name) context := by
  have hbody : ∀ context, (config.runBody library context).Keeps
      (Context.outerNamed name) context := by
    intro context
    apply (KEMap.runDef_outerNamed library name _ context).andThen
    intro context
    apply BackendRequestConfig.runDocument_outerNamed
    intro doc context
    apply Context.outerNamed_of_allNamed
    exact mergeOutput_allNamed hname doc context
  apply Outcome.Keeps.evaluate
  intro condValue
  cases condValue with
  | false => exact .ok (Context.outerNamed_setVariable name _ _ context)
  | true => exact hbody (context.setVariable "cond" (.bool true))

theorem takeOutput_allNamed (hname : "output" ≠ name)
    {ifContext before : Context}
    (same : ifContext.outerNamed name = before.allNamed name) :
    (takeOutput ifContext).allNamed name = before.allNamed name := by
  have hleave := Context.allNamed_leave same
  unfold takeOutput
  split
  · rw [mergeOutput_allNamed hname, hleave]
  · split
    · rw [Context.allNamed_updateVariable_of_ne (by simpa using hname), hleave]
    · exact hleave

theorem ResponseConfig.runOutput_outerNamed (hname : "output" ≠ name)
    (config : ResponseConfig) (context : Context) :
    (config.runOutput library context).Keeps
      (Context.outerNamed name) context := by
  have hchoice : (chooseIf (config.ifBlocks.map (·.run library)) context).Keeps
      name context := by
    apply chooseIf_keeps
    intro runBlock hmem
    obtain ⟨block, -, rfl⟩ := List.mem_map.mp hmem
    exact BaseIfConfig.run_outerNamed library hname block
  unfold ResponseConfig.runOutput
  generalize chooseIf (config.ifBlocks.map (·.run library)) context = choice
    at hchoice
  cases hchoice with
  | chosen same =>
      exact .ok (Context.outerNamed_of_allNamed (takeOutput_allNamed hname same))
  | default same =>
      have hdocument := BackendRequestConfig.runDocument_outerNamed library
        (fun doc context => Context.outerNamed_of_allNamed
          (mergeOutput_allNamed hname doc context))
        config.output
      exact (hdocument _).mono fun after hafter =>
        hafter.trans (Context.outerNamed_of_allNamed same)
  | condMissing same => exact .failed (Context.outerNamed_of_allNamed same)
  | undefined => exact .undefined

theorem ResponseConfig.run_outerNamed (hname : "output" ≠ name)
    (template : Option ResponseConfig) (config : ResponseConfig)
    (context : Context) :
    (config.run library template context).Keeps
      (Context.outerNamed name) context := by
  apply (KEMap.runDef_outerNamed library name _ context).andThen
  intro context
  have htemplate : (runTemplate library template context).Keeps
      (Context.outerNamed name) context := by
    cases template with
    | none => exact .refl _ context
    | some template =>
        apply (KEMap.runDef_outerNamed library name _ context).andThen
        exact runOutput_outerNamed library hname template
  exact htemplate.andThen (runOutput_outerNamed library hname config)

end Frame

end Uskit
