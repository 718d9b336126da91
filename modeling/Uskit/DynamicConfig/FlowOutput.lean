import Uskit.DynamicConfig.Flow

namespace Uskit

/-! Which if block of a flow node gives its output.  The abstract choice tries
the blocks in order and takes the first one that is successful. -/

/-- How the evaluation of one block ends, with the context of the block. -/
inductive IfVerdict where
  | successful (left : Context)
  | unsuccessful (left : Context)
  | undefined
deriving DecidableEq

namespace BaseIfConfig

/-- A block is successful when its conditions are all true and its definitions
and its output evaluate. -/
def verdict (library : Library) (block : BaseIfConfig) (context : Context) :
    IfVerdict :=
  match block.condition.logicalAnd library context.enter with
  | .ok true =>
      match block.runBody library
          (context.enter.setVariable "cond" (.bool true)) with
      | .ok left => .successful left
      | .failed left => .unsuccessful left
      | .undefined => .undefined
  | .ok false =>
      .unsuccessful (context.enter.setVariable "cond" (.bool false))
  | .failed => .unsuccessful context.enter
  | .undefined => .undefined

end BaseIfConfig

namespace FlowIfConfig

/-- The context of a block once the block has set its `next`. -/
def withNext (block : FlowIfConfig) (left : Context) : Context :=
  match block.next with
  | some next => left.setVariable "next" (.string next)
  | none => left

end FlowIfConfig

/-- The abstract choice: blocks that are not successful are passed over, and
the context is what it was before them. -/
def firstSuccessful (library : Library) :
    List FlowIfConfig → Context → IfChoice
  | [], context => .default context
  | block :: rest, context =>
      match block.verdict library context with
      | .successful left => .chosen 0 (block.withNext left)
      | .unsuccessful _ => (firstSuccessful library rest context).shift 1
      | .undefined => .undefined

/-- The output comes from the first successful block alone, or from the default
when there is none, and a backend response would choose the same block. -/
structure OutputOfFirstSuccessful (library : Library) (config : FlowConfig)
    (context : Context) : Prop where
  output : config.runOutput library context =
    config.conclude library (firstSuccessful library config.ifBlocks context)
  choice : config.chooseIfBlock library context =
    firstSuccessful library config.ifBlocks context
  response :
    (chooseIf (config.ifBlocks.map fun block =>
      block.toBaseIfConfig.run library) context).index? =
        (config.chooseIfBlock library context).index?

/-- No block misleads the loop, up to the first successful one: after a block
that is not successful some `cond` other than true is in sight, and the first
successful one has left `cond` true. -/
def CondTellsSuccess (library : Library) : List FlowIfConfig → Context → Prop
  | [], _ => True
  | block :: rest, context =>
      match block.verdict library context with
      | .successful left => left.getVariable "cond" = some (.bool true)
      | .unsuccessful left =>
          (∃ value, left.getVariable "cond" = some value ∧
            value ≠ .bool true) ∧
          CondTellsSuccess library rest context
      | .undefined => True

namespace IfChoice

theorem shift_injective {skipped : Nat} {first second : IfChoice} :
    first.shift skipped = second.shift skipped ↔ first = second := by
  constructor
  · intro heq
    cases first with
    | chosen index ifContext =>
        cases second with
        | chosen other otherContext =>
            simp only [shift, chosen.injEq] at heq
            rw [heq.2, Nat.add_right_cancel heq.1]
        | default | condMissing | undefined => cases heq
    | default context =>
        cases second with
        | default other => exact heq
        | chosen | condMissing | undefined => cases heq
    | condMissing context =>
        cases second with
        | condMissing other => exact heq
        | chosen | default | undefined => cases heq
    | undefined =>
        cases second with
        | undefined => rfl
        | chosen | default | condMissing => cases heq
  · intro heq
    rw [heq]

theorem shift_ne_chosen_zero (choice : IfChoice) (ifContext : Context) :
    choice.shift 1 ≠ .chosen 0 ifContext := by
  cases choice with
  | chosen index other => simp [shift]
  | default | condMissing | undefined => simp [shift]

theorem index?_shift (choice : IfChoice) (skipped : Nat) :
    (choice.shift skipped).index? = choice.index?.map (· + skipped) := by
  cases choice with
  | chosen | default | condMissing | undefined => rfl

end IfChoice

theorem firstSuccessful_ne_condMissing (library : Library)
    (blocks : List FlowIfConfig) (context : Context) (seen : Context) :
    firstSuccessful library blocks context ≠ .condMissing seen := by
  induction blocks with
  | nil => simp [firstSuccessful]
  | cons block rest ih =>
      rw [firstSuccessful]
      cases block.verdict library context with
      | successful left => simp
      | undefined => simp
      | unsuccessful left =>
          intro heq
          apply ih
          exact IfChoice.shift_injective.mp heq

/-! What a verdict says about the runs of a block. -/

section Verdict

variable {library : Library} {context left : Context}

@[simp] theorem cStr_cond : cStr "cond" = "cond" := by decide

theorem FlowIfConfig.parents_withNext (block : FlowIfConfig) (left : Context) :
    (block.withNext left).parents = left.parents := by
  unfold withNext
  cases block.next with
  | none => rfl
  | some next => rfl

theorem FlowIfConfig.getVariable_cond_withNext (block : FlowIfConfig)
    (left : Context) :
    (block.withNext left).getVariable "cond" = left.getVariable "cond" := by
  unfold withNext
  cases block.next with
  | none => rfl
  | some next =>
      apply Context.getVariable_congr
      exact Context.allNamed_setVariable_of_ne (by decide) _ left

theorem runDocument_failed {keMap : KEMap} {store : Json → Context → Context}
    (hrun : runDocument library keMap store context = .failed left) :
    left = context := by
  unfold runDocument at hrun
  cases hdoc : keMap.run library context with
  | ok doc => rw [hdoc, Outcome.evaluate_ok] at hrun; cases hrun
  | failed => rw [hdoc, Outcome.evaluate_failed] at hrun; cases hrun; rfl
  | undefined => rw [hdoc, Outcome.evaluate_undefined] at hrun; cases hrun

theorem BaseIfConfig.parents_of_runBody_failed {block : BaseIfConfig}
    (hrun : block.runBody library context = .failed left) :
    left.parents = context.parents := by
  unfold runBody at hrun
  have hkeeps := block.definition.runDef_parents library context
  cases hdef : block.definition.runDef library context with
  | ok defined =>
      rw [hdef, Outcome.ok_andThen] at hrun
      rw [hdef] at hkeeps
      rw [runDocument_failed hrun]
      exact hkeeps.of_ok
  | failed defined =>
      rw [hdef, Outcome.failed_andThen] at hrun
      rw [hdef] at hkeeps
      cases hrun
      cases hkeeps with
      | failed same => exact same
  | undefined => rw [hdef, Outcome.undefined_andThen] at hrun; cases hrun

theorem BaseIfConfig.getVariable_cond_setVariable (value : Json) (context : Context) :
    (context.enter.setVariable "cond" value).getVariable "cond" = some value := by
  rw [Context.getVariable_eq, cStr_cond]
  simp [Context.setVariable]

/-- What the run of a block comes to, by its verdict. -/
theorem BaseIfConfig.verdict_spec (library : Library) (block : BaseIfConfig)
    (context : Context) :
    match block.verdict library context with
    | .successful left => block.run library context.enter = .ok left
    | .unsuccessful left => left.parents = context.scopes ∧
        (block.run library context.enter = .failed left ∨
          block.run library context.enter = .ok left ∧
            left.getVariable "cond" = some (.bool false))
    | .undefined => block.run library context.enter = .undefined := by
  unfold verdict run
  cases block.condition.logicalAnd library context.enter with
  | ok value =>
      rw [Outcome.evaluate_ok]
      cases value with
      | true =>
          dsimp only
          rw [if_pos rfl]
          cases hbody : block.runBody library
              (context.enter.setVariable "cond" (.bool true)) with
          | ok left => rfl
          | failed left => exact ⟨parents_of_runBody_failed hbody, .inl rfl⟩
          | undefined => rfl
      | false =>
          exact ⟨rfl, .inr ⟨rfl, getVariable_cond_setVariable (.bool false) context⟩⟩
  | failed => exact ⟨rfl, .inl rfl⟩
  | undefined => rfl

theorem BaseIfConfig.parents_of_unsuccessful {block : BaseIfConfig}
    (hverdict : block.verdict library context = .unsuccessful left) :
    left.parents = context.scopes := by
  have hspec := block.verdict_spec library context
  rw [hverdict] at hspec
  exact hspec.1

theorem BaseIfConfig.run_of_successful {block : BaseIfConfig}
    (hverdict : block.verdict library context = .successful left) :
    block.run library context.enter = .ok left := by
  have hspec := block.verdict_spec library context
  rw [hverdict] at hspec
  exact hspec

theorem BaseIfConfig.run_of_unsuccessful {block : BaseIfConfig}
    (hverdict : block.verdict library context = .unsuccessful left) :
    block.run library context.enter = .failed left ∨
      block.run library context.enter = .ok left ∧
        left.getVariable "cond" = some (.bool false) := by
  have hspec := block.verdict_spec library context
  rw [hverdict] at hspec
  exact hspec.2

theorem BaseIfConfig.run_of_undefined {block : BaseIfConfig}
    (hverdict : block.verdict library context = .undefined) :
    block.run library context.enter = .undefined := by
  have hspec := block.verdict_spec library context
  rw [hverdict] at hspec
  exact hspec

theorem FlowIfConfig.runNext (block : FlowIfConfig) (left : Context) :
    runSetting library "next" (block.next.map .string) left =
      .ok (block.withNext left) := by
  unfold withNext
  cases block.next with
  | none => rfl
  | some next => rfl

/-- A flow block goes on where its base class failed. -/
theorem FlowIfConfig.run_of_unsuccessful {block : FlowIfConfig}
    (hverdict : block.verdict library context = .unsuccessful left) :
    block.run library context.enter = .ok (block.withNext left) := by
  unfold FlowIfConfig.run
  cases BaseIfConfig.run_of_unsuccessful hverdict with
  | inl hrun => rw [hrun]; exact block.runNext left
  | inr hrun => rw [hrun.1]; exact block.runNext left

theorem FlowIfConfig.run_of_successful {block : FlowIfConfig}
    (hverdict : block.verdict library context = .successful left) :
    block.run library context.enter = .ok (block.withNext left) := by
  unfold FlowIfConfig.run
  rw [BaseIfConfig.run_of_successful hverdict]
  exact block.runNext left

theorem FlowIfConfig.run_of_undefined {block : FlowIfConfig}
    (hverdict : block.verdict library context = .undefined) :
    block.run library context.enter = .undefined := by
  unfold FlowIfConfig.run
  rw [BaseIfConfig.run_of_undefined hverdict]
  rfl

theorem leave_of_parents (hparents : left.parents = context.scopes) :
    left.leave = context := by
  unfold Context.leave
  rw [hparents]
  rfl

theorem FlowIfConfig.leave_of_unsuccessful {block : FlowIfConfig}
    (hverdict : block.verdict library context = .unsuccessful left) :
    (block.withNext left).leave = context := by
  apply leave_of_parents
  rw [block.parents_withNext, BaseIfConfig.parents_of_unsuccessful hverdict]

end Verdict

/-! The loop makes the abstract choice exactly when `cond` tells it success. -/

theorem chooseIf_eq_firstSuccessful_iff (library : Library)
    (blocks : List FlowIfConfig) (context : Context) :
    chooseIf (blocks.map (·.run library)) context =
        firstSuccessful library blocks context ↔
      CondTellsSuccess library blocks context := by
  induction blocks with
  | nil => exact ⟨fun _ => trivial, fun _ => rfl⟩
  | cons block rest ih =>
      rw [List.map_cons, chooseIf, firstSuccessful, CondTellsSuccess]
      cases hverdict : block.verdict library context with
      | undefined =>
          rw [FlowIfConfig.run_of_undefined hverdict]
          exact ⟨fun _ => trivial, fun _ => rfl⟩
      | successful left =>
          rw [FlowIfConfig.run_of_successful hverdict]
          simp only [FlowIfConfig.getVariable_cond_withNext]
          split
          · rename_i hcond
            simp [hcond]
          · rename_i hcond
            simp [hcond]
          · rename_i value hvalue hcond
            constructor
            · intro heq
              exact absurd heq (IfChoice.shift_ne_chosen_zero _ _)
            · intro htrue
              rw [hcond, Option.some.injEq] at htrue
              exact absurd htrue hvalue
      | unsuccessful left =>
          rw [FlowIfConfig.run_of_unsuccessful hverdict]
          simp only [FlowIfConfig.getVariable_cond_withNext,
            FlowIfConfig.leave_of_unsuccessful hverdict]
          split
          · rename_i hcond
            constructor
            · intro heq
              exact absurd (IfChoice.shift_injective.mp heq.symm)
                (firstSuccessful_ne_condMissing library rest context context)
            · intro htells
              obtain ⟨⟨value, hvalue, -⟩, -⟩ := htells
              rw [hcond] at hvalue
              cases hvalue
          · rename_i hcond
            constructor
            · intro heq
              exact absurd heq.symm (IfChoice.shift_ne_chosen_zero _ _)
            · intro htells
              obtain ⟨⟨value, hvalue, hfalse⟩, -⟩ := htells
              rw [hcond, Option.some.injEq] at hvalue
              exact absurd hvalue.symm hfalse
          · rename_i value hvalue hcond
            rw [IfChoice.shift_injective, ih]
            constructor
            · intro hrest
              exact ⟨⟨value, hcond, hvalue⟩, hrest⟩
            · intro htells
              exact htells.2

theorem index?_chooseIf_response (library : Library)
    (blocks : List FlowIfConfig) (context : Context)
    (htells : CondTellsSuccess library blocks context) :
    (chooseIf (blocks.map fun block => block.toBaseIfConfig.run library)
        context).index? =
      (firstSuccessful library blocks context).index? := by
  induction blocks with
  | nil => rfl
  | cons block rest ih =>
      rw [CondTellsSuccess] at htells
      rw [List.map_cons, chooseIf, firstSuccessful]
      cases hverdict : block.verdict library context with
      | undefined => rw [BaseIfConfig.run_of_undefined hverdict]
      | successful left =>
          rw [hverdict] at htells
          rw [BaseIfConfig.run_of_successful hverdict]
          simp only [htells]
          rfl
      | unsuccessful left =>
          rw [hverdict] at htells
          obtain ⟨⟨value, hcond, hvalue⟩, hrest⟩ := htells
          have hleave :=
            leave_of_parents (BaseIfConfig.parents_of_unsuccessful hverdict)
          cases BaseIfConfig.run_of_unsuccessful hverdict with
          | inl hrun =>
              rw [hrun]
              simp only [hleave, IfChoice.index?_shift, ih hrest]
          | inr hrun =>
              rw [hrun.1]
              simp only [hcond, hleave, IfChoice.index?_shift, ih hrest]

/-- `FlowConfig::output` gives the output of the first successful block in the
contexts in which `cond` tells success, and in no others. -/
theorem outputOfFirstSuccessful_iff_condTellsSuccess (library : Library)
    (config : FlowConfig) (context : Context) :
    OutputOfFirstSuccessful library config context ↔
      CondTellsSuccess library config.ifBlocks context := by
  constructor
  · intro houtput
    exact (chooseIf_eq_firstSuccessful_iff library _ context).mp houtput.choice
  · intro htells
    have hchoice : config.chooseIfBlock library context =
        firstSuccessful library config.ifBlocks context :=
      (chooseIf_eq_firstSuccessful_iff library _ context).mpr htells
    exact {
      output := by rw [FlowConfig.runOutput, hchoice]
      choice := hchoice
      response := by
        rw [hchoice, index?_chooseIf_response library _ context htells] }

/-- A condition over an unset variable, and a default output. -/
def unsetCondition : FlowConfig where
  name := "start"
  recallConfig := { flowName := "start" }
  ifBlocks := [{ condition := [.variable "flag"], next := some "flagged" }]
  output := [("answer", .string "default")]

/-- The failed condition fails the whole output instead of being skipped. -/
theorem unsetCondition_not_skipped :
    ¬ ∀ library config context,
      OutputOfFirstSuccessful library config context := by
  intro hall
  have houtput := (hall .bare unsetCondition ⟨[], []⟩).output
  have hfailed : unsetCondition.runOutput .bare ⟨[], []⟩ =
      .failed ⟨[], []⟩ := by decide
  have hdefault : unsetCondition.conclude .bare
      (firstSuccessful .bare unsetCondition.ifBlocks ⟨[], []⟩) =
        .ok ⟨[("output", .object [("answer", .string "default")])], []⟩ := by
    decide
  rw [hfailed, hdefault] at houtput
  cases houtput

end Uskit
