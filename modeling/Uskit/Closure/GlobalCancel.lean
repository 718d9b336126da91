import Uskit.Call.CallIds
import Uskit.DynamicConfig.Flow
import Uskit.DynamicConfig.LogicalAnd

namespace Uskit

/-! `GlobalClosure::GlobalCancel`: the decision to stop a flow, taken over the
results that the services have given so far. -/

structure CancelEffect where
  code : Int
  quitFlow : Bool
  table : Option CallIdsVec
  cancelled : List CallId
deriving DecidableEq, Repr

/-- Each context of the array lends its `backend`; null ones are left out. -/
def mergeBackends : List Context → (dummyContext : Context) → Result Context
  | [], dummyContext => .ok dummyContext
  | context :: rest, dummyContext =>
      match context.getVariable "backend" with
      | none => .undefined
      | some .null => mergeBackends rest dummyContext
      | some backend =>
          mergeBackends rest (dummyContext.mergeVariable "backend" backend)

/-- The context in which the quit conditions are evaluated. -/
def dummyContext (cntlContext : Context) (flowContextArray : List Context) :
    Result Context :=
  match cntlContext.getVariable "request" with
  | none => .undefined
  | some request =>
      mergeBackends flowContextArray
        ⟨[("request", request), ("backend", .object [])], []⟩

def globalCancel (library : Library) (flow : Option FlowConfig)
    (callIds : Option CallIdsVec) (cntlContext : Context)
    (flowContextArray : List Context) : Result CancelEffect :=
  match callIds with
  | none => .ok ⟨-1, false, none, []⟩
  | some table => do
      let dummy ← dummyContext cntlContext flowContextArray
      match flow with
      | none => .undefined
      | some flow => do
          let quit ← flow.quitConfig.run library dummy
          if quit.1 then
            .ok ⟨0, true, some table.quitFlow.2, table.quitFlow.1⟩
          else .ok ⟨0, false, some table, []⟩

namespace KEVec

/-- The evaluation fails, or gives something else than true. -/
def BlocksQuit (library : Library) (context : Context) (ke : Expr) : Prop :=
  ke.run library context = .failed ∨
    ∃ value, ke.run library context = .ok value ∧ value ≠ .bool true

end KEVec

/-- The quit happens only over conditions that are all true; a condition that
is false or does not evaluate to a boolean leaves every call and the table. -/
structure QuitsOnlyOnTrue (library : Library) (flow : FlowConfig)
    (table : CallIdsVec) (cntlContext : Context)
    (flowContextArray : List Context) : Prop where
  quit : ∀ dummy effect,
    dummyContext cntlContext flowContextArray = .ok dummy →
    globalCancel library (some flow) (some table) cntlContext
      flowContextArray = .ok effect →
    effect.quitFlow = true →
    ∀ ke ∈ flow.quitConfig.condition, KEVec.EvaluatesToTrue library dummy ke
  blocked : ∀ dummy effect,
    dummyContext cntlContext flowContextArray = .ok dummy →
    globalCancel library (some flow) (some table) cntlContext
      flowContextArray = .ok effect →
    (∃ ke ∈ flow.quitConfig.condition, KEVec.BlocksQuit library dummy ke) →
    effect.cancelled = [] ∧ effect.table = some table

section Decision

variable (library : Library) (flow : FlowConfig) (table : CallIdsVec)
  {cntlContext dummy : Context} {flowContextArray : List Context}

theorem globalCancel_eq
    (hdummy : dummyContext cntlContext flowContextArray = .ok dummy) :
    globalCancel library (some flow) (some table) cntlContext flowContextArray =
      match flow.quitConfig.condition.logicalAnd library dummy with
      | .ok true | .failed =>
          .ok ⟨0, true, some table.quitFlow.2, table.quitFlow.1⟩
      | .ok false => .ok ⟨0, false, some table, []⟩
      | .undefined => .undefined := by
  simp only [globalCancel, hdummy, Result.ok_bind, FlowGlobalCancelConfig.run]
  cases flow.quitConfig.condition.logicalAnd library dummy with
  | ok condValue =>
      cases condValue with
      | false => rfl
      | true => rfl
  | failed => rfl
  | undefined => rfl

end Decision

/-- A global cancel keeps to its conditions exactly where the first of them
that is not true is false: an error passes for true. -/
theorem quitsOnlyOnTrue_iff (library : Library) (flow : FlowConfig)
    (table : CallIdsVec) (cntlContext : Context)
    (flowContextArray : List Context) :
    QuitsOnlyOnTrue library flow table cntlContext flowContextArray ↔
      ∀ dummy, dummyContext cntlContext flowContextArray = .ok dummy →
        flow.quitConfig.condition.StopsAtFalse library dummy := by
  constructor
  · intro hquits dummy hdummy before ke after hsplit hbefore herrs
    have hfailed := KEVec.logicalAnd_eq_failed.mpr
      ⟨before, ke, after, hsplit, hbefore, herrs⟩
    have heffect := globalCancel_eq library flow table hdummy
    rw [hfailed] at heffect
    have htrue := hquits.quit dummy _ hdummy heffect rfl ke
      (by rw [hsplit]; exact List.mem_append_right _ List.mem_cons_self)
    rw [KEVec.EvaluatesToTrue] at htrue
    cases herrs with
    | inl hrun => rw [htrue] at hrun; cases hrun
    | inr hrun =>
        obtain ⟨value, hvalue, hnot⟩ := hrun
        rw [htrue, Result.ok.injEq] at hvalue
        exact hnot true hvalue.symm
  · intro hstops
    constructor
    · intro dummy effect hdummy heffect hquit
      have hnot := KEVec.stopsAtFalse_iff.mp (hstops dummy hdummy)
      rw [globalCancel_eq library flow table hdummy] at heffect
      split at heffect
      · rename_i htrue
        exact KEVec.logicalAnd_eq_ok_true.mp htrue
      · rename_i hfailed
        exact absurd hfailed hnot
      · cases heffect
        cases hquit
      · cases heffect
    · intro dummy effect hdummy heffect hblocked
      obtain ⟨ke, hmem, hblocks⟩ := hblocked
      have hnot := KEVec.stopsAtFalse_iff.mp (hstops dummy hdummy)
      rw [globalCancel_eq library flow table hdummy] at heffect
      split at heffect
      · rename_i htrue
        have hke := KEVec.logicalAnd_eq_ok_true.mp htrue ke hmem
        rw [KEVec.EvaluatesToTrue] at hke
        cases hblocks with
        | inl hfailed => rw [hke] at hfailed; cases hfailed
        | inr hvalue =>
            obtain ⟨value, hvalue, hne⟩ := hvalue
            rw [hke, Result.ok.injEq] at hvalue
            exact absurd hvalue.symm hne
      · rename_i hfailed
        exact absurd hfailed hnot
      · cases heffect
        exact ⟨rfl, rfl⟩
      · cases heffect

/-- A condition on a variable that no service has set yet. -/
def earlyQuit : FlowConfig where
  name := "start"
  recallConfig := { flowName := "start" }
  quitConfig := { condition := [.variable "answer"] }

/-- The error of the condition cancels the call of the other service. -/
theorem earlyQuit_cancels :
    ¬ ∀ library flow table cntlContext flowContextArray,
      QuitsOnlyOnTrue library flow table cntlContext flowContextArray := by
  intro hall
  have hquits := hall .bare earlyQuit ⟨[some 11], [[]], false⟩
    ⟨[("request", .object [])], []⟩ [⟨[("backend", .object [])], []⟩]
  have hblocked := hquits.blocked
    ⟨[("request", .object []), ("backend", .object [])], []⟩
    ⟨0, true, some ⟨[some 11], [[]], true⟩, [11]⟩ (by decide) (by decide)
    ⟨.variable "answer", by simp [earlyQuit], .inl (by decide)⟩
  cases hblocked.1

end Uskit
