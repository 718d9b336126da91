import Mathlib.Data.List.Basic

namespace Uskit

/-! `CallIdsVecThreadSafe`: the call ids of a flow, by service index.  Each
operation holds the mutex of the table, so that it is one step. -/

/-- A valid call id; `INVALID_BTHREAD_ID` is the absence of one. -/
abbrev CallId := Nat

structure CallIdsVec where
  callIds : List (Option CallId)
  multiCallIds : List (List CallId)
  isReady : Bool
deriving DecidableEq, Repr

/-- The return codes 0, -1 and 1 of `set_call_id`. -/
inductive SetAnswer where
  | accepted
  | rejected
  | quitting
deriving DecidableEq, Repr

namespace CallIdsVec

def init (length : Nat) : CallIdsVec where
  callIds := List.replicate length none
  multiCallIds := List.replicate length []
  isReady := false

def setCallId (index : Nat) (serviceCallId : CallId) (table : CallIdsVec) :
    SetAnswer × CallIdsVec :=
  match table.callIds[index]? with
  | none => (.rejected, table)
  | some (some _) => (.rejected, table)
  | some none =>
      if table.isReady then (.quitting, table)
      else
        (.accepted,
          { table with callIds := table.callIds.set index (some serviceCallId) })

def setCallIds (index : Nat) (callIdsVec : List CallId) (table : CallIdsVec) :
    SetAnswer × CallIdsVec :=
  match table.multiCallIds[index]? with
  | none => (.rejected, table)
  | some (_ :: _) => (.rejected, table)
  | some [] =>
      if table.isReady then (.quitting, table)
      else
        (.accepted,
          { table with multiCallIds := table.multiCallIds.set index callIdsVec })

def setReadyToQuite (table : CallIdsVec) : CallIdsVec :=
  { table with isReady := true }

/-- The ids that `quit_flow` passes to `StartCancel`. -/
def storedIds (table : CallIdsVec) : List CallId :=
  table.callIds.filterMap id ++ table.multiCallIds.flatten

def quitFlow (table : CallIdsVec) : List CallId × CallIdsVec :=
  (table.storedIds, { table with isReady := true })

theorem setCallId_cases (index : Nat) (callId : CallId) (table : CallIdsVec) :
    (table.setCallId index callId).2 = table ∧
        (table.setCallId index callId).1 ≠ .accepted ∨
      table.setCallId index callId =
          (.accepted,
            { table with callIds := table.callIds.set index (some callId) }) ∧
        table.callIds[index]? = some none ∧ table.isReady = false := by
  unfold setCallId
  split
  · exact .inl ⟨rfl, by simp⟩
  · exact .inl ⟨rfl, by simp⟩
  · rename_i hfree
    cases hready : table.isReady with
    | true => exact .inl ⟨rfl, by simp⟩
    | false => exact .inr ⟨rfl, hfree, rfl⟩

theorem setCallIds_cases (index : Nat) (callIds : List CallId)
    (table : CallIdsVec) :
    (table.setCallIds index callIds).2 = table ∧
        (table.setCallIds index callIds).1 ≠ .accepted ∨
      table.setCallIds index callIds =
          (.accepted,
            { table with
              multiCallIds := table.multiCallIds.set index callIds }) ∧
        table.multiCallIds[index]? = some [] ∧ table.isReady = false := by
  unfold setCallIds
  split
  · exact .inl ⟨rfl, by simp⟩
  · exact .inl ⟨rfl, by simp⟩
  · rename_i hfree
    cases hready : table.isReady with
    | true => exact .inl ⟨rfl, by simp⟩
    | false => exact .inr ⟨rfl, hfree, rfl⟩

theorem mem_storedIds {table : CallIdsVec} {index : Nat} {callId : CallId}
    (hstored : table.callIds[index]? = some (some callId)) :
    callId ∈ table.storedIds := by
  apply List.mem_append_left
  rw [List.mem_filterMap]
  exact ⟨some callId, List.mem_of_getElem? hstored, rfl⟩

end CallIdsVec

end Uskit
