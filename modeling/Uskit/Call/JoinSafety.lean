import Uskit.Call.Recall

namespace Uskit

open Uskit.Data

/-! Returning from a recall: whether every call it launched has been joined
when its controllers are destroyed. -/

namespace RecallLoop

/-- The joins over `calls` will reach the call. -/
def Joins (loop : RecallLoop) (calls : List (CallId × String))
    (callId : CallId) : Prop :=
  ∃ name, (callId, name) ∈ calls ∧ name ∈ loop.buildRequestResult

section Register

variable {loop : RecallLoop} {entry : RecallEntry} {waiting : List RecallEntry}
  (table : Option CallIdsVec)

end Register

section Build

variable {loop : RecallLoop} {entry : RecallEntry} {waiting : List RecallEntry}

end Build

end RecallLoop

namespace RecallState

end RecallState

end Uskit
