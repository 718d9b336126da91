import Uskit.Flow.ResultKept
import Uskit.Manager.SendResponse

namespace Uskit

open Uskit.Data

/-! From the outputs of the flow nodes to what the client of a request reads. -/

/-- A scheduler, as far as its flow policy goes. -/
structure UnifiedScheduler (κ : Type v) (ρ : Type u) where
  env : FlowEnvironment
  kernel : Kernel κ ρ
  policy : DefaultPolicy

namespace UnifiedScheduler

variable {κ : Type v} {ρ : Type u}

/-- `UnifiedScheduler::run` on an empty response, if the labels are those of a whole run
of its policy. -/
def run (labels : List (FlowLabel κ)) (us : UnifiedScheduler κ ρ) (request : Json) :
    Option (Int × Json) :=
  match Machine.run (us.policy.step us.env us.kernel)
      (us.policy.start request (.object [])) labels with
  | some final =>
      match final.phase with
      | .returned code => some (if code ≠ 0 then -1 else 0, final.response)
      | _ => none
  | none => none

/-- The outputs of the nodes of the run. -/
def outputs (labels : List (FlowLabel κ)) (us : UnifiedScheduler κ ρ) (request : Json) :
    List JsonMembers :=
  us.policy.outputs us.env us.kernel (us.policy.start request (.object [])) labels

theorem run_response {labels : List (FlowLabel κ)} {us : UnifiedScheduler κ ρ} {request : Json}
    (hkernel : us.kernel.KeepsResult) {response : Json}
    (hrun : us.run labels request = some (0, response)) :
    response = .object (mergeAll (us.outputs labels request) []) := by
  unfold run at hrun
  split at hrun
  · rename_i final hfinal
    split at hrun
    · rename_i code hphase
      rw [Option.some.injEq, Prod.mk.injEq] at hrun
      obtain ⟨hcode, rfl⟩ := hrun
      have haccumulates := DefaultPolicy.run_accumulates hkernel
        (us.policy.start_accumulates request (.object [])) hfinal
      apply haccumulates.succeeded
      rw [hphase]
      split at hcode
      · cases hcode
      · rename_i hzero
        rw [not_not.mp hzero]
    · cases hrun
  · cases hrun

end UnifiedScheduler

namespace Json

variable {reread : Double → Double}

/-- A shape with each double as it is read back. -/
def shownShape (reread : Double → Double) : Shape → Shape
  | .object => .object
  | .leaf value => .leaf (value.shown reread)

theorem shape_shown (value : Json) :
    (value.shown reread).shape = shownShape reread value.shape := by
  cases value with
  | number value =>
      cases value with
      | int value => rfl
      | double value =>
          rw [shown, shownNumber]
          cases hspecial : value.isNanOrInf <;>
            simp [shape, shownShape, shown, shownNumber, hspecial]
  | null | bool | string | array | object => rfl

theorem shownMembers_eq (members : JsonMembers) :
    shownMembers reread members = members.map fun member => (member.1, member.2.shown reread) := by
  induction members with
  | nil => rfl
  | cons member rest ih => rw [shownMembers, ih, List.map_cons]

theorem shapeAt_shown (value : Json) (path : List String) :
    (value.shown reread).shapeAt path = (value.shapeAt path).map (shownShape reread) := by
  induction path generalizing value with
  | nil => exact congrArg some (shape_shown value)
  | cons name path ih =>
      cases value with
      | object members =>
          rw [shown, shapeAt, shapeAt, shownMembers_eq, Members.lookup_map]
          cases members.lookup name with
          | none => rfl
          | some member => exact ih member
      | number value =>
          cases value with
          | int value => rfl
          | double value =>
              rw [shown, shownNumber]
              split <;> rfl
      | null | bool | string | array => rfl

end Json

theorem shapeAt_keptMembers (members : JsonMembers) (name : String) (path : List String) :
    (Json.object (keptMembers members)).shapeAt (name :: path) =
      if isTemporary name then none else (Json.object members).shapeAt (name :: path) := by
  rw [Json.shapeAt, Json.shapeAt, keptMembers,
    Members.lookup_filter fun name => !isTemporary name]
  cases isTemporary name <;> rfl

section Answered

variable {κ : Type v} {ρ : Type u} {library : Library} {reread : Double → Double}
  {server : Server (UnifiedScheduler κ ρ)} {initUs : Json → Option (UnifiedScheduler κ ρ)}
  {incoming : IncomingRequest} {labels : List (FlowLabel κ)} {http : HttpResponse}

/-- The result that a served request is answered with: the outputs of the nodes, merged one
after another, without the members that are not sent. -/
def sentResult (labels : List (FlowLabel κ)) (us : UnifiedScheduler κ ρ) (request : Json) :
    Json :=
  .object (keptMembers (mergeAll (us.outputs labels request) []))

/-- Of the outputs, what the result of a body has. -/
structure Delivers (reread : Double → Double) (outputs : List JsonMembers) (result : Json) :
    Prop where
  isObject : result.isObject = true
  temporary : ∀ name path, isTemporary name = true → result.shapeAt (name :: path) = none
  leaves : (∀ output ∈ outputs, (Json.object output).Distinct) →
    ∀ earlier output later, outputs = earlier ++ output :: later →
      ∀ name path leaf, isTemporary name = false →
        (Json.object output).shapeAt (name :: path) = some (.leaf leaf) →
          (∀ other ∈ later, (Json.object other).LeavesAlone (name :: path)) →
            result.shapeAt (name :: path) = some (.leaf (leaf.shown reread))

theorem delivers_sentResult (us : UnifiedScheduler κ ρ) (request : Json) :
    Delivers reread (us.outputs labels request)
      ((sentResult labels us request).shown reread) where
  isObject := rfl
  temporary := by
    intro name path hname
    rw [Json.shapeAt_shown, sentResult, shapeAt_keptMembers, hname]
    rfl
  leaves := by
    intro hdistinct earlier output later hsplit name path leaf hname hleaf halone
    have hkept := leavesKept_mergeAll _ hdistinct earlier output later hsplit (name :: path)
      leaf hleaf halone
    rw [Json.shapeAt_shown, sentResult, shapeAt_keptMembers, hname,
      if_neg Bool.false_ne_true, hkept]
    rfl

/-- The client of a served request reads the outputs of all nodes that ran for it, for
every run of the policy. -/
theorem outputs_answered
    (hkernel : ∀ (us : UnifiedScheduler κ ρ) request,
      server.Chooses library initUs incoming us request → us.kernel.KeepsResult)
    (hplain : server.editableResponse = false)
    (hrun : (server.run library initUs (UnifiedScheduler.run labels) incoming).1 =
      some (0, http)) :
    ∃ us request, server.Chooses library initUs incoming us request ∧
      ((sentResult labels us request).Legible library.dtoa reread →
        (sentResult labels us request).finite = true →
          ∃ body result, parseJson http.attachment = some (.object body) ∧
            body.lookup "result" = some result ∧
            Delivers reread (us.outputs labels request) result) := by
  rcases Server.run_cases hrun with ⟨hreturned, -⟩ | ⟨us, request, response, hchooses, hus, -, hsend⟩
  · cases hreturned
  refine ⟨us, request, hchooses, fun hlegible hfinite => ?_⟩
  have hresponse := UnifiedScheduler.run_response (hkernel us request hchooses) hus
  obtain ⟨body, hbody, -, hread⟩ := read_sendResponse reread hsend
  rw [hresponse, responseBody, hplain, Bool.false_and, if_neg Bool.false_ne_true] at hbody
  obtain ⟨errorCode, hfield, hbody⟩ := Option.bind_eq_some_iff.mp hbody
  cases hbody
  have hsent : ∀ value ∈ some (sentResult labels us request),
      Json.Legible library.dtoa reread value := by
    rintro value ⟨⟩
    exact hlegible
  have hwhole := hread (legible_finalResponse (fitsInt_errorCode hfield) hsent)
  rw [finite_finalResponse, shown_finalResponse] at hwhole
  refine ⟨_, _, hwhole.trans (if_pos hfinite), rfl, delivers_sentResult us request⟩

end Answered

/-! Two nodes, of which the second one outputs a member that is not sent. -/

def notedScheduler : UnifiedScheduler RpcReplies Collected where
  env := weatherEnv
  kernel := FlowConfig.kernelProcess weatherEnv
  policy :=
    { flowMap :=
        [("start", outputNode "start" "first" (some "end")),
          ("end", outputNode "end" "__TMP__note" none)]
      startFlow := "start" }

def notedServer : Server (UnifiedScheduler RpcReplies Collected) where
  usMap := [("noted", notedScheduler)]
  requiredParams := []
  paramsDefault := []
  paramsPath := []
  paramsExpr := []
  inputConfigPath := ""
  editableResponse := false

def readingLibrary : Library :=
  { Library.bare with parseJson := parseJson }

def notedRequest : IncomingRequest where
  body := "\x7b\"usid\": \"noted\"\x7d"
  ipAddr := "127.0.0.1"

def notedLabels : List (FlowLabel RpcReplies) :=
  [.enter, .process BackendEngine.sunny, .enter, .process BackendEngine.sunny]

def notedResponse : HttpResponse where
  statusCode := 200
  attachment :=
    "\x7b\"error_code\":0,\"error_msg\":\"OK\",\"result\":\x7b\"first\":\"start\"\x7d\x7d"

def notedFields : JsonMembers :=
  [("usid", .string "noted"), ("__HEADER__", .object [("__IP__", .string "127.0.0.1")])]

theorem chooses_noted {us : UnifiedScheduler RpcReplies Collected} {request : Json}
    (hchooses : notedServer.Chooses readingLibrary (fun _ => none) notedRequest us request) :
    us = notedScheduler ∧ request = .object notedFields := by
  obtain ⟨hrequest, usid, husid, hus⟩ := hchooses
  have hparsed : notedServer.parseRequest readingLibrary notedRequest =
      .ok (.object notedFields) := by
    decide +kernel
  rw [hparsed] at hrequest
  cases hrequest
  cases husid
  rcases hus with hus | ⟨config, -, hinit⟩
  · cases hus
    exact ⟨rfl, rfl⟩
  · cases hinit

theorem outputs_answered_noted :
    ∃ body result, parseJson notedResponse.attachment = some (.object body) ∧
      body.lookup "result" = some result ∧
      Delivers id [[("first", .string "start")], [("__TMP__note", .string "end")]] result := by
  obtain ⟨us, request, hchooses, hread⟩ := outputs_answered
    (fun us request hchooses => by
      rw [(chooses_noted hchooses).1]
      exact kernelProcess_keepsResult weatherEnv)
    (show notedServer.editableResponse = false from rfl)
    (show (notedServer.run readingLibrary (fun _ => none)
      (UnifiedScheduler.run notedLabels) notedRequest).1 = some (0, notedResponse) by
        decide +kernel)
  obtain ⟨rfl, rfl⟩ := chooses_noted hchooses
  have houtputs : notedScheduler.outputs notedLabels (.object notedFields) =
      [[("first", .string "start")], [("__TMP__note", .string "end")]] := by
    decide +kernel
  rw [← houtputs]
  apply hread
  · rw [sentResult, houtputs]
    exact nofun
  · rw [sentResult, houtputs]
    rfl

end Uskit
