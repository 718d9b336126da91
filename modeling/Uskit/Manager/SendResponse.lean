import Uskit.Json.RoundTrip
import Uskit.Manager.Dispatch

namespace Uskit

open Uskit.Data

/-! `send_response`, and the whole of `UnifiedSchedulerManager::run`. -/

/-- The enumeration `ErrorCode` with the members that reject no request. -/
inductive ResponseCode where
  | ok
  | rejected (code : ErrorCode)
  | internalServerError
deriving DecidableEq

namespace ResponseCode

def value : ResponseCode → Int
  | .ok => 0
  | .rejected .invalidJson => 4001
  | .rejected .missingParam => 4002
  | .rejected .usidNotFound => 4003
  | .internalServerError => 5000

def message : ResponseCode → String
  | .ok => "OK"
  | .rejected code => code.message
  | .internalServerError => "Internal server error"

def httpStatusCode (code : ResponseCode) : Int :=
  if code.value ≠ 0 then code.value / 1000 * 100 else 200

end ResponseCode

structure HttpResponse where
  contentType : String := "application/json;charset=UTF-8"
  statusCode : Int
  attachment : String
deriving DecidableEq

/-- `isspace` of the C locale. -/
def isSpace (c : Char) : Bool :=
  c ∈ [' ', '\t', '\n', '\x0b', '\x0c', '\r']

def signedDigits (text : List Char) : Int :=
  let number (digits : List Char) : Int :=
    Json.Reader.decimal (digits.takeWhile Json.Reader.isDigit) 0
  match text with
  | '-' :: digits => -number digits
  | '+' :: digits => number digits
  | digits => number digits

/-- `atoi`, which is undefined outside of `int`. -/
def atoi (text : String) : Option Int :=
  let value := signedDigits (text.toList.dropWhile isSpace)
  if fitsInt value then some value else none

/-- The name of a member that is not sent. -/
def isTemporary (name : String) : Bool :=
  "__TMP__".toList.isPrefixOf (cStr name).toList

def keptMembers (members : JsonMembers) : JsonMembers :=
  members.filter fun member => !isTemporary member.1

def errorCodeField (response : JsonMembers) (code : ResponseCode) : Option Int :=
  match response.lookup "error_code" with
  | some (.string text) => atoi (cStr text)
  | some (.number (.int value)) => some (if fitsInt value then value else code.value)
  | _ => some code.value

def errorMsgField (response : JsonMembers) (code : ResponseCode) (errorMsg : String) :
    String :=
  match response.lookup "error_msg" with
  | some (.string text) => cStr text
  | _ => if errorMsg = "" then code.message else errorMsg

def finalResponse (errorCode : Int) (errorMsg : String) (result : Option Json) : Json :=
  .object ([("error_code", .number (.int errorCode)), ("error_msg", .string errorMsg)] ++
    result.toList.map fun value => ("result", value))

/-- The document that is encoded. -/
def responseBody (editableResponse : Bool) (code : ResponseCode) (errorMsg : String) :
    Option Json → Option Json
  | none => some (finalResponse code.value (errorMsgField [] code errorMsg) none)
  | some (.object members) =>
      let response := keptMembers members
      if editableResponse && code.value == 0 then some (.object response)
      else do
        let errorCode ← errorCodeField response code
        some (finalResponse errorCode (errorMsgField response code errorMsg)
          (some (.object response)))
  | some _ => none

/-- `send_response`.  The members of a response that is not an object are undefined. -/
def sendResponse (library : Library) (editableResponse : Bool) (response : Option Json)
    (code : ResponseCode) (errorMsg : String := "") : Option HttpResponse :=
  (responseBody editableResponse code errorMsg response).map fun body =>
    { statusCode := code.httpStatusCode
      attachment := library.jsonEncode body }

/-- The manager with the rest of its configuration. -/
structure Server (υ : Type u) extends UnifiedSchedulerManager υ where
  editableResponse : Bool

namespace Server

variable {υ : Type u} (library : Library) (server : Server υ)

/-- What `run` returns, and what it has sent. -/
abbrev Answer := Option (Int × HttpResponse)

def reject (code : ResponseCode) (errorMsg : String := "") : Answer :=
  (sendResponse library server.editableResponse none code errorMsg).map ((-1), ·)

/-- After `UnifiedScheduler::run`, by the code that it returned. -/
def respond : Option (Int × Json) → Answer
  | some (code, response) =>
      if code ≠ 0 then reject library server .internalServerError
      else (sendResponse library server.editableResponse (some response) .ok).map (0, ·)
  | none => none

/-- `UnifiedSchedulerManager::run`, with the manager that it leaves.  What a scheduler
makes of a request is up to `runUs`, and the making of one to `initUs`. -/
def run (initUs : Json → Option υ) (runUs : υ → Json → Option (Int × Json))
    (incoming : IncomingRequest) : Answer × Server υ :=
  match server.parseRequest library incoming with
  | .rejected code message => (reject library server (.rejected code) message, server)
  | .undefined => (none, server)
  | .ok request =>
      match UnifiedSchedulerManager.usidOf request with
      | none => (none, server)
      | some usid =>
          let (dispatch, manager) := server.dispatch usid request
          let after := { server with toUnifiedSchedulerManager := manager }
          match dispatch with
          | .registered usid =>
              ((server.usMap.lookup usid).bind fun us =>
                respond library server (runUs us request), after)
          | .stateless config =>
              match initUs config with
              | some us => (respond library server (runUs us request), after)
              | none => (reject library server (.rejected .usidNotFound), after)
          | .rejected code message =>
              (reject library server (.rejected code) message, after)
          | .undefined => (none, after)

end Server

/-! What a client reads. -/

section Read

variable {library : Library} {reread : Double → Double} {editableResponse : Bool}
  {code : ResponseCode} {errorMsg : String}

theorem fits_of_fitsInt {value : Int} (hfits : fitsInt value = true) : Json.fits value := by
  rw [fitsInt_iff] at hfits
  constructor <;> omega

theorem fitsInt_value (code : ResponseCode) : fitsInt code.value = true := by
  cases code with
  | ok => rfl
  | rejected code => cases code <;> rfl
  | internalServerError => rfl

theorem fitsInt_errorCode {response : JsonMembers} {errorCode : Int}
    (hfield : errorCodeField response code = some errorCode) : fitsInt errorCode = true := by
  unfold errorCodeField at hfield
  split at hfield
  · unfold atoi at hfield
    simp only at hfield
    split at hfield
    · cases hfield
      assumption
    · cases hfield
  · cases hfield
    split
    · assumption
    · exact fitsInt_value code
  · cases hfield
    exact fitsInt_value code

theorem numbers_finalResponse (errorCode : Int) (errorMsg : String) (result : Option Json) :
    (finalResponse errorCode errorMsg result).numbers =
      .int errorCode :: result.toList.flatMap Json.numbers := by
  cases result with
  | none => rfl
  | some value => simp [finalResponse, Json.numbers, Json.numbersMembers]

theorem shown_finalResponse (errorCode : Int) (errorMsg : String) (result : Option Json) :
    (finalResponse errorCode errorMsg result).shown reread =
      finalResponse errorCode errorMsg (result.map (Json.shown reread)) := by
  cases result with
  | none => rfl
  | some value => rfl

/-- The body is read as the document, unless a number of it cannot be written. -/
theorem read_sendResponse (reread : Double → Double) {response : Option Json}
    {http : HttpResponse}
    (hsend : sendResponse library editableResponse response code errorMsg = some http) :
    ∃ body, responseBody editableResponse code errorMsg response = some body ∧
      http.statusCode = code.httpStatusCode ∧
      (body.Legible library.dtoa reread →
        parseJson http.attachment =
          if body.finite then some (body.shown reread) else none) := by
  obtain ⟨body, hbody, rfl⟩ := Option.map_eq_some_iff.mp hsend
  exact ⟨body, hbody, rfl, fun hlegible => Json.parse_encode hlegible⟩

theorem legible_finalResponse {errorCode : Int} (hfits : fitsInt errorCode = true)
    {result : Option Json}
    (hresult : ∀ value ∈ result, Json.Legible library.dtoa reread value) :
    (finalResponse errorCode errorMsg result).Legible library.dtoa reread := by
  intro number hmem
  rw [numbers_finalResponse, List.mem_cons, List.mem_flatMap] at hmem
  rcases hmem with rfl | ⟨value, hvalue, hmem⟩
  · exact fits_of_fitsInt hfits
  · exact hresult value (Option.mem_toList.mp hvalue) number hmem

theorem finite_finalResponse (errorCode : Int) (errorMsg : String) (result : Option Json) :
    (finalResponse errorCode errorMsg result).finite = result.all Json.finite := by
  rw [Json.finite, numbers_finalResponse]
  cases result with
  | none => rfl
  | some value =>
      rw [List.all_cons, Option.toList_some, List.flatMap_singleton]
      rfl

end Read

namespace Server

section Run

variable {υ : Type u} {library : Library} {server : Server υ} {initUs : Json → Option υ}
  {runUs : υ → Json → Option (Int × Json)} {incoming : IncomingRequest} {returned : Int}
  {http : HttpResponse}

/-- What is sent without a response of a scheduler. -/
structure Refuses (http : HttpResponse) (code : ResponseCode) : Prop where
  refused : code ≠ .ok
  statusCode : http.statusCode = code.httpStatusCode
  attachment : ∃ message, parseJson http.attachment =
    some (finalResponse code.value message none)

/-- The scheduler that a request is handed to, and the request as it is after the check
of its parameters. -/
def Chooses (library : Library) (server : Server υ) (initUs : Json → Option υ)
    (incoming : IncomingRequest) (us : υ) (request : Json) : Prop :=
  server.parseRequest library incoming = .ok request ∧
    ∃ usid, UnifiedSchedulerManager.usidOf request = some usid ∧
      (server.usMap.lookup usid = some us ∨
        ∃ config, (server.dispatch usid request).1 = .stateless config ∧
          initUs config = some us)

theorem reject_spec (server : Server υ) {code : ResponseCode} (hcode : code ≠ .ok) {errorMsg : String}
    (hreject : reject library server code errorMsg = some (returned, http)) :
    returned = -1 ∧ Refuses http code := by
  obtain ⟨sent, hsend, hpair⟩ := Option.map_eq_some_iff.mp hreject
  cases hpair
  obtain ⟨body, hbody, hstatus, hread⟩ := read_sendResponse id hsend
  cases hbody
  refine ⟨rfl, hcode, hstatus, errorMsgField [] code errorMsg, ?_⟩
  rw [hread (legible_finalResponse (fitsInt_value code) nofun), finite_finalResponse,
    shown_finalResponse]
  rfl

theorem respond_cases {outcome : Option (Int × Json)}
    (hrespond : respond library server outcome = some (returned, http)) :
    (returned = -1 ∧ ∃ code, Refuses http code) ∨
      ∃ response, outcome = some (0, response) ∧ returned = 0 ∧
        sendResponse library server.editableResponse (some response) .ok = some http := by
  unfold respond at hrespond
  split at hrespond
  · rename_i code response
    split at hrespond
    · obtain ⟨hreturned, hrefuses⟩ := reject_spec server (by decide) hrespond
      exact .inl ⟨hreturned, _, hrefuses⟩
    · rename_i hcode
      obtain ⟨sent, hsend, hpair⟩ := Option.map_eq_some_iff.mp hrespond
      cases hpair
      exact .inr ⟨response, by rw [not_not.mp hcode], rfl, hsend⟩
  · cases hrespond

theorem dispatch_registered {manager : UnifiedSchedulerManager υ} {usid name : String}
    {request : Json} (hdispatch : (manager.dispatch usid request).1 = .registered name) :
    name = usid := by
  unfold UnifiedSchedulerManager.dispatch at hdispatch
  split at hdispatch
  · cases hdispatch
    rfl
  · split at hdispatch
    · cases hdispatch
    · simp only at hdispatch
      split at hdispatch <;> cases hdispatch

/-- A request is refused, or a scheduler has run on it. -/
theorem run_cases
    (hrun : (server.run library initUs runUs incoming).1 = some (returned, http)) :
    (returned = -1 ∧ ∃ code, Refuses http code) ∨
      ∃ us request response, Chooses library server initUs incoming us request ∧
        runUs us request = some (0, response) ∧ returned = 0 ∧
        sendResponse library server.editableResponse (some response) .ok = some http := by
  unfold run at hrun
  split at hrun
  · obtain ⟨hreturned, hrefuses⟩ := reject_spec server (by simp) hrun
    exact .inl ⟨hreturned, _, hrefuses⟩
  · cases hrun
  · rename_i request hrequest
    split at hrun
    · cases hrun
    · rename_i usid husid
      generalize hdispatch : server.dispatch usid request = dispatched at hrun
      obtain ⟨dispatch, manager⟩ := dispatched
      cases dispatch with
      | registered name =>
          have hname : name = usid := dispatch_registered (by rw [hdispatch])
          obtain ⟨us, hus, hrespond⟩ := Option.bind_eq_some_iff.mp hrun
          refine (respond_cases hrespond).imp_right ?_
          rintro ⟨response, hresponse⟩
          exact ⟨us, request, response, ⟨hrequest, usid, husid, .inl (hname ▸ hus)⟩, hresponse⟩
      | stateless config =>
          simp only at hrun
          split at hrun
          · rename_i us hus
            refine (respond_cases hrun).imp_right ?_
            rintro ⟨response, hresponse⟩
            exact ⟨us, request, response,
              ⟨hrequest, usid, husid, .inr ⟨config, by rw [hdispatch], hus⟩⟩, hresponse⟩
          · obtain ⟨hreturned, hrefuses⟩ := reject_spec server (by simp) hrun
            exact .inl ⟨hreturned, _, hrefuses⟩
      | rejected code message =>
          obtain ⟨hreturned, hrefuses⟩ := reject_spec server (by simp) hrun
          exact .inl ⟨hreturned, _, hrefuses⟩
      | undefined => cases hrun

theorem httpStatusCode_eq_iff {code : ResponseCode} : code.httpStatusCode = 200 ↔ code = .ok := by
  cases code with
  | ok => simp [ResponseCode.httpStatusCode, ResponseCode.value]
  | rejected code => cases code <;> simp [ResponseCode.httpStatusCode, ResponseCode.value]
  | internalServerError => simp [ResponseCode.httpStatusCode, ResponseCode.value]

/-- A client tells from the status whether its request was served, and reads in the body
of every other answer the code that the status stands for. -/
theorem run_answered
    (hrun : (server.run library initUs runUs incoming).1 = some (returned, http)) :
    (http.statusCode = 200 ↔ returned = 0) ∧
      (returned ≠ 0 → ∃ (code : ResponseCode) (message : String),
        http.statusCode = code.value / 1000 * 100 ∧
          parseJson http.attachment = some (.object
            [("error_code", .number (.int code.value)), ("error_msg", .string message)])) := by
  rcases run_cases hrun with ⟨rfl, code, hrefuses⟩ | ⟨us, request, response, -, -, rfl, hsend⟩
  · obtain ⟨hcode, hstatus, message, hread⟩ := hrefuses
    have hne : code.value ≠ 0 := by
      cases code with
      | ok => exact absurd rfl hcode
      | rejected code => cases code <;> decide
      | internalServerError => decide
    refine ⟨?_, fun _ => ⟨code, message, ?_, hread⟩⟩
    · rw [hstatus, httpStatusCode_eq_iff]
      exact iff_of_false hcode (by decide)
    · rw [hstatus, ResponseCode.httpStatusCode, if_pos hne]
  · obtain ⟨body, -, hstatus, -⟩ := read_sendResponse id hsend
    exact ⟨iff_of_true hstatus rfl, fun hne => absurd rfl hne⟩

def emptyServer : Server Unit where
  usMap := []
  requiredParams := []
  paramsDefault := []
  paramsPath := []
  paramsExpr := []
  inputConfigPath := ""
  editableResponse := false

def invalidJsonResponse : HttpResponse where
  statusCode := 400
  attachment := "\x7b\"error_code\":4001,\"error_msg\":\"Invalid JSON\"\x7d"

theorem run_answered_invalidJson :
    ∃ (code : ResponseCode) (message : String), 400 = code.value / 1000 * 100 ∧
      parseJson invalidJsonResponse.attachment = some (.object
        [("error_code", .number (.int code.value)), ("error_msg", .string message)]) := by
  have hrun : (emptyServer.run { Library.bare with parseJson := parseJson } (fun _ => none)
      (fun _ _ => none) { body := "[1,", ipAddr := "127.0.0.1" }).1 =
        some (-1, invalidJsonResponse) := by
    decide +kernel
  exact (run_answered hrun).2 (by decide)

end Run

end Server

end Uskit
