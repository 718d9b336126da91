import Uskit.Expression.Expression
import Uskit.Manager.ParseRequest
import Uskit.Utils

namespace Uskit

open Uskit.Data

/-! `UnifiedSchedulerManager`: which scheduler a request is handed to. -/

inductive ErrorCode where
  | invalidJson
  | missingParam
  | usidNotFound
deriving DecidableEq, Repr

/-- The table `ErrorMessage`. -/
def ErrorCode.message : ErrorCode → String
  | .invalidJson => "Invalid JSON"
  | .missingParam => "Missing parameter"
  | .usidNotFound => "usid not found"

inductive Checked (α : Type u) where
  | ok (value : α)
  | rejected (code : ErrorCode) (message : String)
  | undefined
deriving DecidableEq

namespace Checked

def bind (checked : Checked α) (next : α → Checked β) : Checked β :=
  match checked with
  | .ok value => next value
  | .rejected code message => .rejected code message
  | .undefined => .undefined

instance : Monad Checked where
  pure := .ok
  bind := bind

end Checked

structure IncomingRequest where
  body : String
  headers : TextPairs := []
  ipAddr : String
  query : TextPairs := []

structure RequiredParam where
  paramName : String
  paramPath : Option String := none
  defaultValue : Option String := none
  paramExpr : Option Expr := none

/-- What `init` reads of its configuration. -/
structure UnifiedSchedulerConfig where
  load : List String := []
  requiredParams : List RequiredParam := []
  inputConfigPath : Option String := none

structure UnifiedSchedulerManager (υ : Type u) where
  usMap : Members String υ
  requiredParams : List String
  paramsDefault : Members String String
  paramsPath : Members String String
  paramsExpr : Members String Expr
  inputConfigPath : String

inductive Dispatch where
  | registered (usid : String)
  /-- A scheduler made from a configuration inside the request. -/
  | stateless (config : Json)
  | rejected (code : ErrorCode) (message : String)
  | undefined
deriving DecidableEq

def Dispatch.usidNotFound : Dispatch :=
  .rejected .usidNotFound ErrorCode.usidNotFound.message

/-- The value a pointer leads to; an invalid pointer has no tokens. -/
def getByPath (path : String) (request : Json) : Option Json :=
  Pointer.get ((Pointer.parse (cStr path)).getD []) request

namespace UnifiedSchedulerManager

variable {υ : Type u}

def loadSchedulers (loadUs : String → Option υ) :
    List String → Members String υ → Option (Members String υ)
  | [], usMap => some usMap
  | usid :: rest, usMap =>
      (loadUs usid).bind fun us =>
        loadSchedulers loadUs rest (usMap.emplace usid us)

def storedPath : Option String → String
  | some path => if path.toList.head? = some '/' then path else "/" ++ path
  | none => ""

def addParam (manager : UnifiedSchedulerManager υ) (param : RequiredParam) :
    Option (UnifiedSchedulerManager υ) :=
  let listed :=
    { manager with
      requiredParams := manager.requiredParams ++ [param.paramName] }
  match param.defaultValue, param.paramPath, param.paramExpr with
  | some value, _, _ =>
      some
        { listed with
          paramsDefault := listed.paramsDefault.emplace param.paramName value }
  | none, some path, _ =>
      some
        { listed with
          paramsPath := listed.paramsPath.emplace param.paramName path }
  | none, none, some expr =>
      some
        { listed with
          paramsExpr := listed.paramsExpr.emplace param.paramName expr }
  | none, none, none => none

def init (loadUs : String → Option υ) (config : UnifiedSchedulerConfig) :
    Option (UnifiedSchedulerManager υ) := do
  let usMap ← loadSchedulers loadUs config.load []
  config.requiredParams.foldlM addParam
    { usMap := usMap
      requiredParams :=
        if config.requiredParams.isEmpty then ["logid", "uuid", "usid", "query"]
        else []
      paramsDefault := []
      paramsPath := []
      paramsExpr := []
      inputConfigPath := storedPath config.inputConfigPath }

variable (library : Library) (manager : UnifiedSchedulerManager υ)

def paramValue (context : Context) (request : Json) (param : String) :
    Checked String :=
  let invalid (detail : String) : Checked String :=
    .rejected .invalidJson (ErrorCode.invalidJson.message ++ ": " ++ detail)
  let missing (detail : String) : Checked String :=
    .rejected .missingParam (ErrorCode.missingParam.message ++ ": " ++ detail)
  match manager.paramsDefault.lookup (cStr param),
    manager.paramsPath.lookup (cStr param),
    manager.paramsExpr.lookup (cStr param), request with
  | some value, _, _, _ => .ok value
  | none, some path, _, _ =>
      match getByPath (normalizePath path) request with
      | none => missing (param ++ ", supposed to be at " ++ normalizePath path)
      | some (.string text) => .ok (cStr text)
      | some value => .ok (library.jsonEncode value)
  | none, none, some expr, _ =>
      match expr.run library context with
      | .ok (.string text) => .ok (cStr text)
      | .ok _ => invalid (param ++ "should be string")
      | .failed => invalid param
      | .undefined => .undefined
  | none, none, none, .object members =>
      match members.lookup (cStr param) with
      | none => missing param
      | some (.string text) => .ok (cStr text)
      | some _ => invalid param
  | none, none, none, _ => .undefined

/-- The value with the escape that the log wants of `logid`. -/
def loggedValue (param value : String) : Checked String :=
  if param = "logid" then
    match replaceAll value "%" "%%" with
    | some escaped => .ok escaped
    | none => .undefined
  else .ok value

/-- The parameter takes the place of the member of its name. -/
def setParam (param value : String) : Json → Checked Json
  | .object members =>
      .ok (.object
        (Members.eraseFirst (cStr param) members ++
          [(cStr param, .string (cStr value))]))
  | _ => .undefined

def checkParams (context : Context) : List String → Json → Checked Json
  | [], request => .ok request
  | param :: rest, request => do
      let value ← manager.paramValue library context request param
      let logged ← loggedValue param value
      let next ← setParam param logged request
      checkParams context rest next

/-- `parse_request`.  The parameters given by expressions see the request as it
is before the first parameter is set. -/
def parseRequest (incoming : IncomingRequest) : Checked Json :=
  match library.parseJson (cStr incoming.body) with
  | some (.object members) =>
      let request := addHttpFields incoming.headers incoming.ipAddr
        incoming.query (.object members)
      manager.checkParams library ⟨[("request", request)], []⟩
        manager.requiredParams request
  | _ => .rejected .invalidJson ErrorCode.invalidJson.message

/-- `request["usid"].GetString()`. -/
def usidOf (request : Json) : Option String :=
  match request.findMember? "usid" with
  | some (.string text) => some (cStr text)
  | _ => none

/-- The choice of a scheduler.  The path of the root is normalized here, in the
manager that all requests share. -/
def dispatch (usid : String) (request : Json) :
    Dispatch × UnifiedSchedulerManager υ :=
  if (manager.usMap.lookup usid).isSome then (.registered usid, manager)
  else if manager.inputConfigPath = "" then (.usidNotFound, manager)
  else
    let normalized :=
      if manager.inputConfigPath = "/" then { manager with inputConfigPath := "" }
      else manager
    match getByPath normalized.inputConfigPath request with
    | some (.object config) => (.stateless (.object config), normalized)
    | _ => (.usidNotFound, normalized)

/-- `run` up to the call of the scheduler, with the manager it leaves. -/
def run (incoming : IncomingRequest) : Dispatch × UnifiedSchedulerManager υ :=
  match manager.parseRequest library incoming with
  | .rejected code message => (.rejected code message, manager)
  | .undefined => (.undefined, manager)
  | .ok request =>
      match usidOf request with
      | some usid => manager.dispatch usid request
      | none => (.undefined, manager)

def afterAll (history : List IncomingRequest) : UnifiedSchedulerManager υ :=
  history.foldl (fun manager incoming => (manager.run library incoming).2) manager

/-- No history of requests changes how a request is dispatched. -/
def HistoryIndependent : Prop :=
  ∀ history incoming,
    ((manager.afterAll library history).run library incoming).1 =
      (manager.run library incoming).1

/-- Every request that is accepted names a registered scheduler. -/
def AllRegistered : Prop :=
  ∀ incoming request usid,
    manager.parseRequest library incoming = .ok request →
      usidOf request = some usid → (manager.usMap.lookup usid).isSome

section

variable {library : Library} {manager : UnifiedSchedulerManager υ}

theorem dispatch_manager (usid : String) (request : Json) :
    (manager.dispatch usid request).2 =
      if (manager.usMap.lookup usid).isNone ∧ manager.inputConfigPath = "/" then
        { manager with inputConfigPath := "" }
      else manager := by
  unfold dispatch
  cases hfound : manager.usMap.lookup usid with
  | some us => simp
  | none =>
      simp only [Option.isSome_none, Bool.false_eq_true, if_false,
        Option.isNone_none, true_and]
      by_cases hempty : manager.inputConfigPath = ""
      · rw [if_pos hempty, if_neg (by rw [hempty]; decide)]
      · rw [if_neg hempty]
        split
        · rfl
        · rfl

theorem run_manager (hkept : manager.inputConfigPath ≠ "/" ∨
      manager.AllRegistered library) (incoming : IncomingRequest) :
    (manager.run library incoming).2 = manager := by
  unfold run
  cases hrequest : manager.parseRequest library incoming with
  | rejected code message => rfl
  | undefined => rfl
  | ok request =>
      simp only
      cases husid : usidOf request with
      | none => rfl
      | some usid =>
          simp only [dispatch_manager]
          apply if_neg
          intro hdispatch
          obtain ⟨hnone, hroot⟩ := hdispatch
          cases hkept with
          | inl hother => exact hother hroot
          | inr hall =>
              have hsome := hall incoming request usid hrequest husid
              rw [Option.isNone_iff_eq_none] at hnone
              rw [hnone] at hsome
              cases hsome

theorem afterAll_eq (hkept : manager.inputConfigPath ≠ "/" ∨
      manager.AllRegistered library) (history : List IncomingRequest) :
    manager.afterAll library history = manager := by
  unfold afterAll
  induction history with
  | nil => rfl
  | cons incoming rest ih =>
      rw [List.foldl_cons, run_manager hkept incoming]
      exact ih

theorem checkParams_withPath (path : String) (context : Context)
    (params : List String) (request : Json) :
    { manager with inputConfigPath := path }.checkParams library context params
      request = manager.checkParams library context params request := by
  induction params generalizing request with
  | nil => rfl
  | cons param rest ih =>
      unfold checkParams
      refine congrArg (Checked.bind _) (funext fun value => ?_)
      refine congrArg (Checked.bind _) (funext fun logged => ?_)
      exact congrArg (Checked.bind _) (funext fun next => ih next)

theorem parseRequest_withPath (path : String) (incoming : IncomingRequest) :
    { manager with inputConfigPath := path }.parseRequest library incoming =
      manager.parseRequest library incoming := by
  unfold parseRequest
  split
  · exact checkParams_withPath path _ _ _
  · rfl

/-- The first request without a registered scheduler is its own configuration,
and leaves a manager that takes no configuration from requests. -/
theorem run_at_root {incoming : IncomingRequest} {request : Json} {usid : String}
    (hroot : manager.inputConfigPath = "/")
    (hrequest : manager.parseRequest library incoming = .ok request)
    (husid : usidOf request = some usid)
    (hunknown : manager.usMap.lookup usid = none) :
    manager.run library incoming =
      (.stateless request, { manager with inputConfigPath := "" }) := by
  obtain ⟨members, rfl⟩ : ∃ members, request = .object members := by
    cases request with
    | object members => exact ⟨members, rfl⟩
    | null | bool | number | string | array => cases husid
  simp only [run, hrequest, husid, dispatch, hunknown, hroot]
  rfl

theorem run_without_path {incoming : IncomingRequest} {request : Json}
    {usid : String} (hpath : manager.inputConfigPath = "")
    (hrequest : manager.parseRequest library incoming = .ok request)
    (husid : usidOf request = some usid)
    (hunknown : manager.usMap.lookup usid = none) :
    (manager.run library incoming).1 = .usidNotFound := by
  simp only [run, hrequest, husid, dispatch, hunknown, hpath]
  rfl

end

end UnifiedSchedulerManager

/-- Dispatch depends on the request alone exactly when the configuration is not
the root of the requests, or no request is left to it. -/
theorem historyIndependent_iff {υ : Type u} (library : Library)
    (manager : UnifiedSchedulerManager υ) :
    manager.HistoryIndependent library ↔
      manager.inputConfigPath ≠ "/" ∨ manager.AllRegistered library := by
  constructor
  · intro hindependent
    by_contra hother
    rw [not_or, not_not] at hother
    obtain ⟨hroot, hregistered⟩ := hother
    apply hregistered
    intro incoming request usid hrequest husid
    by_contra hnone
    rw [Option.not_isSome_iff_eq_none] at hnone
    have hfirst := UnifiedSchedulerManager.run_at_root hroot hrequest husid hnone
    have hsame := hindependent [incoming] incoming
    rw [UnifiedSchedulerManager.afterAll, List.foldl_cons, List.foldl_nil,
      hfirst] at hsame
    let emptied : UnifiedSchedulerManager υ := { manager with inputConfigPath := "" }
    have hpath : emptied.inputConfigPath = "" := rfl
    have hsecond := UnifiedSchedulerManager.run_without_path hpath
      ((UnifiedSchedulerManager.parseRequest_withPath "" incoming).trans hrequest)
      husid hnone
    cases hsame.symm.trans hsecond
  · intro hkept history incoming
    rw [UnifiedSchedulerManager.afterAll_eq hkept]

def rootConfig : UnifiedSchedulerConfig where
  inputConfigPath := some "/"

def emptyQuery : Json :=
  .object
    [("logid", .string "1"), ("uuid", .string "1"), ("usid", .string "demo"),
      ("query", .string "")]

theorem secondRequest_not_found :
    ¬ ∀ (library : Library) (loadUs : String → Option Unit) config manager,
      UnifiedSchedulerManager.init loadUs config = some manager →
        manager.HistoryIndependent library := by
  intro hall
  have hindependent := hall
    { Library.bare with parseJson := fun _ => some emptyQuery }
    (fun _ => none) rootConfig _ rfl
  have hsame := hindependent [⟨"", [], "", []⟩] ⟨"", [], "", []⟩
  revert hsame
  decide +kernel

end Uskit
