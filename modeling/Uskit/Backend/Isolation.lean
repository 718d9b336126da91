import Uskit.Backend.Engine
import Uskit.DynamicConfig.FlowOutput

namespace Uskit

open Uskit.Data

/-! The requests of one recall do not see each other, unless a scope of the flow holds one
of the variables that request configurations merge into. -/

namespace Context

/-- No scope holds a variable of one of the names. -/
def Unset (names : List String) (context : Context) : Prop :=
  ∀ name ∈ names, findVariable name context.scopes = none

instance (names : List String) (context : Context) : Decidable (context.Unset names) :=
  inferInstanceAs (Decidable (∀ name ∈ names, findVariable name context.scopes = none))

theorem updateFound_of_none {name : String} {scopes : List JsonMembers}
    (hnone : findVariable name scopes = none) (replacement : Json) :
    updateFound name replacement scopes = scopes := by
  induction scopes with
  | nil => rfl
  | cons scope parents ih =>
      rw [findVariable] at hnone
      rw [updateFound]
      cases hscope : scope.lookup name with
      | none =>
          rw [hscope] at hnone
          rw [ih hnone]
      | some found =>
          rw [hscope] at hnone
          cases hnone

theorem parents_updateVariable {name : String} {context : Context}
    (hnone : findVariable (cStr name) context.parents = none) (replacement : Json) :
    (context.updateVariable name replacement).parents = context.parents := by
  rw [updateVariable]
  cases context.ownVariables.lookup (cStr name) with
  | none => exact updateFound_of_none hnone replacement
  | some found => rfl

theorem parents_mergeVariable {key : String} {context : Context}
    (hnone : findVariable (cStr key) context.parents = none) (value : Json) :
    (context.mergeVariable key value).parents = context.parents := by
  rw [mergeVariable]
  cases context.getVariable key with
  | none => rfl
  | some existing =>
      simp only
      cases mergeJsonObjects existing value with
      | none => rfl
      | some merged => exact parents_updateVariable hnone merged

end Context

namespace RequestPolicy

theorem cStr_writtenName {name : String} (hname : name ∈ writtenNames) : cStr name = name := by
  simp only [writtenNames, BackendRequestConfig.mergedNames, List.mem_cons, List.not_mem_nil,
    or_false] at hname
  rcases hname with rfl | rfl | rfl | rfl <;> decide

section Parents

variable {protocol : Protocol} {parents : List JsonMembers} (library : Library)

/-- Steps that leave the scopes around the request alone, one after the other. -/
theorem parents_andThen {view : σ → List JsonMembers} {outcome : Outcome σ}
    {next : σ → Outcome σ} (hfirst : outcome.Leaves fun state => view state = parents)
    (hnext : ∀ state, view state = parents →
      (next state).Leaves fun after => view after = parents) :
    (outcome.andThen next).Leaves fun state => view state = parents :=
  hfirst.andThen (fun _ hstate => hstate) hnext

theorem runSetting_parents (key : String) (setting : Option Expr) {context : Context}
    (hcontext : context.parents = parents) :
    (runSetting library key setting context).Leaves fun after => after.parents = parents := by
  cases setting with
  | none => exact .ok hcontext
  | some expr => exact .evaluate hcontext fun value => .ok hcontext

theorem runDocument_parents {store : Json → Context → Context} {context : Context}
    (hcontext : context.parents = parents)
    (hstore : ∀ doc, (store doc context).parents = context.parents) (keMap : KEMap) :
    (runDocument library keMap store context).Leaves fun after => after.parents = parents := by
  refine Outcome.Leaves.evaluate ?_ fun doc => .ok ?_
  · exact hcontext
  · split
    · exact hcontext
    · exact (hstore doc).trans hcontext

variable (hfree : ∀ name ∈ writtenNames, Context.findVariable name parents = none)

include hfree

theorem findVariable_written {name : String} (hname : name ∈ writtenNames) {context : Context}
    (hcontext : context.parents = parents) :
    Context.findVariable (cStr name) context.parents = none := by
  rw [cStr_writtenName hname, hcontext, hfree name hname]

theorem mergeDocument_parents {key : String} (hkey : key ∈ writtenNames) (keMap : KEMap)
    {context : Context} (hcontext : context.parents = parents) :
    (runDocument library keMap (Context.mergeVariable key) context).Leaves
      fun after => after.parents = parents :=
  runDocument_parents library hcontext
    (Context.parents_mergeVariable (findVariable_written hfree hkey hcontext)) keMap

theorem runHttp_parents (config : HttpRequestConfig) {context : Context}
    (hcontext : context.parents = parents) :
    (config.runSettings library context).Leaves fun after => after.parents = parents := by
  refine parents_andThen (runSetting_parents library _ _ hcontext) fun context hcontext => ?_
  refine parents_andThen (runSetting_parents library _ _ hcontext) fun context hcontext => ?_
  refine parents_andThen (runSetting_parents library _ _ hcontext) fun context hcontext => ?_
  refine parents_andThen
    (mergeDocument_parents library hfree (by simp [writtenNames, BackendRequestConfig.mergedNames])
      _ hcontext) fun context hcontext => ?_
  refine parents_andThen
    (mergeDocument_parents library hfree (by simp [writtenNames, BackendRequestConfig.mergedNames])
      _ hcontext) fun context hcontext => ?_
  exact mergeDocument_parents library hfree
    (by simp [writtenNames, BackendRequestConfig.mergedNames]) _ hcontext

theorem runDynamic_parents (config : DynamicHttpRequestConfig) {context : Context}
    (hcontext : context.parents = parents) :
    (config.runDynamicSettings library context).Leaves fun after => after.parents = parents := by
  refine parents_andThen (runHttp_parents library hfree _ hcontext) fun context hcontext => ?_
  refine parents_andThen (runSetting_parents library _ _ hcontext) fun context hcontext => ?_
  refine parents_andThen (runSetting_parents library _ _ hcontext) fun context hcontext => ?_
  exact runDocument_parents library hcontext (fun _ => rfl) _

theorem runSettings_parents (config : BackendRequestConfig) {context : Context}
    (hcontext : context.parents = parents) :
    (config.runSettings library context).Leaves fun after => after.parents = parents := by
  cases config with
  | http config => exact runHttp_parents library hfree config hcontext
  | dynamicHttp config => exact runDynamic_parents library hfree config hcontext
  | redis config => exact .evaluate hcontext fun values => .ok hcontext

theorem runConfiguration_parents (template : Option BackendRequestConfig)
    (config : BackendRequestConfig) {context : Context} (hcontext : context.parents = parents) :
    (config.run library template context).Leaves fun after => after.parents = parents := by
  have hdefine : ∀ (config : BackendRequestConfig) {context : Context},
      context.parents = parents →
        (config.definition.runDef library context).Leaves fun after => after.parents = parents :=
    fun config context hcontext => (config.definition.runDef_parents library context).mono
      fun after hafter => hafter.trans hcontext
  refine parents_andThen (hdefine config hcontext) fun context hcontext => ?_
  refine parents_andThen ?_ fun context hcontext =>
    runSettings_parents library hfree config hcontext
  cases template with
  | none => exact .ok hcontext
  | some template =>
      exact parents_andThen (hdefine template hcontext) fun context hcontext =>
        runSettings_parents library hfree template hcontext

theorem sendFirst_parents (settings : DynamicHttpRequestPolicy.Settings)
    (args members : JsonMembers) {exchange : Exchange}
    (hexchange : exchange.context.parents = parents) :
    (DynamicHttpRequestPolicy.sendFirst library settings args members exchange).Leaves
      fun after => after.context.parents = parents := by
  induction members with
  | nil => exact .ok hexchange
  | cons member rest ih =>
      obtain ⟨key, value⟩ := member
      cases value with
      | null => exact ih
      | array elements =>
          refine parents_andThen ((sendElements_context library settings key elements
            exchange).mono fun after hafter => by rw [hafter, hexchange]) fun exchange hexchange => ?_
          apply Outcome.Leaves.ok
          split
          · exact (Context.parents_updateVariable (findVariable_written hfree
              List.mem_cons_self hexchange) _).trans hexchange
          · exact hexchange
      | bool | number | string | object => exact .failed hexchange

theorem send_parents (policy : RequestPolicy protocol) {exchange : Exchange}
    (hexchange : exchange.context.parents = parents) :
    (policy.send library exchange).Leaves fun after => after.context.parents = parents := by
  cases policy with
  | http policy => exact .evaluate hexchange fun request => .ok hexchange
  | dynamicHttp policy =>
      refine Outcome.Leaves.evaluate ?_ fun settings => ?_
      · exact hexchange
      · cases settings.args with
        | object args => exact sendFirst_parents library hfree settings args args hexchange
        | null | bool | number | string | array => exact .undefined
  | redis policy => exact .evaluate hexchange fun commands => .ok hexchange

end Parents

/-- A request policy leaves its context as it was. -/
theorem run_context {protocol : Protocol} (library : Library) (policy : RequestPolicy protocol)
    {context : Context} (hunset : context.Unset writtenNames) :
    (policy.run library context).Leaves fun exchange => exchange.context = context := by
  have hconfig : (policy.runConfig library context.enter).Leaves fun after =>
      after.parents = context.scopes := by
    cases policy <;>
      exact runConfiguration_parents library hunset _ _ (Context.parents_enter context)
  have hsend : (((policy.runConfig library context.enter).map fun requestContext =>
      ({ context := requestContext } : Exchange)).andThen (policy.send library)).Leaves
        fun exchange => exchange.context.parents = context.scopes :=
    parents_andThen (hconfig.map fun after hafter => hafter) fun exchange hexchange =>
      send_parents library hunset policy hexchange
  exact hsend.map fun exchange hexchange => leave_of_parents hexchange

end RequestPolicy

namespace BackendEngine

open RequestPolicy

variable (library : Library)

theorem buildRequest_context {cntl next : BackendController} {context after : Context}
    (hfresh : cntl.ownVariables = []) (hunset : context.Unset writtenNames)
    (hbuild : cntl.buildRequest library context = .ok (next, after)) : after = context := by
  unfold BackendController.buildRequest at hbuild
  cases hpolicy : cntl.service.requestPolicy with
  | none =>
      rw [hpolicy] at hbuild
      cases hbuild
      rfl
  | some policy =>
      have hscope : cntl.context context = context.enter := by
        rw [BackendController.context, hfresh]
        rfl
      have hentered : context.enter.Unset writtenNames := by
        intro name hname
        rw [Context.scopes_enter, Context.findVariable]
        exact hunset name hname
      have hrun := policy.run_context library hentered
      rw [hpolicy, hscope] at hbuild
      simp only at hbuild
      generalize policy.run library context.enter = outcome at hbuild hrun
      cases hrun with
      | ok hsame | failed hsame =>
          cases hbuild
          rw [hsame, Context.leave_enter]
      | undefined => cases hbuild

/-- Requests are built one by one as each is built alone. -/
theorem buildRequests_iff {cntls built : List BackendController} {context after : Context}
    (hfresh : ∀ cntl ∈ cntls, cntl.ownVariables = []) (hunset : context.Unset writtenNames) :
    buildRequests library cntls context = .ok (built, after) ↔ after = context ∧
      List.Forall₂ (fun cntl next => cntl.buildRequest library context = .ok (next, context))
        cntls built := by
  induction cntls generalizing built with
  | nil =>
      constructor
      · rintro ⟨⟩
        exact ⟨rfl, .nil⟩
      · rintro ⟨rfl, ⟨⟩⟩
        rfl
  | cons cntl rest ih =>
      rw [List.forall_mem_cons] at hfresh
      constructor
      · intro hbuild
        obtain ⟨⟨first, afterFirst⟩, hfirst, hothers⟩ := Result.bind_eq_ok.mp hbuild
        obtain ⟨⟨others, afterRest⟩, hrest, hpair⟩ := Result.bind_eq_ok.mp hothers
        cases hpair
        obtain rfl := buildRequest_context library hfresh.1 hunset hfirst
        obtain ⟨hafter, hforall⟩ := (ih hfresh.2).mp hrest
        exact ⟨hafter, .cons hfirst hforall⟩
      · rintro ⟨rfl, hforall⟩
        cases hforall with
        | cons hfirst hothers =>
            rw [buildRequests, hfirst, Result.ok_bind]
            simp only
            rw [(ih hfresh.2).mpr ⟨rfl, hothers⟩]
            rfl

theorem buildControllers_eq (engine : BackendEngine) (recallServices : List String) :
    engine.buildControllers recallServices =
      (recallServices.filterMap engine.findService).map fun service => { service := service } := by
  rw [buildControllers, List.map_filterMap]

theorem buildControllers_fresh {engine : BackendEngine} {recallServices : List String} :
    ∀ cntl ∈ engine.buildControllers recallServices, cntl.ownVariables = [] := by
  rw [buildControllers_eq]
  intro cntl hcntl
  obtain ⟨service, -, rfl⟩ := List.mem_map.mp hcntl
  rfl

theorem buildRequest_service {cntl next : BackendController} {context after : Context}
    (hbuild : cntl.buildRequest library context = .ok (next, after)) :
    next.service = cntl.service := by
  unfold BackendController.buildRequest at hbuild
  split at hbuild
  · cases hbuild
    rfl
  · split at hbuild
    · cases hbuild
      rfl
    · cases hbuild
      rfl
    · cases hbuild

theorem joins_alone {cntls : List BackendController} {cntl : BackendController}
    (hmem : cntl ∈ cntls)
    (hsame : ∀ other ∈ cntls, other.serviceName = cntl.serviceName → other.built = cntl.built) :
    joins (buildRequestResult cntls) cntl = joins (buildRequestResult [cntl]) cntl := by
  have hbuilt : (buildRequestResult cntls).contains cntl.serviceName =
      (buildRequestResult [cntl]).contains cntl.serviceName := by
    rw [Bool.eq_iff_iff, List.contains_iff_mem, List.contains_iff_mem, buildRequestResult,
      buildRequestResult, List.mem_map, List.mem_map]
    constructor
    · rintro ⟨other, hother, hname⟩
      rw [List.mem_filter] at hother
      exact ⟨cntl, by simp [← hsame other hother.1 hname, hother.2], rfl⟩
    · rintro ⟨other, hother, hname⟩
      rw [List.mem_filter, List.mem_singleton] at hother
      obtain ⟨rfl, hother⟩ := hother
      exact ⟨other, List.mem_filter.mpr ⟨hmem, hother⟩, rfl⟩
  unfold joins
  rw [hbuilt]

section Request

variable {context : Context}

/-- The controller whose request is built for a service in the context of the flow. -/
def Builds (context : Context) (service : BackendService) (cntl : BackendController) : Prop :=
  ({ service := service } : BackendController).buildRequest library context = .ok (cntl, context)

theorem exists_builds {services : List BackendService} {built : List BackendController}
    (hbuilt : List.Forall₂ (Builds library context) services built) {cntl : BackendController}
    (hmem : cntl ∈ built) : ∃ service ∈ services, Builds library context service cntl := by
  induction hbuilt with
  | nil => cases hmem
  | cons hfirst hothers ih =>
      cases hmem with
      | head => exact ⟨_, List.mem_cons_self, hfirst⟩
      | tail _ hmem =>
          obtain ⟨service, hservice, hbuilds⟩ := ih hmem
          exact ⟨service, List.mem_cons_of_mem _ hservice, hbuilds⟩

/-- Controllers of one name are of one service, and have one request. -/
theorem built_eq {engine : BackendEngine} {recallServices : List String}
    {built : List BackendController}
    (hbuilt : List.Forall₂ (Builds library context)
      (recallServices.filterMap engine.findService) built)
    {cntl other : BackendController} (hmem : cntl ∈ built) (hother : other ∈ built)
    (hname : other.serviceName = cntl.serviceName) : other = cntl := by
  have hfound : ∀ cntl ∈ built, engine.findService cntl.serviceName = some cntl.service ∧
      Builds library context cntl.service cntl := by
    intro cntl hcntl
    obtain ⟨service, hservice, hbuilds⟩ := exists_builds library hbuilt hcntl
    obtain ⟨name, -, hfind⟩ := List.mem_filterMap.mp hservice
    have hsame : cntl.service = service := buildRequest_service library hbuilds
    rw [BackendController.serviceName, hsame, findService_name hfind]
    exact ⟨hfind, hbuilds⟩
  obtain ⟨hfind, hbuilds⟩ := hfound cntl hmem
  obtain ⟨hfind', hbuilds'⟩ := hfound other hother
  rw [hname, hfind, Option.some.injEq] at hfind'
  rw [← hfind', Builds, hbuilds] at hbuilds'
  cases hbuilds'
  rfl

/-- A recall joins its calls exactly if each could be joined alone. -/
theorem all_joins_iff {engine : BackendEngine} {recallServices : List String}
    {built : List BackendController}
    (hbuilt : List.Forall₂ (Builds library context)
      (recallServices.filterMap engine.findService) built) :
    built.all (joins (buildRequestResult built)) = true ↔
      ∀ cntl ∈ built, joins (buildRequestResult [cntl]) cntl = true := by
  rw [List.all_eq_true]
  refine forall₂_congr fun cntl hmem => ?_
  rw [joins_alone hmem fun other hother hname => by
    rw [built_eq library hbuilt hmem hother hname]]

/-- The controller with the replies that a recall of its service alone receives. -/
def replied (rpc : RpcReplies) (cntl : BackendController) : BackendController :=
  { cntl with replies := cntl.sent.mapIdx fun call _ => rpc 0 call }

theorem receive_replied (rpc : RpcReplies) (cntls : List BackendController) :
    receive rpc (cntls.map (replied rpc)) = receive rpc cntls := by
  rw [receive, List.mapIdx_eq_zipIdx_map, List.zipIdx_map, List.map_map, receive,
    List.mapIdx_eq_zipIdx_map]
  rfl

variable (hunset : context.Unset writtenNames)

include hunset

theorem buildRequests_builds {engine : BackendEngine} {recallServices : List String}
    {built : List BackendController} {after : Context} :
    buildRequests library (engine.buildControllers recallServices) context = .ok (built, after) ↔
      after = context ∧ List.Forall₂ (Builds library context)
        (recallServices.filterMap engine.findService) built := by
  rw [buildRequests_iff library buildControllers_fresh hunset, buildControllers_eq,
    List.forall₂_map_left_iff]
  rfl

theorem request_iff {engine : BackendEngine} {rpc : RpcReplies} {recallServices : List String}
    {cntls : List BackendController} {after : Context} :
    engine.request library rpc recallServices context = .ok (cntls, after) ↔ after = context ∧
      ∃ built, List.Forall₂ (Builds library context)
        (recallServices.filterMap engine.findService) built ∧
          (∀ cntl ∈ built, joins (buildRequestResult [cntl]) cntl = true) ∧
            cntls = receive rpc built := by
  rw [request, Result.bind_eq_ok]
  constructor
  · rintro ⟨⟨built, afterBuild⟩, hbuild, hjoin⟩
    obtain ⟨rfl, hbuilt⟩ := (buildRequests_builds library hunset).mp hbuild
    simp only at hjoin
    split at hjoin
    · rename_i hall
      cases hjoin
      exact ⟨rfl, built, hbuilt, (all_joins_iff library hbuilt).mp hall, rfl⟩
    · cases hjoin
  · rintro ⟨rfl, built, hbuilt, hjoins, rfl⟩
    refine ⟨(built, after), (buildRequests_builds library hunset).mpr ⟨rfl, hbuilt⟩, ?_⟩
    simp only
    rw [if_pos ((all_joins_iff library hbuilt).mpr hjoins)]

theorem request_alone {engine : BackendEngine} {rpc : RpcReplies} {service : BackendService}
    (hfind : engine.findService service.name = some service) {cntl : BackendController} :
    engine.request library rpc [service.name] context = .ok ([cntl], context) ↔
      ∃ built, (Builds library context service built ∧
        joins (buildRequestResult [built]) built = true) ∧ cntl = replied rpc built := by
  have hservices : [service.name].filterMap engine.findService = [service] := by
    rw [List.filterMap_cons_some hfind, List.filterMap_nil]
  rw [request_iff library hunset, hservices]
  constructor
  · rintro ⟨-, built, hbuilt, hjoins, hreceive⟩
    cases hbuilt with
    | cons hbuilds hrest =>
        cases hrest
        exact ⟨_, ⟨hbuilds, hjoins _ (List.mem_singleton_self _)⟩, (List.cons.inj hreceive).1⟩
  · rintro ⟨built, ⟨hbuilds, hjoins⟩, rfl⟩
    exact ⟨rfl, [built], .cons hbuilds .nil, by simpa using hjoins, rfl⟩

theorem requests_alone {engine : BackendEngine} {rpc : RpcReplies}
    {services : List BackendService}
    (hfind : ∀ service ∈ services, engine.findService service.name = some service)
    {alone : List BackendController} :
    List.Forall₂ (fun service cntl =>
        engine.request library rpc [service.name] context = .ok ([cntl], context))
      services alone ↔
      ∃ built, List.Forall₂ (Builds library context) services built ∧
        (∀ cntl ∈ built, joins (buildRequestResult [cntl]) cntl = true) ∧
          alone = built.map (replied rpc) := by
  induction services generalizing alone with
  | nil =>
      rw [List.forall₂_nil_left_iff]
      constructor
      · rintro rfl
        exact ⟨[], .nil, List.forall_mem_nil _, rfl⟩
      · rintro ⟨built, hbuilt, -, rfl⟩
        rw [List.forall₂_nil_left_iff.mp hbuilt, List.map_nil]
  | cons service rest ih =>
      rw [List.forall_mem_cons] at hfind
      rw [List.forall₂_cons_left_iff]
      constructor
      · rintro ⟨cntl, others, hfirst, hothers, rfl⟩
        obtain ⟨built, ⟨hbuilds, hjoin⟩, rfl⟩ := (request_alone library hunset hfind.1).mp hfirst
        obtain ⟨rest, hrest, hjoins, rfl⟩ := (ih hfind.2).mp hothers
        exact ⟨built :: rest, .cons hbuilds hrest,
          List.forall_mem_cons.mpr ⟨hjoin, hjoins⟩, rfl⟩
      · rintro ⟨_, hbuilt, hjoins, rfl⟩
        obtain ⟨built, rest, hbuilds, hrest, rfl⟩ := List.forall₂_cons_left_iff.mp hbuilt
        rw [List.forall_mem_cons] at hjoins
        exact ⟨_, _, (request_alone library hunset hfind.1).mpr ⟨built, ⟨hbuilds, hjoins.1⟩, rfl⟩,
          (ih hfind.2).mpr ⟨rest, hrest, hjoins.2, rfl⟩, rfl⟩

/-- A recall asks every service what a recall of that service alone asks it, in the order
of the list, and leaves the variables of the flow as they were. -/
theorem request_isolated (engine : BackendEngine) (rpc : RpcReplies)
    (recallServices : List String) (cntls : List BackendController) (after : Context) :
    engine.request library rpc recallServices context = .ok (cntls, after) ↔ after = context ∧
      ∃ alone, List.Forall₂ (fun service cntl =>
          engine.request library rpc [service.name] context = .ok ([cntl], context))
        (recallServices.filterMap engine.findService) alone ∧ cntls = receive rpc alone := by
  have hfind : ∀ service ∈ recallServices.filterMap engine.findService,
      engine.findService service.name = some service := by
    intro service hservice
    obtain ⟨name, -, hname⟩ := List.mem_filterMap.mp hservice
    rw [findService_name hname, hname]
  rw [request_iff library hunset]
  refine and_congr_right fun _ => ?_
  constructor
  · rintro ⟨built, hbuilt, hjoins, rfl⟩
    exact ⟨built.map (replied rpc),
      (requests_alone library hunset hfind).mpr ⟨built, hbuilt, hjoins, rfl⟩,
      (receive_replied rpc built).symm⟩
  · rintro ⟨alone, halone, rfl⟩
    obtain ⟨built, hbuilt, hjoins, rfl⟩ := (requests_alone library hunset hfind).mp halone
    exact ⟨built, hbuilt, hjoins, receive_replied rpc built⟩

end Request

/-- A service that sends the header `X-Token`, and one that sends no header. -/
def tokenEngine : BackendEngine where
  services :=
    [{ name := "weather", protocol := .http
       requestPolicy := some (.http
        { config :=
          { httpMethod := some "get", httpUri := some "/weather"
            httpHeader := [("X-Token", .string "t")] } }) },
     { name := "news", protocol := .http
       requestPolicy := some (.http
        { config := { httpMethod := some "get", httpUri := some "/news" } }) }]

theorem request_isolated_token :
    ∃ cntls, tokenEngine.request .bare (fun _ _ => {}) ["weather", "news"] ⟨[], []⟩ =
        .ok (cntls, ⟨[], []⟩) ∧
      ∃ alone, List.Forall₂ (fun service cntl =>
          tokenEngine.request .bare (fun _ _ => {}) [service.name] ⟨[], []⟩ =
            .ok ([cntl], ⟨[], []⟩)) tokenEngine.services alone ∧
        cntls = receive (fun _ _ => {}) alone :=
  ⟨_, rfl, ((request_isolated .bare (by decide) tokenEngine _ ["weather", "news"] _ _).mp rfl).2⟩

/-- With a variable `http_header` in the flow, the header of one service is sent to the other. -/
example : (tokenEngine.request .bare (fun _ _ => {}) ["weather", "news"]
      ⟨[("http_header", .object [])], []⟩ >>= fun (cntls, _) =>
        .ok (cntls.map (·.sent))) =
    .ok [[.http { uri := "/weather", headers := [("X-Token", "t")] }],
      [.http { uri := "/news", headers := [("X-Token", "t")] }]] := by
  decide +kernel

end BackendEngine

end Uskit
