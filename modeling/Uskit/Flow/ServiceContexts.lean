import Uskit.Flow.AsyncNode

namespace Uskit

open Uskit.Data

/-! What the variable `backend` holds in the contexts of the services, while a
node recalls. -/

namespace Context

def onlyBackend (members : JsonMembers) : Context :=
  ⟨[("backend", .object members)], []⟩

/-- One scope, with one variable `backend`, which is an object. -/
def BackendIs (members : JsonMembers) (context : Context) : Prop :=
  context.allNamed "backend" = (onlyBackend members).allNamed "backend"

variable {members : JsonMembers} {context inner : Context}

theorem BackendIs.getVariable (hbackend : context.BackendIs members) :
    context.getVariable "backend" = some (.object members) :=
  BackendEngine.getVariable_backend_congr hbackend

theorem BackendIs.replace (hbackend : context.BackendIs members)
    (after : JsonMembers) :
    ((context.eraseVariable "backend").setVariable "backend"
      (.object after)).BackendIs after := by
  obtain ⟨hown, houter⟩ := List.cons.inj hbackend
  have hnone : (Members.named "backend" context.ownVariables).tail = [] := by
    rw [hown]
    rfl
  rw [BackendIs, allNamed_eq, allNamed_eq]
  simp [eraseVariable, setVariable, hnone, onlyBackend]
  exact houter

/-- A scope around which `backend` is an object, and which has none itself. -/
def BackendAround (members : JsonMembers) (inner : Context) : Prop :=
  inner.allNamed "backend" = (onlyBackend members).enter.allNamed "backend"

theorem BackendIs.enter (hbackend : context.BackendIs members) :
    context.enter.BackendAround members :=
  congrArg (List.cons []) hbackend

theorem BackendAround.getVariable (haround : inner.BackendAround members) :
    inner.getVariable "backend" = some (.object members) :=
  BackendEngine.getVariable_backend_congr haround

theorem BackendAround.leave (haround : inner.BackendAround members) :
    inner.leave.BackendIs members :=
  allNamed_leave (outerNamed_of_allNamed haround)

theorem BackendAround.update (haround : inner.BackendAround members)
    (after : JsonMembers) :
    (inner.updateVariable "backend" (.object after)).BackendAround after := by
  have hcut := BackendEngine.cStr_backend
  have hsame : inner.allNamed (cStr "backend") =
      (onlyBackend members).enter.allNamed (cStr "backend") := by
    rw [hcut]
    exact haround
  have hupdate := allNamed_updateVariable_congr hsame (.object after)
  rw [hcut] at hupdate
  rw [BackendAround, hupdate]
  simp [updateVariable, hcut, onlyBackend, allNamed, scopes, updateFound,
    Members.replaceFirst]

end Context

open Context

namespace GlobalClosure

variable {members given : JsonMembers} {context source after : Context}

theorem handDown_backendIs (hsource : source.BackendIs given)
    (hcontext : context.BackendIs members)
    (hdown : handDown source context = .ok after) : after.BackendIs given := by
  rw [handDown, hsource.getVariable] at hdown
  cases hdown
  exact hcontext.replace given

theorem handUp_backendIs (hsource : source.BackendIs given)
    (hcontext : context.BackendIs members)
    (hup : handUp source context = .ok after) :
    after.BackendIs (mergeMembers given members) := by
  have haround := hcontext.enter
  rw [handUp, hsource.getVariable] at hup
  simp only [mergeVariable, haround.getVariable, mergeJsonObjects] at hup
  cases hup
  exact (haround.update _).leave

theorem responseCheck_backendIs {library : Library} {service : BackendService}
    {replies : List RpcReply} {parsed : Option Json}
    (hcontext : context.BackendIs members)
    (hcheck : responseCheck library (AsyncRecall.controller service replies)
      context = .ok (after, parsed)) :
    after.BackendIs (members ++ (parsed.map (service.name, ·)).toList) := by
  unfold responseCheck at hcheck
  have hparse := BackendController.parseResponse_controllerNamed library
    (show "output" ≠ "backend" by decide)
    (AsyncRecall.controller service replies) context
  split at hcheck
  · cases hcheck
    simpa using hcontext
  · generalize (AsyncRecall.controller service replies).parseResponse library
      context = outcome at hcheck hparse
    cases hparse with
    | ok hsame =>
        obtain ⟨updated, hadd, hafter⟩ := Result.bind_eq_ok.mp hcheck
        cases hafter
        obtain ⟨old, hold, rfl⟩ := Context.addMember_eq_updateVariable hadd
        have haround : BackendAround members _ := hsame.trans hcontext.enter
        rw [haround.getVariable] at hold
        cases hold
        exact (haround.update _).leave
    | failed hsame =>
        cases hcheck
        have haround : BackendAround members _ := hsame.trans hcontext.enter
        simpa using haround.leave
    | undefined => cases hcheck

end GlobalClosure

namespace AsyncRecall

def carriedTo (index : Nat) (carried : List (Nat × String × Json)) : JsonMembers :=
  (carried.filter (·.1 == index)).map (·.2)

section Carried

variable {index other : Nat}

@[simp] theorem carriedTo_nil (index : Nat) : carriedTo index [] = [] := rfl

@[simp] theorem carriedTo_append (index : Nat)
    (first second : List (Nat × String × Json)) :
    carriedTo index (first ++ second) =
      carriedTo index first ++ carriedTo index second := by
  simp [carriedTo]

@[simp] theorem carriedTo_singleton_self (index : Nat) (answer : String × Json) :
    carriedTo index [(index, answer)] = [answer] := by
  simp [carriedTo]

theorem carriedTo_singleton_of_ne (hne : other ≠ index) (answer : String × Json) :
    carriedTo other [(index, answer)] = [] := by
  simp [carriedTo, Ne.symm hne]

theorem carriedTo_carry_self (source target : Nat)
    (carried : List (Nat × String × Json)) :
    carriedTo target (carry source target carried) = carriedTo source carried := by
  simp [carriedTo, carry, List.filter_map, Function.comp_def]

theorem carriedTo_carry_of_ne {source target : Nat} (hne : other ≠ target)
    (carried : List (Nat × String × Json)) :
    carriedTo other (carry source target carried) = [] := by
  simp [carriedTo, carry, List.filter_map, Function.comp_def, Ne.symm hne]

theorem carriedTo_without_self (index : Nat)
    (carried : List (Nat × String × Json)) :
    carriedTo index (carried.filter (·.1 != index)) = [] := by
  simp [carriedTo, List.filter_filter]

theorem carriedTo_without_of_ne (hne : other ≠ index)
    (carried : List (Nat × String × Json)) :
    carriedTo other (carried.filter (·.1 != index)) = carriedTo other carried := by
  rw [carriedTo, carriedTo, List.filter_filter]
  congr 1
  apply List.filter_congr
  intro entry _
  by_cases hentry : entry.1 = other
  · simp [hentry, hne]
  · simp [hentry]

end Carried

/-- Every service has a `backend` whose content goes with the responses that
have come into its context. -/
def Stores (content : JsonMembers → JsonMembers → Prop) (calls : AsyncRecall) :
    Prop :=
  ∀ index context, calls.contexts[index]? = some context →
    ∃ members, context.BackendIs members ∧
      content (carriedTo index calls.carried) members

/-- Definitions leave `backend` alone, responses are accepted, and whether the
`backend` of one service is merged into that of another one. -/
def Admits (env : FlowEnvironment) (accepts : String → Json → Prop)
    (handsUp : Prop) (calls : AsyncRecall) : AsyncLabel → Prop
  | .define service definition =>
      ∀ index context, calls.contextOf env service = some (index, context) →
        (definition.runDef env.library context).Keeps
          (Context.allNamed "backend") context
  | .respond service replies =>
      ∀ index context backend after response,
        calls.contextOf env service = some (index, context) →
        env.backendEngine.findService service = some backend →
        GlobalClosure.responseCheck env.library (controller backend replies)
          context = .ok (after, some response) →
          accepts service response
  | .handUp _ _ => handsUp
  | .build _ | .handDown _ _ => True

section Step

variable {env : FlowEnvironment} {content : JsonMembers → JsonMembers → Prop}
  {calls next : AsyncRecall}

theorem contextOf_eq_some {service : String} {index : Nat} {context : Context}
    (hcontext : calls.contextOf env service = some (index, context)) :
    env.backendEngine.serviceIndex service = some index ∧
      calls.contexts[index]? = some context := by
  simp only [contextOf, Option.bind_eq_bind, Option.bind_eq_some_iff] at hcontext
  obtain ⟨found, hindex, value, hvalue, hpair⟩ := hcontext
  cases hpair
  exact ⟨hindex, hvalue⟩

theorem Stores.contextOf (hstores : calls.Stores content) {service : String}
    {index : Nat} {context : Context}
    (hcontext : calls.contextOf env service = some (index, context)) :
    ∃ members, context.BackendIs members ∧
      content (carriedTo index calls.carried) members :=
  hstores index context (contextOf_eq_some hcontext).2

theorem Stores.set (hstores : calls.Stores content) {index : Nat}
    {after : Context} {answers : JsonMembers}
    {carried : List (Nat × String × Json)}
    (hothers : ∀ other, other ≠ index →
      carriedTo other carried = carriedTo other calls.carried)
    {members : JsonMembers} (hbackend : after.BackendIs members)
    (hcontent : content (carriedTo index carried) members) :
    Stores content
      { contexts := calls.contexts.set index after
        answers := answers
        carried := carried } := by
  intro other context hcontext
  by_cases hother : other = index
  · subst hother
    rw [List.getElem?_set, if_pos rfl] at hcontext
    split at hcontext
    · cases hcontext
      exact ⟨members, hbackend, hcontent⟩
    · cases hcontext
  · rw [List.getElem?_set_ne (Ne.symm hother)] at hcontext
    obtain ⟨old, hold, hcontentOld⟩ := hstores other context hcontext
    refine ⟨old, hold, ?_⟩
    rw [hothers other hother]
    exact hcontentOld

/-- The responses that are accepted keep a content, and so do the merges. -/
structure KeepsContent (content : JsonMembers → JsonMembers → Prop)
    (accepts : String → Json → Prop) (handsUp : Prop) : Prop where
  respond : ∀ carried members service response,
    content carried members → accepts service response →
      content (carried ++ [(service, response)]) (members ++ [(service, response)])
  merge : handsUp → ∀ given source carried members,
    content given source → content carried members →
      content (carried ++ given) (mergeMembers source members)

theorem step_stores {accepts : String → Json → Prop} {handsUp : Prop}
    (hkeepsContent : KeepsContent content accepts handsUp) {label : AsyncLabel}
    (hstores : calls.Stores content)
    (hadmits : calls.Admits env accepts handsUp label)
    (hstep : step env calls label = some next) : next.Stores content := by
  cases label with
  | define service definition =>
      simp only [step, Option.bind_eq_bind, Option.bind_eq_some_iff] at hstep
      obtain ⟨⟨index, context⟩, hcontext, hstep⟩ := hstep
      have hkeeps := hadmits index context hcontext
      obtain ⟨members, hbackend, hcontent⟩ := hstores.contextOf hcontext
      generalize definition.runDef env.library context = outcome at hkeeps hstep
      cases hkeeps with
      | ok hsame =>
          cases hstep
          exact hstores.set (fun _ _ => rfl) (hsame.trans hbackend) hcontent
      | failed hsame =>
          cases hstep
          exact hstores.set (fun _ _ => rfl) (hsame.trans hbackend) hcontent
      | undefined => cases hstep
  | build service =>
      simp only [step, Option.bind_eq_bind, Option.bind_eq_some_iff] at hstep
      obtain ⟨⟨index, context⟩, hcontext, backend, -, hstep⟩ := hstep
      obtain ⟨members, hbackend, hcontent⟩ := hstores.contextOf hcontext
      split at hstep
      · rename_i hbuild
        cases hstep
        have hsame := BackendController.buildRequest_allNamed env.library
          (show "backend" ∉ RequestPolicy.writtenNames by decide) _ hbuild
        exact hstores.set (fun _ _ => rfl) (hsame.trans hbackend) hcontent
      · cases hstep
  | respond service replies =>
      simp only [step, Option.bind_eq_bind, Option.bind_eq_some_iff] at hstep
      obtain ⟨⟨index, context⟩, hcontext, backend, hfind, hstep⟩ := hstep
      obtain ⟨members, hbackend, hcontent⟩ := hstores.contextOf hcontext
      split at hstep
      · rename_i after response hcheck
        cases hstep
        have haccepts := hadmits index context backend after response hcontext
          hfind hcheck
        have hafter := GlobalClosure.responseCheck_backendIs hbackend hcheck
        rw [BackendEngine.findService_name hfind] at hafter
        apply hstores.set _ hafter
        · rw [carriedTo_append, carriedTo_singleton_self]
          exact hkeepsContent.respond _ _ _ _ hcontent haccepts
        · intro other hother
          rw [carriedTo_append, carriedTo_singleton_of_ne hother,
            List.append_nil]
      · rename_i after hcheck
        cases hstep
        have hafter := GlobalClosure.responseCheck_backendIs hbackend hcheck
        exact hstores.set (fun _ _ => rfl) hafter (by simpa using hcontent)
      · cases hstep
  | handDown source target =>
      simp only [step, Option.bind_eq_bind, Option.bind_eq_some_iff] at hstep
      obtain ⟨⟨sourceIndex, sourceContext⟩, hsource, ⟨index, context⟩, hcontext,
        hstep⟩ := hstep
      obtain ⟨given, hgiven, hsourceContent⟩ := hstores.contextOf hsource
      obtain ⟨members, hbackend, hcontent⟩ := hstores.contextOf hcontext
      split at hstep
      · rename_i after hdown
        cases hstep
        apply hstores.set _ (GlobalClosure.handDown_backendIs hgiven hbackend hdown)
        · split
          · rename_i hsame
            subst hsame
            exact hsourceContent
          · rw [carriedTo_append, carriedTo_without_self, carriedTo_carry_self,
              List.nil_append]
            exact hsourceContent
        · intro other hother
          split
          · rfl
          · rw [carriedTo_append, carriedTo_without_of_ne hother,
              carriedTo_carry_of_ne hother, List.append_nil]
      · cases hstep
  | handUp source target =>
      simp only [step, Option.bind_eq_bind, Option.bind_eq_some_iff] at hstep
      obtain ⟨⟨sourceIndex, sourceContext⟩, hsource, ⟨index, context⟩, hcontext,
        hstep⟩ := hstep
      obtain ⟨given, hgiven, hsourceContent⟩ := hstores.contextOf hsource
      obtain ⟨members, hbackend, hcontent⟩ := hstores.contextOf hcontext
      split at hstep
      · rename_i after hup
        cases hstep
        apply hstores.set _ (GlobalClosure.handUp_backendIs hgiven hbackend hup)
        · rw [carriedTo_append, carriedTo_carry_self]
          exact hkeepsContent.merge hadmits _ _ _ _ hsourceContent hcontent
        · intro other hother
          rw [carriedTo_append, carriedTo_carry_of_ne hother, List.append_nil]
      · cases hstep

theorem run_stores {accepts : String → Json → Prop} {handsUp : Prop}
    (hkeepsContent : KeepsContent content accepts handsUp)
    {labels : List AsyncLabel} (hstores : calls.Stores content)
    (hguarded : Machine.Guarded (step env)
      (fun calls label => calls.Admits env accepts handsUp label) calls labels)
    (hrun : Machine.run (step env) calls labels = some next) :
    next.Stores content :=
  Machine.guarded_invariant (fun hstores hadmits hstep =>
    step_stores hkeepsContent hstores hadmits hstep) hstores hguarded hrun

end Step

end AsyncRecall

end Uskit
