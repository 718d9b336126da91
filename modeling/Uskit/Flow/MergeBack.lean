import Uskit.Flow.AsyncRecalled
import Uskit.Flow.ServiceContexts
import Uskit.Json.Shape

namespace Uskit

open Uskit.Data

/-! What the merge loop of an asynchronous node leaves in `backend`, for what the
contexts of the services hold before it. -/

namespace MergeBack

def copyOf (engine : BackendEngine) (contexts : List Context) (service : String) :
    Option JsonMembers := do
  let index ← engine.serviceIndex service
  let context ← contexts[index]?
  match context.getVariable "backend" with
  | some (.object members) => some members
  | _ => none

def Reaches (engine : BackendEngine) (contexts : List Context)
    (service : String) : Prop :=
  ∀ index, engine.serviceIndex service = some index →
    ∃ context, contexts[index]? = some context

def AllObjects (contexts : List Context) : Prop :=
  ∀ (index : Nat) context, contexts[index]? = some context →
    ∃ members, context.getVariable "backend" = some (.object members)

/-- The state of the loop after some services, where the node sees the `backend`
of a scope around it. -/
structure Merges (engine : BackendEngine) (contexts : List Context)
    (members : JsonMembers) (services : List String) (state : MergeBack) :
    Prop where
  contexts_eq : state.contexts = contexts
  unset : state.context.ownVariables.lookup "backend" = none
  backend : state.context.getVariable "backend" = some (.object
    (mergeAll (services.filterMap (copyOf engine contexts)) members))

section Loop

variable {engine : BackendEngine} {contexts : List Context}
  {members : JsonMembers} {done : List String} {service : String}
  {state next : MergeBack}

theorem Merges.turn (hobjects : AllObjects contexts)
    (hmerges : state.Merges engine contexts members done)
    (hturn : turn engine service state = .ok next) :
    next.Merges engine contexts members (done ++ [service]) ∧
      Reaches engine contexts service := by
  obtain ⟨hcontexts, hunset, hbackend⟩ := hmerges
  unfold MergeBack.turn at hturn
  cases hindex : engine.serviceIndex service with
  | none =>
      rw [hindex] at hturn
      cases hturn
      have hnone : copyOf engine contexts service = none := by
        simp [copyOf, hindex]
      refine ⟨⟨hcontexts, hunset, ?_⟩, ?_⟩
      · rw [List.filterMap_append, List.filterMap_cons_none hnone,
          List.filterMap_nil, List.append_nil]
        exact hbackend
      · intro index hsome
        rw [hindex] at hsome
        cases hsome
  | some index =>
      simp only [hindex, hcontexts] at hturn
      cases hcontext : contexts[index]? with
      | none =>
          rw [hcontext] at hturn
          cases hturn
      | some context =>
          obtain ⟨source, hsource⟩ := hobjects index context hcontext
          have hcopy : copyOf engine contexts service = some source := by
            simp [copyOf, hindex, hcontext, hsource]
          simp only [hcontext, hsource] at hturn
          cases hturn
          refine ⟨⟨?_, ?_, ?_⟩, ?_⟩
          · simp [movedOut, hbackend, hcontexts]
          · simp only [Context.mergeVariable, hbackend, mergeJsonObjects]
            rw [Context.ownVariables_updateVariable_of_none (by simpa using hunset)]
            exact hunset
          · simp only [Context.mergeVariable, hbackend, mergeJsonObjects]
            rw [Context.getVariable_updateVariable_self hbackend,
              List.filterMap_append, List.filterMap_cons_some hcopy,
              List.filterMap_nil, mergeAll_append]
            rfl
          · intro other hother
            rw [hindex] at hother
            cases hother
            exact ⟨context, hcontext⟩

theorem Merges.run (hobjects : AllObjects contexts) {services : List String}
    {final : MergeBack} (hmerges : state.Merges engine contexts members done)
    (hrun : run engine services state = .ok final) :
    final.Merges engine contexts members (done ++ services) ∧
      ∀ service ∈ services, Reaches engine contexts service := by
  induction services generalizing state done with
  | nil =>
      cases hrun
      simpa using hmerges
  | cons service rest ih =>
      obtain ⟨next, hturn, hrest⟩ := Result.bind_eq_ok.mp hrun
      obtain ⟨hnext, hreaches⟩ := hmerges.turn hobjects hturn
      obtain ⟨hfinal, hothers⟩ := ih hnext hrest
      rw [List.append_assoc, List.singleton_append] at hfinal
      exact ⟨hfinal, List.forall_mem_cons.mpr ⟨hreaches, hothers⟩⟩

theorem turn_defined (hobjects : AllObjects contexts)
    (hcontexts : state.contexts = contexts)
    (hreaches : Reaches engine contexts service) :
    ∃ next, turn engine service state = .ok next := by
  unfold MergeBack.turn
  cases hindex : engine.serviceIndex service with
  | none => exact ⟨state, rfl⟩
  | some index =>
      obtain ⟨context, hcontext⟩ := hreaches index hindex
      obtain ⟨source, hsource⟩ := hobjects index context hcontext
      simp only [hcontexts, hcontext, hsource]
      exact ⟨_, rfl⟩

theorem run_defined (hobjects : AllObjects contexts) {services : List String}
    (hreaches : ∀ service ∈ services, Reaches engine contexts service)
    (hmerges : state.Merges engine contexts members done) :
    ∃ final, run engine services state = .ok final := by
  induction services generalizing state done with
  | nil => exact ⟨state, rfl⟩
  | cons service rest ih =>
      obtain ⟨hservice, hrest⟩ := List.forall_mem_cons.mp hreaches
      obtain ⟨next, hturn⟩ := turn_defined hobjects hmerges.contexts_eq hservice
      obtain ⟨final, hrun⟩ := ih hrest (hmerges.turn hobjects hturn).1
      exact ⟨final, Result.bind_eq_ok.mpr ⟨next, hturn, hrun⟩⟩

end Loop

end MergeBack

/-- An object whose member names are distinct throughout. -/
def DistinctObject (value : Json) : Prop :=
  ∃ members, value = .object members ∧ value.Distinct

/-- The members agree with a table of shapes, and hold what is carried. -/
structure AgreeingContent (shapes : List String → Option Shape)
    (carried members : JsonMembers) : Prop where
  within : MembersWithin shapes members
  distinct : ∀ member ∈ members, member.2.Distinct
  holds : ∀ answer ∈ carried, ∀ path shape, answer.2.Holds path shape →
    MembersHold members answer.1 path shape

structure AppendedContent (copy carried members : JsonMembers) : Prop where
  eq : members = copy ++ carried
  distinct : ∀ answer ∈ carried, answer.2.Distinct

theorem AgreeingContent.append {shapes : List String → Option Shape}
    {carried members : JsonMembers}
    (hcontent : AgreeingContent shapes carried members) {service : String}
    {response : Json} (hdistinct : response.Distinct)
    (hwithin : response.Within fun path => shapes (service :: path)) :
    AgreeingContent shapes (carried ++ [(service, response)])
      (members ++ [(service, response)]) where
  within := by
    intro name path shape hholds
    cases membersHold_append.mp hholds with
    | inl hold => exact hcontent.within name path shape hold
    | inr hnew =>
        obtain ⟨value, hmem, hvalue⟩ := hnew
        cases List.mem_singleton.mp hmem
        exact hwithin path shape hvalue
  distinct := by
    intro member hmem
    cases List.mem_append.mp hmem with
    | inl hold => exact hcontent.distinct member hold
    | inr hnew =>
        cases List.mem_singleton.mp hnew
        exact hdistinct
  holds := by
    intro answer hmem path shape hholds
    apply membersHold_append.mpr
    cases List.mem_append.mp hmem with
    | inl hold => exact .inl (hcontent.holds answer hold path shape hholds)
    | inr hnew =>
        cases List.mem_singleton.mp hnew
        exact .inr ⟨response, hnew, hholds⟩

theorem AppendedContent.append {copy carried members : JsonMembers}
    (hcontent : AppendedContent copy carried members) {service : String}
    {response : Json} (hdistinct : response.Distinct) :
    AppendedContent copy (carried ++ [(service, response)])
      (members ++ [(service, response)]) where
  eq := by rw [hcontent.eq, List.append_assoc]
  distinct := by
    intro answer hmem
    cases List.mem_append.mp hmem with
    | inl hold => exact hcontent.distinct answer hold
    | inr hnew =>
        cases List.mem_singleton.mp hnew
        exact hdistinct

theorem AgreeingContent.merge {shapes : List String → Option Shape}
    {given source carried members : JsonMembers}
    (hsource : AgreeingContent shapes given source)
    (hcontent : AgreeingContent shapes carried members) :
    AgreeingContent shapes (carried ++ given) (mergeMembers source members) := by
  have hunion := merge_holds.2 source members shapes hsource.within
    hcontent.within
  refine ⟨?_, merge_distinct.2 source members hsource.distinct hcontent.distinct,
    ?_⟩
  · intro name path shape hholds
    cases (hunion name path shape).mp hholds with
    | inl hnew => exact hsource.within name path shape hnew
    | inr hold => exact hcontent.within name path shape hold
  · intro answer hmem path shape hholds
    apply (hunion answer.1 path shape).mpr
    cases List.mem_append.mp hmem with
    | inl hold => exact .inr (hcontent.holds answer hold path shape hholds)
    | inr hnew => exact .inl (hsource.holds answer hnew path shape hholds)

namespace MergedRecall

/-- Every field of the response of a service stands in `backend`, below the name
of the service. -/
def KeepsAnswers (record : MergedRecall) : Prop :=
  ∀ service response, (service, response) ∈ record.calls.answers →
    ∀ path shape, response.shapeAt path = some shape →
      ∃ backend, record.after.getVariable "backend" = some backend ∧
        backend.shapeAt (service :: path) = some shape

/-- Whatever the order of the services, the same stands in `backend`. -/
def OrderIrrelevant (engine : BackendEngine) (record : MergedRecall) : Prop :=
  ∀ services, services.Perm record.services →
    ∃ merged backend other,
      MergeBack.run engine services
        { context := record.before, contexts := record.calls.contexts } =
          .ok merged ∧
      record.after.getVariable "backend" = some backend ∧
      merged.context.getVariable "backend" = some other ∧
      ∀ path, other.shapeAt path = backend.shapeAt path

/-- The responses are in contexts that are merged back. -/
def Delivered (engine : BackendEngine) (calls : AsyncRecall)
    (services : List String) : Prop :=
  ∀ answer ∈ calls.answers, ∃ service ∈ services, ∃ index,
    engine.serviceIndex service = some index ∧
      answer ∈ AsyncRecall.carriedTo index calls.carried

def copies (engine : BackendEngine) (record : MergedRecall) : List JsonMembers :=
  record.services.filterMap (MergeBack.copyOf engine record.calls.contexts)

section Stored

variable {engine : BackendEngine} {record : MergedRecall}
  {members : JsonMembers} {content : JsonMembers → JsonMembers → Prop}

theorem allObjects (hstores : record.calls.Stores content) :
    MergeBack.AllObjects record.calls.contexts := by
  intro index context hcontext
  obtain ⟨source, hsource, -⟩ := hstores index context hcontext
  exact ⟨source, hsource.getVariable⟩

theorem start_merges (engine : BackendEngine)
    (hunset : record.before.ownVariables.lookup "backend" = none)
    (hbefore : record.before.getVariable "backend" = some (.object members)) :
    MergeBack.Merges engine record.calls.contexts members []
      { context := record.before, contexts := record.calls.contexts } :=
  ⟨rfl, hunset, hbefore⟩

theorem after_backend (hstores : record.calls.Stores content)
    (hunset : record.before.ownVariables.lookup "backend" = none)
    (hbefore : record.before.getVariable "backend" = some (.object members))
    (hloop : record.FromLoop engine) :
    record.after.ownVariables.lookup "backend" = none ∧
      record.after.getVariable "backend" =
        some (.object (mergeAll (record.copies engine) members)) ∧
      ∀ service ∈ record.services,
        MergeBack.Reaches engine record.calls.contexts service := by
  obtain ⟨merged, hrun, hafter⟩ := hloop
  obtain ⟨hmerged, hreaches⟩ :=
    (start_merges engine hunset hbefore).run (allObjects hstores) hrun
  refine ⟨?_, ?_, hreaches⟩
  · rw [hafter, Context.setVariable,
      Members.lookup_append_singleton_of_ne (by decide)]
    exact hmerged.unset
  · rw [hafter, BackendEngine.getVariable_backend_congr
      (Context.allNamed_setVariable_of_ne (by decide) _ _)]
    exact hmerged.backend

theorem content_of_mem_copies (hstores : record.calls.Stores content)
    {source : JsonMembers} (hmem : source ∈ record.copies engine) :
    ∃ index, content (AsyncRecall.carriedTo index record.calls.carried)
      source := by
  obtain ⟨service, -, hcopy⟩ := List.mem_filterMap.mp hmem
  unfold MergeBack.copyOf at hcopy
  simp only [Option.bind_eq_bind, Option.bind_eq_some_iff] at hcopy
  obtain ⟨index, hindex, context, hcontext, hsource⟩ := hcopy
  obtain ⟨found, hfound, hcontent⟩ := hstores index context hcontext
  rw [hfound.getVariable] at hsource
  cases hsource
  exact ⟨index, hcontent⟩

/-- Every response is in one of the copies that are merged. -/
theorem exists_copy (hdelivered : Delivered engine record.calls record.services)
    (hstores : record.calls.Stores content)
    (hreaches : ∀ service ∈ record.services,
      MergeBack.Reaches engine record.calls.contexts service)
    {answer : String × Json} (hanswer : answer ∈ record.calls.answers) :
    ∃ listed ∈ record.services, ∃ index source,
      MergeBack.copyOf engine record.calls.contexts listed = some source ∧
        answer ∈ AsyncRecall.carriedTo index record.calls.carried ∧
          content (AsyncRecall.carriedTo index record.calls.carried) source := by
  obtain ⟨listed, hlisted, index, hindex, hcarried⟩ := hdelivered answer hanswer
  obtain ⟨context, hcontext⟩ := hreaches listed hlisted index hindex
  obtain ⟨source, hsource, hcontent⟩ := hstores index context hcontext
  refine ⟨listed, hlisted, index, source, ?_, hcarried, hcontent⟩
  simp [MergeBack.copyOf, hindex, hcontext, hsource.getVariable]

theorem after_distinct (hstores : record.calls.Stores content)
    (hcontent : ∀ carried source, content carried source →
      ∀ member ∈ source, member.2.Distinct)
    (hunset : record.before.ownVariables.lookup "backend" = none)
    (hbefore : record.before.getVariable "backend" = some (.object members))
    (hdistinct : (Json.object members).Distinct)
    (hloop : record.FromLoop engine) :
    record.after.ownVariables.lookup "backend" = none ∧
      ∃ backend, record.after.getVariable "backend" = some backend ∧
        DistinctObject backend := by
  obtain ⟨hnone, hafter, -⟩ := after_backend hstores hunset hbefore hloop
  refine ⟨hnone, _, hafter, _, rfl, mergeAll_distinct ?_ hdistinct⟩
  intro source hmem
  obtain ⟨index, hstored⟩ := content_of_mem_copies hstores hmem
  exact hcontent _ _ hstored

theorem permuted_run (hstores : record.calls.Stores content)
    (hunset : record.before.ownVariables.lookup "backend" = none)
    (hbefore : record.before.getVariable "backend" = some (.object members))
    (hreaches : ∀ service ∈ record.services,
      MergeBack.Reaches engine record.calls.contexts service)
    {services : List String} (hperm : services.Perm record.services) :
    ∃ merged,
      MergeBack.run engine services
        { context := record.before, contexts := record.calls.contexts } =
          .ok merged ∧
      merged.context.getVariable "backend" = some (.object (mergeAll
        (services.filterMap
          (MergeBack.copyOf engine record.calls.contexts)) members)) := by
  have hobjects := allObjects hstores
  have hstart := start_merges engine hunset hbefore
  obtain ⟨merged, hrun⟩ := MergeBack.run_defined hobjects
    (fun service hmem => hreaches service (hperm.mem_iff.mp hmem)) hstart
  exact ⟨merged, hrun, (hstart.run hobjects hrun).1.backend⟩

/-- Contents that agree are merged without a loss, in any order. -/
theorem merged_of_agreeing {shapes : List String → Option Shape}
    (hstores : record.calls.Stores (AgreeingContent shapes))
    (hunset : record.before.ownVariables.lookup "backend" = none)
    (hbefore : record.before.getVariable "backend" = some (.object members))
    (hwithin : MembersWithin shapes members)
    (hdistinct : (Json.object members).Distinct)
    (hdelivered : Delivered engine record.calls record.services)
    (hloop : record.FromLoop engine) :
    record.KeepsAnswers ∧ record.OrderIrrelevant engine := by
  obtain ⟨-, hafter, hreaches⟩ := after_backend hstores hunset hbefore hloop
  have hsources : ∀ source ∈ record.copies engine,
      MembersWithin shapes source := by
    intro source hmem
    obtain ⟨index, hcontent⟩ := content_of_mem_copies hstores hmem
    exact hcontent.within
  have hvalues : ∀ source ∈ record.copies engine,
      ∀ member ∈ source, member.2.Distinct := by
    intro source hmem
    obtain ⟨index, hcontent⟩ := content_of_mem_copies hstores hmem
    exact hcontent.distinct
  constructor
  · intro service response hanswer path shape hshape
    obtain ⟨listed, hlisted, index, source, hcopy, hcarried, hcontent⟩ :=
      exists_copy hdelivered hstores hreaches hanswer
    have hmem : source ∈ record.copies engine :=
      List.mem_filterMap.mpr ⟨listed, hlisted, hcopy⟩
    have hholds := hcontent.holds _ hcarried path shape
      (Json.holds_of_shapeAt hshape)
    refine ⟨_, hafter, ?_⟩
    apply (mergeAll_distinct hvalues hdistinct).shapeAt
    apply Json.holds_object_iff.mpr
    exact (mergeAll_holds hsources hwithin).mpr (.inl ⟨source, hmem, hholds⟩)
  · intro services hperm
    obtain ⟨merged, hrun, hother⟩ :=
      permuted_run hstores hunset hbefore hreaches hperm
    refine ⟨merged, _, _, hrun, hafter, hother, ?_⟩
    exact mergeAll_shapeAt_of_perm (hperm.filterMap _) hsources hvalues hwithin
      hdistinct

/-- In a merge of one copy the newest responses win. -/
theorem merged_of_single
    (hstores : record.calls.Stores (AppendedContent members))
    (hunset : record.before.ownVariables.lookup "backend" = none)
    (hbefore : record.before.getVariable "backend" = some (.object members))
    (hdistinct : (Json.object members).Distinct)
    (hdelivered : Delivered engine record.calls record.services)
    (hnames : ∀ index, (Members.names
      (AsyncRecall.carriedTo index record.calls.carried)).Nodup)
    (hsingle : ∃ service, record.services = [service])
    (hloop : record.FromLoop engine) :
    record.KeepsAnswers ∧ record.OrderIrrelevant engine := by
  obtain ⟨-, hafter, hreaches⟩ := after_backend hstores hunset hbefore hloop
  obtain ⟨only, honly⟩ := hsingle
  constructor
  · intro service response hanswer path shape hshape
    obtain ⟨listed, hlisted, index, source, hcopy, hcarried, hcontent⟩ :=
      exists_copy hdelivered hstores hreaches hanswer
    rw [honly, List.mem_singleton] at hlisted
    subst hlisted
    have hcopies : record.copies engine = [source] := by
      rw [copies, honly, List.filterMap_cons_some hcopy, List.filterMap_nil]
    have hcarriedNames := hnames index
    generalize AsyncRecall.carriedTo index record.calls.carried = carried
      at hcarried hcontent hcarriedNames
    have hcarriedDistinct : (Json.object carried).Distinct :=
      .object hcarriedNames hcontent.distinct
    have hself : (Json.object (mergeMembers members members)).Distinct :=
      merge_distinct.1 (.object members) (.object members) hdistinct hdistinct
    refine ⟨_, hafter, ?_⟩
    rw [hcopies, mergeAll_cons, mergeAll_nil, hcontent.eq, mergeMembers_append]
    apply merge_shapeAt.2 _ _ hcarriedDistinct hself
    rw [Json.shapeAt, Members.lookup_of_mem hcarriedNames hcarried]
    exact hshape
  · intro services hperm
    obtain ⟨merged, hrun, hother⟩ :=
      permuted_run hstores hunset hbefore hreaches hperm
    have hservices : services = record.services := by
      rw [honly] at hperm ⊢
      exact List.perm_singleton.mp hperm
    subst hservices
    exact ⟨merged, _, _, hrun, hafter, hother, fun _ => rfl⟩

end Stored

end MergedRecall

end Uskit
