import Uskit.Call.Recall

namespace Uskit

open Uskit.Data

/-! The nodes of a request share one table of call ids, which is made once for
the request and never cleared. -/

namespace CallIdsVec

theorem setCallId_accepted_iff {index : Nat} {callId : CallId}
    {table : CallIdsVec} :
    (table.setCallId index callId).1 = .accepted ↔
      table.callIds[index]? = some none ∧ table.isReady = false := by
  unfold setCallId
  split <;> rename_i hslot
  · simp [hslot]
  · simp [hslot]
  · cases table.isReady <;> simp [hslot]

theorem setCallId_of_accepted {index : Nat} {callId : CallId}
    {table : CallIdsVec}
    (haccepted : (table.setCallId index callId).1 = .accepted) :
    (table.setCallId index callId).2 =
      { table with callIds := table.callIds.set index (some callId) } := by
  obtain ⟨hslot, hopen⟩ := setCallId_accepted_iff.mp haccepted
  simp [setCallId, hslot, hopen]

theorem setCallIds_accepted {index : Nat} {callIds : List CallId}
    {table : CallIdsVec} (hfree : table.multiCallIds[index]? = some [])
    (hopen : table.isReady = false) :
    (table.setCallIds index callIds).1 = .accepted := by
  simp [setCallIds, hfree, hopen]

end CallIdsVec

namespace RecallLoop

/-- The services whose `set_call_id` is still to come in the first loop. -/
def unregistered (loop : RecallLoop) : List RecallEntry :=
  match loop.phase with
  | .registering waiting => waiting
  | _ => []

/-- The services that are past their first `set_call_id` and may make another
one for their sub-calls. -/
def unbuilt (loop : RecallLoop) : List RecallEntry :=
  match loop.phase with
  | .registering _ => loop.cntls
  | .building waiting => waiting
  | .registeringSubCalls entry _ waiting => entry :: waiting
  | _ => []

def pending (loop : RecallLoop) : List RecallEntry :=
  loop.unbuilt ++ loop.unregistered

/-- The `set_call_id` that the loop is about to make returns 0. -/
def SetsAccepted (table : CallIdsVec) (loop : RecallLoop) : Prop :=
  match loop.phase with
  | .registering (entry :: _) =>
      (table.setCallId entry.index entry.callId).1 = .accepted
  | .registeringSubCalls entry subCallIds _ =>
      (table.setCallIds entry.index subCallIds).1 = .accepted
  | _ => True

/-- What a step of a loop does to the table and to the services that it has
still to register. -/
inductive Sets (table : CallIdsVec) (loop : RecallLoop) :
    Option CallIdsVec × RecallLoop × List RecallEvent → Prop where
  | callId {entry : RecallEntry} {after : RecallLoop} :
      table.callIds[entry.index]? = some none → table.isReady = false →
      loop.unregistered = entry :: after.unregistered →
      after.unbuilt = loop.unbuilt ++ [entry] →
      Sets table loop
        (some { table with
            callIds := table.callIds.set entry.index (some entry.callId) },
          after, [.accepted entry.index entry.callId])
  | callIds {entry : RecallEntry} {subCallIds : List CallId}
      {after : RecallLoop} :
      table.multiCallIds[entry.index]? = some [] → table.isReady = false →
      loop.unregistered = [] → after.unregistered = [] →
      loop.unbuilt = entry :: after.unbuilt →
      Sets table loop
        (some { table with
            multiCallIds := table.multiCallIds.set entry.index subCallIds },
          after, [.acceptedSubCalls entry.index subCallIds])
  | nothing {after : RecallLoop} {events : List RecallEvent} :
      (∀ index callId, .accepted index callId ∉ events) →
      after.unregistered.Sublist loop.unregistered →
      after.unbuilt.Sublist loop.unbuilt →
      Sets table loop (some table, after, events)

section Step

variable {table : CallIdsVec} {loop : RecallLoop} {entry : RecallEntry}
  {waiting : List RecallEntry}

theorem register_sets (hphase : loop.phase = .registering (entry :: waiting)) :
    loop.Sets table (loop.register (some table) entry waiting) := by
  simp only [register]
  rcases table.setCallId_cases entry.index entry.callId with
    ⟨hsame, hanswer⟩ | ⟨hset, hfree, hopen⟩
  · rw [hsame, if_neg hanswer]
    generalize (table.setCallId entry.index entry.callId).1 = answer at hanswer
    cases answer with
    | accepted => exact absurd rfl hanswer
    | rejected => exact .nothing (by simp) (List.nil_sublist _) (List.nil_sublist _)
    | quitting => exact .nothing (by simp) (List.nil_sublist _) (List.nil_sublist _)
  · rw [hset, if_pos rfl]
    apply Sets.callId hfree hopen
    · simp only [unregistered, hphase, afterSet]
    · simp only [unbuilt, hphase, afterSet]

theorem build_sets (outcome : BuildOutcome)
    (hphase : loop.phase = .building (entry :: waiting)) :
    loop.Sets table (some table, loop.build entry waiting outcome) := by
  have hlist : loop.unbuilt = entry :: waiting := by simp only [unbuilt, hphase]
  have hrest : waiting.Sublist (entry :: waiting) := List.sublist_cons_self _ _
  cases outcome with
  | failed => exact .nothing (by simp) (List.nil_sublist _) (hlist ▸ hrest)
  | idle =>
      cases hdynamic : entry.isDynamic with
      | true =>
          simp only [build, hdynamic, if_true]
          exact .nothing (by simp) (List.nil_sublist _) (hlist ▸ List.Sublist.refl _)
      | false =>
          simp only [build, hdynamic]
          exact .nothing (by simp) (List.nil_sublist _) (hlist ▸ hrest)
  | launched subCallIds =>
      cases hdynamic : entry.isDynamic with
      | true =>
          simp only [build, launch, hdynamic, if_true]
          exact .nothing (by simp) (List.nil_sublist _) (hlist ▸ List.Sublist.refl _)
      | false =>
          simp only [build, launch, hdynamic]
          exact .nothing (by simp) (List.nil_sublist _) (hlist ▸ hrest)

theorem registerSubCalls_sets {subCallIds : List CallId}
    (hphase : loop.phase = .registeringSubCalls entry subCallIds waiting) :
    loop.Sets table
      (loop.registerSubCalls (some table) entry subCallIds waiting) := by
  simp only [registerSubCalls]
  rcases table.setCallIds_cases entry.index subCallIds with
    ⟨hsame, hanswer⟩ | ⟨hset, hfree, hopen⟩
  · rw [hsame, if_neg hanswer]
    generalize (table.setCallIds entry.index subCallIds).1 = answer at hanswer
    cases answer with
    | accepted => exact absurd rfl hanswer
    | rejected => exact .nothing (by simp) (List.nil_sublist _) (List.nil_sublist _)
    | quitting => exact .nothing (by simp) (List.nil_sublist _) (List.nil_sublist _)
  · rw [hset, if_pos rfl]
    apply Sets.callIds hfree hopen
    · simp only [unregistered, hphase]
    · simp only [unregistered, afterSet]
    · simp only [unbuilt, hphase, afterSet]

theorem step_sets {action : RecallAction}
    {result : Option CallIdsVec × RecallLoop × List RecallEvent}
    (hstep : loop.step (some table) action = some result) :
    loop.Sets table result := by
  unfold step at hstep
  split at hstep
  · rename_i hphase
    cases hstep
    exact register_sets hphase
  · rename_i hphase
    cases hstep
    have hlist : loop.unbuilt = loop.cntls := by simp only [unbuilt, hphase]
    exact .nothing (by simp) (List.nil_sublist _) (hlist ▸ List.Sublist.refl _)
  · rename_i hphase
    cases hstep
    exact build_sets _ hphase
  · cases hstep
    exact .nothing (by simp) (List.nil_sublist _) (List.nil_sublist _)
  · rename_i hphase
    cases hstep
    exact registerSubCalls_sets hphase
  · rename_i hphase
    obtain ⟨joined, hjoin, rfl⟩ := Option.map_eq_some_iff.mp hstep
    have hended : ∃ rest, joined.phase = .joining rest := by
      unfold join at hjoin
      split at hjoin
      · split at hjoin
        · cases hjoin
          exact ⟨_, rfl⟩
        · cases hjoin
      · cases hjoin
        exact ⟨_, rfl⟩
    obtain ⟨rest, hphase⟩ := hended
    apply Sets.nothing (by simp)
    · simp only [unregistered, hphase, List.nil_sublist]
    · simp only [unbuilt, hphase, List.nil_sublist]
  · cases hstep
    exact .nothing (by simp) (List.nil_sublist _) (List.nil_sublist _)
  · cases hstep

end Step

end RecallLoop

section Replaced

variable {loops : List RecallLoop} {index : Nat} {loop after : RecallLoop}
  {services : RecallLoop → List RecallEntry}

theorem flatMap_set_sublist (hloop : loops[index]? = some loop)
    (hservices : (services after).Sublist (services loop)) :
    ((loops.set index after).flatMap services).Sublist (loops.flatMap services) := by
  induction loops generalizing index with
  | nil => cases hloop
  | cons first rest ih =>
      cases index with
      | zero =>
          cases hloop
          exact hservices.append (List.Sublist.refl _)
      | succ index => exact (List.Sublist.refl _).append (ih hloop)

theorem flatMap_set_perm {entry : RecallEntry} (hloop : loops[index]? = some loop)
    (hservices : services loop = entry :: services after) :
    (loops.flatMap services).Perm
      (entry :: (loops.set index after).flatMap services) := by
  induction loops generalizing index with
  | nil => cases hloop
  | cons first rest ih =>
      cases index with
      | zero =>
          cases hloop
          rw [List.set_cons_zero, List.flatMap_cons, List.flatMap_cons, hservices]
          exact List.Perm.refl _
      | succ index =>
          rw [List.set_cons_succ, List.flatMap_cons, List.flatMap_cons]
          exact (List.Perm.append_left _ (ih hloop)).trans List.perm_middle

/-- A service that a loop is done with is not among those left. -/
theorem index_ne_of_nodup {entry : RecallEntry}
    (hloop : loops[index]? = some loop)
    (hservices : services loop = entry :: services after)
    (hnodup : ((loops.flatMap services).map (·.index)).Nodup) :
    ∀ other ∈ (loops.set index after).flatMap services,
      entry.index ≠ other.index := by
  have hperm := (flatMap_set_perm hloop hservices).map (·.index)
  have hnodup := hperm.nodup_iff.mp hnodup
  rw [List.map_cons, List.nodup_cons] at hnodup
  intro other hother heq
  exact hnodup.1 (heq ▸ List.mem_map_of_mem hother)

end Replaced

/-- A step of one of `count` loops, the first of which is `first`. -/
def RecallLabel.Among (first count : Nat) : RecallLabel → Prop
  | .loop index _ => first ≤ index ∧ index < first + count
  | .quitFlow | .setReadyToQuite => False

/-- A table that no quit has closed holds the ids that the history says it
accepted, and ids of sub-calls only for services with such an id. -/
structure CallIdsVec.Records (table : CallIdsVec) (size : Nat)
    (history : List RecallEvent) : Prop where
  isOpen : table.isReady = false
  callIds_length : table.callIds.length = size
  multiCallIds_length : table.multiCallIds.length = size
  accepted : ∀ index callId, table.callIds[index]? = some (some callId) ↔
    .accepted index callId ∈ history
  subCalls : ∀ index first rest, table.multiCallIds[index]? = some (first :: rest) →
    ∃ callId, .accepted index callId ∈ history

structure RecallState.Recorded (size : Nat) (state : RecallState) : Prop where
  table : ∃ table, state.table = some table ∧ table.Records size state.history
  unbuilt : ∀ loop ∈ state.loops, ∀ entry ∈ loop.unbuilt,
    ∃ callId, .accepted entry.index callId ∈ state.history

namespace CallIdsVec

theorem Records.init (size : Nat) : (init size).Records size [] where
  isOpen := rfl
  callIds_length := List.length_replicate
  multiCallIds_length := List.length_replicate
  accepted := by
    intro index callId
    simp [CallIdsVec.init, List.getElem?_replicate]
  subCalls := by
    intro index first rest hslot
    simp [CallIdsVec.init, List.getElem?_replicate] at hslot

section Kept

variable {table : CallIdsVec} {size : Nat} {history : List RecallEvent}
  (hrecords : table.Records size history)

include hrecords

theorem Records.nothing {events : List RecallEvent}
    (hevents : ∀ index callId, .accepted index callId ∉ events) :
    table.Records size (events.reverse ++ history) where
  isOpen := hrecords.isOpen
  callIds_length := hrecords.callIds_length
  multiCallIds_length := hrecords.multiCallIds_length
  accepted := by
    intro index callId
    rw [hrecords.accepted, List.mem_append, List.mem_reverse]
    exact ⟨.inr, fun hmem => hmem.resolve_left (hevents index callId)⟩
  subCalls := by
    intro index first rest hslot
    obtain ⟨callId, hmem⟩ := hrecords.subCalls index first rest hslot
    exact ⟨callId, List.mem_append_right _ hmem⟩

theorem Records.setCallId {index : Nat} (callId : CallId)
    (hfree : table.callIds[index]? = some none) :
    Records { table with callIds := table.callIds.set index (some callId) } size
      (.accepted index callId :: history) where
  isOpen := hrecords.isOpen
  callIds_length := by rw [List.length_set, hrecords.callIds_length]
  multiCallIds_length := hrecords.multiCallIds_length
  accepted := by
    intro other otherId
    rw [List.mem_cons, ← hrecords.accepted]
    by_cases heq : index = other
    · subst heq
      rw [List.getElem?_set_self (List.getElem?_eq_some_iff.mp hfree).1, hfree]
      simp [eq_comm]
    · rw [List.getElem?_set_ne heq]
      simp [Ne.symm heq]
  subCalls := by
    intro other first rest hslot
    obtain ⟨otherId, hmem⟩ := hrecords.subCalls other first rest hslot
    exact ⟨otherId, .tail _ hmem⟩

theorem Records.setCallIds {index : Nat} {callId : CallId}
    (callIds : List CallId) (haccepted : .accepted index callId ∈ history) :
    Records { table with multiCallIds := table.multiCallIds.set index callIds } size
      (.acceptedSubCalls index callIds :: history) where
  isOpen := hrecords.isOpen
  callIds_length := hrecords.callIds_length
  multiCallIds_length := by rw [List.length_set, hrecords.multiCallIds_length]
  accepted := by
    intro other otherId
    rw [hrecords.accepted, List.mem_cons]
    exact ⟨.inr, fun hmem => hmem.resolve_left (by simp)⟩
  subCalls := by
    intro other first rest hslot
    by_cases heq : index = other
    · exact ⟨callId, .tail _ (heq ▸ haccepted)⟩
    · rw [List.getElem?_set_ne heq] at hslot
      obtain ⟨otherId, hmem⟩ := hrecords.subCalls other first rest hslot
      exact ⟨otherId, .tail _ hmem⟩

end Kept

end CallIdsVec

namespace RecallState

/-- A step of a loop of the node that is not a quit. -/
theorem step_among {first count : Nat} {state next : RecallState}
    {label : RecallLabel} (hamong : label.Among first count)
    (hstep : step state label = some next) :
    ∃ index action loop result,
      label = .loop index action ∧ first ≤ index ∧ index < first + count ∧
        state.loops[index]? = some loop ∧
        loop.step state.table action = some result ∧
        next = ⟨result.1, state.loops.set index result.2.1,
          result.2.2.reverse ++ state.history⟩ := by
  rcases step_cases hstep with
    ⟨index, action, loop, result, rfl, hloop, hrun, hnext⟩ |
    ⟨table, rfl, -⟩ | ⟨table, rfl, -⟩
  · exact ⟨index, action, loop, result, rfl, hamong.1, hamong.2, hloop, hrun, hnext⟩
  · exact hamong.elim
  · exact hamong.elim

theorem Recorded.start (size : Nat) (recalls : List (List RecallEntry)) :
    (start (some (.init size)) recalls).Recorded size where
  table := ⟨_, rfl, .init size⟩
  unbuilt := by
    intro loop hloop entry hentry
    obtain ⟨entries, -, rfl⟩ := List.mem_map.mp hloop
    cases hentry

theorem Recorded.step {first count size : Nat} {state next : RecallState}
    {label : RecallLabel} (hamong : label.Among first count)
    (hrecorded : state.Recorded size)
    (hstep : RecallState.step state label = some next) : next.Recorded size := by
  obtain ⟨index, action, loop, result, -, -, -, hloop, hrun, rfl⟩ :=
    step_among hamong hstep
  obtain ⟨table, htable, hrecords⟩ := hrecorded.table
  have hmem := List.mem_of_getElem? hloop
  rw [htable] at hrun
  have hsets := RecallLoop.step_sets hrun
  -- The services that a loop has still to build were registered before.
  have hothers : ∀ other ∈ state.loops, ∀ entry ∈ other.unbuilt,
      ∃ callId, .accepted entry.index callId ∈ result.2.2.reverse ++ state.history := by
    intro other hother entry hentry
    obtain ⟨callId, haccepted⟩ := hrecorded.unbuilt other hother entry hentry
    exact ⟨callId, List.mem_append_right _ haccepted⟩
  cases hsets with
  | @callId entry after hfree hopen hunregistered hunbuilt =>
      refine ⟨⟨_, rfl, hrecords.setCallId entry.callId hfree⟩, ?_⟩
      intro other hother other_entry hentry
      cases List.mem_or_eq_of_mem_set hother with
      | inl hold => exact hothers other hold other_entry hentry
      | inr hnew =>
          subst hnew
          rw [hunbuilt, List.mem_append, List.mem_singleton] at hentry
          cases hentry with
          | inl hbefore => exact hothers loop hmem other_entry hbefore
          | inr hlast => exact ⟨entry.callId, hlast ▸ List.mem_cons_self⟩
  | @callIds entry subCallIds after hfree hopen hloopDone hafterDone hunbuilt =>
      obtain ⟨callId, haccepted⟩ := hrecorded.unbuilt loop hmem entry
        (hunbuilt ▸ List.mem_cons_self)
      refine ⟨⟨_, rfl, hrecords.setCallIds subCallIds haccepted⟩, ?_⟩
      intro other hother other_entry hentry
      cases List.mem_or_eq_of_mem_set hother with
      | inl hold => exact hothers other hold other_entry hentry
      | inr hnew =>
          subst hnew
          exact hothers loop hmem other_entry (hunbuilt ▸ .tail _ hentry)
  | nothing hevents hunregistered hunbuilt =>
      refine ⟨⟨table, rfl, hrecords.nothing hevents⟩, ?_⟩
      intro other hother other_entry hentry
      cases List.mem_or_eq_of_mem_set hother with
      | inl hold => exact hothers other hold other_entry hentry
      | inr hnew =>
          subst hnew
          exact hothers loop hmem other_entry (hunbuilt.subset hentry)

/-- The loops of a node: `count` of them, the first of which is `first`. -/
def nodeLoops (first count : Nat) (state : RecallState) : List RecallLoop :=
  (state.loops.drop first).take count

/-- Every `set_call_id` that a loop of the node is about to make returns 0. -/
def SetsAccepted (first count : Nat) (state : RecallState) : Prop :=
  ∃ table, state.table = some table ∧
    ∀ loop ∈ state.nodeLoops first count, loop.SetsAccepted table

/-- The services that the node has still to register have free places in the
table, and each its own. -/
structure PlacesFree (first count : Nat) (state : RecallState)
    (table : CallIdsVec) : Prop where
  isOpen : table.isReady = false
  unregistered : ∀ entry ∈ (state.nodeLoops first count).flatMap (·.unregistered),
    table.callIds[entry.index]? = some none
  pending : ∀ entry ∈ (state.nodeLoops first count).flatMap (·.pending),
    table.multiCallIds[entry.index]? = some []
  nodup_unregistered :
    (((state.nodeLoops first count).flatMap (·.unregistered)).map (·.index)).Nodup
  nodup_pending :
    (((state.nodeLoops first count).flatMap (·.pending)).map (·.index)).Nodup

theorem nodeLoops_set {first count index : Nat} (hfirst : first ≤ index)
    (state : RecallState) (table : Option CallIdsVec) (after : RecallLoop)
    (history : List RecallEvent) :
    nodeLoops first count ⟨table, state.loops.set index after, history⟩ =
      (state.nodeLoops first count).set (index - first) after := by
  rw [nodeLoops, List.drop_set, if_neg (Nat.not_lt.mpr hfirst), List.take_set]
  rfl

theorem nodeLoops_getElem? {first count index : Nat} (hfirst : first ≤ index)
    (hcount : index < first + count) (state : RecallState) :
    (state.nodeLoops first count)[index - first]? = state.loops[index]? := by
  rw [nodeLoops, List.getElem?_take_of_lt (by omega), List.getElem?_drop,
    Nat.add_sub_cancel' hfirst]

theorem PlacesFree.step {first count : Nat} {state next : RecallState}
    {label : RecallLabel} {table : CallIdsVec} (hamong : label.Among first count)
    (htable : state.table = some table) (hfree : state.PlacesFree first count table)
    (hstep : RecallState.step state label = some next) :
    ∃ after, next.table = some after ∧ next.PlacesFree first count after := by
  obtain ⟨index, action, loop, result, -, hfirst, hcount, hloop, hrun, rfl⟩ :=
    step_among hamong hstep
  rw [← nodeLoops_getElem? hfirst hcount] at hloop
  rw [htable] at hrun
  have hsets := RecallLoop.step_sets hrun
  cases hsets with
  | @callId entry after hslot hopen hunregistered hunbuilt =>
      have hpending : (after.pending).Sublist loop.pending := by
        rw [RecallLoop.pending, RecallLoop.pending, hunbuilt, hunregistered,
          List.append_assoc]
        exact List.Sublist.refl _
      have hkept := flatMap_set_sublist hloop hpending
      have hleft := flatMap_set_perm hloop hunregistered
      refine ⟨_, rfl, ⟨hopen, ?_, ?_, ?_, ?_⟩⟩ <;> rw [nodeLoops_set hfirst]
      · intro other hother
        have hne := index_ne_of_nodup hloop hunregistered hfree.nodup_unregistered
          other hother
        rw [List.getElem?_set_ne hne]
        exact hfree.unregistered other (hleft.mem_iff.mpr (.tail _ hother))
      · intro other hother
        exact hfree.pending other (hkept.subset hother)
      · have hnodup := (hleft.map (·.index)).nodup_iff.mp hfree.nodup_unregistered
        exact (List.nodup_cons.mp hnodup).2
      · exact hfree.nodup_pending.sublist (hkept.map _)
  | @callIds entry subCallIds after hslot hopen hloopDone hafterDone hunbuilt =>
      have hpending : loop.pending = entry :: after.pending := by
        rw [RecallLoop.pending, RecallLoop.pending, hunbuilt, hloopDone, hafterDone]
        rfl
      have hunregistered : (after.unregistered).Sublist loop.unregistered := by
        rw [hloopDone, hafterDone]
      have hkept := flatMap_set_sublist hloop hunregistered
      have hleft := flatMap_set_perm hloop hpending
      refine ⟨_, rfl, ⟨hopen, ?_, ?_, ?_, ?_⟩⟩ <;> rw [nodeLoops_set hfirst]
      · intro other hother
        exact hfree.unregistered other (hkept.subset hother)
      · intro other hother
        have hne := index_ne_of_nodup hloop hpending hfree.nodup_pending other hother
        rw [List.getElem?_set_ne hne]
        exact hfree.pending other (hleft.mem_iff.mpr (.tail _ hother))
      · exact hfree.nodup_unregistered.sublist (hkept.map _)
      · have hnodup := (hleft.map (·.index)).nodup_iff.mp hfree.nodup_pending
        exact (List.nodup_cons.mp hnodup).2
  | @nothing after events hevents hunregistered hunbuilt =>
      have hregister := flatMap_set_sublist hloop hunregistered
      have hpending : (after.pending).Sublist loop.pending :=
        hunbuilt.append hunregistered
      have hkept := flatMap_set_sublist hloop hpending
      refine ⟨table, rfl, ⟨hfree.isOpen, ?_, ?_, ?_, ?_⟩⟩ <;> rw [nodeLoops_set hfirst]
      · exact fun other hother => hfree.unregistered other (hregister.subset hother)
      · exact fun other hother => hfree.pending other (hkept.subset hother)
      · exact hfree.nodup_unregistered.sublist (hregister.map _)
      · exact hfree.nodup_pending.sublist (hkept.map _)

theorem PlacesFree.run {first count : Nat} {state final : RecallState}
    {labels : List RecallLabel} {table : CallIdsVec}
    (hlabels : ∀ label ∈ labels, RecallLabel.Among first count label)
    (htable : state.table = some table) (hfree : state.PlacesFree first count table)
    (hrun : Machine.run RecallState.step state labels = some final) :
    ∃ after, final.table = some after ∧ final.PlacesFree first count after := by
  have hguarded : Machine.Guarded RecallState.step
      (fun _ => RecallLabel.Among first count) state labels := .of_labels hlabels
  let free (state : RecallState) : Prop :=
    ∃ table, state.table = some table ∧ state.PlacesFree first count table
  have hstep : ∀ {state label next}, free state → RecallLabel.Among first count label →
      RecallState.step state label = some next → free next := by
    rintro state label next ⟨present, hpresent, hfree⟩ hamong hstep
    exact hfree.step hamong hpresent hstep
  have hstart : free state := ⟨table, htable, hfree⟩
  exact Machine.guarded_invariant hstep hstart hguarded hrun

theorem PlacesFree.setsAccepted {first count : Nat} {state : RecallState}
    {table : CallIdsVec} (htable : state.table = some table)
    (hfree : state.PlacesFree first count table) :
    state.SetsAccepted first count := by
  refine ⟨table, htable, fun loop hloop => ?_⟩
  unfold RecallLoop.SetsAccepted
  split
  · rename_i entry waiting hphase
    rw [CallIdsVec.setCallId_accepted_iff]
    refine ⟨hfree.unregistered entry ?_, hfree.isOpen⟩
    rw [List.mem_flatMap]
    refine ⟨loop, hloop, ?_⟩
    rw [RecallLoop.unregistered, hphase]
    exact List.mem_cons_self
  · rename_i entry subCallIds waiting hphase
    apply CallIdsVec.setCallIds_accepted _ hfree.isOpen
    apply hfree.pending entry
    rw [List.mem_flatMap]
    refine ⟨loop, hloop, List.mem_append_left _ ?_⟩
    rw [RecallLoop.unbuilt, hphase]
    exact List.mem_cons_self
  · trivial

theorem nodeLoops_of_earlier {first count : Nat} {state next : RecallState}
    {label : RecallLabel} (hamong : label.Among 0 first)
    (hstep : step state label = some next) :
    next.nodeLoops first count = state.nodeLoops first count := by
  obtain ⟨index, action, loop, result, -, -, hindex, -, -, rfl⟩ :=
    step_among hamong hstep
  rw [nodeLoops, List.drop_set, if_pos (by omega)]
  rfl

theorem nodeLoops_start (before node after : List (List RecallEntry))
    (table : Option CallIdsVec) :
    (start table (before ++ node ++ after)).nodeLoops before.length node.length =
      node.map RecallLoop.start := by
  simp only [nodeLoops, start, List.map_append, List.append_assoc]
  rw [List.drop_left' (List.length_map _), List.take_left' (List.length_map _)]

/-- A node whose services are not recorded begins with free places. -/
theorem PlacesFree.of_fresh {size first count : Nat} {state : RecallState}
    {table : CallIdsVec} {node : List (List RecallEntry)}
    (hloops : state.nodeLoops first count = node.map RecallLoop.start)
    (hrecords : table.Records size state.history)
    (hknown : ∀ entry ∈ node.flatten, entry.index < size)
    (honce : (node.flatten.map (·.index)).Nodup)
    (hfresh : ∀ entry ∈ node.flatten, ∀ callId,
      .accepted entry.index callId ∉ state.history) :
    state.PlacesFree first count table := by
  have hunregistered :
      (state.nodeLoops first count).flatMap (·.unregistered) = node.flatten := by
    rw [hloops, List.flatMap_map]
    exact List.flatMap_id
  have hpending : (state.nodeLoops first count).flatMap (·.pending) = node.flatten := by
    rw [hloops, List.flatMap_map]
    exact List.flatMap_id
  refine ⟨hrecords.isOpen, ?_, ?_, ?_, ?_⟩
  · rw [hunregistered]
    intro entry hentry
    have hindex : entry.index < table.callIds.length := by
      rw [hrecords.callIds_length]
      exact hknown entry hentry
    rw [List.getElem?_eq_getElem hindex]
    cases hslot : table.callIds[entry.index] with
    | none => rfl
    | some callId =>
        have hslot := (List.getElem?_eq_getElem hindex).trans (congrArg some hslot)
        exact absurd ((hrecords.accepted _ callId).mp hslot)
          (hfresh entry hentry callId)
  · rw [hpending]
    intro entry hentry
    have hindex : entry.index < table.multiCallIds.length := by
      rw [hrecords.multiCallIds_length]
      exact hknown entry hentry
    rw [List.getElem?_eq_getElem hindex]
    cases hslot : table.multiCallIds[entry.index] with
    | nil => rfl
    | cons first rest =>
        have hslot := (List.getElem?_eq_getElem hindex).trans (congrArg some hslot)
        obtain ⟨callId, hmem⟩ := hrecords.subCalls _ first rest hslot
        exact absurd hmem (hfresh entry hentry callId)
  · rw [hunregistered]
    exact honce
  · rw [hpending]
    exact honce

/-- The registration of a loop comes to every service of it, unless a
`set_call_id` is refused before. -/
theorem taken_refused {first count index : Nat} {state : RecallState}
    {loop : RecallLoop} {table : CallIdsVec} {before after : List RecallEntry}
    {entry : RecallEntry} {callId : CallId} (hfirst : first ≤ index)
    (hcount : index < first + count) (hloop : state.loops[index]? = some loop)
    (hphase : loop.phase = .registering (before ++ entry :: after))
    (htable : state.table = some table)
    (htaken : table.callIds[entry.index]? = some (some callId)) :
    ¬ ∀ labels final, (∀ label ∈ labels, RecallLabel.Among first count label) →
      Machine.run step state labels = some final →
        final.SetsAccepted first count := by
  intro hall
  induction before generalizing state loop table with
  | nil =>
      obtain ⟨present, hpresent, haccepts⟩ := hall [] state (by simp) rfl
      obtain rfl : table = present := Option.some.inj (htable.symm.trans hpresent)
      rw [← nodeLoops_getElem? hfirst hcount] at hloop
      have hset := haccepts loop (List.mem_of_getElem? hloop)
      rw [RecallLoop.SetsAccepted, hphase] at hset
      have hslot := (CallIdsVec.setCallId_accepted_iff.mp hset).1
      rw [htaken] at hslot
      cases hslot
  | cons other before ih =>
      obtain ⟨present, hpresent, haccepts⟩ := hall [] state (by simp) rfl
      obtain rfl : table = present := Option.some.inj (htable.symm.trans hpresent)
      have hmem := hloop
      rw [← nodeLoops_getElem? hfirst hcount] at hmem
      have hset : (table.setCallId other.index other.callId).1 = .accepted := by
        have hset := haccepts loop (List.mem_of_getElem? hmem)
        rwa [RecallLoop.SetsAccepted, hphase] at hset
      have hslot := (CallIdsVec.setCallId_accepted_iff.mp hset).1
      have hne : other.index ≠ entry.index := by
        intro heq
        rw [heq, htaken] at hslot
        cases hslot
      let registered := loop.register (some table) other (before ++ entry :: after)
      let next : RecallState :=
        ⟨some (table.setCallId other.index other.callId).2,
          state.loops.set index registered.2.1, registered.2.2.reverse ++ state.history⟩
      have hstep : step state (.loop index .register) = some next := by
        simp only [step, hloop, htable, Option.bind_eq_bind, Option.bind_some,
          RecallLoop.step, hphase, List.cons_append]
        rfl
      have hnext : registered.2.1.phase = .registering (before ++ entry :: after) := by
        simp only [registered, RecallLoop.register, hset, RecallLoop.afterSet]
      have hkept : (table.setCallId other.index other.callId).2.callIds[entry.index]? =
          some (some callId) := by
        rw [CallIdsVec.setCallId_of_accepted hset, List.getElem?_set_ne hne]
        exact htaken
      refine @ih next registered.2.1 _
        (List.getElem?_set_self (List.getElem?_eq_some_iff.mp hloop).1) hnext rfl hkept ?_
      intro labels final hlabels hrun
      apply hall (.loop index .register :: labels) final
      · intro label hlabel
        cases hlabel with
        | head => exact ⟨hfirst, hcount⟩
        | tail _ hlater => exact hlabels label hlater
      · exact Machine.run_cons.mpr ⟨_, hstep, hrun⟩

/-- The table accepts the call ids of a node exactly when no node before it has
registered one of its services. -/
theorem setsAccepted_iff_fresh {size : Nat}
    {before node after : List (List RecallEntry)} {earlier : List RecallLabel}
    {state : RecallState}
    (hearlier : ∀ label ∈ earlier, RecallLabel.Among 0 before.length label)
    (hrun : Machine.run step (start (some (.init size)) (before ++ node ++ after))
      earlier = some state)
    (hknown : ∀ entry ∈ node.flatten, entry.index < size)
    (honce : (node.flatten.map (·.index)).Nodup) :
    (∀ labels final,
      (∀ label ∈ labels, RecallLabel.Among before.length node.length label) →
        Machine.run step state labels = some final →
          final.SetsAccepted before.length node.length) ↔
      ∀ entry ∈ node.flatten, ∀ callId,
        .accepted entry.index callId ∉ state.history := by
  have hguarded : Machine.Guarded step (fun _ => RecallLabel.Among 0 before.length)
      (start (some (.init size)) (before ++ node ++ after)) earlier :=
    .of_labels hearlier
  have hrecorded : state.Recorded size :=
    Machine.guarded_invariant (fun hinv hguard hstep => hinv.step hguard hstep)
      (Recorded.start size _) hguarded hrun
  have hloops : state.nodeLoops before.length node.length =
      node.map RecallLoop.start :=
    Machine.guarded_invariant
      (fun hinv hguard hstep => (nodeLoops_of_earlier hguard hstep).trans hinv)
      (nodeLoops_start before node after _) hguarded hrun
  obtain ⟨table, htable, hrecords⟩ := hrecorded.table
  constructor
  · intro hall entry hentry callId haccepted
    obtain ⟨entries, hentries, hentry⟩ := List.mem_flatten.mp hentry
    obtain ⟨left, right, rfl⟩ := List.append_of_mem hentry
    obtain ⟨place, hplace, hget⟩ := List.mem_iff_getElem.mp hentries
    have hloop : state.loops[before.length + place]? =
        some (RecallLoop.start (left ++ entry :: right)) := by
      rw [← nodeLoops_getElem? (Nat.le_add_right _ place)
        (Nat.add_lt_add_left hplace _), hloops, Nat.add_sub_cancel_left,
        List.getElem?_map, List.getElem?_eq_getElem hplace, hget]
      rfl
    exact taken_refused (Nat.le_add_right _ place) (Nat.add_lt_add_left hplace _)
      hloop rfl htable ((hrecords.accepted _ callId).mpr haccepted) hall
  · intro hfresh labels final hlabels hlater
    have hfree := PlacesFree.of_fresh hloops hrecords hknown honce hfresh
    obtain ⟨present, hpresent, hfinal⟩ :=
      PlacesFree.run hlabels htable hfree hlater
    exact hfinal.setsAccepted hpresent

/-- Two nodes that recall one service, which the first has registered. -/
def weatherOnce : RecallState where
  table := some ⟨[some 11], [[]], false⟩
  loops := [⟨.registering [], [⟨"weather", 0, 11, false⟩], [(11, "weather")], [], [], []⟩,
    .start [⟨"weather", 0, 21, false⟩]]
  history := [.accepted 0 11]

theorem weatherTwice_refused :
    ¬ ∀ (size : Nat) (before node after : List (List RecallEntry))
        (earlier : List RecallLabel) (state : RecallState),
      (∀ label ∈ earlier, RecallLabel.Among 0 before.length label) →
      Machine.run step (start (some (.init size)) (before ++ node ++ after)) earlier =
        some state →
      (∀ entry ∈ node.flatten, entry.index < size) →
      (node.flatten.map (·.index)).Nodup →
      ∀ labels final,
        (∀ label ∈ labels, RecallLabel.Among before.length node.length label) →
          Machine.run step state labels = some final →
            final.SetsAccepted before.length node.length := by
  intro hall
  obtain ⟨table, htable, haccepts⟩ := hall 1 [[⟨"weather", 0, 11, false⟩]]
    [[⟨"weather", 0, 21, false⟩]] [] [.loop 0 .register] weatherOnce
    (by simp [RecallLabel.Among]) (by decide) (by decide) (by decide) [] weatherOnce
    (by simp) rfl
  cases htable
  have hset := haccepts (.start [⟨"weather", 0, 21, false⟩]) (by decide)
  cases hset

/-- A node of another service, after the first. -/
theorem newsAfterWeather_accepted :
    SetsAccepted 1 1
      ⟨some ⟨[some 11, some 21], [[], []], false⟩,
        [⟨.registering [], [⟨"weather", 0, 11, false⟩], [(11, "weather")], [], [], []⟩,
          ⟨.registering [], [⟨"news", 1, 21, false⟩], [(21, "news")], [], [], []⟩],
        [.accepted 1 21, .accepted 0 11]⟩ := by
  have hiff := @setsAccepted_iff_fresh 2 [[⟨"weather", 0, 11, false⟩]]
    [[⟨"news", 1, 21, false⟩]] [] [.loop 0 .register]
    ⟨some ⟨[some 11, none], [[], []], false⟩,
      [⟨.registering [], [⟨"weather", 0, 11, false⟩], [(11, "weather")], [], [], []⟩,
        .start [⟨"news", 1, 21, false⟩]],
      [.accepted 0 11]⟩ (by simp [RecallLabel.Among]) rfl (by decide) (by decide)
  exact hiff.mpr (by simp) [.loop 1 .register] _ (by simp [RecallLabel.Among]) rfl

end RecallState

end Uskit
