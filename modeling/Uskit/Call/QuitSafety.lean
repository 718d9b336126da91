import Uskit.Call.Recall

namespace Uskit

open Uskit.Data

/-! Stopping a flow whose recalls are of ordinary services: what the shared
table guarantees to `quit_flow`. -/

namespace RecallEvent

/-- After these no id is accepted. -/
def Closes : RecallEvent → Prop
  | .quit _ | .ready => True
  | .accepted _ _ | .acceptedSubCalls _ _ | .launched _ => False

/-- What the events before an event guarantee. -/
def Justified : RecallEvent → List RecallEvent → Prop
  | .accepted _ _, past => ∀ event ∈ past, ¬ event.Closes
  | .acceptedSubCalls _ _, _ => True
  | .launched callId, past => ∃ index, .accepted index callId ∈ past
  | .quit cancelled, past =>
      ∀ index callId, .accepted index callId ∈ past → callId ∈ cancelled
  | .ready, _ => True

end RecallEvent

def RecallEntry.Accepted (history : List RecallEvent) (entry : RecallEntry) :
    Prop :=
  .accepted entry.index entry.callId ∈ history

/-- The services of a recall loop that it has to launch yet are registered. -/
def RecallLoop.Registered (history : List RecallEvent) (loop : RecallLoop) :
    Prop :=
  match loop.phase with
  | .registering waiting =>
      (∀ entry ∈ waiting, entry.isDynamic = false) ∧
      ∀ entry ∈ loop.cntls, entry.isDynamic = false ∧ entry.Accepted history
  | .building waiting =>
      ∀ entry ∈ waiting, entry.isDynamic = false ∧ entry.Accepted history
  | .registeringSubCalls _ _ _ => False
  | .joining _ | .returned _ | .crashed => True

/-- The table holds what the history says it accepted. -/
structure CallIdsVec.Agrees (table : CallIdsVec) (history : List RecallEvent) :
    Prop where
  stored : ∀ index callId, .accepted index callId ∈ history →
    table.callIds[index]? = some (some callId)
  closed : ∀ event ∈ history, event.Closes → table.isReady = true

structure RecallState.Invariant (state : RecallState) : Prop where
  agrees : ∃ table, state.table = some table ∧ table.Agrees state.history
  registered : ∀ loop ∈ state.loops, loop.Registered state.history
  justified : History.Justified RecallEvent.Justified state.history

theorem RecallLoop.Registered.mono {loop : RecallLoop}
    {history longer : List RecallEvent} (hregistered : loop.Registered history)
    (hsubset : ∀ event ∈ history, event ∈ longer) : loop.Registered longer := by
  unfold Registered at hregistered ⊢
  split
  · rename_i waiting hphase
    rw [hphase] at hregistered
    refine ⟨hregistered.1, fun entry hentry => ?_⟩
    exact ⟨(hregistered.2 entry hentry).1,
      hsubset _ (hregistered.2 entry hentry).2⟩
  · rename_i waiting hphase
    rw [hphase] at hregistered
    intro entry hentry
    exact ⟨(hregistered entry hentry).1, hsubset _ (hregistered entry hentry).2⟩
  · rename_i hphase
    rw [hphase] at hregistered
    exact hregistered
  · trivial
  · trivial
  · trivial

namespace CallIdsVec

theorem Agrees.init (length : Nat) : (init length).Agrees [] where
  stored := fun _ _ hmem => by cases hmem
  closed := fun _ hmem => by cases hmem

theorem Agrees.setCallId {table : CallIdsVec} {history : List RecallEvent}
    (hagrees : table.Agrees history) {index : Nat} {callId : CallId}
    (hfree : table.callIds[index]? = some none)
    (hopen : table.isReady = false) :
    Agrees { table with callIds := table.callIds.set index (some callId) }
      (.accepted index callId :: history) := by
  constructor
  · intro other otherId hmem
    rw [List.mem_cons] at hmem
    cases hmem with
    | inl heq =>
        cases heq
        exact List.getElem?_set_self (List.getElem?_eq_some_iff.mp hfree).1
    | inr hpast =>
        have hstored := hagrees.stored other otherId hpast
        have hne : index ≠ other := by
          intro heq
          rw [← heq, hfree] at hstored
          cases hstored
        rw [List.getElem?_set_ne hne]
        exact hstored
  · intro event hmem hcloses
    rw [List.mem_cons] at hmem
    cases hmem with
    | inl heq =>
        subst heq
        exact absurd hcloses id
    | inr hpast =>
        have hready := hagrees.closed event hpast hcloses
        rw [hopen] at hready
        cases hready

theorem Agrees.not_closes {table : CallIdsVec} {history : List RecallEvent}
    (hagrees : table.Agrees history) (hopen : table.isReady = false) :
    ∀ event ∈ history, ¬ event.Closes := by
  intro event hmem hcloses
  have hready := hagrees.closed event hmem hcloses
  rw [hopen] at hready
  cases hready

theorem Agrees.close {table : CallIdsVec} {history : List RecallEvent}
    (hagrees : table.Agrees history) {event : RecallEvent}
    (hcloses : event.Closes) :
    Agrees { table with isReady := true } (event :: history) := by
  constructor
  · intro index callId hmem
    rw [List.mem_cons] at hmem
    cases hmem with
    | inl heq =>
        subst heq
        exact absurd hcloses id
    | inr hpast => exact hagrees.stored index callId hpast
  · intro _ _ _
    rfl

theorem Agrees.launch {table : CallIdsVec} {history : List RecallEvent}
    (hagrees : table.Agrees history) (callId : CallId) :
    table.Agrees (.launched callId :: history) := by
  constructor
  · intro index other hmem
    rw [List.mem_cons] at hmem
    cases hmem with
    | inl heq => cases heq
    | inr hpast => exact hagrees.stored index other hpast
  · intro event hmem hcloses
    rw [List.mem_cons] at hmem
    cases hmem with
    | inl heq =>
        subst heq
        exact absurd hcloses id
    | inr hpast => exact hagrees.closed event hpast hcloses

end CallIdsVec

/-- What one step of a recall loop has to keep for the state to be kept. -/
structure RecallLoop.StepKeeps (history : List RecallEvent)
    (result : Option CallIdsVec × RecallLoop × List RecallEvent) : Prop where
  agrees : ∃ present, result.1 = some present ∧
    present.Agrees (result.2.2.reverse ++ history)
  registered : result.2.1.Registered (result.2.2.reverse ++ history)
  justified : History.Justified RecallEvent.Justified history →
    History.Justified RecallEvent.Justified (result.2.2.reverse ++ history)

section LoopStep

variable {table : CallIdsVec} {history : List RecallEvent}
  (hagrees : table.Agrees history)

include hagrees

theorem RecallLoop.StepKeeps.silent {after : RecallLoop}
    (hregistered : after.Registered history) :
    StepKeeps history (some table, after, []) where
  agrees := ⟨table, rfl, hagrees⟩
  registered := hregistered
  justified := id

theorem RecallLoop.register_keeps {loop : RecallLoop} {entry : RecallEntry}
    {waiting : List RecallEntry}
    (hphase : loop.phase = .registering (entry :: waiting))
    (hregistered : loop.Registered history) :
    StepKeeps history (loop.register (some table) entry waiting) := by
  unfold Registered at hregistered
  rw [hphase] at hregistered
  obtain ⟨hwaiting, hcntls⟩ := hregistered
  simp only [register]
  rcases table.setCallId_cases entry.index entry.callId with
    ⟨hsame, hanswer⟩ | ⟨hset, hfree, hopen⟩
  · rw [hsame, if_neg hanswer]
    apply StepKeeps.silent hagrees
    generalize (table.setCallId entry.index entry.callId).1 = answer at hanswer
    cases answer with
    | accepted => exact absurd rfl hanswer
    | rejected => trivial
    | quitting => trivial
  · rw [hset]
    simp only [if_pos]
    constructor
    · exact ⟨_, rfl, hagrees.setCallId hfree hopen⟩
    · refine ⟨fun other hother => hwaiting other (.tail entry hother), ?_⟩
      intro other hother
      rw [List.mem_append, List.mem_singleton] at hother
      cases hother with
      | inl hold =>
          exact ⟨(hcntls other hold).1,
            List.mem_append_right _ (hcntls other hold).2⟩
      | inr hnew =>
          subst hnew
          exact ⟨hwaiting other List.mem_cons_self, List.mem_cons_self⟩
    · intro hjustified
      exact ⟨hagrees.not_closes hopen, hjustified⟩

theorem RecallLoop.build_keeps {loop : RecallLoop} {entry : RecallEntry}
    {waiting : List RecallEntry} (outcome : BuildOutcome)
    (hphase : loop.phase = .building (entry :: waiting))
    (hregistered : loop.Registered history) :
    StepKeeps history (some table, loop.build entry waiting outcome) := by
  unfold Registered at hregistered
  rw [hphase] at hregistered
  obtain ⟨hordinary, haccepted⟩ := hregistered entry List.mem_cons_self
  have hrest : ∀ other ∈ waiting,
      other.isDynamic = false ∧ other.Accepted history :=
    fun other hother => hregistered other (.tail entry hother)
  cases outcome with
  | failed => exact .silent hagrees hrest
  | idle =>
      simp only [build, hordinary]
      exact .silent hagrees hrest
  | launched subCallIds =>
      simp only [build, launch, hordinary]
      constructor
      · exact ⟨table, rfl, hagrees.launch entry.callId⟩
      · intro other hother
        exact ⟨(hrest other hother).1,
          List.mem_append_right _ (hrest other hother).2⟩
      · intro hjustified
        exact ⟨⟨entry.index, haccepted⟩, hjustified⟩

theorem RecallLoop.step_keeps {loop : RecallLoop} {action : RecallAction}
    {result : Option CallIdsVec × RecallLoop × List RecallEvent}
    (hregistered : loop.Registered history)
    (hstep : loop.step (some table) action = some result) :
    StepKeeps history result := by
  unfold step at hstep
  split at hstep
  · rename_i hphase
    cases hstep
    exact register_keeps hagrees hphase hregistered
  · rename_i hphase
    cases hstep
    unfold Registered at hregistered
    rw [hphase] at hregistered
    exact .silent hagrees hregistered.2
  · rename_i hphase
    cases hstep
    exact build_keeps hagrees _ hphase hregistered
  · cases hstep
    exact .silent hagrees trivial
  · rename_i hphase
    unfold Registered at hregistered
    rw [hphase] at hregistered
    exact hregistered.elim
  · obtain ⟨joined, hjoin, rfl⟩ := Option.map_eq_some_iff.mp hstep
    apply StepKeeps.silent hagrees
    unfold join at hjoin
    split at hjoin
    · split at hjoin
      · cases hjoin
        trivial
      · cases hjoin
    · cases hjoin
      trivial
  · cases hstep
    exact .silent hagrees trivial
  · cases hstep

end LoopStep

namespace RecallState

theorem Invariant.step {state next : RecallState} {label : RecallLabel}
    (hinv : state.Invariant) (hstep : RecallState.step state label = some next) :
    next.Invariant := by
  obtain ⟨table, htable, hagrees⟩ := hinv.agrees
  rcases step_cases hstep with
    ⟨index, action, loop, result, -, hloop, hrun, rfl⟩ |
    ⟨present, -, hpresent, rfl⟩ | ⟨present, -, hpresent, rfl⟩
  · rw [htable] at hrun
    have hkeeps := RecallLoop.step_keeps hagrees
      (hinv.registered loop (List.mem_of_getElem? hloop)) hrun
    refine ⟨hkeeps.agrees, ?_, hkeeps.justified hinv.justified⟩
    intro other hother
    cases List.mem_or_eq_of_mem_set hother with
    | inl hold =>
        exact (hinv.registered other hold).mono
          fun event hevent => List.mem_append_right _ hevent
    | inr hnew =>
        subst hnew
        exact hkeeps.registered
  · obtain rfl : table = present := Option.some.inj (htable.symm.trans hpresent)
    refine ⟨⟨table.quitFlow.2, rfl, ?_⟩, ?_, ?_, hinv.justified⟩
    · exact hagrees.close trivial
    · intro other hother
      exact (hinv.registered other hother).mono fun _ hevent => .tail _ hevent
    · intro index callId haccepted
      exact CallIdsVec.mem_storedIds (hagrees.stored index callId haccepted)
  · obtain rfl : table = present := Option.some.inj (htable.symm.trans hpresent)
    refine ⟨⟨table.setReadyToQuite, rfl, ?_⟩, ?_, trivial, hinv.justified⟩
    · exact hagrees.close trivial
    · intro other hother
      exact (hinv.registered other hother).mono fun _ hevent => .tail _ hevent

theorem Invariant.start {recalls : List (List RecallEntry)} (length : Nat)
    (hordinary : ∀ entries ∈ recalls, ∀ entry ∈ entries,
      entry.isDynamic = false) :
    (start (some (.init length)) recalls).Invariant where
  agrees := ⟨_, rfl, .init length⟩
  registered := by
    intro loop hloop
    obtain ⟨entries, hrecall, rfl⟩ := List.mem_map.mp hloop
    exact ⟨hordinary entries hrecall, fun entry hentry => by cases hentry⟩
  justified := trivial

/-- What a quit can rely on.  The history is the newest event first, so what is
before an event stands after it in the list. -/
structure QuitSafe (state : RecallState) : Prop where
  /-- An accepted id is in the table, also long after it was accepted. -/
  stored : ∀ index callId, .accepted index callId ∈ state.history →
    ∃ table, state.table = some table ∧
      table.callIds[index]? = some (some callId)
  /-- A quit cancels every id accepted before it. -/
  cancelled : ∀ later cancelled past index callId,
    state.history = later ++ .quit cancelled :: past →
    .accepted index callId ∈ past → callId ∈ cancelled
  /-- No id is accepted after a quit or after the flow is ready to quit. -/
  closed : ∀ later index callId past event,
    state.history = later ++ .accepted index callId :: past →
    event ∈ past → ¬ event.Closes
  /-- What is launched was accepted before. -/
  launched : ∀ later callId past,
    state.history = later ++ .launched callId :: past →
    ∃ index, .accepted index callId ∈ past
  /-- A quit cancels what was launched before it and what is launched later. -/
  noneEscapes : ∀ cancelled callId, .quit cancelled ∈ state.history →
    .launched callId ∈ state.history → callId ∈ cancelled

theorem accepted_before_quit {history later past : List RecallEvent}
    {cancelled : List CallId} {index : Nat} {callId : CallId}
    (hjustified : History.Justified RecallEvent.Justified history)
    (hquit : history = later ++ .quit cancelled :: past)
    (haccepted : .accepted index callId ∈ history) :
    .accepted index callId ∈ past := by
  rw [hquit, List.mem_append, List.mem_cons] at haccepted
  rcases haccepted with hlater | heq | hpast
  · obtain ⟨newer, older, rfl⟩ := List.append_of_mem hlater
    have hclosed : RecallEvent.Justified (.accepted index callId)
        (older ++ .quit cancelled :: past) :=
      hjustified.event (by rw [hquit, List.append_assoc]; rfl)
    exact absurd trivial
      (hclosed (.quit cancelled) (List.mem_append_right _ List.mem_cons_self))
  · cases heq
  · exact hpast

theorem Invariant.quitSafe {state : RecallState} (hinv : state.Invariant) :
    state.QuitSafe where
  stored := by
    intro index callId haccepted
    obtain ⟨table, htable, hagrees⟩ := hinv.agrees
    exact ⟨table, htable, hagrees.stored index callId haccepted⟩
  cancelled := by
    intro later cancelled past index callId hsplit haccepted
    exact hinv.justified.event hsplit index callId haccepted
  closed := by
    intro later index callId past event hsplit hevent
    exact hinv.justified.event hsplit event hevent
  launched := by
    intro later callId past hsplit
    exact hinv.justified.event hsplit
  noneEscapes := by
    intro cancelled callId hquit hlaunched
    obtain ⟨later, past, hquit⟩ := List.append_of_mem hquit
    obtain ⟨newer, older, hlaunched⟩ := List.append_of_mem hlaunched
    obtain ⟨index, haccepted⟩ := hinv.justified.event hlaunched
    have hmem : .accepted index callId ∈ state.history := by
      rw [hlaunched]
      exact List.mem_append_right _ (.tail _ haccepted)
    have hpast := accepted_before_quit hinv.justified hquit hmem
    exact hinv.justified.event hquit index callId hpast

/-- Whatever the interleaving, no launched call of a recall escapes a quit. -/
theorem quitSafe_of_run (length : Nat) (recalls : List (List RecallEntry))
    (labels : List RecallLabel) {state : RecallState}
    (hordinary : ∀ entries ∈ recalls, ∀ entry ∈ entries, entry.isDynamic = false)
    (hrun : Machine.run step (start (some (.init length)) recalls) labels =
      some state) : state.QuitSafe :=
  (Machine.run_invariant Invariant.step (Invariant.start length hordinary)
    hrun).quitSafe

/-- Two recalls, a quit between the registration and the launch of the first. -/
def twoRecalls : List (List RecallEntry) :=
  [[⟨"weather", 0, 11, false⟩], [⟨"music", 1, 12, false⟩]]

def quitBetween : List RecallLabel :=
  [.loop 0 .register, .loop 0 .advance, .quitFlow, .loop 1 .register,
    .loop 0 (.build (.launched []))]

theorem quitSafe_twoRecalls :
    QuitSafe ⟨some ⟨[some 11, none], [[], []], true⟩,
      [⟨.building [], [⟨"weather", 0, 11, false⟩], [(11, "weather")], ["weather"],
          [11], []⟩,
        ⟨.returned 0, [⟨"music", 1, 12, false⟩], [(12, "music")], [], [], []⟩],
      [.launched 11, .quit [11], .accepted 0 11]⟩ :=
  quitSafe_of_run 2 twoRecalls quitBetween (by decide) (by decide)

end RecallState

end Uskit
