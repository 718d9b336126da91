import Uskit.Closure.Cancellation

namespace Uskit

open Uskit.Data

/-! Which calls a closure reaches: those that were listed when it was built. -/

namespace CancelRecall

/-- The call is listed for the closures from the controller `index` on. -/
def Listed (recalled : CancelRecall) (launched : List RpcId) (index : Nat) (callId : RpcId)
    (priority : Int) : Prop :=
  ∃ cntl, recalled.cntls[callId.cntl]? = some cntl ∧ priority = cntl.priority ∧
    match callId with
    | .own _ => recalled.isAsync = false ∨ cntl.isDynamic = false
    | .sub owner _ => recalled.isAsync = true ∧ owner < index ∧ callId ∈ launched

theorem Listed.congr {recalled : CancelRecall} {first second : List RpcId}
    {low high : Nat} {callId : RpcId} {priority : Int}
    (hsame : ∀ owner index, callId = .sub owner index → recalled.isAsync = true →
      (owner < low ∧ callId ∈ first ↔ owner < high ∧ callId ∈ second)) :
    recalled.Listed first low callId priority ↔
      recalled.Listed second high callId priority := by
  cases callId with
  | own owner => rfl
  | sub owner index =>
      unfold Listed
      dsimp only
      constructor
      · intro hlisted
        obtain ⟨cntl, hcntl, hpriority, hasync, hold⟩ := hlisted
        exact ⟨cntl, hcntl, hpriority, hasync, (hsame owner index rfl hasync).mp hold⟩
      · intro hlisted
        obtain ⟨cntl, hcntl, hpriority, hasync, hold⟩ := hlisted
        exact ⟨cntl, hcntl, hpriority, hasync, (hsame owner index rfl hasync).mpr hold⟩

/-- The closures after a dynamic service have its calls in addition. -/
theorem listed_succ {recalled : CancelRecall} {launched : List RpcId} {index : Nat}
    {cntl : RecallCntl} (hasync : recalled.isAsync = true)
    (hcntl : recalled.cntls[index]? = some cntl) (callId : RpcId) (priority : Int) :
    recalled.Listed launched (index + 1) callId priority ↔
      recalled.Listed launched index callId priority ∨
        ∃ position, callId = .sub index position ∧ callId ∈ launched ∧
          priority = cntl.priority := by
  constructor
  · intro hlisted
    obtain ⟨own, hown, hpriority, hkind⟩ := hlisted
    cases callId with
    | own => exact .inl ⟨own, hown, hpriority, hkind⟩
    | sub owner position =>
        rcases Nat.lt_succ_iff_lt_or_eq.mp hkind.2.1 with hbefore | rfl
        · exact .inl ⟨own, hown, hpriority, hasync, hbefore, hkind.2.2⟩
        · have heq : cntl = own := Option.some.inj (hcntl.symm.trans hown)
          exact .inr ⟨position, rfl, hkind.2.2, by rw [hpriority, heq]⟩
  · intro hlisted
    rcases hlisted with ⟨own, hown, hpriority, hkind⟩ | ⟨position, rfl, hmem, rfl⟩
    · refine ⟨own, hown, hpriority, ?_⟩
      cases callId with
      | own => exact hkind
      | sub => exact ⟨hasync, Nat.lt_succ_of_lt hkind.2.1, hkind.2.2⟩
    · exact ⟨cntl, hcntl, rfl, hasync, Nat.lt_succ_self index, hmem⟩

theorem mem_ownIds {recalled : CancelRecall} {callId : RpcId} {priority : Int} :
    (callId, priority) ∈ recalled.ownIds ↔ recalled.Listed [] 0 callId priority := by
  unfold ownIds
  rw [List.mem_filterMap]
  constructor
  · intro hlisted
    obtain ⟨⟨cntl, index⟩, hentry, hgiven⟩ := hlisted
    rw [List.mem_zipIdx_iff_getElem?] at hentry
    dsimp only at hgiven hentry
    split at hgiven
    · cases hgiven
    · rename_i hkept
      cases hgiven
      refine ⟨cntl, hentry, rfl, ?_⟩
      simpa [or_iff_not_imp_left] using hkept
  · intro hlisted
    obtain ⟨cntl, hcntl, rfl, hkind⟩ := hlisted
    cases callId with
    | sub owner index => exact absurd hkind.2.1 (Nat.not_lt_zero owner)
    | own owner =>
        refine ⟨(cntl, owner), List.mem_zipIdx_iff_getElem?.mpr hcntl, ?_⟩
        dsimp only at hkind ⊢
        rw [if_neg]
        rcases hkind with hsync | hplain
        · simp [hsync]
        · simp [hplain]

end CancelRecall

namespace CancelState

/-- The call is one that its controller makes, and was made. -/
def Made (state : CancelState) (callId : RpcId) (cntl : RecallCntl) : Prop :=
  callId.cntl < state.phase.started ∧
    match callId with
    | .own _ => cntl.isDynamic = false
    | .sub owner index => cntl.isDynamic = true ∧
        ∀ sent, state.phase.sentBy owner = some sent → index < sent

/-- What the second loop has done by then. -/
structure Consistent (recalled : CancelRecall) (state : CancelState) : Prop where
  count : state.closures.length = state.phase.started
  launched : ∀ callId ∈ state.launched, ∃ cntl,
    recalled.cntls[callId.cntl]? = some cntl ∧ state.Made callId cntl
  sent : ∀ index sent cntl, state.phase.sentBy index = some sent →
    recalled.cntls[index]? = some cntl → cntl.isDynamic = true →
      ∀ callId ∈ subIds index sent, callId ∈ state.launched
  listed : ∀ callId priority, (callId, priority) ∈ state.cntlsCallIds ↔
    recalled.Listed state.launched state.phase.index callId priority
  closure : ∀ index closure, state.closures[index]? = some closure → ∃ cntl,
    recalled.cntls[index]? = some cntl ∧ closure.selfPriority = cntl.priority ∧
      closure.kind = buildControllerClosure recalled.cancelOrder recalled.isAsync ∧
      ∀ callId priority, (callId, priority) ∈ closure.rpcIds ↔
        recalled.Listed state.launched index callId priority
  ended : ∀ callId, (state.ended.lookup callId).isSome → callId ∈ state.launched
  noTable : recalled.engine = .async false → ∀ callId ∈ state.launched, ∀ cntl,
    recalled.cntls[callId.cntl]? = some cntl → cntl.isDynamic = true →
      state.phase.index ≤ callId.cntl
  storedOwn : ∀ index, index < recalled.cntls.length → .own index ∈ state.stored
  storedSub : recalled.engine = .async true → ∀ callId ∈ state.launched, ∀ cntl,
    recalled.cntls[callId.cntl]? = some cntl → cntl.isDynamic = true →
      callId.cntl < state.phase.index → callId ∈ state.stored

theorem start_consistent (recalled : CancelRecall) : Consistent recalled recalled.start where
  count := rfl
  launched := List.forall_mem_nil _
  sent _ _ _ hphase := nomatch hphase
  listed _ _ := CancelRecall.mem_ownIds
  closure _ _ hclosure := nomatch hclosure
  ended _ hended := nomatch hended
  noTable _ := List.forall_mem_nil _
  storedOwn index hindex :=
    List.mem_map.mpr ⟨index, List.mem_range.mpr hindex, rfl⟩
  storedSub _ := List.forall_mem_nil _

theorem mem_subIds {index sent : Nat} {callId : RpcId} :
    callId ∈ subIds index sent ↔
      ∃ position, position < sent ∧ callId = .sub index position := by
  simp [subIds, eq_comm]

section Steps

variable {recalled : CancelRecall} {state : CancelState} {index sent : Nat}

theorem isAsync_of_engine {idsPtr : Bool} (hengine : recalled.engine = .async idsPtr) :
    recalled.isAsync = true := by
  rw [CancelRecall.isAsync, hengine]
  rfl

/-- A dynamic service makes its sub-calls only. -/
theorem Made.eq_sub {callId : RpcId} {cntl : RecallCntl} (hmade : state.Made callId cntl)
    (hdynamic : cntl.isDynamic = true) :
    ∃ position, callId = .sub callId.cntl position := by
  cases callId with
  | own owner =>
      have hplain := hmade.2
      dsimp only at hplain
      rw [hdynamic] at hplain
      cases hplain
  | sub owner position => exact ⟨position, rfl⟩

theorem Made.later {callId : RpcId} {cntl : RecallCntl} {next : CancelState}
    (hmade : state.Made callId cntl) (hstarted : state.phase.started ≤ next.phase.started)
    (hsent : ∀ owner position count, callId = .sub owner position →
      next.phase.sentBy owner = some count → position < count) :
    next.Made callId cntl := by
  refine ⟨Nat.lt_of_lt_of_le hmade.1 hstarted, ?_⟩
  cases callId with
  | own => exact hmade.2
  | sub owner position =>
      exact ⟨hmade.2.1, fun count hcount => hsent owner position count rfl hcount⟩

/-- At the next controller nothing is being sent. -/
theorem Made.advance {callId : RpcId} {cntl : RecallCntl} {next : CancelState}
    (hmade : state.Made callId cntl) (hbuilt : state.phase.started = index + 1)
    (hphase : next.phase = .building (index + 1)) : next.Made callId cntl := by
  apply hmade.later
  · rw [hbuilt, hphase]
    exact Nat.le_refl (index + 1)
  · intro _ _ _ _ hcount
    rw [hphase] at hcount
    cases hcount

theorem nextCall_spec {cntl : RecallCntl} {callId : RpcId}
    (hcall : nextCall index sent cntl = some callId) :
    cntl.isDynamic = true ∧ callId = .sub index sent ∨
      cntl.isDynamic = false ∧ callId = .own index := by
  unfold nextCall at hcall
  split at hcall
  · rename_i hdynamic
    exact .inl ⟨hdynamic, (Option.some.inj hcall).symm⟩
  · rename_i hplain
    split at hcall
    · exact .inr ⟨Bool.eq_false_iff.mpr hplain, (Option.some.inj hcall).symm⟩
    · cases hcall

/-- A call of the controller that the loop is at is listed by nobody yet. -/
theorem listed_launch {launched : List RpcId} {low : Nat} {callId : RpcId}
    (howner : callId.cntl = index) (hlow : low ≤ index) (other : RpcId) (priority : Int) :
    recalled.Listed launched low other priority ↔
      recalled.Listed (launched ++ [callId]) low other priority := by
  apply CancelRecall.Listed.congr
  intro owner position hother _
  rw [List.mem_append, List.mem_singleton]
  constructor
  · exact fun hold => ⟨hold.1, .inl hold.2⟩
  · intro hnew
    refine ⟨hnew.1, hnew.2.resolve_right ?_⟩
    intro heq
    rw [← heq, hother] at howner
    exact absurd howner (Nat.ne_of_lt (Nat.lt_of_lt_of_le hnew.1 hlow))

theorem Consistent.build (hstate : Consistent recalled state)
    (hphase : state.phase = .building index) {cntl : RecallCntl}
    (hcntl : recalled.cntls[index]? = some cntl) :
    Consistent recalled { state with
      phase := .requesting index 0
      closures := state.closures ++
        [⟨buildControllerClosure recalled.cancelOrder recalled.isAsync,
          state.cntlsCallIds, cntl.priority⟩] } := by
  obtain ⟨hcount, hlaunched, -, hlisted, hclosure, hended, hnoTable, hown, hsub⟩ := hstate
  rw [hphase] at hcount hlisted hnoTable hsub
  refine ⟨?_, ?_, ?_, hlisted, ?_, hended, hnoTable, hown, hsub⟩
  · rw [List.length_append, hcount]
    rfl
  · intro callId hmem
    obtain ⟨owner, howner, hmade⟩ := hlaunched callId hmem
    have hbefore : callId.cntl < index := by
      have hstarted := hmade.1
      rw [hphase] at hstarted
      exact hstarted
    refine ⟨owner, howner, hmade.later ?_ ?_⟩
    · rw [hphase]
      exact Nat.le_succ index
    · intro other _ _ hcall hcount
      obtain ⟨rfl, -⟩ := BuildPhase.sentBy_requesting.mp hcount
      rw [hcall] at hbefore
      exact absurd hbefore (Nat.lt_irrefl index)
  · intro _ _ _ hother _ _ callId hmem
    obtain ⟨rfl, rfl⟩ := BuildPhase.sentBy_requesting.mp hother
    cases hmem
  · intro position closure hfound
    rw [List.getElem?_append] at hfound
    split at hfound
    · exact hclosure position closure hfound
    · rename_i hlast
      have hposition : position = index := by
        have hlength := (List.getElem?_eq_some_iff.mp hfound).1
        rw [hcount] at hlast hlength
        simp only [BuildPhase.started, List.length_singleton] at hlast hlength
        omega
      subst hposition
      have hzero : position - state.closures.length = 0 := by
        rw [hcount]
        exact Nat.sub_self position
      rw [hzero] at hfound
      cases hfound
      exact ⟨cntl, hcntl, rfl, rfl, hlisted⟩

theorem Consistent.launch (hstate : Consistent recalled state)
    (hphase : state.phase = .requesting index sent) {cntl : RecallCntl} {callId : RpcId}
    (hcntl : recalled.cntls[index]? = some cntl)
    (hcall : nextCall index sent cntl = some callId) :
    Consistent recalled { state with
      phase := .requesting index (sent + 1)
      launched := state.launched ++ [callId] } := by
  obtain ⟨hcount, hlaunched, hsent, hlisted, hclosure, hended, hnoTable, hown, hsub⟩ :=
    hstate
  have hspec := nextCall_spec hcall
  have howner : callId.cntl = index := by
    rcases hspec with ⟨-, rfl⟩ | ⟨-, rfl⟩ <;> rfl
  have hsentBy : state.phase.sentBy index = some sent := by
    rw [hphase]
    exact BuildPhase.sentBy_requesting.mpr ⟨rfl, rfl⟩
  have hstarted : state.phase.started = index + 1 := by rw [hphase]; rfl
  rw [hphase] at hcount hlisted hnoTable hsub
  refine ⟨hcount, ?_, ?_, ?_, ?_, ?_, ?_, hown, ?_⟩
  · rw [List.forall_mem_append, List.forall_mem_singleton]
    constructor
    · intro other hmem
      obtain ⟨ownerCntl, hfound, hmade⟩ := hlaunched other hmem
      refine ⟨ownerCntl, hfound, hmade.later (Nat.le_of_eq hstarted) ?_⟩
      intro _ _ _ hother hnewCount
      obtain ⟨rfl, rfl⟩ := BuildPhase.sentBy_requesting.mp hnewCount
      rw [hother] at hmade
      exact Nat.lt_succ_of_lt (hmade.2.2 sent hsentBy)
    · refine ⟨cntl, by rw [howner, hcntl], ?_⟩
      rcases hspec with ⟨hdynamic, rfl⟩ | ⟨hplain, rfl⟩
      · refine ⟨Nat.lt_succ_self index, hdynamic, ?_⟩
        intro _ hnewCount
        obtain ⟨-, rfl⟩ := BuildPhase.sentBy_requesting.mp hnewCount
        exact Nat.lt_succ_self sent
      · exact ⟨Nat.lt_succ_self index, hplain⟩
  · intro _ _ other hother hfound hdynamic call hmem
    obtain ⟨rfl, rfl⟩ := BuildPhase.sentBy_requesting.mp hother
    rw [hcntl] at hfound
    cases hfound
    obtain ⟨position, hposition, rfl⟩ := mem_subIds.mp hmem
    rw [List.mem_append, List.mem_singleton]
    rcases Nat.lt_succ_iff_lt_or_eq.mp hposition with hbefore | rfl
    · exact .inl (hsent index sent cntl hsentBy hcntl hdynamic _
        (mem_subIds.mpr ⟨position, hbefore, rfl⟩))
    · rcases hspec with ⟨-, rfl⟩ | ⟨hplain, -⟩
      · exact .inr rfl
      · rw [hplain] at hdynamic
        cases hdynamic
  · intro other priority
    rw [hlisted]
    exact listed_launch howner (Nat.le_refl index) other priority
  · intro position closure hfound
    obtain ⟨own, hfoundOwn, hpriority, hkind, hids⟩ := hclosure position closure hfound
    have hposition : position ≤ index := by
      have hlength := (List.getElem?_eq_some_iff.mp hfound).1
      rw [hcount] at hlength
      exact Nat.lt_succ_iff.mp hlength
    refine ⟨own, hfoundOwn, hpriority, hkind, ?_⟩
    intro other priority
    rw [hids]
    exact listed_launch howner hposition other priority
  · intro other hother
    exact List.mem_append_left _ (hended other hother)
  · intro hengine
    rw [List.forall_mem_append, List.forall_mem_singleton]
    refine ⟨hnoTable hengine, ?_⟩
    intro _ _ _
    exact Nat.le_of_eq howner.symm
  · intro hengine
    rw [List.forall_mem_append, List.forall_mem_singleton]
    refine ⟨hsub hengine, ?_⟩
    intro _ _ _ hbefore
    exact absurd howner (Nat.ne_of_lt hbefore)

/-- The loop goes on from a controller whose sub-calls, if any, nobody lists. -/
theorem Consistent.advance (hstate : Consistent recalled state)
    (hindex : state.phase.index = index) (hbuilt : state.phase.started = index + 1)
    (hnone : recalled.isAsync = true →
      ∀ position, .sub index position ∉ state.launched) :
    Consistent recalled { state with phase := .building (index + 1) } := by
  obtain ⟨hcount, hlaunched, hsent, hlisted, hclosure, hended, hnoTable, hown, hsub⟩ :=
    hstate
  rw [hbuilt] at hcount
  rw [hindex] at hlisted hnoTable hsub
  have hother : recalled.isAsync = true → ∀ callId ∈ state.launched, ∀ cntl,
      recalled.cntls[callId.cntl]? = some cntl → cntl.isDynamic = true →
        callId.cntl ≠ index := by
    intro hasync callId hmem cntl hcntl hdynamic hindex
    obtain ⟨found, hfound, hmade⟩ := hlaunched callId hmem
    rw [hcntl] at hfound
    cases hfound
    obtain ⟨position, hposition⟩ := hmade.eq_sub hdynamic
    rw [hindex] at hposition
    rw [hposition] at hmem
    exact hnone hasync position hmem
  refine ⟨hcount, ?_, ?_, ?_, hclosure, hended, ?_, hown, ?_⟩
  · intro callId hmem
    obtain ⟨cntl, hcntl, hmade⟩ := hlaunched callId hmem
    exact ⟨cntl, hcntl, hmade.advance hbuilt rfl⟩
  · exact fun _ _ _ hbuilding => nomatch hbuilding
  · intro callId priority
    rw [hlisted]
    apply CancelRecall.Listed.congr
    intro owner position hcall hasync
    constructor
    · exact fun hold => ⟨Nat.lt_succ_of_lt hold.1, hold.2⟩
    · intro hnew
      refine ⟨?_, hnew.2⟩
      rcases Nat.lt_succ_iff_lt_or_eq.mp hnew.1 with hbefore | hindex
      · exact hbefore
      · rw [hcall, hindex] at hnew
        exact absurd hnew.2 (hnone hasync position)
  · intro hengine callId hmem cntl hcntl hdynamic
    exact Nat.lt_of_le_of_ne (hnoTable hengine callId hmem cntl hcntl hdynamic)
      (hother (isAsync_of_engine hengine) callId hmem cntl hcntl hdynamic).symm
  · intro hengine callId hmem cntl hcntl hdynamic hbefore
    have hne := hother (isAsync_of_engine hengine) callId hmem cntl hcntl hdynamic
    exact hsub hengine callId hmem cntl hcntl hdynamic
      (Nat.lt_of_le_of_ne (Nat.lt_succ_iff.mp hbefore) hne)

theorem Consistent.not_mem_sub (hstate : Consistent recalled state) {cntl : RecallCntl}
    (hcntl : recalled.cntls[index]? = some cntl) (hplain : cntl.isDynamic = false)
    (position : Nat) : .sub index position ∉ state.launched := by
  intro hmem
  obtain ⟨found, hfound, -, hdynamic, -⟩ := hstate.launched _ hmem
  rw [show RpcId.cntl (.sub index position) = index from rfl, hcntl] at hfound
  cases hfound
  rw [hplain] at hdynamic
  cases hdynamic

/-- The sub-calls that a dynamic service has sent are listed for the closures that
are still to be built, and for no other. -/
theorem Consistent.register (hstate : Consistent recalled state)
    (hphase : state.phase = .requested index sent) {cntl : RecallCntl}
    (hcntl : recalled.cntls[index]? = some cntl) (hdynamic : cntl.isDynamic = true)
    (hengine : recalled.engine = .async true) :
    Consistent recalled { state with
      phase := .building (index + 1)
      cntlsCallIds := state.cntlsCallIds ++
        (subIds index sent).map fun callId => (callId, cntl.priority)
      stored := state.stored ++ subIds index sent } := by
  obtain ⟨hcount, hlaunched, hsent, hlisted, hclosure, hended, hnoTable, hown, hsub⟩ :=
    hstate
  have hsentBy : state.phase.sentBy index = some sent := by
    rw [hphase]
    exact if_pos rfl
  have hasync := isAsync_of_engine hengine
  have hfresh : ∀ position, .sub index position ∈ state.launched → position < sent := by
    intro position hmem
    obtain ⟨_, _, hmade⟩ := hlaunched _ hmem
    exact hmade.2.2 sent hsentBy
  rw [hphase] at hcount hlisted hsub
  refine ⟨hcount, ?_, ?_, ?_, hclosure, hended, ?_, ?_, ?_⟩
  · intro callId hmem
    obtain ⟨owner, howner, hmade⟩ := hlaunched callId hmem
    exact ⟨owner, howner, hmade.advance (by rw [hphase]; rfl) rfl⟩
  · exact fun _ _ _ hbuilding => nomatch hbuilding
  · intro callId priority
    rw [List.mem_append, hlisted]
    refine Iff.trans ?_ (CancelRecall.listed_succ hasync hcntl callId priority).symm
    apply or_congr_right
    rw [List.mem_map]
    constructor
    · intro hnew
      obtain ⟨call, hcall, heq⟩ := hnew
      cases heq
      have hmem := hsent index sent cntl hsentBy hcntl hdynamic callId hcall
      obtain ⟨position, _, rfl⟩ := mem_subIds.mp hcall
      exact ⟨position, rfl, hmem, rfl⟩
    · intro hmade
      obtain ⟨position, rfl, hmem, rfl⟩ := hmade
      exact ⟨.sub index position, mem_subIds.mpr ⟨position, hfresh position hmem, rfl⟩, rfl⟩
  · intro hother
    rw [hengine] at hother
    cases hother
  · exact fun other hother => List.mem_append_left _ (hown other hother)
  · intro _ callId hmem owner howner hkind hbefore
    rcases Nat.lt_succ_iff_lt_or_eq.mp hbefore with hearlier | hindex
    · exact List.mem_append_left _ (hsub hengine callId hmem owner howner hkind hearlier)
    · obtain ⟨_, hfound, hmade⟩ := hlaunched callId hmem
      rw [howner] at hfound
      cases hfound
      obtain ⟨position, hposition⟩ := hmade.eq_sub hkind
      rw [hindex] at hposition
      subst hposition
      exact List.mem_append_right _
        (mem_subIds.mpr ⟨position, hfresh position hmem, rfl⟩)

theorem Consistent.built (hstate : Consistent recalled state)
    (hphase : state.phase = .requested index sent) {cntl : RecallCntl}
    (hcntl : recalled.cntls[index]? = some cntl) {next : CancelState}
    (hnext : afterBuilt recalled index sent cntl state = some next) :
    Consistent recalled next := by
  unfold afterBuilt at hnext
  split at hnext
  · rename_i hlists
    rw [Bool.and_eq_true] at hlists
    split at hnext
    · rename_i hengine
      cases hnext
      exact hstate.register hphase hcntl hlists.2 hengine
    · cases hnext
  · rename_i hplain
    cases hnext
    apply hstate.advance (by rw [hphase]; rfl) (by rw [hphase]; rfl)
    intro hasync
    rw [hasync, Bool.true_and, Bool.not_eq_true] at hplain
    exact hstate.not_mem_sub hcntl hplain

theorem consistent_step {next : CancelState} {label : CancelLabel}
    (hstate : Consistent recalled state) (hstep : step recalled state label = some next) :
    Consistent recalled next := by
  obtain ⟨index, cntl, -, hphase, hcntl, rfl⟩ |
    ⟨index, sent, cntl, callId, -, hphase, hcntl, hcall, rfl⟩ |
    ⟨index, -, hphase, rfl⟩ | ⟨index, sent, -, hphase, rfl⟩ |
    ⟨index, sent, cntl, -, hphase, hcntl, hnext⟩ |
    ⟨callId, outcome, -, hmem, hpending, rfl⟩ |
    ⟨callId, checks, -, -, -, -, rfl⟩ := step_cases hstep
  · exact hstate.build hphase hcntl
  · exact hstate.launch hphase hcntl hcall
  · apply hstate.advance (by rw [hphase]; rfl) (by rw [hphase]; rfl)
    intro _ position hmem
    obtain ⟨_, _, hmade⟩ := hstate.launched _ hmem
    have hbound : position < 0 :=
      hmade.2.2 0 (by rw [hphase]; exact BuildPhase.sentBy_requesting.mpr ⟨rfl, rfl⟩)
    exact absurd hbound (Nat.not_lt_zero position)
  · obtain ⟨hcount, hlaunched, hsent, hlisted, hclosure, hended, hnoTable, hown, hsub⟩ :=
      hstate
    rw [hphase] at hcount hlisted hnoTable hsub
    refine ⟨hcount, ?_, ?_, hlisted, hclosure, hended, hnoTable, hown, hsub⟩
    · intro callId hmem
      obtain ⟨cntl, hcntl, hmade⟩ := hlaunched callId hmem
      refine ⟨cntl, hcntl, hmade.later (by rw [hphase]; exact Nat.le_refl _) ?_⟩
      intro _ _ count hcall hcount
      rw [hcall] at hmade
      exact hmade.2.2 count (by rw [hphase]; exact hcount)
    · intro other count cntl hother
      exact hsent other count cntl (by rw [hphase]; exact hother)
  · exact hstate.built hphase hcntl hnext
  · obtain ⟨hcount, hlaunched, hsent, hlisted, hclosure, hended, hnoTable, hown, hsub⟩ :=
      hstate
    refine ⟨hcount, hlaunched, hsent, hlisted, hclosure, ?_, hnoTable, hown, hsub⟩
    intro other hother
    by_cases heq : other = callId
    · rw [heq]
      exact hmem
    · apply hended
      rwa [Members.lookup_append_singleton_of_ne heq] at hother
  · exact ⟨hstate.count, hstate.launched, hstate.sent, hstate.listed, hstate.closure,
      hstate.ended, hstate.noTable, hstate.storedOwn, hstate.storedSub⟩

theorem consistent_of_run {labels : List CancelLabel}
    (hrun : Machine.run (step recalled) recalled.start labels = some state) :
    Consistent recalled state :=
  Machine.run_invariant consistent_step (start_consistent recalled) hrun

end Steps

end CancelState

end Uskit
