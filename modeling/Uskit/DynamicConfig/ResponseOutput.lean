import Uskit.DynamicConfig.FlowOutput
import Uskit.Json.SelfMerge

namespace Uskit

open Uskit.Data

/-! What `BackendResponseConfig::run` leaves in `output`, for a configuration with
any templates behind it. -/

/-- The key of a definition that leaves `output` and `cond` alone. -/
def KeyApart (key : String) : Prop :=
  ∃ token tokens, pathTokens key = some (token :: tokens) ∧
    token.name ≠ "output" ∧ token.name ≠ "cond"

namespace KEMap

def KeysApart (keMap : KEMap) : Prop :=
  ∀ entry ∈ keMap, KeyApart entry.1

theorem KeysApart.spares {keMap : KEMap} (hkeys : keMap.KeysApart) {name : String}
    (hname : name = "output" ∨ name = "cond") : keMap.Spares name := by
  intro entry hentry
  obtain ⟨token, tokens, hpath, houtput, hcond⟩ := hkeys entry hentry
  rcases hname with rfl | rfl
  · exact ⟨token, tokens, hpath, houtput⟩
  · exact ⟨token, tokens, hpath, hcond⟩

end KEMap

namespace BaseIfConfig

/-- What the block evaluates for its output, once its conditions are true. -/
def document (library : Library) (block : BaseIfConfig) (context : Context) :
    Result Json :=
  match block.definition.runDef library
      (context.enter.setVariable "cond" (.bool true)) with
  | .ok defined => block.output.run library defined
  | .failed _ => .failed
  | .undefined => .undefined

/-- The block left its document with a context that had no output of its own. -/
structure Left (context : Context) (doc : Json) (left : Context) : Prop where
  stored : ∃ defined : Context, defined.parents = context.scopes ∧
    defined.ownVariables.lookup "output" = none ∧
    left = if doc.isNull then defined else defined.mergeVariable "output" doc
  cond : left.getVariable "cond" = some (.bool true)

variable {library : Library} {block : BaseIfConfig} {context left : Context}

/-- The body of a block ends as the evaluation of its document does. -/
theorem runBody_eq (library : Library) (block : BaseIfConfig) (context : Context) :
    match block.document library context with
    | .ok doc =>
        ∃ defined, block.definition.runDef library
            (context.enter.setVariable "cond" (.bool true)) = .ok defined ∧
          block.runBody library (context.enter.setVariable "cond" (.bool true)) =
            .ok (if doc.isNull then defined else defined.mergeVariable "output" doc)
    | .failed => ∃ left, block.runBody library
        (context.enter.setVariable "cond" (.bool true)) = .failed left
    | .undefined => block.runBody library
        (context.enter.setVariable "cond" (.bool true)) = .undefined := by
  unfold document runBody runDocument
  cases block.definition.runDef library
      (context.enter.setVariable "cond" (.bool true)) with
  | failed defined => exact ⟨defined, rfl⟩
  | undefined => rfl
  | ok defined =>
      dsimp only
      rw [Outcome.ok_andThen]
      cases block.output.run library defined with
      | ok doc => exact ⟨defined, rfl, rfl⟩
      | failed => exact ⟨defined, rfl⟩
      | undefined => rfl

theorem verdict_of_document {doc : Json} (hkeys : block.definition.KeysApart)
    (hcond : block.condition.logicalAnd library context.enter = .ok true)
    (hdoc : block.document library context = .ok doc) :
    ∃ left, block.verdict library context = .successful left ∧ Left context doc left := by
  have hbody := runBody_eq library block context
  rw [hdoc] at hbody
  obtain ⟨defined, hdef, hbody⟩ := hbody
  have hparents := block.definition.runDef_parents library
    (context.enter.setVariable "cond" (.bool true))
  have houtput := KEMap.runDef_allNamed library (hkeys.spares (.inl rfl))
    (context.enter.setVariable "cond" (.bool true))
  have hkept := KEMap.runDef_allNamed library (hkeys.spares (.inr rfl))
    (context.enter.setVariable "cond" (.bool true))
  rw [hdef] at hparents houtput hkept
  have hsame : defined.getVariable "cond" = some (.bool true) := by
    rw [← getVariable_cond_setVariable (.bool true) context]
    apply Context.getVariable_congr
    rw [cStr_cond]
    exact hkept.of_ok
  refine ⟨_, by rw [verdict, hcond, hbody], ⟨defined, hparents.of_ok, ?_, rfl⟩, ?_⟩
  · rw [Context.lookup_of_allNamed houtput.of_ok]
    rfl
  · cases doc.isNull with
    | true => exact hsame
    | false =>
        rw [if_neg Bool.false_ne_true, ← hsame]
        apply Context.getVariable_congr
        exact mergeOutput_allNamed (by decide) doc defined

theorem cond_of_successful (hkeys : block.definition.KeysApart)
    (hverdict : block.verdict library context = .successful left) :
    left.getVariable "cond" = some (.bool true) := by
  have hcond : block.condition.logicalAnd library context.enter = .ok true := by
    unfold verdict at hverdict
    split at hverdict
    · assumption
    all_goals cases hverdict
  have hbody := runBody_eq library block context
  cases hdoc : block.document library context with
  | ok doc =>
      obtain ⟨other, hother, hleft⟩ := verdict_of_document hkeys hcond hdoc
      rw [hverdict] at hother
      cases hother
      exact hleft.cond
  | failed =>
      rw [hdoc] at hbody
      obtain ⟨other, hbody⟩ := hbody
      rw [verdict, hcond, hbody] at hverdict
      cases hverdict
  | undefined =>
      rw [hdoc] at hbody
      rw [verdict, hcond, hbody] at hverdict
      cases hverdict

theorem verdict_of_document_failed
    (hcond : block.condition.logicalAnd library context.enter = .ok true)
    (hdoc : block.document library context = .failed) :
    ∃ left, block.verdict library context = .unsuccessful left := by
  have hbody := runBody_eq library block context
  rw [hdoc] at hbody
  obtain ⟨left, hbody⟩ := hbody
  exact ⟨left, by rw [verdict, hcond, hbody]⟩

theorem verdict_of_document_undefined
    (hcond : block.condition.logicalAnd library context.enter = .ok true)
    (hdoc : block.document library context = .undefined) :
    block.verdict library context = .undefined := by
  have hbody := runBody_eq library block context
  rw [hdoc] at hbody
  rw [verdict, hcond, hbody]

end BaseIfConfig

/-- A block that does not give its output is passed over. -/
structure BaseIfConfig.Passed (library : Library) (block : BaseIfConfig)
    (context left : Context) : Prop where
  run : block.run library context.enter = .failed left ∨
    block.run library context.enter = .ok left ∧
      left.getVariable "cond" = some (.bool false)
  leave : left.leave = context

theorem BaseIfConfig.passed_of_unsuccessful {library : Library} {block : BaseIfConfig}
    {context left : Context}
    (hverdict : block.verdict library context = .unsuccessful left) :
    block.Passed library context left :=
  ⟨run_of_unsuccessful hverdict, leave_of_parents (parents_of_unsuccessful hverdict)⟩

/-- Only a block whose conditions are true sets `cond` to true, so that what a run
leaves tells whether the block gave its output. -/
theorem BaseIfConfig.passed_of_run {library : Library} {block : BaseIfConfig}
    {context left : Context} (hkeys : block.definition.KeysApart)
    (hrun : block.run library context.enter = .failed left ∨
      block.run library context.enter = .ok left ∧
        left.getVariable "cond" = some (.bool false)) :
    block.Passed library context left := by
  refine ⟨hrun, ?_⟩
  cases hverdict : block.verdict library context with
  | undefined =>
      rw [run_of_undefined hverdict] at hrun
      rcases hrun with hfailed | ⟨hok, -⟩
      · cases hfailed
      · cases hok
  | unsuccessful other =>
      have hleave := leave_of_parents (parents_of_unsuccessful hverdict)
      rcases run_of_unsuccessful hverdict with hother | ⟨hother, -⟩
      · rw [hother] at hrun
        rcases hrun with hfailed | ⟨hok, -⟩
        · cases hfailed
          exact hleave
        · cases hok
      · rw [hother] at hrun
        rcases hrun with hfailed | ⟨hok, -⟩
        · cases hfailed
        · cases hok
          exact hleave
  | successful other =>
      rw [run_of_successful hverdict] at hrun
      rcases hrun with hfailed | ⟨hok, hcond⟩
      · cases hfailed
      · cases hok
        rw [cond_of_successful hkeys hverdict] at hcond
        cases hcond

theorem chooseIf_of_passed {library : Library} {block : BaseIfConfig}
    {context left : Context} (hpassed : block.Passed library context left)
    (rest : List BaseIfConfig) :
    chooseIf ((block :: rest).map (·.run library)) context =
      (chooseIf (rest.map (·.run library)) context).shift 1 := by
  rw [List.map_cons, chooseIf]
  rcases hpassed.run with hfailed | ⟨hok, hcond⟩
  · rw [hfailed]
    simp only [hpassed.leave]
  · rw [hok]
    simp only [hcond, hpassed.leave]

/-- The document of the first block whose conditions are all true and whose
definitions and output evaluate, if there is one. -/
def firstDocument (library : Library) :
    List BaseIfConfig → Context → Result (Option Json)
  | [], _ => .ok none
  | block :: rest, context =>
      match block.condition.logicalAnd library context.enter with
      | .ok true =>
          match block.document library context with
          | .ok doc => .ok (some doc)
          | .failed => firstDocument library rest context
          | .undefined => .undefined
      | .ok false | .failed => firstDocument library rest context
      | .undefined => .undefined

theorem chooseIf_eq (library : Library) {blocks : List BaseIfConfig}
    (hkeys : ∀ block ∈ blocks, block.definition.KeysApart) (context : Context) :
    match firstDocument library blocks context with
    | .ok (some doc) => ∃ index left,
        chooseIf (blocks.map (·.run library)) context = .chosen index left ∧
          BaseIfConfig.Left context doc left
    | .ok none => chooseIf (blocks.map (·.run library)) context = .default context
    | .failed => False
    | .undefined => chooseIf (blocks.map (·.run library)) context = .undefined := by
  induction blocks with
  | nil => rfl
  | cons block rest ih =>
      rw [List.forall_mem_cons] at hkeys
      have hrest := ih hkeys.2
      have hpass : ∀ left, block.verdict library context = .unsuccessful left →
          match firstDocument library rest context with
          | .ok (some doc) => ∃ index left,
              chooseIf ((block :: rest).map (·.run library)) context =
                  .chosen index left ∧ BaseIfConfig.Left context doc left
          | .ok none =>
              chooseIf ((block :: rest).map (·.run library)) context = .default context
          | .failed => False
          | .undefined =>
              chooseIf ((block :: rest).map (·.run library)) context = .undefined := by
        intro left hverdict
        rw [chooseIf_of_passed (BaseIfConfig.passed_of_unsuccessful hverdict)]
        split at hrest
        · obtain ⟨index, left, hchosen, hleft⟩ := hrest
          exact ⟨index + 1, left, by rw [hchosen]; rfl, hleft⟩
        · rw [hrest]
          rfl
        · exact hrest
        · rw [hrest]
          rfl
      rw [firstDocument]
      cases hcond : block.condition.logicalAnd library context.enter with
      | undefined =>
          have hverdict : block.verdict library context = .undefined := by
            rw [BaseIfConfig.verdict, hcond]
          rw [List.map_cons, chooseIf, BaseIfConfig.run_of_undefined hverdict]
      | failed => exact hpass context.enter (by rw [BaseIfConfig.verdict, hcond])
      | ok condValue =>
          cases condValue with
          | false => exact hpass _ (by rw [BaseIfConfig.verdict, hcond])
          | true =>
              cases hdoc : block.document library context with
              | ok doc =>
                  obtain ⟨left, hverdict, hleft⟩ :=
                    BaseIfConfig.verdict_of_document hkeys.1 hcond hdoc
                  refine ⟨0, left, ?_, hleft⟩
                  rw [List.map_cons, chooseIf, BaseIfConfig.run_of_successful hverdict]
                  simp only [hleft.cond]
              | failed =>
                  obtain ⟨left, hverdict⟩ :=
                    BaseIfConfig.verdict_of_document_failed hcond hdoc
                  exact hpass left hverdict
              | undefined =>
                  have hverdict :=
                    BaseIfConfig.verdict_of_document_undefined hcond hdoc
                  rw [List.map_cons, chooseIf, BaseIfConfig.run_of_undefined hverdict]

/-- The deep merge of a document over the output that is there. -/
def mergedOutput (before : Option Json) (doc : Json) : Option Json :=
  if doc.isNull then before
  else
    match before with
    | none => some doc
    | some existing => mergeJsonObjects existing doc

theorem getVariable_mergeOutput {before : Context} {doc : Json}
    (hmerged : mergedOutput (before.getVariable "output") doc ≠ none)
    (hnull : doc.isNull = false) :
    (before.mergeVariable "output" doc).getVariable "output" =
      mergedOutput (before.getVariable "output") doc := by
  unfold mergedOutput at hmerged ⊢
  rw [hnull, if_neg Bool.false_ne_true] at hmerged ⊢
  unfold Context.mergeVariable
  cases hbefore : before.getVariable "output" with
  | none =>
      rw [Context.getVariable_eq] at hbefore
      rw [Context.getVariable_eq, Context.setVariable]
      rw [cStr_output] at hbefore ⊢
      rw [Option.or_eq_none_iff] at hbefore
      rw [List.lookup_append, hbefore.1, List.lookup_cons_self]
      rfl
  | some existing =>
      rw [hbefore] at hmerged
      dsimp only at hmerged ⊢
      cases hobjects : mergeJsonObjects existing doc with
      | none => exact absurd hobjects hmerged
      | some merged => exact Context.getVariable_updateVariable_self hbefore merged

/-- A block gives its document to a context without an output as it is. -/
theorem takeOutput_of_unset {context left : Context} {doc : Json}
    (hleft : BaseIfConfig.Left context doc left)
    (hunset : context.getVariable "output" = none) :
    (takeOutput left).getVariable "output" = mergedOutput none doc := by
  obtain ⟨defined, hparents, hown, hstored⟩ := hleft.stored
  unfold mergedOutput
  cases hnull : doc.isNull with
  | true =>
      rw [hnull, if_pos rfl] at hstored
      rw [if_pos rfl, hstored, takeOutput, hown]
      dsimp only
      rw [leave_of_parents hparents, hunset]
      exact hunset
  | false =>
      rw [hnull, if_neg Bool.false_ne_true] at hstored
      rw [if_neg Bool.false_ne_true]
      have hnone : defined.getVariable "output" = none := by
        rw [Context.getVariable_of_unset (by rw [cStr_output]; exact hown), hparents]
        exact hunset
      have hset : left = defined.setVariable "output" doc := by
        rw [hstored, Context.mergeVariable, hnone]
      have hlookup : left.ownVariables.lookup "output" = some doc := by
        rw [hset, Context.setVariable, List.lookup_append, hown, List.lookup_cons_self]
        rfl
      have hleave : left.leave = context := by
        apply leave_of_parents
        rw [hset]
        exact hparents
      rw [takeOutput, hlookup]
      dsimp only
      rw [hleave, getVariable_mergeOutput _ hnull, hunset, mergedOutput, hnull]
      · rfl
      · rw [hunset, mergedOutput, hnull]
        exact Option.some_ne_none doc

theorem updateFound_ne_nil (name : String) (replacement : Json) (context : Context) :
    Context.updateFound name replacement context.scopes ≠ [] := by
  rw [Context.scopes, Context.updateFound]
  cases context.ownVariables.lookup name with
  | some _ => exact List.cons_ne_nil _ _
  | none => exact List.cons_ne_nil _ _

/-- A context with an output has the merge of both, merged into itself once more. -/
theorem takeOutput_of_set {context left : Context} {doc existing : Json}
    {members : JsonMembers} (hleft : BaseIfConfig.Left context doc left)
    (hset : context.getVariable "output" = some existing)
    (hmerged : mergedOutput (some existing) doc = some (.object members)) :
    (takeOutput left).getVariable "output" = some (.object (mergeSelf members)) := by
  obtain ⟨defined, hparents, hown, hstored⟩ := hleft.stored
  have hseen : left.ownVariables.lookup "output" = none ∧
      left.leave.getVariable "output" = some (.object members) := by
    unfold mergedOutput at hmerged
    cases hnull : doc.isNull with
    | true =>
        rw [hnull, if_pos rfl] at hstored hmerged
        rw [hstored, leave_of_parents hparents, hset]
        exact ⟨hown, hmerged⟩
    | false =>
        rw [hnull, if_neg Bool.false_ne_true] at hstored hmerged
        dsimp only at hmerged
        have hsome : defined.getVariable "output" = some existing := by
          rw [Context.getVariable_of_unset (by rw [cStr_output]; exact hown), hparents]
          exact hset
        have hupdate : left = { defined with
            parents := Context.updateFound "output" (.object members) context.scopes } := by
          rw [hstored, Context.mergeVariable, hsome]
          dsimp only
          rw [hmerged]
          simp only [Context.updateVariable, cStr_output, hown, hparents]
        rw [hupdate]
        refine ⟨hown, ?_⟩
        rw [Context.getVariable, Context.scopes_leave (updateFound_ne_nil _ _ context),
          cStr_output]
        exact Context.findVariable_updateFound hset _
  rw [takeOutput, hseen.1]
  dsimp only
  rw [hseen.2]
  exact Context.getVariable_updateVariable_self hseen.2 _

namespace ResponseConfig

/-- The document of the first block that gives one, or the default one. -/
def document (library : Library) (config : ResponseConfig) (context : Context) :
    Result Json :=
  match firstDocument library config.ifBlocks context with
  | .ok (some doc) => .ok doc
  | .ok none => config.output.run library context
  | .failed => .failed
  | .undefined => .undefined

/-- `BackendResponseConfig::run` of the first configuration, whose `_template` is the
next one. -/
def runChain (library : Library) : List ResponseConfig → Context → Outcome Context
  | [], context => .ok context
  | config :: templates, context =>
      (config.definition.runDef library context).andThen fun context =>
      (runChain library templates context).andThen (config.runOutput library)

theorem run_eq_runChain (library : Library) (template : Option ResponseConfig)
    (config : ResponseConfig) (context : Context) :
    config.run library template context =
      runChain library (config :: template.toList) context := by
  cases template with
  | none => rfl
  | some template => rfl

/-- What holds of each configuration in the context in which it looks for its output. -/
def AtOutputs (library : Library) (holds : ResponseConfig → Context → Prop) :
    List ResponseConfig → Context → Prop
  | [], _ => True
  | config :: templates, context =>
      ∀ defined, config.definition.runDef library context = .ok defined →
        AtOutputs library holds templates defined ∧
        ∀ before, runChain library templates defined = .ok before → holds config before

def KeysApart (config : ResponseConfig) : Prop :=
  config.definition.KeysApart ∧ ∀ block ∈ config.ifBlocks, block.definition.KeysApart

/-- The output document is an object, or there is none. -/
def ObjectDocument (library : Library) (config : ResponseConfig) (context : Context) :
    Prop :=
  ∀ doc, config.document library context = .ok doc →
    doc.isNull = true ∨ doc.isObject = true

def SameOutput : Option Json → Option Json → Prop :=
  Option.Rel Json.Reordered

/-- The output is the merge of the template's with the document of the configuration,
and blocks that give none have left the context as it was. -/
structure MergesOutput (library : Library) (config : ResponseConfig)
    (before after : Context) : Prop where
  output : ∃ doc, config.document library before = .ok doc ∧
    SameOutput (after.getVariable "output")
      (mergedOutput (before.getVariable "output") doc)
  unchanged : ∀ block ∈ config.ifBlocks, ∀ left,
    (block.run library before.enter = .failed left ∨
      block.run library before.enter = .ok left ∧
        left.getVariable "cond" = some (.bool false)) → left.leave = before

def RunMerges (library : Library) (config : ResponseConfig)
    (templates : List ResponseConfig) (context : Context) : Prop :=
  ∀ after, runChain library (config :: templates) context = .ok after →
    ∃ defined before, config.definition.runDef library context = .ok defined ∧
      runChain library templates defined = .ok before ∧
      MergesOutput library config before after

/-- Where a block gives its document to a context that has an output, the merge of
the two is not changed but for its order when it is merged into itself. -/
def MergesOnce (library : Library) (config : ResponseConfig)
    (templates : List ResponseConfig) (context : Context) : Prop :=
  ∀ defined before existing doc members,
    config.definition.runDef library context = .ok defined →
    runChain library templates defined = .ok before →
    before.getVariable "output" = some existing →
    firstDocument library config.ifBlocks before = .ok (some doc) →
    mergedOutput (some existing) doc = some (.object members) →
      (Json.object (mergeSelf members)).Reordered (.object members)

variable {library : Library} {config : ResponseConfig} {context before after : Context}

/-- No output yet, or an object. -/
def OutputObject (context : Context) : Prop :=
  ∀ existing, context.getVariable "output" = some existing → existing.isObject = true

theorem mergedOutput_object {doc : Json} (hbefore : OutputObject before)
    (hdoc : doc.isNull = true ∨ doc.isObject = true) :
    (∀ merged, mergedOutput (before.getVariable "output") doc = some merged →
      merged.isObject = true) ∧
    (doc.isNull = false → mergedOutput (before.getVariable "output") doc ≠ none) := by
  unfold mergedOutput
  cases hnull : doc.isNull with
  | true =>
      rw [if_pos rfl]
      exact ⟨hbefore, fun hfalse => nomatch hfalse⟩
  | false =>
      rw [if_neg Bool.false_ne_true]
      obtain ⟨source, rfl⟩ := Json.isObject_iff.mp (hdoc.resolve_left (by rw [hnull]; simp))
      cases hexisting : before.getVariable "output" with
      | none =>
          constructor
          · intro merged hmerged
            cases hmerged
            rfl
          · exact fun _ => Option.some_ne_none _
      | some existing =>
          obtain ⟨target, rfl⟩ := Json.isObject_iff.mp (hbefore existing hexisting)
          constructor
          · intro merged hmerged
            cases hmerged
            rfl
          · exact fun _ => Option.some_ne_none _

/-- How a run of the output ends: by a merge, or by a merge and one of its result
into itself. -/
theorem runOutput_cases (hkeys : config.KeysApart) (hbefore : OutputObject before)
    (hdoc : ObjectDocument library config before)
    (hrun : config.runOutput library before = .ok after) :
    (∃ existing doc members, before.getVariable "output" = some existing ∧
      firstDocument library config.ifBlocks before = .ok (some doc) ∧
      mergedOutput (some existing) doc = some (.object members) ∧
      after.getVariable "output" = some (.object (mergeSelf members))) ∨
    ∃ doc, config.document library before = .ok doc ∧
      (before.getVariable "output" = none ∨
        firstDocument library config.ifBlocks before = .ok none) ∧
      after.getVariable "output" = mergedOutput (before.getVariable "output") doc := by
  have hchoice := chooseIf_eq library hkeys.2 before
  unfold runOutput at hrun
  cases hfirst : firstDocument library config.ifBlocks before with
  | failed => rw [hfirst] at hchoice; exact hchoice.elim
  | undefined =>
      rw [hfirst] at hchoice
      rw [hchoice] at hrun
      cases hrun
  | ok found =>
      cases found with
      | some doc =>
          rw [hfirst] at hchoice
          obtain ⟨index, left, hchosen, hleft⟩ := hchoice
          rw [hchosen] at hrun
          cases hrun
          have hdocument : config.document library before = .ok doc := by
            rw [document, hfirst]
          cases hexisting : before.getVariable "output" with
          | none =>
              right
              exact ⟨doc, hdocument, .inl rfl, takeOutput_of_unset hleft hexisting⟩
          | some existing =>
              left
              have hobject := mergedOutput_object hbefore (hdoc doc hdocument)
              rw [hexisting] at hobject
              have hsome : ∃ merged, mergedOutput (some existing) doc = some merged := by
                cases hnull : doc.isNull with
                | true => exact ⟨existing, by rw [mergedOutput, hnull]; rfl⟩
                | false => exact Option.ne_none_iff_exists'.mp (hobject.2 hnull)
              obtain ⟨merged, hmerged⟩ := hsome
              obtain ⟨members, rfl⟩ := Json.isObject_iff.mp (hobject.1 merged hmerged)
              exact ⟨existing, doc, members, rfl, rfl, hmerged,
                takeOutput_of_set hleft hexisting hmerged⟩
      | none =>
          right
          rw [hfirst] at hchoice
          rw [hchoice] at hrun
          simp only [runDocument] at hrun
          cases hdefault : config.output.run library before with
          | failed => rw [hdefault] at hrun; cases hrun
          | undefined => rw [hdefault] at hrun; cases hrun
          | ok doc =>
              rw [hdefault] at hrun
              have hdocument : config.document library before = .ok doc := by
                rw [document, hfirst]
                exact hdefault
              refine ⟨doc, hdocument, .inr rfl, ?_⟩
              have hobject := mergedOutput_object hbefore (hdoc doc hdocument)
              cases hnull : doc.isNull with
              | true =>
                  rw [Outcome.evaluate_ok, hnull, if_pos rfl] at hrun
                  cases hrun
                  unfold mergedOutput
                  rw [hnull, if_pos rfl]
              | false =>
                  rw [Outcome.evaluate_ok, hnull, if_neg Bool.false_ne_true] at hrun
                  cases hrun
                  exact getVariable_mergeOutput (hobject.2 hnull) hnull

theorem runOutput_of_first {existing doc : Json} {members : JsonMembers}
    (hkeys : config.KeysApart) (hexisting : before.getVariable "output" = some existing)
    (hfirst : firstDocument library config.ifBlocks before = .ok (some doc))
    (hmerged : mergedOutput (some existing) doc = some (.object members)) :
    ∃ after, config.runOutput library before = .ok after ∧
      after.getVariable "output" = some (.object (mergeSelf members)) := by
  have hchoice := chooseIf_eq library hkeys.2 before
  rw [hfirst] at hchoice
  obtain ⟨index, left, hchosen, hleft⟩ := hchoice
  exact ⟨takeOutput left, by rw [runOutput, hchosen],
    takeOutput_of_set hleft hexisting hmerged⟩

theorem outputObject_of_run (hkeys : config.KeysApart) (hbefore : OutputObject before)
    (hdoc : ObjectDocument library config before)
    (hrun : config.runOutput library before = .ok after) : OutputObject after := by
  intro existing hexisting
  rcases runOutput_cases hkeys hbefore hdoc hrun with
    ⟨_, _, _, -, -, -, hself⟩ | ⟨doc, hdocument, -, hmerged⟩
  · rw [hself] at hexisting
    cases hexisting
    rfl
  · rw [hmerged] at hexisting
    exact (mergedOutput_object hbefore (hdoc doc hdocument)).1 existing hexisting

theorem getVariable_output_of_runDef {definition : KEMap} (hkeys : definition.KeysApart)
    (hrun : definition.runDef library context = .ok after) :
    after.getVariable "output" = context.getVariable "output" := by
  have hkept := KEMap.runDef_allNamed library (hkeys.spares (.inl rfl)) context
  rw [hrun] at hkept
  apply Context.getVariable_congr
  rw [cStr_output]
  exact hkept.of_ok

theorem runChain_cons {templates : List ResponseConfig} :
    runChain library (config :: templates) context = .ok after ↔
      ∃ defined before, config.definition.runDef library context = .ok defined ∧
        runChain library templates defined = .ok before ∧
        config.runOutput library before = .ok after := by
  rw [runChain]
  constructor
  · intro hrun
    obtain ⟨defined, hdef, hrest⟩ := Outcome.andThen_eq_ok.mp hrun
    obtain ⟨before, hchain, houtput⟩ := Outcome.andThen_eq_ok.mp hrest
    exact ⟨defined, before, hdef, hchain, houtput⟩
  · intro hsteps
    obtain ⟨defined, before, hdef, hchain, hrun⟩ := hsteps
    rw [hdef, Outcome.ok_andThen, hchain, Outcome.ok_andThen, hrun]

/-- Templates leave no output, or an object. -/
theorem outputObject_of_runChain {chain : List ResponseConfig}
    (hkeys : ∀ config ∈ chain, config.KeysApart) (hcontext : OutputObject context)
    (hdocs : AtOutputs library (ObjectDocument library) chain context)
    (hrun : runChain library chain context = .ok after) : OutputObject after := by
  induction chain generalizing context after with
  | nil =>
      cases hrun
      exact hcontext
  | cons config templates ih =>
      rw [List.forall_mem_cons] at hkeys
      obtain ⟨defined, before, hdef, hchain, houtput⟩ := runChain_cons.mp hrun
      obtain ⟨htemplates, hdoc⟩ := hdocs defined hdef
      have hdefined : OutputObject defined := by
        intro existing hexisting
        rw [getVariable_output_of_runDef hkeys.1.1 hdef] at hexisting
        exact hcontext existing hexisting
      exact outputObject_of_run hkeys.1 (ih hkeys.2 hdefined htemplates hchain)
        (hdoc before hchain) houtput

/-- A block that wrote into the template's output has it merged into itself on the
way back; nothing else can go wrong. -/
theorem runMerges_iff {library : Library} {config : ResponseConfig}
    {templates : List ResponseConfig} {context : Context}
    (hunset : context.getVariable "output" = none)
    (hkeys : ∀ other ∈ config :: templates, other.KeysApart)
    (hdocs : AtOutputs library (ObjectDocument library) (config :: templates) context) :
    RunMerges library config templates context ↔
      MergesOnce library config templates context := by
  have hobject : ∀ {defined before}, config.definition.runDef library context = .ok defined →
      runChain library templates defined = .ok before → OutputObject before := by
    intro defined before hdef hchain
    apply outputObject_of_runChain (fun other hother => hkeys other (.tail _ hother)) _
      (hdocs defined hdef).1 hchain
    intro existing hexisting
    rw [getVariable_output_of_runDef (hkeys config List.mem_cons_self).1 hdef,
      hunset] at hexisting
    cases hexisting
  constructor
  · intro hmerges defined before existing doc members hdef hchain hexisting hfirst hmerged
    obtain ⟨after, hrun, hself⟩ := runOutput_of_first
      (hkeys config List.mem_cons_self) hexisting hfirst hmerged
    obtain ⟨_, _, hdef', hchain', ⟨other, hdocument, hsame⟩, -⟩ :=
      hmerges after (runChain_cons.mpr ⟨defined, before, hdef, hchain, hrun⟩)
    rw [hdef] at hdef'
    cases hdef'
    rw [hchain] at hchain'
    cases hchain'
    rw [document, hfirst] at hdocument
    cases hdocument
    rw [hself, hexisting, hmerged] at hsame
    cases hsame with
    | some hreordered => exact hreordered
  · intro honce after hrun
    obtain ⟨defined, before, hdef, hchain, houtput⟩ := runChain_cons.mp hrun
    refine ⟨defined, before, hdef, hchain, ?_, ?_⟩
    · rcases runOutput_cases (hkeys config List.mem_cons_self) (hobject hdef hchain)
        ((hdocs defined hdef).2 before hchain) houtput with
        ⟨existing, doc, members, hexisting, hfirst, hmerged, hself⟩ |
          ⟨doc, hdocument, -, hmerged⟩
      · refine ⟨doc, by rw [document, hfirst], ?_⟩
        rw [hself, hexisting, hmerged]
        exact .some (honce defined before existing doc members hdef hchain hexisting hfirst
          hmerged)
      · refine ⟨doc, hdocument, ?_⟩
        rw [hmerged]
        cases mergedOutput (before.getVariable "output") doc with
        | none => exact .none
        | some merged => exact .some (.refl merged)
    · intro block hblock left hleft
      exact (BaseIfConfig.passed_of_run
        ((hkeys config List.mem_cons_self).2 block hblock) hleft).leave

theorem mergedOutput_uniqueNames {existing doc merged : Json}
    (hexisting : existing.UniqueNames) (hdoc : doc.UniqueNames)
    (hmerged : mergedOutput (some existing) doc = some merged) : merged.UniqueNames := by
  unfold mergedOutput at hmerged
  split at hmerged
  · cases hmerged
    exact hexisting
  · dsimp only at hmerged
    cases existing with
    | object target =>
        cases doc with
        | object source =>
            rw [mergeJsonObjects] at hmerged
            cases hmerged
            have hunique := mergeValue_uniqueNames hdoc hexisting
            rw [mergeValue] at hunique
            exact hunique
        | _ => cases hmerged
    | _ => cases hmerged

/-- Where a block finds the output of a template to write into, no object in that
output or in the block's document repeats the name of a member. -/
def NamesUnrepeated (library : Library) (config : ResponseConfig)
    (templates : List ResponseConfig) (context : Context) : Prop :=
  ∀ defined before existing doc, config.definition.runDef library context = .ok defined →
    runChain library templates defined = .ok before →
    before.getVariable "output" = some existing →
    firstDocument library config.ifBlocks before = .ok (some doc) →
      existing.UniqueNames ∧ doc.UniqueNames

/-- Documents in which no object repeats a name are merged once. -/
theorem NamesUnrepeated.mergesOnce {templates : List ResponseConfig}
    (hunique : NamesUnrepeated library config templates context) :
    MergesOnce library config templates context := by
  intro defined before existing doc members hdef hchain hexisting hfirst hmerged
  obtain ⟨houtput, hdocument⟩ :=
    hunique defined before existing doc hdef hchain hexisting hfirst
  exact mergeSelf_reordered (mergedOutput_uniqueNames houtput hdocument hmerged)

theorem runMerges_of_unrepeated {library : Library} {config : ResponseConfig}
    {templates : List ResponseConfig} {context : Context}
    (hunset : context.getVariable "output" = none)
    (hkeys : ∀ other ∈ config :: templates, other.KeysApart)
    (hdocs : AtOutputs library (ObjectDocument library) (config :: templates) context)
    (hunique : NamesUnrepeated library config templates context) :
    RunMerges library config templates context :=
  (runMerges_iff hunset hkeys hdocs).mpr hunique.mergesOnce

def title : Json := .object [("text", .string "weather")]

def titled : ResponseConfig where
  output := [("title/text", .string "weather")]

def forwarding : ResponseConfig where
  ifBlocks := [{ output := [("result", .variable "response")] }]

def answered (response : Json) : Context :=
  ⟨[("response", response)], []⟩

theorem forwarding_keysApart :
    ∀ other ∈ [forwarding, titled], other.KeysApart := by
  intro other hother
  rw [List.mem_cons, List.mem_singleton] at hother
  have hnone : KEMap.KeysApart [] := fun entry hentry => nomatch hentry
  rcases hother with rfl | rfl
  · refine ⟨hnone, ?_⟩
    intro block hblock
    rw [List.mem_singleton.mp hblock]
    exact hnone
  · exact ⟨hnone, fun block hblock => nomatch hblock⟩

theorem run_titled (response : Json) :
    runChain .bare [titled] (answered response) =
      .ok ⟨[("response", response), ("output", .object [("title", title)])], []⟩ :=
  rfl

theorem firstDocument_forwarding (response output : Json) :
    firstDocument .bare forwarding.ifBlocks
        ⟨[("response", response), ("output", output)], []⟩ =
      .ok (some (.object [("result", response)])) :=
  rfl

theorem forwarding_objectDocuments (response : Json) :
    AtOutputs .bare (ObjectDocument .bare) [forwarding, titled] (answered response) := by
  intro defined hdef
  cases hdef
  refine ⟨?_, ?_⟩
  · intro defined hdef
    cases hdef
    refine ⟨trivial, ?_⟩
    intro before hchain doc hdoc
    cases hchain
    cases hdoc
    exact .inr rfl
  · intro before hchain doc hdoc
    rw [run_titled] at hchain
    cases hchain
    cases hdoc
    exact .inr rfl

theorem runMerges_forwarding :
    RunMerges .bare forwarding [titled] (answered (.object [("code", .bool true)])) := by
  apply runMerges_of_unrepeated rfl forwarding_keysApart (forwarding_objectDocuments _)
  intro defined before existing doc hdef hchain hexisting hdoc
  cases hdef
  rw [run_titled] at hchain
  cases hchain
  have hsingle : ∀ name value, Json.UniqueNames value →
      (Json.object [(name, value)]).UniqueNames := fun name value hvalue =>
    .object (List.nodup_singleton _) (by simpa using hvalue)
  cases hexisting
  cases hdoc
  constructor
  · exact hsingle _ _ (hsingle _ _ (.scalar (by simp) (by simp)))
  · exact hsingle _ _ (hsingle _ _ (.scalar (by simp) (by simp)))

/-- A response with two members of one name. -/
def repeated : Json :=
  .object [("day", .object [("rain", .null)]), ("day", .object [("snow", .null)])]

theorem run_repeated :
    ∃ after, runChain .bare [forwarding, titled] (answered repeated) = .ok after ∧
      after.getVariable "output" = some (.object [("title", title), ("result", .object
        [("day", .object [("rain", .null), ("snow", .null)]),
          ("day", .object [("snow", .null)])])]) := by
  have hmerged : mergedOutput (some (.object [("title", title)]))
      (.object [("result", repeated)]) =
        some (.object [("title", title), ("result", repeated)]) := rfl
  obtain ⟨after, hrun, houtput⟩ :=
    runOutput_of_first (forwarding_keysApart forwarding List.mem_cons_self) rfl
      (firstDocument_forwarding repeated (.object [("title", title)])) hmerged
  refine ⟨after, runChain_cons.mpr ⟨_, _, rfl, run_titled repeated, hrun⟩, ?_⟩
  rw [houtput]
  decide

/-- The second `day` is merged into the first one. -/
theorem repeated_mergedTwice :
    ¬ ∀ library config templates context, context.getVariable "output" = none →
      (∀ other ∈ config :: templates, other.KeysApart) →
      AtOutputs library (ObjectDocument library) (config :: templates) context →
        RunMerges library config templates context := by
  intro hall
  have hmerges := hall .bare forwarding [titled] (answered repeated) rfl
    forwarding_keysApart (forwarding_objectDocuments repeated)
  obtain ⟨after, hrun, houtput⟩ := run_repeated
  obtain ⟨defined, before, hdef, hchain, ⟨doc, hdoc, hsame⟩, -⟩ := hmerges after hrun
  cases hdef
  rw [run_titled] at hchain
  cases hchain
  have hdocument : forwarding.document .bare
      ⟨[("response", repeated), ("output", .object [("title", title)])], []⟩ =
        .ok (.object [("result", repeated)]) := rfl
  rw [hdocument] at hdoc
  cases hdoc
  have hbefore : Context.getVariable "output"
      ⟨[("response", repeated), ("output", .object [("title", title)])], []⟩ =
        some (.object [("title", title)]) := rfl
  have hmerged : mergedOutput (some (.object [("title", title)]))
      (.object [("result", repeated)]) =
        some (.object [("title", title), ("result", repeated)]) := rfl
  rw [houtput, hbefore, hmerged] at hsame
  cases hsame with
  | some hobject =>
      have hresult := hobject.of_findMember "result" rfl rfl
      have hday := hresult.of_findMember "day" rfl rfl
      have hsnow := hday.lookup "snow"
      have hadded : (Json.object [("rain", .null), ("snow", .null)]).findMember? "snow" =
          some .null := rfl
      have hmissing : (Json.object [("rain", .null)]).findMember? "snow" = none := rfl
      rw [hadded, hmissing] at hsnow
      cases hsnow

end ResponseConfig

end Uskit
