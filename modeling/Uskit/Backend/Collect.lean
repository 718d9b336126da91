import Uskit.Backend.Engine
import Uskit.Data.Selection

namespace Uskit

open Uskit.Data

/-! Which services a synchronous recall counts as answered. -/

/-- A turn of the last loop: a controller, and the context it is reached in. -/
structure Turn where
  cntl : BackendController
  context : Context

namespace Turn

def answer (library : Library) (turn : Turn) : Option (String × Json) :=
  match turn.cntl.parseResponse library turn.context with
  | .ok parsed => some (turn.cntl.serviceName, parsed.response)
  | _ => none

def collected (library : Library) (turn : Turn) : Option (String × Json) :=
  if turn.cntl.brpcController.failed then none else turn.answer library

/-- What a recall is to take from the turn: the request was built, no call
failed, and the response parses. -/
def answered (library : Library) (turn : Turn) : Option (String × Json) :=
  if turn.cntl.built && !turn.cntl.failed then turn.answer library else none

end Turn

def gainMembers (gained : JsonMembers) : Option Json → Option Json
  | some (.object members) => some (.object (members ++ gained))
  | backend => backend

@[simp] theorem gainMembers_nil (backend : Option Json) :
    gainMembers [] backend = backend := by
  cases backend with
  | none => rfl
  | some value => cases value <;> simp [gainMembers]

theorem gainMembers_append (first second : JsonMembers)
    (backend : Option Json) :
    gainMembers (first ++ second) backend =
      gainMembers second (gainMembers first backend) := by
  cases backend with
  | none => rfl
  | some value => cases value <;> simp [gainMembers]

namespace BackendEngine

def turns (library : Library) :
    List BackendController → Collected → List Turn
  | [], _ => []
  | cntl :: rest, collected =>
      ⟨cntl, collected.context⟩ ::
        match collectTurn library cntl collected with
        | .ok next => turns library rest next
        | _ => []

def recallTurns (library : Library) (rpc : RpcReplies) (engine : BackendEngine)
    (recallServices : List String) (context : Context) : List Turn :=
  match engine.request library rpc recallServices context with
  | .ok (cntls, afterBuild) => turns library cntls { context := afterBuild }
  | _ => []

variable {library : Library}

@[simp] theorem cStr_backend : cStr "backend" = "backend" := by decide

theorem getVariable_backend_congr {first second : Context}
    (hsame : first.allNamed "backend" = second.allNamed "backend") :
    first.getVariable "backend" = second.getVariable "backend" :=
  Context.getVariable_congr (by simpa using hsame)

/-- The names that a recall writes, but for `recall` itself. -/
def recallNames : List String :=
  "backend" :: "output" :: RequestPolicy.writtenNames

/-- What turns have done between two states of the last loop. -/
structure Collects (library : Library) (turns : List Turn)
    (before after : Collected) : Prop where
  answers : after.answers =
    before.answers ++ turns.filterMap (Turn.collected library)
  backend : after.context.getVariable "backend" =
    gainMembers (turns.filterMap (Turn.collected library))
      (before.context.getVariable "backend")
  unset : before.context.ownVariables.lookup "backend" = none →
    after.context.ownVariables.lookup "backend" = none
  others : ∀ name ∉ recallNames,
    after.context.allNamed name = before.context.allNamed name

theorem Collects.refl (collected : Collected) :
    Collects library [] collected collected := by
  constructor
  · simp
  · simp
  · exact id
  · intro name _
    rfl

theorem Collects.trans {first second : List Turn}
    {before middle after : Collected}
    (hfirst : Collects library first before middle)
    (hsecond : Collects library second middle after) :
    Collects library (first ++ second) before after := by
  constructor
  · rw [hsecond.answers, hfirst.answers, List.filterMap_append,
      List.append_assoc]
  · rw [hsecond.backend, hfirst.backend, List.filterMap_append,
      gainMembers_append]
  · exact fun hunset => hsecond.unset (hfirst.unset hunset)
  · exact fun name hname =>
      (hsecond.others name hname).trans (hfirst.others name hname)

theorem collects_of_not_collected {cntl : BackendController}
    {collected : Collected} {after : Context}
    (hnone : Turn.collected library ⟨cntl, collected.context⟩ = none)
    (hsame : ∀ name, "output" ≠ name →
      after.allNamed name = collected.context.allNamed name) :
    Collects library [⟨cntl, collected.context⟩] collected
      { collected with context := after } := by
  constructor
  · simp [hnone]
  · simp [hnone, getVariable_backend_congr (hsame "backend" (by decide))]
  · intro hunset
    exact (Context.lookup_of_allNamed (hsame "backend" (by decide))).trans hunset
  · intro name hname
    apply hsame
    intro heq
    subst heq
    exact hname (by decide)

theorem collects_of_collected {cntl : BackendController}
    {collected : Collected} {parsed after : Context} {response : Json}
    (hsome : Turn.collected library ⟨cntl, collected.context⟩ =
      some (cntl.serviceName, response))
    (hsame : ∀ name, "output" ≠ name →
      parsed.allNamed name = collected.context.allNamed name)
    (hadd : parsed.addMember "backend" cntl.serviceName response = .ok after) :
    Collects library [⟨cntl, collected.context⟩] collected
      { context := after
        answers := collected.answers ++ [(cntl.serviceName, response)] } := by
  obtain ⟨members, hmembers, rfl⟩ := Context.addMember_eq_updateVariable hadd
  have hbackend := hsame "backend" (by decide)
  constructor
  · simp [hsome]
  · rw [Context.getVariable_updateVariable_self hmembers,
      ← getVariable_backend_congr hbackend, hmembers]
    simp [hsome, gainMembers]
  · intro hunset
    have hparsed := (Context.lookup_of_allNamed hbackend).trans hunset
    rw [Context.ownVariables_updateVariable_of_none (by rw [cStr_backend, hparsed])]
    exact hparsed
  · intro name hname
    rw [Context.allNamed_updateVariable_of_ne]
    · apply hsame
      intro heq
      subst heq
      exact hname (by decide)
    · intro heq
      subst heq
      exact hname (by decide)

theorem collectTurn_collects {cntl : BackendController}
    {collected next : Collected}
    (hturn : collectTurn library cntl collected = .ok next) :
    Collects library [⟨cntl, collected.context⟩] collected next := by
  unfold collectTurn at hturn
  cases hfailed : cntl.brpcController.failed with
  | true =>
      rw [hfailed, if_pos rfl] at hturn
      cases hturn
      apply collects_of_not_collected
      · simp [Turn.collected, hfailed]
      · intro name _
        rfl
  | false =>
      simp only [hfailed, Bool.false_eq_true, if_false] at hturn
      have hparse : ∀ name, "output" ≠ name → _ := fun name hname =>
        cntl.parseResponse_allNamed library hname collected.context
      cases hparsed : cntl.parseResponse library collected.context with
      | undefined =>
          rw [hparsed] at hturn
          cases hturn
      | failed parsed =>
          rw [hparsed] at hturn
          cases hturn
          apply collects_of_not_collected
          · simp [Turn.collected, Turn.answer, hfailed, hparsed]
          · intro name hname
            have hleaves := hparse name hname
            rw [hparsed] at hleaves
            cases hleaves with
            | failed same => exact same
      | ok parsed =>
          rw [hparsed] at hturn
          obtain ⟨context, hadd, hnext⟩ := Result.bind_eq_ok.mp hturn
          cases hnext
          apply collects_of_collected _ _ hadd
          · simp [Turn.collected, Turn.answer, hfailed, hparsed]
          · intro name hname
            have hleaves := hparse name hname
            rw [hparsed] at hleaves
            exact hleaves.of_ok

theorem collect_collects {cntls : List BackendController}
    {collected final : Collected}
    (hcollect : collect library cntls collected = .ok final) :
    Collects library (turns library cntls collected) collected final := by
  induction cntls generalizing collected with
  | nil =>
      cases hcollect
      exact .refl _
  | cons cntl rest ih =>
      obtain ⟨next, hturn, hrest⟩ := Result.bind_eq_ok.mp hcollect
      have hlater := (collectTurn_collects hturn).trans (ih hrest)
      simp only [turns, hturn]
      exact hlater

variable {rpc : RpcReplies} {engine : BackendEngine}
  {recallServices : List String} {context : Context} {final : Collected}

theorem run_collects
    (hrun : engine.run library rpc recallServices context = .ok final) :
    ∃ after : Context, final.context = after.setVariable "recall" final.recalled ∧
      Collects library
        (engine.recallTurns library rpc recallServices context)
        { context := context } { context := after, answers := final.answers } := by
  obtain ⟨⟨cntls, afterBuild⟩, hrequest, hcollected⟩ :=
    Result.bind_eq_ok.mp hrun
  obtain ⟨collected, hcollect, hfinal⟩ := Result.bind_eq_ok.mp hcollected
  cases hfinal
  have hcollects := collect_collects hcollect
  have hbuild : ∀ name, name ∉ RequestPolicy.writtenNames →
      afterBuild.allNamed name = context.allNamed name :=
    fun name hname => request_allNamed library hname hrequest
  have hbackend := hbuild "backend" (by decide)
  have hturns : engine.recallTurns library rpc recallServices context =
      turns library cntls { context := afterBuild } := by
    rw [recallTurns, hrequest]
  refine ⟨collected.context, rfl, ?_⟩
  rw [hturns]
  constructor
  · exact hcollects.answers
  · rw [hcollects.backend, getVariable_backend_congr hbackend]
  · intro hunset
    exact hcollects.unset ((Context.lookup_of_allNamed hbackend).trans hunset)
  · intro name hname
    rw [hcollects.others name hname]
    apply hbuild
    intro hmem
    exact hname (.tail _ (.tail _ hmem))

/-- An HTTP service whose response is put out as it is. -/
def weatherService (request : HttpRequestConfig) : BackendService where
  name := "weather"
  protocol := .http
  requestPolicy := some (.http { config := request })
  responsePolicy := some
    { config := { output := [("answer", .variable "response")] } }

def weather (request : HttpRequestConfig) : BackendEngine where
  services := [weatherService request]

def sunny : RpcReplies := fun _ _ =>
  { contentType := "text/plain", body := "sunny" }

def emptyFlow : Context := ⟨[], [[("backend", .object [])]]⟩

def weatherRequest : HttpRequestConfig where
  httpMethod := some "get"
  httpUri := some "http://weather/today"

end BackendEngine

end Uskit
