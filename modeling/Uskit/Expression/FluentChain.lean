import Uskit.Expression.ParserComplete
import Uskit.Expression.Print

namespace Uskit.Expr

/-! The calls that are chained to a call. -/

/-- The calls that are made of the table of functions, and what comes of them. -/
@[ext] structure Chained where
  calls : List (String × List Json)
  result : Result Json

namespace Chained

def after (calls : List (String × List Json)) (chained : Chained) : Chained :=
  ⟨calls ++ chained.calls, chained.result⟩

theorem after_inj {calls : List (String × List Json)} {first second : Chained} :
    after calls first = after calls second ↔ first = second := by
  cases first
  cases second
  simp [after]

end Chained

def attempt (library : Library) (context : Context) (link : String × List Expr)
    (inputs : List Json) : Chained :=
  match runArgs library context link.2 with
  | .ok values =>
      ⟨[(link.1, inputs ++ values)],
        library.callFunction link.1 (inputs ++ values)⟩
  | .failed => ⟨[], .failed⟩
  | .undefined => ⟨[], .undefined⟩

/-- A link and those after it, which get what `pass` makes of the result of the
link before. -/
def runLinks (pass : Json → List Json) (library : Library) (context : Context) :
    (rest : List (String × List Expr)) → (link : String × List Expr) →
      (inputs : List Json) → Chained
  | [], link, inputs => attempt library context link inputs
  | next :: rest, link, inputs =>
      let first := attempt library context link inputs
      match first.result with
      | .ok value =>
          (runLinks pass library context rest next (pass value)).after first.calls
      | _ => first

/-- The calls of the links in a syntax tree. -/
def chainCalls (library : Library) (context : Context) : Expr → Chained
  | .call funcName args next =>
      runLinks chainInput library context next (funcName, args) []
  | expr => ⟨[], expr.run library context⟩

/-- Nested calls: every result is the first argument of the next call. -/
def nestedCalls (library : Library) (context : Context)
    (first : String × List Expr) (rest : List (String × List Expr)) : Chained :=
  runLinks (fun value => [value]) library context rest first []

variable {library : Library} {context : Context}

theorem attempt_result (link : String × List Expr) (inputs : List Json) :
    (attempt library context link inputs).result =
      runArgs library context link.2 >>= fun values =>
        library.callFunction link.1 (inputs ++ values) := by
  unfold attempt
  cases runArgs library context link.2 <;> rfl

theorem runLinks_cons_result (pass : Json → List Json)
    (next : String × List Expr) (rest : List (String × List Expr))
    (link : String × List Expr) (inputs : List Json) :
    (runLinks pass library context (next :: rest) link inputs).result =
      (attempt library context link inputs).result >>= fun value =>
        (runLinks pass library context rest next (pass value)).result := by
  simp only [runLinks]
  cases hresult : (attempt library context link inputs).result with
  | ok value => rfl
  | failed => exact hresult
  | undefined => exact hresult

theorem runLinks_result (rest : List (String × List Expr))
    (link : String × List Expr) (inputs : List Json) :
    (runLinks chainInput library context rest link inputs).result =
      (attempt library context link inputs).result >>=
        runNext library context rest := by
  induction rest generalizing link inputs with
  | nil =>
      rw [runLinks]
      cases (attempt library context link inputs).result <;> rfl
  | cons next rest ih =>
      rw [runLinks_cons_result]
      congr 1
      funext value
      rw [ih, attempt_result, Result.bind_assoc]
      rfl

/-- What comes of the calls is what the evaluation returns. -/
theorem chainCalls_result (expr : Expr) :
    (expr.chainCalls library context).result = expr.run library context := by
  cases expr with
  | call funcName args next =>
      rw [chainCalls, runLinks_result, attempt_result, Result.bind_assoc]
      rfl
  | _ => rfl

def nest (first : String × List Expr) (rest : List (String × List Expr)) : Expr :=
  rest.foldl (fun inner link => .call link.1 (inner :: link.2) [])
    (.call first.1 first.2 [])

theorem run_nested (inner : Expr) (link : String × List Expr) :
    (Expr.call link.1 (inner :: link.2) []).run library context =
      inner.run library context >>= fun value =>
        (attempt library context link [value]).result := by
  rw [run, runArgs, Result.bind_assoc]
  congr 1
  funext value
  rw [attempt_result, Result.bind_assoc]
  congr 1
  funext values
  exact Result.bind_ok _

theorem run_nest_cons (rest : List (String × List Expr)) (inner : Expr)
    (link : String × List Expr) :
    (nest (link.1, inner :: link.2) rest).run library context =
      inner.run library context >>= fun value =>
        (runLinks (fun value => [value]) library context rest link [value]).result := by
  induction rest generalizing inner link with
  | nil => exact run_nested inner link
  | cons next rest ih =>
      have hnext := ih (.call link.1 (inner :: link.2) []) next
      rw [run_nested, Result.bind_assoc] at hnext
      simp only [runLinks_cons_result]
      exact hnext

theorem nestedCalls_result (first : String × List Expr)
    (rest : List (String × List Expr)) :
    (nestedCalls library context first rest).result =
      (nest first rest).run library context := by
  have hfirst : (Expr.call first.1 first.2 []).run library context =
      (attempt library context first []).result := by
    rw [attempt_result, run]
    congr 1
    funext values
    exact Result.bind_ok _
  cases rest with
  | nil => exact hfirst.symm
  | cons next rest =>
      rw [nestedCalls, runLinks_cons_result, ← hfirst]
      exact (run_nest_cons rest (.call first.1 first.2 []) next).symm

theorem attempt_cases (library : Library) (context : Context)
    (link : String × List Expr) (inputs : List Json) :
    (∃ call, attempt library context link inputs =
        ⟨[call], library.callFunction call.1 call.2⟩) ∨
      (attempt library context link inputs).calls = [] ∧
        ∀ value, (attempt library context link inputs).result ≠ .ok value := by
  unfold attempt
  cases runArgs library context link.2 with
  | ok values => exact .inl ⟨(link.1, inputs ++ values), rfl⟩
  | failed | undefined => exact .inr ⟨rfl, fun value => by simp⟩

theorem runLinks_cons_of_ok {pass : Json → List Json}
    {link : String × List Expr} {inputs : List Json} {value : Json}
    (hvalue : (attempt library context link inputs).result = .ok value)
    (next : String × List Expr) (rest : List (String × List Expr)) :
    runLinks pass library context (next :: rest) link inputs =
      (runLinks pass library context rest next (pass value)).after
        (attempt library context link inputs).calls := by
  simp only [runLinks, hvalue]

theorem runLinks_of_stuck {pass : Json → List Json}
    {link : String × List Expr} {inputs : List Json}
    (hstuck : ∀ value, (attempt library context link inputs).result ≠ .ok value)
    (rest : List (String × List Expr)) :
    runLinks pass library context rest link inputs =
      attempt library context link inputs := by
  cases rest with
  | nil => rfl
  | cons next rest =>
      simp only [runLinks]

/-- Links that make no call give no value. -/
theorem runLinks_stuck {pass : Json → List Json}
    {rest : List (String × List Expr)} {link : String × List Expr}
    {inputs : List Json}
    (hcalls : (runLinks pass library context rest link inputs).calls = [])
    (value : Json) :
    (runLinks pass library context rest link inputs).result ≠ .ok value := by
  by_cases hvalue : ∃ value, (attempt library context link inputs).result = .ok value
  · obtain ⟨found, hfound⟩ := hvalue
    rcases attempt_cases library context link inputs with
      ⟨call, hcall⟩ | ⟨-, hstuck⟩
    · cases rest with
      | nil => simp [runLinks, hcall] at hcalls
      | cons next rest =>
          rw [runLinks_cons_of_ok hfound, hcall] at hcalls
          simp [Chained.after] at hcalls
    · exact absurd hfound (hstuck found)
  · rw [runLinks_of_stuck (not_exists.mp hvalue)]
    exact not_exists.mp hvalue value

/-- One link alone does not do what a link that gives a value does with more
links after it. -/
theorem attempt_ne_after {pass : Json → List Json}
    {last link next : String × List Expr} {rest : List (String × List Expr)}
    {lastInputs inputs : List Json} {value : Json}
    (hvalue : (attempt library context link inputs).result = .ok value) :
    attempt library context last lastInputs ≠
      (runLinks pass library context rest next (pass value)).after
        (attempt library context link inputs).calls := by
  rcases attempt_cases library context link inputs with
    ⟨call, hcall⟩ | ⟨-, hstuck⟩
  · rw [hcall] at hvalue ⊢
    rcases attempt_cases library context last lastInputs with
      ⟨other, hother⟩ | ⟨hnone, -⟩
    · rw [hother]
      intro heq
      simp only [Chained.after, List.singleton_append, Chained.mk.injEq,
        List.cons.injEq] at heq
      obtain ⟨⟨rfl, hmore⟩, hresult⟩ := heq
      -- the same call gives the same value, but nothing follows it
      exact runLinks_stuck hmore.symm value (hresult.symm.trans hvalue)
    · intro heq
      rw [heq] at hnone
      simp [Chained.after] at hnone
  · exact absurd hvalue (hstuck value)

/-- The condition for the first link and the last one to do what all do, once the
first gives a value: of two links, the value is not null or the second is not
called; of more, the second gives no value and the last stops as the second. -/
def Unbroken (library : Library) (context : Context)
    (first : String × List Expr) : List (String × List Expr) → Prop
  | [] => True
  | [second] =>
      ∀ value, (attempt library context first []).result = .ok value →
        value ≠ .null ∨ (attempt library context second [value]).calls = []
  | second :: third :: rest =>
      ∀ value, (attempt library context first []).result = .ok value →
        (∀ next, (attempt library context second [value]).result ≠ .ok next) ∧
          attempt library context ((third :: rest).getLast (by simp))
            (chainInput value) =
              attempt library context second [value]

theorem attempt_chainInput_iff {link : String × List Expr} {value : Json} :
    attempt library context link (chainInput value) =
        attempt library context link [value] ↔
      value ≠ .null ∨ (attempt library context link [value]).calls = [] := by
  unfold attempt
  cases value with
  | null =>
      cases runArgs library context link.2 with
      | ok values => simp [chainInput]
      | failed | undefined => simp
  | _ => simp [chainInput]

theorem unbroken_of_stuck {first : String × List Expr}
    (hstuck : ∀ value, (attempt library context first []).result ≠ .ok value)
    (rest : List (String × List Expr)) :
    Unbroken library context first rest := by
  unfold Unbroken
  split
  · trivial
  · exact fun value hvalue => absurd hvalue (hstuck value)
  · exact fun value hvalue => absurd hvalue (hstuck value)

/-- What the tree of a chain keeps of the links after the first. -/
def lastLink (rest : List (String × List Expr)) : List (String × List Expr) :=
  rest.getLast?.toList

theorem lastLink_cons (second : String × List Expr)
    (rest : List (String × List Expr)) :
    lastLink (second :: rest) =
      [(second :: rest).getLast (List.cons_ne_nil second rest)] := by
  rw [lastLink, List.getLast?_eq_some_getLast (List.cons_ne_nil second rest)]
  rfl

theorem attempt_eq_runLinks_iff {first second : String × List Expr}
    {rest : List (String × List Expr)} {value : Json}
    (hvalue : (attempt library context first []).result = .ok value) :
    attempt library context
          ((second :: rest).getLast (List.cons_ne_nil second rest))
          (chainInput value) =
        runLinks (fun value => [value]) library context rest second [value] ↔
      Unbroken library context first (second :: rest) := by
  cases rest with
  | nil =>
      simp only [Unbroken, hvalue, Result.ok.injEq, forall_eq']
      exact attempt_chainInput_iff
  | cons third rest =>
      simp only [Unbroken, hvalue, Result.ok.injEq, forall_eq',
        List.getLast_cons_cons]
      by_cases hsecond : ∃ next,
          (attempt library context second [value]).result = .ok next
      · obtain ⟨next, hnext⟩ := hsecond
        rw [runLinks_cons_of_ok hnext]
        refine iff_of_false (attempt_ne_after hnext) ?_
        intro hlinks
        obtain ⟨hstuck, -⟩ := hlinks
        exact hstuck next hnext
      · have hstuck := not_exists.mp hsecond
        rw [runLinks_of_stuck hstuck]
        exact (and_iff_right hstuck).symm

theorem chainCalls_eq_nestedCalls_iff {first : String × List Expr}
    {rest : List (String × List Expr)} :
    (Expr.call first.1 first.2 (lastLink rest)).chainCalls library context =
        nestedCalls library context first rest ↔
      Unbroken library context first rest := by
  cases rest with
  | nil => simp [chainCalls, nestedCalls, lastLink, runLinks, Unbroken]
  | cons second rest =>
      rw [lastLink_cons, chainCalls, nestedCalls]
      by_cases hvalue : ∃ value,
          (attempt library context first []).result = .ok value
      · obtain ⟨value, hvalue⟩ := hvalue
        rw [runLinks_cons_of_ok hvalue, runLinks_cons_of_ok hvalue,
          Chained.after_inj]
        exact attempt_eq_runLinks_iff hvalue
      · have hstuck := not_exists.mp hvalue
        rw [runLinks_of_stuck hstuck, runLinks_of_stuck hstuck]
        simp [unbroken_of_stuck hstuck]

end Uskit.Expr

namespace Uskit.Expression

open Uskit.Data

namespace Parser

variable {runtime : Runtime}

/-- A call of a chain: a name, and the tokens of its arguments with what they
are read as. -/
structure FluentCall (runtime : Runtime) where
  funcName : String
  words : List (List Token)
  args : List Expr
  parsed : List.Forall₂ (fun word arg => parse runtime word = .accepted arg)
    words args

namespace FluentCall

def tokens (call : FluentCall runtime) : List Token :=
  .identifier call.funcName :: .mark .leftPar ::
    (commas call.words ++ [.mark .rightPar])

def link (call : FluentCall runtime) : String × List Expr :=
  (call.funcName, call.args)

theorem runsItems (call : FluentCall runtime) :
    RunsItems runtime (commas call.words) call.args :=
  runsItems_commas (call.parsed.imp fun _ _ => runsExpr_of_accepted)

end FluentCall

def fluentChain (first : FluentCall runtime) (rest : List (FluentCall runtime)) :
    List Token :=
  first.tokens ++ rest.flatMap fun call => .mark .dot :: call.tokens

/-- Every further call replaces the link that there was. -/
theorem runsChain_append {word : List Token} {funcName : String}
    {args : List Expr} {next : List (String × List Expr)}
    (hword : RunsChain runtime word funcName args next)
    (rest : List (FluentCall runtime)) :
    RunsChain runtime
      (word ++ rest.flatMap fun call => .mark .dot :: call.tokens) funcName args
      (if rest = [] then next else Expr.lastLink (rest.map FluentCall.link)) := by
  induction rest generalizing word next with
  | nil => simpa using hword
  | cons call rest ih =>
      have hnext := ih (hword.next call.funcName call.runsItems)
      simp only [FluentCall.tokens, List.flatMap_cons, List.append_assoc,
        List.cons_append] at hnext ⊢
      cases rest with
      | nil => simpa [Expr.lastLink, FluentCall.link] using hnext
      | cons other rest => simpa [Expr.lastLink] using hnext

/-- A chain is read as its first call with its last one as the only link. -/
theorem parse_fluentChain (first : FluentCall runtime)
    (rest : List (FluentCall runtime)) :
    parse runtime (fluentChain first rest) =
      .accepted (.call first.funcName first.args
        (Expr.lastLink (rest.map FluentCall.link))) := by
  have hchain := runsChain_append (.first first.funcName first.runsItems) rest
  have hlinks : (if rest = [] then [] else
      Expr.lastLink (rest.map FluentCall.link)) =
        Expr.lastLink (rest.map FluentCall.link) := by
    split
    · rename_i hnil
      rw [hnil]
      rfl
    · rfl
  rw [hlinks] at hchain
  exact accepted_of_runs
    ((RunsOperand.call hchain).runsAt 0).runsExpr

/-- A chain is parsed to a tree that gives what the nested calls give, and
calls the functions of the links with the same arguments. -/
def CallsNested (library : Library) (context : Context)
    (first : FluentCall runtime) (rest : List (FluentCall runtime)) : Prop :=
  ∃ expr, parse runtime (fluentChain first rest) = .accepted expr ∧
    expr.run library context =
      (Expr.nest first.link (rest.map FluentCall.link)).run library context ∧
    (expr.chainCalls library context).calls =
      (Expr.nestedCalls library context first.link
        (rest.map FluentCall.link)).calls

theorem callsNested_iff (library : Library) (context : Context)
    (first : FluentCall runtime) (rest : List (FluentCall runtime)) :
    CallsNested library context first rest ↔
      Expr.Unbroken library context first.link (rest.map FluentCall.link) := by
  rw [← Expr.chainCalls_eq_nestedCalls_iff, Expr.Chained.ext_iff,
    Expr.chainCalls_result, Expr.nestedCalls_result, CallsNested,
    parse_fluentChain]
  constructor
  · intro hchained
    obtain ⟨expr, haccepted, hrun, hcalls⟩ := hchained
    cases haccepted
    exact ⟨hcalls, hrun⟩
  · intro hchained
    obtain ⟨hcalls, hrun⟩ := hchained
    exact ⟨_, rfl, hrun, hcalls⟩

def listing : Library where
  __ := Library.bare
  callFunction name args := .ok (.array (.string name :: args))

def bareCall (funcName : String) : FluentCall .plain :=
  ⟨funcName, [], [], .nil⟩

/-- In `f().g().h()` the function `g` is not called. -/
theorem middleLink_skipped :
    ¬ ∀ (runtime : Runtime) (library : Library) (context : Context)
      (first : FluentCall runtime) (rest : List (FluentCall runtime)),
        CallsNested library context first rest := by
  intro hall
  obtain ⟨expr, haccepted, hrun, -⟩ :=
    hall .plain listing ⟨[], []⟩ (bareCall "f") [bareCall "g", bareCall "h"]
  rw [parse_fluentChain] at haccepted
  cases haccepted
  have hskipped : (Expr.call "f" [] [("h", [])]).run listing ⟨[], []⟩ =
      .ok (.array [.string "h", .array [.string "f"]]) := rfl
  have hnested : (Expr.nest ("f", []) [("g", []), ("h", [])]).run listing
      ⟨[], []⟩ =
        .ok (.array [.string "h",
          .array [.string "g", .array [.string "f"]]]) := rfl
  have heq := hskipped.symm.trans (hrun.trans hnested)
  simp at heq

end Parser

end Uskit.Expression
