import Mathlib.Data.List.Forall2
import Uskit.Backend.RequestPolicy

namespace Uskit

open Uskit.Data

/-! The commands of a Redis request, from the configuration to the buffer of
their components. -/

namespace RedisCommand

/-- A string as it is, and the JSON text of another value. -/
def componentText (library : Library) : Json → String
  | .string text => text
  | value => library.jsonEncode value

/-- The components of a command: its operation, and the values of its arguments. -/
def components (library : Library) (context : Context) (command : RedisCommand) :
    Result (List String) := do
  let values ← Expr.runArgs library context command.arg
  .ok (command.op :: values.map (componentText library))

def allComponents (library : Library) (context : Context) :
    List RedisCommand → Result (List (List String))
  | [] => .ok []
  | command :: rest => do
      let first ← components library context command
      let others ← allComponents library context rest
      .ok (first :: others)

/-- The object that holds the components between the two stages. -/
def commandValue : List String → Json
  | [] => .null
  | op :: args =>
      .object [("op", .string op), ("arg", .array (args.map .string))]

/-- The buffer has a place for every component, and none is cut. -/
def Fits (texts : List String) : Prop :=
  texts.length ≤ 64 ∧ ∀ text ∈ texts, '\x00' ∉ text.toList

instance (texts : List String) : Decidable (Fits texts) :=
  inferInstanceAs (Decidable (_ ∧ _))

/-- What the second stage reads from a value: 64 components at most, each up to
its first NUL. -/
def Describes (value : Json) (texts : List String) : Prop :=
  ∃ op args, value.findMember? "op" = some (.string op) ∧
    value.findMember? "arg" = some (.array (args.map .string)) ∧
      texts = (op :: args).map cStr ∧ texts.length ≤ 64

variable (library : Library) {context : Context}

theorem argText_eq (value : Json) :
    argText library value = .string (componentText library value) := by
  cases value <;> rfl

theorem run_eq (command : RedisCommand) :
    command.run library context =
      (components library context command >>= fun texts =>
        .ok (commandValue texts)) := by
  rw [RedisCommand.run, components, Result.bind_assoc]
  cases Expr.runArgs library context command.arg with
  | ok values =>
      have hargs : values.map (argText library) =
          (values.map (componentText library)).map .string := by
        rw [List.map_map]
        exact List.map_congr_left fun value _ => argText_eq library value
      simp only [Result.ok_bind, hargs, commandValue]
  | failed => rfl
  | undefined => rfl

theorem runAll_of_components {commands : List RedisCommand}
    {expected : List (List String)}
    (hexpected : allComponents library context commands = .ok expected) :
    runAll library context commands = .ok (expected.map commandValue) := by
  induction commands generalizing expected with
  | nil =>
      cases hexpected
      rfl
  | cons command rest ih =>
      obtain ⟨first, hfirst, hrest⟩ := Result.bind_eq_ok.mp hexpected
      obtain ⟨others, hothers, heq⟩ := Result.bind_eq_ok.mp hrest
      cases heq
      rw [runAll, run_eq, hfirst, Result.ok_bind, Result.ok_bind, ih hothers]
      rfl

theorem components_ne_nil {command : RedisCommand} {texts : List String}
    (htexts : components library context command = .ok texts) : texts ≠ [] := by
  obtain ⟨values, -, heq⟩ := Result.bind_eq_ok.mp htexts
  cases heq
  exact List.cons_ne_nil _ _

theorem allComponents_ne_nil {commands : List RedisCommand}
    {expected : List (List String)}
    (hexpected : allComponents library context commands = .ok expected) :
    ∀ texts ∈ expected, texts ≠ [] := by
  induction commands generalizing expected with
  | nil =>
      cases hexpected
      simp
  | cons command rest ih =>
      obtain ⟨first, hfirst, hrest⟩ := Result.bind_eq_ok.mp hexpected
      obtain ⟨others, hothers, heq⟩ := Result.bind_eq_ok.mp hrest
      cases heq
      rw [List.forall_mem_cons]
      exact ⟨components_ne_nil library hfirst, ih hothers⟩

theorem cStr_eq_self_iff {text : String} :
    cStr text = text ↔ '\x00' ∉ text.toList := by
  constructor
  · intro heq
    rw [← heq]
    exact cStr_free text
  · exact cStr_eq_self

theorem describes_commandValue {texts : List String} (hnonempty : texts ≠ []) :
    Describes (commandValue texts) texts ↔ Fits texts := by
  cases texts with
  | nil => exact absurd rfl hnonempty
  | cons op args =>
      have hfound : (commandValue (op :: args)).findMember? "op" =
            some (.string op) ∧
          (commandValue (op :: args)).findMember? "arg" =
            some (.array (args.map .string)) := by
        exact ⟨rfl, rfl⟩
      have hcut : (op :: args) = (op :: args).map cStr ↔
          ∀ text ∈ op :: args, '\x00' ∉ text.toList := by
        have hsame := List.map_inj_left (l := op :: args) (f := cStr) (g := id)
        rw [List.map_id] at hsame
        rw [eq_comm, hsame]
        simp only [id, cStr_eq_self_iff]
      rw [Describes, Fits, ← hcut, hfound.1, hfound.2]
      constructor
      · intro hdescribes
        obtain ⟨op', args', hop, hargs, htexts, hlength⟩ := hdescribes
        cases hop
        have hstrings : args.map Json.string = args'.map Json.string :=
          Json.array.inj (Option.some.inj hargs)
        have hinjective : Function.Injective Json.string := fun _ _ => Json.string.inj
        obtain rfl := hinjective.list_map hstrings
        exact ⟨hlength, htexts⟩
      · intro hfits
        exact ⟨op, args, rfl, rfl, hfits.2, hfits.1⟩

end RedisCommand

namespace RedisRequestPolicy

open RedisCommand

theorem texts_eq_ok {values : List Json} {result : List String} :
    texts values = .ok result ↔
      ∃ strings : List String, values = strings.map .string ∧
        result = strings.map cStr := by
  induction values generalizing result with
  | nil =>
      constructor
      · intro hresult
        cases hresult
        exact ⟨[], rfl, rfl⟩
      · intro hresult
        obtain ⟨strings, hvalues, rfl⟩ := hresult
        obtain rfl := List.map_eq_nil_iff.mp hvalues.symm
        rfl
  | cons value rest ih =>
      rw [texts, Result.bind_eq_ok]
      constructor
      · intro hresult
        obtain ⟨text, htext, hrest⟩ := hresult
        obtain ⟨others, hothers, heq⟩ := Result.bind_eq_ok.mp hrest
        obtain ⟨strings, rfl, rfl⟩ := ih.mp hothers
        cases heq
        cases value with
        | string string =>
            cases htext
            exact ⟨string :: strings, rfl, rfl⟩
        | null | bool | number | array | object => cases htext
      · intro hresult
        obtain ⟨strings, hvalues, rfl⟩ := hresult
        obtain ⟨first, others, rfl, rfl, rfl⟩ := List.map_eq_cons_iff.mp hvalues.symm
        refine ⟨_, rfl, ?_⟩
        rw [ih.mpr ⟨others, rfl, rfl⟩]
        rfl

theorem command_eq_ok {value : Json} {result : List String} :
    command value = .ok result ↔ Describes value result := by
  unfold command
  constructor
  · intro hresult
    split at hresult
    · rename_i op args hop harg
      obtain ⟨opText, hopText, hrest⟩ := Result.bind_eq_ok.mp hresult
      obtain ⟨argTexts, hargTexts, hbuffer⟩ := Result.bind_eq_ok.mp hrest
      obtain ⟨strings, rfl, rfl⟩ := texts_eq_ok.mp hargTexts
      cases op with
      | string string =>
          cases hopText
          split at hbuffer
          · rename_i hlength
            cases hbuffer
            refine ⟨string, strings, hop, harg, rfl, ?_⟩
            rw [List.length_cons]
            omega
          · cases hbuffer
      | null | bool | number | array | object => cases hopText
    · cases hresult
  · intro hdescribes
    obtain ⟨op, args, hop, harg, rfl, hlength⟩ := hdescribes
    rw [List.length_map, List.length_cons] at hlength
    have hargs : texts (args.map .string) = .ok (args.map cStr) :=
      texts_eq_ok.mpr ⟨args, rfl, rfl⟩
    have hbuffer : (args.map cStr).length < 64 := by
      rw [List.length_map]
      omega
    simp only [hop, harg, HttpRequest.getString, Result.ok_bind, hargs, if_pos hbuffer,
      List.map_cons]

theorem commands_eq_ok {values : List Json} {result : List (List String)} :
    commands values = .ok result ↔ List.Forall₂ Describes values result := by
  induction values generalizing result with
  | nil =>
      rw [commands, List.forall₂_nil_left_iff, Result.ok.injEq]
      exact eq_comm
  | cons value rest ih =>
      rw [commands, Result.bind_eq_ok, List.forall₂_cons_left_iff]
      constructor
      · intro hresult
        obtain ⟨first, hfirst, hrest⟩ := hresult
        obtain ⟨others, hothers, heq⟩ := Result.bind_eq_ok.mp hrest
        cases heq
        exact ⟨first, others, command_eq_ok.mp hfirst, ih.mp hothers, rfl⟩
      · intro hresult
        obtain ⟨first, others, hfirst, hothers, rfl⟩ := hresult
        refine ⟨first, command_eq_ok.mpr hfirst, ?_⟩
        rw [ih.mpr hothers]
        rfl

/-- What the policy finds, before the configuration sets its own list: where a
definition or a template has left a list, that one is sent. -/
def SendsConfigured (settled : Context) (expected : List (List String)) : Prop :=
  match settled.ownVariables.lookup "redis_cmd" with
  | none => ∀ texts ∈ expected, Fits texts
  | some earlier =>
      ∃ values, earlier = .array values ∧ List.Forall₂ Describes values expected

theorem request_eq_ok {context : Context} {result : List (List String)} :
    request context = .ok result ↔
      ∃ values, context.getVariable "redis_cmd" = some (.array values) ∧
        List.Forall₂ Describes values result := by
  simp only [← commands_eq_ok]
  rw [request, Result.bind_eq_ok]
  constructor
  · intro hresult
    obtain ⟨found, hfound, hcommands⟩ := hresult
    unfold HttpRequest.required at hfound
    split at hfound
    · rename_i hvalue
      cases hfound
      cases found with
      | array values => exact ⟨values, hvalue, hcommands⟩
      | null | bool | number | string | object => cases hcommands
    · cases hfound
  · intro hresult
    obtain ⟨values, hvalues, hcommands⟩ := hresult
    refine ⟨.array values, ?_, hcommands⟩
    rw [HttpRequest.required, hvalues]

theorem forall₂_describes_iff {expected : List (List String)}
    (hnonempty : ∀ texts ∈ expected, texts ≠ []) :
    List.Forall₂ Describes (expected.map commandValue) expected ↔
      ∀ texts ∈ expected, Fits texts := by
  induction expected with
  | nil => simp
  | cons texts rest ih =>
      rw [List.forall_mem_cons] at hnonempty ⊢
      rw [List.map_cons, List.forall₂_cons, describes_commandValue hnonempty.1,
        ih hnonempty.2]

/-- The context of the request once the configuration has set its list. -/
def listed (settled : Context) (expected : List (List String)) : Context :=
  settled.setVariable "redis_cmd" (.array (expected.map commandValue))

theorem request_listed_iff {settled : Context} {expected : List (List String)}
    (hnonempty : ∀ texts ∈ expected, texts ≠ []) :
    request (listed settled expected) = .ok expected ↔
      SendsConfigured settled expected := by
  rw [request_eq_ok, SendsConfigured, Context.getVariable_eq]
  have hname : cStr "redis_cmd" = "redis_cmd" := by decide
  simp only [listed, Context.setVariable, hname, List.lookup_append]
  cases settled.ownVariables.lookup "redis_cmd" with
  | none =>
      rw [← forall₂_describes_iff hnonempty]
      simp
  | some earlier => simp

variable (library : Library)

theorem run_eq (policy : RedisRequestPolicy) {context settled : Context}
    {expected : List (List String)}
    (hsettled : (policy.config.definition.runDef library context.enter).andThen
      (BackendRequestConfig.runTemplate library policy.template) = .ok settled)
    (hexpected : allComponents library settled policy.config.redisCommand =
      .ok expected) :
    RequestPolicy.run library (.redis policy) context =
      (send { context := listed settled expected }).map fun exchange =>
        { exchange with context := exchange.context.leave } := by
  obtain ⟨defined, hdefined, htemplate⟩ := Outcome.andThen_eq_ok.mp hsettled
  have hconfig : RequestPolicy.runConfig library (.redis policy) context.enter =
      policy.config.runCommands library settled := by
    rw [RequestPolicy.runConfig, BackendRequestConfig.run,
      BackendRequestConfig.definition, hdefined, Outcome.ok_andThen, htemplate]
    rfl
  rw [RequestPolicy.run, hconfig, RedisRequestConfig.runCommands,
    runAll_of_components library hexpected]
  rfl

/-- The commands that are sent are those of the configuration exactly if no other
list stands in their place, and each fits into the buffer. -/
theorem sendsCommands_iff (policy : RedisRequestPolicy) {context settled : Context}
    {expected : List (List String)}
    (hsettled : (policy.config.definition.runDef library context.enter).andThen
      (BackendRequestConfig.runTemplate library policy.template) = .ok settled)
    (hexpected : allComponents library settled policy.config.redisCommand =
      .ok expected) :
    (∃ exchange, RequestPolicy.run library (.redis policy) context = .ok exchange ∧
      exchange.sent = [.redis expected]) ↔ SendsConfigured settled expected := by
  rw [run_eq library policy hsettled hexpected,
    ← request_listed_iff (allComponents_ne_nil library hexpected), send]
  constructor
  · intro hsends
    obtain ⟨exchange, hrun, hsent⟩ := hsends
    cases hrequest : request (listed settled expected) with
    | ok found =>
        simp only [hrequest, Outcome.evaluate_ok, Outcome.map, Outcome.ok.injEq] at hrun
        subst hrun
        cases hsent
        rfl
    | failed =>
        simp only [hrequest] at hrun
        cases hrun
    | undefined =>
        simp only [hrequest] at hrun
        cases hrun
  · intro hrequest
    rw [hrequest]
    exact ⟨_, rfl, rfl⟩

/-- Two commands, of which the second has fewer components. -/
def getAfterSet : RedisRequestPolicy where
  config :=
    { redisCommand :=
        [⟨"SET", [.string "k", .integer 7]⟩, ⟨"GET", [.string "k"]⟩] }

theorem getAfterSet_sends :
    ∃ exchange, RequestPolicy.run .bare (.redis getAfterSet) ⟨[], []⟩ = .ok exchange ∧
      exchange.sent = [.redis [["SET", "k", "7"], ["GET", "k"]]] := by
  have hsettled : (getAfterSet.config.definition.runDef .bare (Context.enter ⟨[], []⟩)).andThen
      (BackendRequestConfig.runTemplate .bare getAfterSet.template) =
        .ok ⟨[], [[]]⟩ := rfl
  have hexpected : allComponents .bare ⟨[], [[]]⟩ getAfterSet.config.redisCommand =
      .ok [["SET", "k", "7"], ["GET", "k"]] := by
    decide +kernel
  have hfits : ∀ texts ∈ [["SET", "k", "7"], ["GET", "k"]], Fits texts := by decide
  exact (sendsCommands_iff .bare getAfterSet hsettled hexpected).mpr hfits

/-- A command with as many arguments as the buffer has components. -/
def overfull : RedisRequestPolicy where
  config := { redisCommand := [⟨"DEL", List.replicate 64 (.string "k")⟩] }

theorem overfull_leaves_buffer :
    ¬ ∀ (library : Library) (policy : RedisRequestPolicy) (context settled : Context)
      (expected : List (List String)),
      (policy.config.definition.runDef library context.enter).andThen
        (BackendRequestConfig.runTemplate library policy.template) = .ok settled →
      allComponents library settled policy.config.redisCommand = .ok expected →
        ∃ exchange, RequestPolicy.run library (.redis policy) context = .ok exchange ∧
          exchange.sent = [.redis expected] := by
  intro hall
  obtain ⟨exchange, hrun, -⟩ := hall .bare overfull ⟨[], []⟩ ⟨[], [[]]⟩
    ["DEL" :: List.replicate 64 "k"] rfl rfl
  have hundefined : RequestPolicy.run .bare (.redis overfull) ⟨[], []⟩ =
      .undefined := rfl
  rw [hundefined] at hrun
  cases hrun

end RedisRequestPolicy

end Uskit
