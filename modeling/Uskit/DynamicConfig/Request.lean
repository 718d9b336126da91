import Uskit.DynamicConfig.KE

namespace Uskit

/-! Request configurations of the backend services and their templates. -/

structure HttpRequestConfig where
  definition : KEMap := []
  httpMethod : Option String := none
  httpUri : Option String := none
  hostIpPort : Option Expr := none
  httpHeader : KEMap := []
  httpQuery : KEMap := []
  httpBody : KEMap := []

structure DynamicHttpRequestConfig extends HttpRequestConfig where
  dynamicArgs : KEMap := []
  dynamicArgsNode : Option String := none
  dynamicArgsPath : Option String := none

structure RedisCommand where
  op : String
  arg : KEVec

structure RedisRequestConfig where
  definition : KEMap := []
  redisCommand : List RedisCommand := []

/-- A template of a backend, which has no template of its own. -/
inductive BackendRequestConfig where
  | http (config : HttpRequestConfig)
  | dynamicHttp (config : DynamicHttpRequestConfig)
  | redis (config : RedisRequestConfig)

/-- An optional setting: evaluated, and set in the scope of the request. -/
def runSetting (library : Library) (key : String) (setting : Option Expr)
    (context : Context) : Outcome Context :=
  match setting with
  | none => .ok context
  | some expr =>
      .evaluate context (expr.run library context) fun value =>
        .ok (context.setVariable key value)

/-- A map of keys, stored by `store` unless it is empty. -/
def runDocument (library : Library) (keMap : KEMap)
    (store : Json → Context → Context) (context : Context) : Outcome Context :=
  .evaluate context (keMap.run library context) fun doc =>
    .ok (if doc.isNull then context else store doc context)

namespace HttpRequestConfig

/-- `HttpRequestConfig::run` after the call of the base class. -/
def runSettings (library : Library) (config : HttpRequestConfig)
    (context : Context) : Outcome Context :=
  (runSetting library "http_method" (config.httpMethod.map .string)
    context).andThen fun context =>
  (runSetting library "http_uri" (config.httpUri.map .string)
    context).andThen fun context =>
  (runSetting library "host_ip_port" config.hostIpPort
    context).andThen fun context =>
  (runDocument library config.httpHeader (Context.mergeVariable "http_header")
    context).andThen fun context =>
  (runDocument library config.httpQuery (Context.mergeVariable "http_query")
    context).andThen fun context =>
  runDocument library config.httpBody (Context.mergeVariable "http_body") context

end HttpRequestConfig

namespace DynamicHttpRequestConfig

def runDynamicSettings (library : Library) (config : DynamicHttpRequestConfig)
    (context : Context) : Outcome Context :=
  (config.toHttpRequestConfig.runSettings library context).andThen fun context =>
  (runSetting library "dynamic_args_node" (config.dynamicArgsNode.map .string)
    context).andThen fun context =>
  (runSetting library "dynamic_args_path" (config.dynamicArgsPath.map .string)
    context).andThen fun context =>
  runDocument library config.dynamicArgs (Context.setVariable "dynamic_args")
    context

end DynamicHttpRequestConfig

namespace RedisCommand

def argText (library : Library) : Json → Json
  | .string text => .string text
  | value => .string (library.jsonEncode value)

def run (library : Library) (context : Context) (command : RedisCommand) :
    Result Json := do
  let argValue ← Expr.runArgs library context command.arg
  .ok (.object
    [("op", .string command.op),
      ("arg", .array (argValue.map (argText library)))])

def runAll (library : Library) (context : Context) :
    List RedisCommand → Result (List Json)
  | [] => .ok []
  | command :: rest => do
      let value ← command.run library context
      let values ← runAll library context rest
      .ok (value :: values)

end RedisCommand

namespace RedisRequestConfig

def runCommands (library : Library) (config : RedisRequestConfig)
    (context : Context) : Outcome Context :=
  .evaluate context (RedisCommand.runAll library context config.redisCommand)
    fun values => .ok (context.setVariable "redis_cmd" (.array values))

end RedisRequestConfig

namespace BackendRequestConfig

def definition : BackendRequestConfig → KEMap
  | .http config => config.definition
  | .dynamicHttp config => config.definition
  | .redis config => config.definition

/-- The settings of the configuration, after the definitions and the template. -/
def runSettings (library : Library) : BackendRequestConfig → Context →
    Outcome Context
  | .http config => config.runSettings library
  | .dynamicHttp config => config.runDynamicSettings library
  | .redis config => config.runCommands library

def runTemplate (library : Library) :
    Option BackendRequestConfig → Context → Outcome Context
  | none, context => .ok context
  | some template, context =>
      (template.definition.runDef library context).andThen
        (template.runSettings library)

def run (library : Library) (template : Option BackendRequestConfig)
    (config : BackendRequestConfig) (context : Context) : Outcome Context :=
  (config.definition.runDef library context).andThen fun context =>
  (runTemplate library template context).andThen (config.runSettings library)

/-! Only the scope of the request is written, but for the variables that are
merged into the nearest scope that has them. -/

def mergedNames : List String := ["http_header", "http_query", "http_body"]

variable {name : String} (library : Library)

theorem runSetting_outerNamed (key : String) (setting : Option Expr)
    (context : Context) :
    (runSetting library key setting context).Keeps
      (Context.outerNamed name) context := by
  cases setting with
  | none => exact .refl _ context
  | some expr =>
      apply Outcome.Keeps.evaluate
      intro value
      exact .ok (Context.outerNamed_setVariable name key value context)

theorem runDocument_view {view : Context → β} {store : Json → Context → Context}
    (hstore : ∀ doc context, view (store doc context) = view context)
    (keMap : KEMap) (context : Context) :
    (runDocument library keMap store context).Keeps view context := by
  apply Outcome.Keeps.evaluate
  intro doc
  apply Outcome.Leaves.ok
  split
  · rfl
  · exact hstore doc context

theorem runDocument_outerNamed {store : Json → Context → Context}
    (hstore : ∀ doc context,
      (store doc context).outerNamed name = context.outerNamed name)
    (keMap : KEMap) (context : Context) :
    (runDocument library keMap store context).Keeps
      (Context.outerNamed name) context :=
  runDocument_view library hstore keMap context

theorem HttpRequestConfig.runSettings_outerNamed (hname : name ∉ mergedNames)
    (config : HttpRequestConfig) (context : Context) :
    (config.runSettings library context).Keeps
      (Context.outerNamed name) context := by
  have hmerge : ∀ key, key ∈ mergedNames → ∀ keMap context,
      (runDocument library keMap (Context.mergeVariable key) context).Keeps
        (Context.outerNamed name) context := by
    intro key hkey keMap context
    apply runDocument_outerNamed
    intro doc context
    have hcut : cStr key = key := by
      simp only [mergedNames, List.mem_cons, List.not_mem_nil, or_false] at hkey
      rcases hkey with rfl | rfl | rfl <;> decide
    have hne : key ≠ name := fun heq => hname (heq ▸ hkey)
    apply Context.outerNamed_of_allNamed
    exact Context.allNamed_mergeVariable_of_ne (hcut.symm ▸ hne) hne doc context
  unfold HttpRequestConfig.runSettings
  apply (runSetting_outerNamed library _ _ context).andThen
  intro context
  apply (runSetting_outerNamed library _ _ context).andThen
  intro context
  apply (runSetting_outerNamed library _ _ context).andThen
  intro context
  apply (hmerge _ (by simp [mergedNames]) _ context).andThen
  intro context
  apply (hmerge _ (by simp [mergedNames]) _ context).andThen
  intro context
  exact hmerge _ (by simp [mergedNames]) _ context

theorem DynamicHttpRequestConfig.runDynamicSettings_outerNamed
    (hname : name ∉ mergedNames) (config : DynamicHttpRequestConfig)
    (context : Context) :
    (config.runDynamicSettings library context).Keeps
      (Context.outerNamed name) context := by
  unfold DynamicHttpRequestConfig.runDynamicSettings
  apply (HttpRequestConfig.runSettings_outerNamed library hname _
    context).andThen
  intro context
  apply (runSetting_outerNamed library _ _ context).andThen
  intro context
  apply (runSetting_outerNamed library _ _ context).andThen
  intro context
  apply runDocument_outerNamed
  intro doc context
  exact Context.outerNamed_setVariable name _ doc context

theorem RedisRequestConfig.runCommands_outerNamed (config : RedisRequestConfig)
    (context : Context) :
    (config.runCommands library context).Keeps
      (Context.outerNamed name) context := by
  apply Outcome.Keeps.evaluate
  intro values
  exact .ok (Context.outerNamed_setVariable name _ _ context)

theorem runSettings_outerNamed (hname : name ∉ mergedNames)
    (config : BackendRequestConfig) (context : Context) :
    (config.runSettings library context).Keeps
      (Context.outerNamed name) context := by
  cases config with
  | http config =>
      exact HttpRequestConfig.runSettings_outerNamed library hname config context
  | dynamicHttp config =>
      exact DynamicHttpRequestConfig.runDynamicSettings_outerNamed library hname
        config context
  | redis config =>
      exact RedisRequestConfig.runCommands_outerNamed library config context

theorem run_outerNamed (hname : name ∉ mergedNames)
    (template : Option BackendRequestConfig) (config : BackendRequestConfig)
    (context : Context) :
    (config.run library template context).Keeps
      (Context.outerNamed name) context := by
  apply (KEMap.runDef_outerNamed library name config.definition context).andThen
  intro context
  have htemplate : (runTemplate library template context).Keeps
      (Context.outerNamed name) context := by
    cases template with
    | none => exact .refl _ context
    | some template =>
        apply (KEMap.runDef_outerNamed library name template.definition
          context).andThen
        exact runSettings_outerNamed library hname template
  exact htemplate.andThen (runSettings_outerNamed library hname config)

end BackendRequestConfig

end Uskit
