import Uskit.DynamicConfig.Request
import Uskit.Json.Shape

namespace Uskit

open Uskit.Data

/-! Which of its two configurations decides a setting of a request: that of the
service, or the template that it includes. -/

/-- One statement of a `run`: the name of a setting and its value, if there is
one to store. -/
structure Setting where
  name : String
  value : Library → Context → Result (Option Json)

namespace Setting

def store (name : String) (value : Json) (context : Context) : Context :=
  if name ∈ BackendRequestConfig.mergedNames then
    context.mergeVariable name value
  else context.setVariable name value

def run (library : Library) (setting : Setting) (context : Context) :
    Outcome Context :=
  .evaluate context (setting.value library context) fun
    | some value => .ok (store setting.name value context)
    | none => .ok context

def runAll (library : Library) : List Setting → Context → Outcome Context
  | [], context => .ok context
  | setting :: rest, context =>
      (setting.run library context).andThen (runAll library rest)

def written (library : Library) : List Setting → Context → JsonMembers
  | [], _ => []
  | setting :: rest, context =>
      match setting.value library context with
      | .ok (some value) =>
          (setting.name, value) ::
            written library rest (store setting.name value context)
      | .ok none => written library rest context
      | _ => []

def storeAll (writes : JsonMembers) (context : Context) : Context :=
  writes.foldl (fun context write => store write.1 write.2 context) context

def optional (name : String) (setting : Option Expr) : Setting where
  name := name
  value library context :=
    match setting with
    | none => .ok none
    | some expr => do
        let value ← expr.run library context
        .ok (some value)

def document (name : String) (keMap : KEMap) : Setting where
  name := name
  value library context := do
    let doc ← keMap.run library context
    .ok (if doc.isNull then none else some doc)

def redisCommands (commands : List RedisCommand) : Setting where
  name := "redis_cmd"
  value library context := do
    let values ← RedisCommand.runAll library context commands
    .ok (some (.array values))

theorem run_optional (library : Library) {name : String}
    (hname : name ∉ BackendRequestConfig.mergedNames) (setting : Option Expr) :
    (optional name setting).run library = runSetting library name setting := by
  funext context
  cases setting with
  | none => rfl
  | some expr =>
      simp only [run, optional, runSetting]
      cases expr.run library context with
      | ok value => simp [store, hname]
      | failed => rfl
      | undefined => rfl

theorem run_document (library : Library) (name : String) (keMap : KEMap) :
    (document name keMap).run library =
      runDocument library keMap (store name) := by
  funext context
  simp only [run, document, runDocument]
  cases keMap.run library context with
  | ok doc =>
      simp only [Result.ok_bind, Outcome.evaluate_ok]
      cases doc.isNull with
      | true => rfl
      | false => rfl
  | failed => rfl
  | undefined => rfl

theorem runAll_cons (library : Library) (setting : Setting)
    (rest : List Setting) (context : Context) :
    runAll library (setting :: rest) context =
      (setting.run library context).andThen (runAll library rest) := rfl

theorem runAll_optional {library : Library} {name : String}
    {setting : Option Expr} {rest : List Setting}
    {next : Context → Outcome Context}
    (hname : name ∉ BackendRequestConfig.mergedNames)
    (hnext : ∀ context, runAll library rest context = next context)
    (context : Context) :
    runAll library (optional name setting :: rest) context =
      (runSetting library name setting context).andThen next := by
  rw [runAll_cons, run_optional library hname, funext hnext]

theorem runAll_document {library : Library} {name : String} {keMap : KEMap}
    {rest : List Setting} {write : Json → Context → Context}
    {next : Context → Outcome Context} (hwrite : store name = write)
    (hnext : ∀ context, runAll library rest context = next context)
    (context : Context) :
    runAll library (document name keMap :: rest) context =
      (runDocument library keMap write context).andThen next := by
  rw [runAll_cons, run_document, hwrite, funext hnext]

theorem runAll_singleton (library : Library) (setting : Setting) :
    runAll library [setting] = setting.run library := by
  funext context
  rw [runAll_cons]
  cases setting.run library context with
  | ok state => rfl
  | failed state => rfl
  | undefined => rfl

theorem runAll_append (library : Library) (first second : List Setting)
    (context : Context) :
    runAll library (first ++ second) context =
      (runAll library first context).andThen (runAll library second) := by
  induction first generalizing context with
  | nil => rfl
  | cons setting rest ih =>
      rw [List.cons_append, runAll_cons, runAll_cons]
      cases setting.run library context with
      | ok state => exact ih state
      | failed state => rfl
      | undefined => rfl

theorem storeAll_written {library : Library} {settings : List Setting}
    {context final : Context}
    (hrun : runAll library settings context = .ok final) :
    storeAll (written library settings context) context = final := by
  induction settings generalizing context with
  | nil =>
      cases hrun
      rfl
  | cons setting rest ih =>
      rw [runAll_cons, run] at hrun
      rw [written]
      cases hvalue : setting.value library context with
      | ok value =>
          rw [hvalue] at hrun
          cases value with
          | none => exact ih hrun
          | some value => exact ih hrun
      | failed =>
          rw [hvalue] at hrun
          cases hrun
      | undefined =>
          rw [hvalue] at hrun
          cases hrun

theorem names_written_sublist (library : Library) (settings : List Setting)
    (context : Context) :
    (Members.names (written library settings context)).Sublist
      (settings.map name) := by
  induction settings generalizing context with
  | nil => exact .slnil
  | cons setting rest ih =>
      rw [written, List.map_cons]
      cases setting.value library context with
      | ok value =>
          cases value with
          | none => exact (ih context).cons _
          | some value => exact (ih _).cons_cons _
      | failed => exact List.nil_sublist _
      | undefined => exact List.nil_sublist _

end Setting

open Setting

def HttpRequestConfig.settings (config : HttpRequestConfig) : List Setting :=
  [optional "http_method" (config.httpMethod.map .string),
    optional "http_uri" (config.httpUri.map .string),
    optional "host_ip_port" config.hostIpPort,
    document "http_header" config.httpHeader,
    document "http_query" config.httpQuery,
    document "http_body" config.httpBody]

def DynamicHttpRequestConfig.settings (config : DynamicHttpRequestConfig) :
    List Setting :=
  config.toHttpRequestConfig.settings ++
    [optional "dynamic_args_node" (config.dynamicArgsNode.map .string),
      optional "dynamic_args_path" (config.dynamicArgsPath.map .string),
      document "dynamic_args" config.dynamicArgs]

namespace BackendRequestConfig

def settings : BackendRequestConfig → List Setting
  | .http config => config.settings
  | .dynamicHttp config => config.settings
  | .redis config => [redisCommands config.redisCommand]

theorem store_merged {name : String} (hname : name ∈ mergedNames) :
    store name = Context.mergeVariable name := by
  funext value context
  exact if_pos hname

theorem store_set {name : String} (hname : name ∉ mergedNames) :
    store name = Context.setVariable name := by
  funext value context
  exact if_neg hname

theorem runAll_httpSettings (library : Library) (config : HttpRequestConfig) :
    runAll library config.settings = config.runSettings library := by
  funext context
  refine runAll_optional (by decide) (fun context => ?_) context
  refine runAll_optional (by decide) (fun context => ?_) context
  refine runAll_optional (by decide) (fun context => ?_) context
  refine runAll_document (store_merged (by decide)) (fun context => ?_) context
  refine runAll_document (store_merged (by decide)) (fun context => ?_) context
  rw [runAll_singleton, run_document, store_merged (by decide)]

theorem runAll_dynamicHttpSettings (library : Library)
    (config : DynamicHttpRequestConfig) :
    runAll library config.settings = config.runDynamicSettings library := by
  funext context
  rw [DynamicHttpRequestConfig.settings, runAll_append, runAll_httpSettings,
    DynamicHttpRequestConfig.runDynamicSettings]
  congr 1
  funext context
  refine runAll_optional (by decide) (fun context => ?_) context
  refine runAll_optional (by decide) (fun context => ?_) context
  rw [runAll_singleton, run_document, store_set (by decide)]

/-- The settings, run one after another, are what the source runs. -/
theorem runAll_settings (library : Library) (config : BackendRequestConfig) :
    runAll library config.settings = config.runSettings library := by
  cases config with
  | http config => exact runAll_httpSettings library config
  | dynamicHttp config => exact runAll_dynamicHttpSettings library config
  | redis config =>
      funext context
      simp only [settings, runSettings, RedisRequestConfig.runCommands]
      rw [runAll_singleton, Setting.run]
      simp only [redisCommands]
      have hset : "redis_cmd" ∉ mergedNames := by decide
      cases RedisCommand.runAll library context config.redisCommand with
      | ok values => simp [store_set hset]
      | failed => rfl
      | undefined => rfl

end BackendRequestConfig

namespace Setting

def names : List String :=
  ["http_method", "http_uri", "host_ip_port", "http_header", "http_query",
    "http_body", "dynamic_args_node", "dynamic_args_path", "dynamic_args",
    "redis_cmd"]

theorem cStr_name {name : String} (hname : name ∈ names) : cStr name = name := by
  have hall : ∀ name ∈ names, cStr name = name := by decide
  exact hall name hname

theorem settings_names (config : BackendRequestConfig) :
    (config.settings.map name).Sublist names := by
  cases config with
  | http config => exact List.sublist_append_left _ (names.drop 6)
  | dynamicHttp config => exact List.sublist_append_left _ (names.drop 9)
  | redis config => exact (List.sublist_append_right (names.take 9) _)

end Setting

/-- The values that a configuration stores, each name at most once. -/
structure Writes where
  values : JsonMembers
  sublist : (Members.names values).Sublist Setting.names

namespace Writes

def find? (writes : Writes) (name : String) : Option Json :=
  writes.values.lookup name

/-- The value that the configuration gives for a setting.  A redis configuration
without commands stores an empty list of them. -/
def given (writes : Writes) (name : String) : Option Json :=
  match writes.find? name with
  | some (.array []) => if name = "redis_cmd" then none else some (.array [])
  | found => found

def store (writes : Writes) (context : Context) : Context :=
  storeAll writes.values context

theorem find?_of_given {writes : Writes} {name : String} {value : Json}
    (hgiven : writes.given name = some value) :
    writes.find? name = some value := by
  unfold given at hgiven
  split at hgiven
  · rename_i hfound
    split at hgiven
    · cases hgiven
    · rw [hfound, hgiven]
  · exact hgiven

theorem given_of_ne {name : String} (hname : name ≠ "redis_cmd")
    (writes : Writes) : writes.given name = writes.find? name := by
  unfold given
  split
  · rename_i hfound
    rw [if_neg hname, hfound]
  · rfl

theorem mem_names {writes : Writes} {name : String} {value : Json}
    (hfound : writes.find? name = some value) : name ∈ Setting.names := by
  apply writes.sublist.subset
  apply Members.lookup_isSome.mp
  rw [show writes.values.lookup name = some value from hfound]
  rfl

theorem allNamed_store_of_ne {key name : String} (hkey : key ∈ Setting.names)
    (hne : key ≠ name) (value : Json) (context : Context) :
    (Setting.store key value context).allNamed name = context.allNamed name := by
  rw [Setting.store]
  split
  · apply Context.allNamed_mergeVariable_of_ne _ hne
    rw [Setting.cStr_name hkey]
    exact hne
  · exact Context.allNamed_setVariable_of_ne hne value context

theorem allNamed_storeAll_of_not_mem {values : JsonMembers} {name : String}
    (hnames : Members.names values ⊆ Setting.names)
    (hname : name ∉ Members.names values) (context : Context) :
    (storeAll values context).allNamed name = context.allNamed name := by
  induction values generalizing context with
  | nil => rfl
  | cons write rest ih =>
      rw [Members.names_cons, List.cons_subset] at hnames
      rw [Members.names_cons, List.mem_cons, not_or] at hname
      rw [storeAll, List.foldl_cons]
      exact (ih hnames.2 hname.2 _).trans
        (allNamed_store_of_ne hnames.1 (Ne.symm hname.1) write.2 context)

theorem allNamed_store_of_none {writes : Writes} {name : String}
    (hfound : writes.find? name = none) (context : Context) :
    (writes.store context).allNamed name = context.allNamed name :=
  allNamed_storeAll_of_not_mem writes.sublist.subset
    (Members.lookup_eq_none.mp hfound) context

/-- Of all the writes, only that of a name matters for it. -/
theorem allNamed_store_of_some {writes : Writes} {name : String} {value : Json}
    (hfound : writes.find? name = some value) (context : Context) :
    ∃ start : Context, start.allNamed name = context.allNamed name ∧
      (writes.store context).allNamed name =
        (Setting.store name value start).allNamed name := by
  obtain ⟨values, hsublist⟩ := writes
  obtain ⟨before, after, rfl, hbefore⟩ := Members.lookup_split hfound
  have hnodup := hsublist.nodup (by decide)
  have hnames := hsublist.subset
  simp only [Members.names_append, Members.names_cons] at hnodup hnames
  have hafter : name ∉ Members.names after :=
    (List.nodup_cons.mp (List.nodup_append.mp hnodup).2.1).1
  refine ⟨storeAll before context, ?_, ?_⟩
  · apply allNamed_storeAll_of_not_mem _ hbefore
    intro key hkey
    exact hnames (List.mem_append_left _ hkey)
  · simp only [store, storeAll, List.foldl_append, List.foldl_cons]
    apply allNamed_storeAll_of_not_mem _ hafter
    intro key hkey
    exact hnames (List.mem_append_right _ (.tail _ hkey))

theorem own_store {name : String}
    (hset : name ∉ BackendRequestConfig.mergedNames) (writes : Writes)
    (context : Context) :
    (writes.store context).ownVariables.lookup name =
      (context.ownVariables.lookup name).or (writes.find? name) := by
  cases hfound : writes.find? name with
  | none =>
      rw [Option.or_none]
      exact Context.lookup_of_allNamed (allNamed_store_of_none hfound context)
  | some value =>
      obtain ⟨start, hstart, hstore⟩ := allNamed_store_of_some hfound context
      rw [Context.lookup_of_allNamed hstore, Setting.store, if_neg hset,
        ← Context.lookup_of_allNamed hstart, Context.setVariable,
        List.lookup_append, List.lookup_cons_self]

def mergedInto : (existing doc : Option Json) → Option Json
  | existing, none => existing
  | none, some doc => some doc
  | some existing, some doc =>
      some ((mergeJsonObjects existing doc).getD existing)

theorem getVariable_mergeVariable {name : String} (hname : cStr name = name)
    (value : Json) (context : Context) :
    (context.mergeVariable name value).getVariable name =
      mergedInto (context.getVariable name) (some value) := by
  rw [Context.mergeVariable]
  cases hexisting : context.getVariable name with
  | none =>
      rw [Context.getVariable_eq, Option.or_eq_none_iff, hname] at hexisting
      rw [Context.getVariable_eq, Context.setVariable, List.lookup_append, hname,
        hexisting.1, List.lookup_cons_self]
      rfl
  | some existing =>
      simp only [mergedInto]
      cases mergeJsonObjects existing value with
      | none => exact hexisting
      | some merged =>
          exact Context.getVariable_updateVariable_self hexisting merged

theorem getVariable_store {name : String}
    (hmerged : name ∈ BackendRequestConfig.mergedNames)
    (hname : name ∈ Setting.names) (writes : Writes) (context : Context) :
    (writes.store context).getVariable name =
      mergedInto (context.getVariable name) (writes.find? name) := by
  have hplain := Setting.cStr_name hname
  cases hfound : writes.find? name with
  | none =>
      apply Context.getVariable_congr
      rw [hplain]
      exact allNamed_store_of_none hfound context
  | some value =>
      obtain ⟨start, hstart, hstore⟩ := allNamed_store_of_some hfound context
      rw [← hplain] at hstart hstore
      have hafter := Context.getVariable_congr hstore
      rw [hplain] at hafter
      rw [hafter, Setting.store, if_pos hmerged,
        getVariable_mergeVariable hplain, Context.getVariable_congr hstart]

/-! Documents, as shapes at paths: what a merge into an existing variable keeps. -/

/-- The document can be stored over what stands there. -/
def Unobstructed (earlier : Option Json) (doc : Json) : Prop :=
  ∀ other, earlier = some other →
    other = doc ∨ (other.isObject = true ∧ doc.isObject = true)

/-- All that stands in the document is found in the value. -/
def Shows (value : Option Json) (path : List String) (shape : Shape) : Prop :=
  ∃ found, value = some found ∧ found.shapeAt path = some shape

theorem mergedInto_objects (existing doc : JsonMembers) :
    mergedInto (some (.object existing)) (some (.object doc)) =
      some (.object (mergeMembers doc existing)) := rfl

theorem mergedInto_leaf {existing doc : Json}
    (hleaf : ¬ (existing.isObject = true ∧ doc.isObject = true)) :
    mergedInto (some existing) (some doc) = some existing := by
  cases existing with
  | object members =>
      cases doc with
      | object others => exact absurd ⟨rfl, rfl⟩ hleaf
      | null | bool | number | string | array => rfl
  | null | bool | number | string | array => rfl

theorem mergedInto_distinct {existing doc : Option Json}
    (hexisting : ∀ value ∈ existing, value.Distinct)
    (hdoc : ∀ value ∈ doc, value.Distinct) :
    ∀ value ∈ mergedInto existing doc, value.Distinct := by
  cases existing with
  | none =>
      cases doc with
      | none => exact hdoc
      | some doc => exact hdoc
  | some existing =>
      cases doc with
      | none => exact hexisting
      | some doc =>
          by_cases hobjects : existing.isObject = true ∧ doc.isObject = true
          · obtain ⟨members, rfl⟩ := Json.isObject_iff.mp hobjects.1
            obtain ⟨others, rfl⟩ := Json.isObject_iff.mp hobjects.2
            intro value hvalue
            cases hvalue
            exact merge_distinct.1 (.object others) (.object members)
              (hdoc _ rfl) (hexisting _ rfl)
          · rw [mergedInto_leaf hobjects]
            exact hexisting

/-- The shapes of a document are there after it has been merged exactly when
nothing obstructs it. -/
theorem mergedInto_shows_iff {earlier : Option Json} {doc : Json}
    (hearlier : ∀ value ∈ earlier, value.Distinct) (hdoc : doc.Distinct) :
    (∀ path shape, doc.shapeAt path = some shape →
        Shows (mergedInto earlier (some doc)) path shape) ↔
      Unobstructed earlier doc := by
  cases earlier with
  | none =>
      constructor
      · rintro - other ⟨⟩
      · intro _ path shape hshape
        exact ⟨doc, rfl, hshape⟩
  | some existing =>
      by_cases hobjects : existing.isObject = true ∧ doc.isObject = true
      · constructor
        · rintro - other ⟨⟩
          exact .inr hobjects
        · intro _ path shape hshape
          obtain ⟨members, rfl⟩ := Json.isObject_iff.mp hobjects.1
          obtain ⟨others, rfl⟩ := Json.isObject_iff.mp hobjects.2
          exact ⟨_, rfl, merge_shapeAt.1 (.object others) (.object members) hdoc
            (hearlier _ rfl) path shape hshape⟩
      · rw [mergedInto_leaf hobjects]
        constructor
        · intro hshows other hother
          cases hother
          obtain ⟨found, hfound, hroot⟩ := hshows [] doc.shape rfl
          cases hfound
          apply Or.inl
          apply Json.eq_of_shape_eq (Option.some.inj hroot)
          rw [Bool.and_eq_true]
          intro hobjects
          obtain ⟨hdocObject, hobject⟩ := hobjects
          exact hobjects ⟨hobject, hdocObject⟩
        · intro hunobstructed path shape hshape
          cases hunobstructed existing rfl with
          | inl heq => exact ⟨existing, rfl, heq ▸ hshape⟩
          | inr hboth => exact absurd hboth hobjects

/-- What was there stays where the document leaves it alone. -/
theorem mergedInto_shows_of_leavesAlone {earlier : Option Json} {doc : Json}
    (hearlier : ∀ value ∈ earlier, value.Distinct) (hdoc : doc.Distinct)
    {path : List String} (halone : doc.LeavesAlone path) {shape : Shape}
    (hshows : Shows earlier path shape) :
    Shows (mergedInto earlier (some doc)) path shape := by
  obtain ⟨existing, rfl, hshape⟩ := hshows
  by_cases hobjects : existing.isObject = true ∧ doc.isObject = true
  · obtain ⟨members, rfl⟩ := Json.isObject_iff.mp hobjects.1
    obtain ⟨others, rfl⟩ := Json.isObject_iff.mp hobjects.2
    refine ⟨_, rfl, ?_⟩
    exact (merge_leavesAlone.1 (.object others) (.object members) hdoc
      (hearlier _ rfl) path halone).trans hshape
  · rw [mergedInto_leaf hobjects]
    exact ⟨existing, rfl, hshape⟩

/-- A template that was merged first obstructs a document as what it was merged
into does. -/
theorem unobstructed_mergedInto (earlier template : Option Json) (doc : Json) :
    Unobstructed (mergedInto earlier template) doc ↔
      Unobstructed (earlier.or template) doc := by
  cases earlier with
  | none =>
      cases template with
      | none => exact Iff.rfl
      | some template => exact Iff.rfl
  | some existing =>
      cases template with
      | none => exact Iff.rfl
      | some template =>
          by_cases hobjects :
              existing.isObject = true ∧ template.isObject = true
          · obtain ⟨members, rfl⟩ := Json.isObject_iff.mp hobjects.1
            obtain ⟨others, rfl⟩ := Json.isObject_iff.mp hobjects.2
            have hobject : ∀ members, Unobstructed (some (.object members)) doc ↔
                doc.isObject = true := by
              intro members
              constructor
              · intro hunobstructed
                cases hunobstructed _ rfl with
                | inl heq => rw [← heq]; rfl
                | inr hboth => exact hboth.2
              · rintro hdoc other ⟨⟩
                exact .inr ⟨rfl, hdoc⟩
            rw [mergedInto_objects, hobject, Option.some_or, hobject]
          · rw [mergedInto_leaf hobjects, Option.some_or]

end Writes

namespace BackendRequestConfig

open Writes

def written (library : Library) (config : BackendRequestConfig)
    (context : Context) : Writes where
  values := Setting.written library config.settings context
  sublist :=
    (names_written_sublist library config.settings context).trans
      (settings_names config)

/-- The context after the definitions of the service and of the template. -/
def define (library : Library) (template config : BackendRequestConfig)
    (context : Context) : Outcome Context :=
  (config.definition.runDef library context).andThen
    (template.definition.runDef library)

theorem store_written {library : Library} {config : BackendRequestConfig}
    {context final : Context}
    (hrun : config.runSettings library context = .ok final) :
    (config.written library context).store context = final := by
  rw [← runAll_settings] at hrun
  exact storeAll_written hrun

/-- The template stores its values before the service. -/
theorem store_of_run {library : Library} {template config : BackendRequestConfig}
    {context defined sent : Context}
    (hdefined : define library template config context = .ok defined)
    (hsent : config.run library (some template) context = .ok sent) :
    sent =
      (config.written library
        ((template.written library defined).store defined)).store
          ((template.written library defined).store defined) := by
  rw [define] at hdefined
  rw [run] at hsent
  obtain ⟨first, hservice, hbelow⟩ := Outcome.andThen_eq_ok.mp hdefined
  rw [hservice, Outcome.ok_andThen, runTemplate, hbelow, Outcome.ok_andThen] at hsent
  obtain ⟨templated, htemplate, hlast⟩ := Outcome.andThen_eq_ok.mp hsent
  rw [store_written htemplate, store_written hlast]

/-- No object has two members of one name. -/
def Unambiguous (fromTemplate fromService : Writes) (defined : Context)
    (name : String) : Prop :=
  (∀ value ∈ defined.getVariable name, value.Distinct) ∧
    (∀ value ∈ fromTemplate.find? name, value.Distinct) ∧
      ∀ value ∈ fromService.find? name, value.Distinct

/-- A setting is read with the value of the service, or else of the template.
In documents this holds of everything at a path. -/
structure Overrides (fromTemplate fromService : Writes)
    (defined sent : Context) : Prop where
  settings : ∀ name value, name ∉ mergedNames →
    (fromService.given name).or (fromTemplate.given name) = some value →
      sent.getVariable name = some value
  serviceDocuments : ∀ name doc, name ∈ mergedNames →
    Unambiguous fromTemplate fromService defined name →
      fromService.given name = some doc →
        ∀ path shape, doc.shapeAt path = some shape →
          Shows (sent.getVariable name) path shape
  templateDocuments : ∀ name doc, name ∈ mergedNames →
    Unambiguous fromTemplate fromService defined name →
      fromTemplate.given name = some doc →
        ∀ path shape, doc.shapeAt path = some shape →
          (∀ other ∈ fromService.given name, other.LeavesAlone path) →
            Shows (sent.getVariable name) path shape

/-- Nothing that is stored earlier under the name of a setting, by a definition
or by the template, hides its value. -/
structure Unhidden (fromTemplate fromService : Writes)
    (defined : Context) : Prop where
  settings : ∀ name value, name ∉ mergedNames →
    (fromService.given name).or (fromTemplate.given name) = some value →
      ∀ earlier, (defined.ownVariables.lookup name).or
          (fromTemplate.find? name) = some earlier →
        earlier = value
  documents : ∀ name doc, name ∈ mergedNames →
    Unambiguous fromTemplate fromService defined name →
      (fromService.given name).or (fromTemplate.given name) = some doc →
        Unobstructed
          ((defined.getVariable name).or (fromTemplate.find? name)) doc

section Overrides

variable {fromTemplate fromService : Writes} {defined : Context} {name : String}

theorem given_of_merged (hmerged : name ∈ mergedNames) (writes : Writes) :
    writes.given name = writes.find? name := by
  apply given_of_ne
  rintro rfl
  exact absurd hmerged (by decide)

theorem getVariable_of_own {context : Context} {value : Json}
    (hname : cStr name = name)
    (hown : context.ownVariables.lookup name = some value) :
    context.getVariable name = some value := by
  rw [Context.getVariable_eq, hname, hown, Option.some_or]

/-- The value of a setting that is read is the one that was stored first. -/
theorem setting_iff {value : Json} (hset : name ∉ mergedNames)
    (hgiven : (fromService.given name).or (fromTemplate.given name) =
      some value) :
    (fromService.store (fromTemplate.store defined)).getVariable name =
        some value ↔
      ∀ earlier, (defined.ownVariables.lookup name).or
          (fromTemplate.find? name) = some earlier → earlier = value := by
  have hown := own_store hset fromService (fromTemplate.store defined)
  rw [own_store hset fromTemplate defined] at hown
  have hname : cStr name = name := by
    cases hservice : fromService.given name with
    | some value =>
        exact Setting.cStr_name (mem_names (find?_of_given hservice))
    | none =>
        rw [hservice, Option.none_or] at hgiven
        exact Setting.cStr_name (mem_names (find?_of_given hgiven))
  cases hearlier : (defined.ownVariables.lookup name).or
      (fromTemplate.find? name) with
  | some earlier =>
      rw [hearlier, Option.some_or] at hown
      rw [getVariable_of_own hname hown]
      simp
  | none =>
      have htemplate : fromTemplate.given name = none := by
        by_contra hsome
        obtain ⟨other, hother⟩ := Option.ne_none_iff_exists'.mp hsome
        rw [find?_of_given hother, Option.or_some] at hearlier
        cases hearlier
      rw [htemplate, Option.or_none] at hgiven
      rw [hearlier, Option.none_or, find?_of_given hgiven] at hown
      rw [getVariable_of_own hname hown]
      simp

theorem service_document_iff {doc : Json} (hmerged : name ∈ mergedNames)
    (hdistinct : Unambiguous fromTemplate fromService defined name)
    (hservice : fromService.find? name = some doc) :
    (∀ path shape, doc.shapeAt path = some shape →
        Shows ((fromService.store (fromTemplate.store defined)).getVariable
          name) path shape) ↔
      Unobstructed
        ((defined.getVariable name).or (fromTemplate.find? name)) doc := by
  have hname := mem_names hservice
  rw [getVariable_store hmerged hname, getVariable_store hmerged hname, hservice,
    ← unobstructed_mergedInto]
  apply mergedInto_shows_iff
  · exact mergedInto_distinct hdistinct.1 hdistinct.2.1
  · exact hdistinct.2.2 doc hservice

theorem template_document_iff {doc : Json} (hmerged : name ∈ mergedNames)
    (hdistinct : Unambiguous fromTemplate fromService defined name)
    (htemplate : fromTemplate.find? name = some doc)
    (hservice : fromService.find? name = none) :
    (∀ path shape, doc.shapeAt path = some shape →
        Shows ((fromService.store (fromTemplate.store defined)).getVariable
          name) path shape) ↔
      Unobstructed
        ((defined.getVariable name).or (fromTemplate.find? name)) doc := by
  have hname := mem_names htemplate
  have hsame : Unobstructed ((defined.getVariable name).or (some doc)) doc ↔
      Unobstructed (defined.getVariable name) doc := by
    cases defined.getVariable name with
    | none =>
        constructor
        · rintro - other ⟨⟩
        · rintro - other ⟨⟩
          exact .inl rfl
    | some existing => exact Iff.rfl
  rw [getVariable_store hmerged hname, getVariable_store hmerged hname, hservice,
    htemplate, hsame]
  simp only [mergedInto]
  exact mergedInto_shows_iff hdistinct.1 (hdistinct.2.1 doc htemplate)

theorem shows_template_document {doc other : Json}
    (hmerged : name ∈ mergedNames)
    (hdistinct : Unambiguous fromTemplate fromService defined name)
    (htemplate : fromTemplate.find? name = some doc)
    (hservice : fromService.find? name = some other)
    (hunobstructed : Unobstructed
      ((defined.getVariable name).or (fromTemplate.find? name)) other)
    {path : List String} {shape : Shape}
    (hshape : doc.shapeAt path = some shape)
    (halone : other.LeavesAlone path) :
    Shows ((fromService.store (fromTemplate.store defined)).getVariable name)
      path shape := by
  have hname := mem_names htemplate
  have hdoc := hdistinct.2.1 doc htemplate
  rw [getVariable_store hmerged hname, getVariable_store hmerged hname, hservice,
    htemplate]
  rw [htemplate] at hunobstructed
  have hearlier : ∀ value ∈ mergedInto (defined.getVariable name) (some doc),
      value.Distinct := by
    apply mergedInto_distinct hdistinct.1
    rintro value ⟨⟩
    exact hdoc
  apply mergedInto_shows_of_leavesAlone hearlier (hdistinct.2.2 other hservice)
    halone
  -- what the service's document is merged into is an object
  obtain ⟨members, rfl⟩ := halone.isObject
  have hobject : ∀ earlier ∈ (defined.getVariable name).or (some doc),
      earlier.isObject = true := by
    intro earlier hmem
    cases hunobstructed earlier hmem with
    | inl heq =>
        rw [heq]
        rfl
    | inr hboth => exact hboth.1
  cases hexisting : defined.getVariable name with
  | none => exact ⟨doc, rfl, hshape⟩
  | some existing =>
      have hexistingObject : existing.isObject = true := by
        apply hobject
        rw [hexisting]
        rfl
      have hdistinctExisting := hdistinct.1
      rw [hexisting] at hdistinctExisting
      have hnotRoot : path ≠ [] := by
        rintro rfl
        cases halone.absent
      have hdocObject : doc.isObject = true := by
        cases doc with
        | object others => rfl
        | null | bool | number | string | array =>
            cases path with
            | nil => exact absurd rfl hnotRoot
            | cons first rest => cases hshape
      apply (mergedInto_shows_iff hdistinctExisting hdoc).mpr _ path shape hshape
      rintro _ ⟨⟩
      exact .inr ⟨hexistingObject, hdocObject⟩

end Overrides

/-- Every setting that the service or its template gives is overridden as it
should be exactly when no earlier value hides it. -/
theorem overrides_iff (library : Library) {template config : BackendRequestConfig}
    {context defined sent : Context}
    (hdefined : define library template config context = .ok defined)
    (hsent : config.run library (some template) context = .ok sent) :
    Overrides (template.written library defined)
        (config.written library
          ((template.written library defined).store defined)) defined sent ↔
      Unhidden (template.written library defined)
        (config.written library
          ((template.written library defined).store defined)) defined := by
  rw [store_of_run hdefined hsent]
  generalize config.written library _ = fromService
  generalize template.written library defined = fromTemplate
  constructor
  · intro hoverrides
    constructor
    · intro name value hset hgiven
      exact (setting_iff hset hgiven).mp
        (hoverrides.settings name value hset hgiven)
    · intro name doc hmerged hdistinct hgiven
      cases hservice : fromService.given name with
      | some other =>
          rw [hservice] at hgiven
          cases hgiven
          have hshown := hoverrides.serviceDocuments name doc hmerged hdistinct
            hservice
          rw [given_of_merged hmerged] at hservice
          exact (service_document_iff hmerged hdistinct hservice).mp hshown
      | none =>
          rw [hservice, Option.none_or] at hgiven
          have hshown := hoverrides.templateDocuments name doc hmerged hdistinct
            hgiven
          rw [hservice] at hshown
          rw [given_of_merged hmerged] at hservice hgiven
          apply (template_document_iff hmerged hdistinct hgiven hservice).mp
          intro path shape hshape
          apply hshown path shape hshape
          rintro other ⟨⟩
  · intro hunhidden
    constructor
    · intro name value hset hgiven
      exact (setting_iff hset hgiven).mpr
        (hunhidden.settings name value hset hgiven)
    · intro name doc hmerged hdistinct hservice
      have hunobstructed := hunhidden.documents name doc hmerged hdistinct
        (by rw [hservice, Option.some_or])
      rw [given_of_merged hmerged] at hservice
      exact (service_document_iff hmerged hdistinct hservice).mpr hunobstructed
    · intro name doc hmerged hdistinct htemplate path shape hshape halone
      have hdocuments := hunhidden.documents name
      rw [htemplate] at hdocuments
      rw [given_of_merged hmerged] at htemplate
      cases hservice : fromService.given name with
      | some other =>
          have hunobstructed := hdocuments other hmerged hdistinct
            (by rw [hservice, Option.some_or])
          have hother := halone other hservice
          rw [given_of_merged hmerged] at hservice
          exact shows_template_document hmerged hdistinct htemplate hservice
            hunobstructed hshape hother
      | none =>
          have hunobstructed := hdocuments doc hmerged hdistinct
            (by rw [hservice, Option.none_or])
          rw [given_of_merged hmerged] at hservice
          exact (template_document_iff hmerged hdistinct htemplate hservice).mpr
            hunobstructed path shape hshape

def methodConfig (method : String) : BackendRequestConfig :=
  .http { httpMethod := some method }

def uriTemplate : BackendRequestConfig :=
  .http { httpUri := some "/forecast" }

theorem overrides_uriTemplate :
    Overrides (uriTemplate.written .bare ⟨[], []⟩)
      ((methodConfig "post").written .bare
        ((uriTemplate.written .bare ⟨[], []⟩).store ⟨[], []⟩)) ⟨[], []⟩
      ⟨[("http_uri", .string "/forecast"), ("http_method", .string "post")],
        []⟩ := by
  have hdefined : define .bare uriTemplate (methodConfig "post") ⟨[], []⟩ =
      .ok ⟨[], []⟩ := rfl
  apply (overrides_iff .bare hdefined rfl).mpr
  constructor
  · intro name value _ hgiven earlier hearlier
    by_cases hname : name = "http_uri"
    · subst hname
      rw [← Option.some.inj hgiven]
      exact (Option.some.inj hearlier).symm
    · have hnone : (uriTemplate.written .bare ⟨[], []⟩).find? name = none :=
        Members.lookup_cons_of_ne hname _ []
      rw [hnone] at hearlier
      cases hearlier
  · intro name doc hmerged _ _
    have hnone : (uriTemplate.written .bare ⟨[], []⟩).find? name = none := by
      apply Members.lookup_cons_of_ne _ _ []
      rintro rfl
      exact absurd hmerged (by decide)
    rw [hnone]
    rintro other ⟨⟩

theorem templateMethod_sent :
    ¬ ∀ library template config context defined sent,
      define library template config context = .ok defined →
        config.run library (some template) context = .ok sent →
          Overrides (template.written library defined)
            (config.written library
              ((template.written library defined).store defined))
            defined sent := by
  intro hall
  have hoverrides := hall .bare (methodConfig "get") (methodConfig "post")
    ⟨[], []⟩ ⟨[], []⟩ _ rfl rfl
  have hread := hoverrides.settings "http_method" (.string "post") (by decide) rfl
  exact absurd hread (by decide)

end BackendRequestConfig

end Uskit
