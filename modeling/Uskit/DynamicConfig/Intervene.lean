import Uskit.Data.DecisionList
import Uskit.DynamicConfig.Flow
import Uskit.Expression.Driver

namespace Uskit

open Uskit.Data

/-! The rules of an intervention file, and which of them `evaluate_target_service`
and `evaluate_target_flow` follow. -/

structure InterveneRule where
  pattern : String
  target : String
  entireMatch : Bool := true
  serviceIntervene : Bool := true
deriving DecidableEq, Repr

namespace InterveneRule

def patternKey (rule : InterveneRule) : String :=
  if rule.entireMatch then rule.pattern else rule.pattern ++ "__SEARCH"

/-- What has to fit for the rule to apply: the pattern, in the whole source or
somewhere in it. -/
def test (rule : InterveneRule) : Bool × String :=
  (rule.entireMatch, rule.pattern)

end InterveneRule

namespace FlowInterveneConfig

/-- One turn of the loop of `init_by_intervene_file`. -/
def addRule (compiles : String → Bool) (config : FlowInterveneConfig)
    (rule : InterveneRule) : FlowInterveneConfig :=
  if compiles rule.pattern then
    let listed :=
      if rule.entireMatch then
        { config with matchList := config.matchList ++ [rule.pattern] }
      else { config with searchList := config.searchList ++ [rule.pattern] }
    if rule.serviceIntervene then
      { listed with patternServiceMap :=
          Members.emplace listed.patternServiceMap rule.patternKey rule.target }
    else
      { listed with patternFlowMap :=
          Members.emplace listed.patternFlowMap rule.patternKey rule.target }
  else config

def initByInterveneFile (compiles : String → Bool) (rules : List InterveneRule)
    (config : FlowInterveneConfig) : FlowInterveneConfig :=
  rules.foldl (addRule compiles) config

def init (runtime : Expression.Runtime) (compiles : String → Bool) (source : String)
    (rules : List InterveneRule) : Option FlowInterveneConfig :=
  match Expression.Driver.parse runtime source.toList with
  | .accepted expr => some (initByInterveneFile compiles rules ⟨expr, [], [], [], []⟩)
  | _ => none

end FlowInterveneConfig

/-! The rules as a reader of the file takes them: entire matches first, then
searches, each in the order of the file. -/

abbrev Decisions := DecisionList (Bool × String) String

def fits (library : Library) (source : String) (test : Bool × String) : Bool :=
  if test.1 then library.regexMatch test.2 source
  else library.regexSearch test.2 source

namespace InterveneRule

def listed (entire : Bool) (rules : List InterveneRule) : List InterveneRule :=
  rules.filter (·.entireMatch == entire)

def ofKind (service : Bool) (rules : List InterveneRule) : List InterveneRule :=
  rules.filter (·.serviceIntervene == service)

/-- Every rule of the kind with its own target. -/
def decisions (service : Bool) (rules : List InterveneRule) : Decisions :=
  let entries := fun entire => (listed entire (ofKind service rules)).map fun rule =>
    (rule.test, rule.target)
  entries true ++ entries false

/-- The target of the first rule of the kind with a key. -/
def keyTarget (service : Bool) (rules : List InterveneRule) (key : String) :
    Option String :=
  ((ofKind service rules).find? (·.patternKey == key)).map target

/-- Every rule, also one of the other kind, with the target of the first rule of
the kind that has its key. -/
def keyedDecisions (service : Bool) (rules : List InterveneRule) : Decisions :=
  let entries := fun entire => (listed entire rules).filterMap fun rule =>
    (keyTarget service rules rule.patternKey).map (rule.test, ·)
  entries true ++ entries false

end InterveneRule

namespace FlowInterveneConfig

open InterveneRule

/-- The map of the services, or of the flows. -/
def targets (config : FlowInterveneConfig) (service : Bool) : Members String String :=
  if service then config.patternServiceMap else config.patternFlowMap

theorem keyTarget_singleton (service : Bool) (rule : InterveneRule) (key : String) :
    keyTarget service [rule] key =
      if rule.serviceIntervene = service ∧ rule.patternKey = key then some rule.target
      else none := by
  by_cases hkind : rule.serviceIntervene = service
  · by_cases hkey : rule.patternKey = key
    · simp [keyTarget, ofKind, hkind, hkey]
    · simp [keyTarget, ofKind, hkind, hkey]
  · simp [keyTarget, ofKind, hkind]

theorem keyTarget_cons (service : Bool) (rule : InterveneRule)
    (rest : List InterveneRule) (key : String) :
    keyTarget service (rule :: rest) key =
      (keyTarget service [rule] key).or (keyTarget service rest key) := by
  have hkind : ofKind service (rule :: rest) =
      ofKind service [rule] ++ ofKind service rest :=
    List.filter_append [rule] rest
  rw [keyTarget, hkind, List.find?_append, Option.map_or]
  rfl

theorem addRule_targets (compiles : String → Bool) (config : FlowInterveneConfig)
    {rule : InterveneRule} (hcompiles : compiles rule.pattern = true)
    (service : Bool) (key : String) :
    ((addRule compiles config rule).targets service).lookup key =
      ((config.targets service).lookup key).or (keyTarget service [rule] key) := by
  have hother : ∀ kind : Bool, rule.serviceIntervene = !kind →
      keyTarget kind [rule] key = none := by
    intro kind hkind
    rw [keyTarget_singleton, if_neg]
    intro hboth
    rw [hkind] at hboth
    exact Bool.not_ne_self kind hboth.1
  have hsame : ∀ kind, rule.serviceIntervene = kind → keyTarget kind [rule] key =
      if rule.patternKey = key then some rule.target else none := by
    intro kind hkind
    rw [keyTarget_singleton, hkind]
    simp only [true_and]
  unfold addRule
  rw [if_pos hcompiles]
  cases hkind : rule.serviceIntervene with
  | true =>
      cases service with
      | true =>
          rw [hsame true hkind, ← Members.lookup_emplace]
          cases rule.entireMatch with
          | true => rfl
          | false => rfl
      | false =>
          rw [hother false hkind, Option.or_none]
          cases rule.entireMatch with
          | true => rfl
          | false => rfl
  | false =>
      cases service with
      | true =>
          rw [hother true hkind, Option.or_none]
          cases rule.entireMatch with
          | true => rfl
          | false => rfl
      | false =>
          rw [hsame false hkind, ← Members.lookup_emplace]
          cases rule.entireMatch with
          | true => rfl
          | false => rfl

/-- The list of the patterns for entire matches, or for searches. -/
def patterns (config : FlowInterveneConfig) (entire : Bool) : List String :=
  if entire then config.matchList else config.searchList

theorem addRule_patterns (compiles : String → Bool) (config : FlowInterveneConfig)
    {rule : InterveneRule} (hcompiles : compiles rule.pattern = true) (entire : Bool) :
    (addRule compiles config rule).patterns entire =
      config.patterns entire ++ (listed entire [rule]).map pattern := by
  obtain ⟨pattern, target, whole, kind⟩ := rule
  simp only [addRule, if_pos hcompiles]
  cases entire with
  | true =>
      cases whole with
      | true =>
          cases kind with
          | true => rfl
          | false => rfl
      | false =>
          cases kind with
          | true => exact (List.append_nil _).symm
          | false => exact (List.append_nil _).symm
  | false =>
      cases whole with
      | true =>
          cases kind with
          | true => exact (List.append_nil _).symm
          | false => exact (List.append_nil _).symm
      | false =>
          cases kind with
          | true => rfl
          | false => rfl

def compiled (compiles : String → Bool) (rules : List InterveneRule) :
    List InterveneRule :=
  rules.filter fun rule => compiles rule.pattern

theorem compiled_cons_pos {compiles : String → Bool} {rule : InterveneRule}
    (hcompiles : compiles rule.pattern = true) (rest : List InterveneRule) :
    compiled compiles (rule :: rest) = rule :: compiled compiles rest :=
  List.filter_cons_of_pos hcompiles

theorem compiled_cons_neg {compiles : String → Bool} {rule : InterveneRule}
    (hcompiles : compiles rule.pattern = false) (rest : List InterveneRule) :
    compiled compiles (rule :: rest) = compiled compiles rest :=
  List.filter_cons_of_neg (by rw [hcompiles]; exact Bool.false_ne_true)

/-- What the lists and the maps hold once the file is read. -/
theorem initByInterveneFile_spec (compiles : String → Bool)
    (rules : List InterveneRule) (config : FlowInterveneConfig) :
    (∀ entire, (initByInterveneFile compiles rules config).patterns entire =
      config.patterns entire ++
        (listed entire (compiled compiles rules)).map pattern) ∧
    ∀ service key,
      ((initByInterveneFile compiles rules config).targets service).lookup key =
        ((config.targets service).lookup key).or
          (keyTarget service (compiled compiles rules) key) := by
  unfold initByInterveneFile
  induction rules generalizing config with
  | nil =>
      constructor
      · intro entire
        exact (List.append_nil _).symm
      · intro service key
        exact Option.or_none.symm
  | cons rule rest ih =>
      obtain ⟨hpatterns, htargets⟩ := ih (addRule compiles config rule)
      rw [List.foldl_cons]
      cases hcompiles : compiles rule.pattern with
      | true =>
          rw [compiled_cons_pos hcompiles]
          constructor
          · intro entire
            rw [hpatterns, addRule_patterns compiles config hcompiles,
              List.append_assoc, ← List.map_append]
            exact congrArg (fun listed => config.patterns entire ++ listed.map pattern)
              (List.filter_append [rule] _).symm
          · intro service key
            rw [htargets, addRule_targets compiles config hcompiles,
              keyTarget_cons service rule (compiled compiles rest), Option.or_assoc]
      | false =>
          have hskip : addRule compiles config rule = config := by
            unfold addRule
            rw [hcompiles, if_neg Bool.false_ne_true]
          rw [hskip] at hpatterns htargets
          rw [compiled_cons_neg hcompiles, hskip]
          exact ⟨hpatterns, htargets⟩

/-- The search through one list of patterns reads the rules behind it. -/
theorem findTarget_eq {targets : Members String String} {suffix : String}
    {library : Library} {source : String} {entire : Bool} {answer : String → Option String}
    (hsuffix : suffix = if entire then "" else "__SEARCH")
    (hanswer : ∀ key, targets.lookup key = answer key) (rules : List InterveneRule) :
    findTarget targets suffix (fun pattern => fits library source (entire, pattern))
        ((listed entire rules).map pattern) =
      DecisionList.firstFit (fits library source)
        ((listed entire rules).filterMap fun rule =>
          (answer rule.patternKey).map (rule.test, ·)) := by
  have hentire : ∀ rule ∈ listed entire rules, rule.entireMatch = entire := by
    intro rule hrule
    exact beq_iff_eq.mp (List.mem_filter.mp hrule).2
  generalize listed entire rules = rules at hentire
  induction rules with
  | nil => rfl
  | cons rule rest ih =>
      have hrest := ih fun other hother => hentire other (.tail _ hother)
      have hkind := hentire rule List.mem_cons_self
      have hkey : rule.pattern ++ suffix = rule.patternKey := by
        rw [hsuffix, patternKey, hkind]
        cases entire with
        | true => exact String.append_empty
        | false => rfl
      rw [List.map_cons, findTarget, hkey, hanswer, List.filterMap_cons]
      cases answer rule.patternKey with
      | none => exact hrest
      | some target =>
          simp only [Option.map_some]
          rw [DecisionList.firstFit, List.find?_cons, test, hkind]
          cases fits library source (entire, rule.pattern) with
          | true => rfl
          | false => exact hrest

theorem evaluateTarget_eq (library : Library) (compiles : String → Bool)
    (rules : List InterveneRule) (source : Expr) (service : Bool) (text : String) :
    let config := initByInterveneFile compiles rules ⟨source, [], [], [], []⟩
    config.evaluateTarget library (config.targets service) text =
      DecisionList.firstFit (fits library text)
        (keyedDecisions service (compiled compiles rules)) := by
  intro config
  obtain ⟨hpatterns, htargets⟩ :=
    initByInterveneFile_spec compiles rules ⟨source, [], [], [], []⟩
  have hempty : ∀ key, ((⟨source, [], [], [], []⟩ : FlowInterveneConfig).targets
      service).lookup key = none := by
    intro key
    cases service with
    | true => rfl
    | false => rfl
  have hanswer : ∀ key, (config.targets service).lookup key =
      keyTarget service (compiled compiles rules) key := by
    intro key
    rw [htargets, hempty, Option.none_or]
  have hmatch : config.matchList =
      (listed true (compiled compiles rules)).map pattern := hpatterns true
  have hsearch : config.searchList =
      (listed false (compiled compiles rules)).map pattern := hpatterns false
  rw [evaluateTarget, hmatch, hsearch, keyedDecisions, DecisionList.firstFit_append,
    ← findTarget_eq rfl hanswer, ← findTarget_eq rfl hanswer]
  rfl

/-- The first rule of the kind that fits, as the documentation of the rules has
it: entire matches before searches. -/
def firstTarget (library : Library) (service : Bool) (rules : List InterveneRule)
    (text : String) : String :=
  let kind := ofKind service rules
  match (listed true kind).find? (library.regexMatch ·.pattern text) with
  | some rule => rule.target
  | none =>
      match (listed false kind).find? (library.regexSearch ·.pattern text) with
      | some rule => rule.target
      | none => ""

theorem firstTarget_eq (library : Library) (service : Bool)
    (rules : List InterveneRule) (text : String) :
    firstTarget library service rules text =
      (DecisionList.firstFit (fits library text) (decisions service rules)).getD "" := by
  have hlisted : ∀ entire, DecisionList.firstFit (fits library text)
      ((listed entire (ofKind service rules)).map fun rule =>
        (rule.test, rule.target)) =
          ((listed entire (ofKind service rules)).find? fun rule =>
            fits library text (entire, rule.pattern)).map target := by
    intro entire
    have hentire : ∀ rule ∈ listed entire (ofKind service rules),
        rule.entireMatch = entire := by
      intro rule hrule
      exact beq_iff_eq.mp (List.mem_filter.mp hrule).2
    generalize listed entire (ofKind service rules) = rules at hentire
    induction rules with
    | nil => rfl
    | cons rule rest ih =>
        have hrest := ih fun other hother => hentire other (.tail _ hother)
        rw [List.map_cons, DecisionList.firstFit, List.find?_cons, List.find?_cons,
          test, hentire rule List.mem_cons_self]
        cases fits library text (entire, rule.pattern) with
        | true => rfl
        | false => exact hrest
  rw [decisions, DecisionList.firstFit_append, hlisted, hlisted, firstTarget]
  simp only [fits, if_true, if_neg Bool.false_ne_true]
  cases (listed true (ofKind service rules)).find? fun rule =>
      library.regexMatch rule.pattern text with
  | some rule => rfl
  | none =>
      cases (listed false (ofKind service rules)).find? fun rule =>
          library.regexSearch rule.pattern text with
      | some rule => rfl
      | none => rfl

/-- Both functions follow the first rule of their kind, whatever the patterns
match. -/
def FollowsRules (compiles : String → Bool) (source : Expr)
    (rules : List InterveneRule) : Prop :=
  ∀ (library : Library) (text : String),
    let config := initByInterveneFile compiles rules ⟨source, [], [], [], []⟩
    (config.evaluateTargetService library text).getD "" =
        firstTarget library true (compiled compiles rules) text ∧
      (config.evaluateTargetFlow library text).getD "" =
        firstTarget library false (compiled compiles rules) text

/-- The rules as the code enters them agree with the rules as they are listed. -/
def EnteredAsListed (rules : List InterveneRule) : Prop :=
  ∀ service, DecisionList.Agree "" (keyedDecisions service rules)
    (decisions service rules)

/-- Patterns that fit as a test says. -/
def Library.fitting (fits : Bool × String → Bool) : Library :=
  { Library.bare with
    regexMatch := fun pattern _ => fits (true, pattern)
    regexSearch := fun pattern _ => fits (false, pattern) }

theorem followsRules_iff (compiles : String → Bool) (source : Expr)
    (rules : List InterveneRule) :
    FollowsRules compiles source rules ↔
      EnteredAsListed (compiled compiles rules) := by
  have hboth : ∀ library text service,
      ((initByInterveneFile compiles rules ⟨source, [], [], [], []⟩).evaluateTarget
        library ((initByInterveneFile compiles rules
          ⟨source, [], [], [], []⟩).targets service) text).getD "" =
            firstTarget library service (compiled compiles rules) text ↔
      (DecisionList.firstFit (fits library text)
          (keyedDecisions service (compiled compiles rules))).getD "" =
        (DecisionList.firstFit (fits library text)
          (decisions service (compiled compiles rules))).getD "" := by
    intro library text service
    rw [evaluateTarget_eq, firstTarget_eq]
  constructor
  · intro hfollows service
    rw [← DecisionList.agree_iff]
    intro fitting
    have hfits : fits (Library.fitting fitting) "" = fitting := by
      funext test
      obtain ⟨entire, pattern⟩ := test
      cases entire with
      | true => rfl
      | false => rfl
    obtain ⟨hservice, hflow⟩ := hfollows (Library.fitting fitting) ""
    rw [← hfits]
    cases service with
    | true => exact (hboth _ _ true).mp hservice
    | false => exact (hboth _ _ false).mp hflow
  · intro hentered library text
    have hkind := fun service =>
      (hboth library text service).mpr ((hentered service).firstFit_eq _)
    exact ⟨hkind true, hkind false⟩

/-- A flow rule puts its pattern in front of a service rule listed between. -/
theorem flowRule_reorders_services :
    ¬ ∀ (compiles : String → Bool) (source : Expr) (rules : List InterveneRule),
      (∀ rule ∈ rules, compiles rule.pattern = true) →
        FollowsRules compiles source rules := by
  intro hall
  have hfollows := hall (fun _ => true) .null
    [{ pattern := "a.*", target := "chat", serviceIntervene := false },
      { pattern := "ab", target := "exact" },
      { pattern := "a.*", target := "prefix" }] (by simp)
  have hservice := (hfollows (Library.fitting fun _ => true) "ab").1
  revert hservice
  decide

end FlowInterveneConfig

end Uskit
