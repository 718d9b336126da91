import Uskit.DynamicConfig.KE

namespace Uskit

open Uskit.Data

/-! Rank rules: the features of the candidates, and the order they give. -/

structure RankConfig where
  sortBy : KEVec
  desc : List Bool
  order : Members String Int

/-- A candidate that has all features. -/
structure RankEntry where
  name : String
  features : List Json
deriving DecidableEq, Repr

/-- `GetDouble` of a feature.  On a value that is no number it is undefined;
`RankConfig.run` does not get here then. -/
def featureDouble : Json → Double
  | .number value => value.getDouble
  | _ => Double.ofInt 0

/-- `Compare::operator()` from some feature on, with the directions left. -/
def compareFeatures : List Bool → (a b : List Json) → Bool
  | desc :: descs, a :: as, b :: bs =>
      match a, b with
      | .null, .null => false
      | .null, b =>
          if (Double.ofInt 0).lt (featureDouble b) then !desc
          else if (featureDouble b).lt (Double.ofInt 0) then desc
          else compareFeatures descs as bs
      | a, .null =>
          if (featureDouble a).lt (Double.ofInt 0) then !desc
          else if (Double.ofInt 0).lt (featureDouble a) then desc
          else compareFeatures descs as bs
      | a, b =>
          if (featureDouble a).lt (featureDouble b) then !desc
          else if (featureDouble b).lt (featureDouble a) then desc
          else compareFeatures descs as bs
  | _, _, _ => false

def RankEntry.compare (desc : List Bool) (a b : RankEntry) : Bool :=
  compareFeatures desc a.features b.features

def isFeature : Json → Bool
  | .null | .number _ => true
  | _ => false

namespace RankConfig

/-- `item` is set anew in the scope of the caller. -/
def setItem (item : Json) (context : Context) : Context :=
  if context.hasVariable "item" then
    (context.eraseVariable "item").setVariable "item" item
  else context.setVariable "item" item

/-- Where `get_variable("backend")` points to: a place in the variables of the
caller's scope, or a scope around it. -/
def backendPlace (context : Context) : Option Nat :=
  context.ownVariables.findIdx? (·.1 = cStr "backend")

/-- What the pointer shows.  Erasing a variable moves those behind it one place
ahead, in the same memory. -/
def backendAt (place : Option Nat) (context : Context) : Option Json :=
  match place with
  | some index => (context.ownVariables[index]?).map Prod.snd
  | none => Context.findVariable (cStr "backend") context.parents

/-- The features by priority that a candidate starts with. -/
def orderFeatures (config : RankConfig) (name : String) : List Json :=
  match config.order.lookup name with
  | some priority => [.number (.int priority)]
  | none => []

/-- One item of a candidate: the entry it gives, if all features are there.  A
failure to evaluate `sort_by` skips it. -/
def rankItem (library : Library) (config : RankConfig) (features : List Json)
    (name : String) (item : Json) (context : Context) :
    Result (Context × List RankEntry) :=
  let context := setItem item context
  match Expr.runArgs library context config.sortBy with
  | .ok values =>
      if (features ++ values).length = config.desc.length then
        .ok (context, [⟨name, features ++ values⟩])
      else .ok (context, [])
  | .failed => .ok (context, [])
  | .undefined => .undefined

/-- The elements of an array from `index` on, as `name/index`. -/
def rankElements (library : Library) (config : RankConfig)
    (features : List Json) (name : String) :
    (index : Nat) → List Json → Context → Result (Context × List RankEntry)
  | _, [], context => .ok (context, [])
  | index, item :: rest, context => do
      let (context, first) ←
        config.rankItem library features (name ++ "/" ++ toString index) item context
      let (context, others) ←
        config.rankElements library features name (index + 1) rest context
      .ok (context, first ++ others)

def rankCandidate (library : Library) (config : RankConfig)
    (place : Option Nat) (candidate : String) (context : Context) :
    Result (Context × List RankEntry) :=
  let features := config.orderFeatures (cStr candidate)
  match backendAt place context with
  | some (.object backend) =>
      match backend.lookup candidate with
      | none => .ok (context, [])
      | some (.array items) =>
          config.rankElements library features (cStr candidate) 0 items context
      | some item => config.rankItem library features candidate item context
  | _ => .undefined

/-- The loop over the candidates; each has to be a string. -/
def rankCandidates (library : Library) (config : RankConfig)
    (place : Option Nat) :
    List Json → Context → Result (Context × List RankEntry)
  | [], context => .ok (context, [])
  | .string candidate :: rest, context => do
      let (context, first) ←
        config.rankCandidate library place candidate context
      let (context, others) ← config.rankCandidates library place rest context
      .ok (context, first ++ others)
  | _ :: _, _ => .undefined

/-- `RankConfig::run` with `std::sort` as a parameter.  Comparing a feature that
is neither a number nor null is undefined. -/
def run (library : Library)
    (sort : (RankEntry → RankEntry → Bool) → List RankEntry → List RankEntry)
    (config : RankConfig) (candidates : Json) (context : Context) :
    Result (Context × List Json) :=
  match context.getVariable "backend", candidates with
  | none, _ => .ok (context, [])
  | some _, .array candidates => do
      let (context, entries) ←
        config.rankCandidates library (backendPlace context) candidates context
      if entries.length ≤ 1 ∨
          ∀ entry ∈ entries, ∀ feature ∈ entry.features, isFeature feature = true then
        .ok (context, (sort (RankEntry.compare config.desc) entries).map
          fun entry => .string entry.name)
      else .undefined
  | some _, _ => .undefined

end RankConfig

structure RankEngine where
  rankMap : Members String RankConfig
  sort : (RankEntry → RankEntry → Bool) → List RankEntry → List RankEntry

structure FlowRankConfig where
  topK : Nat
  input : Expr
  rule : String

namespace FlowRankConfig

def setRank (rank : Json) (context : Context) : Context :=
  if context.hasVariable "rank" then
    (context.eraseVariable "rank").setVariable "rank" rank
  else context.setVariable "rank" rank

def run (library : Library) (engine : RankEngine) (config : FlowRankConfig)
    (context : Context) : Outcome Context :=
  .evaluate context (config.input.run library context) fun inputValue =>
    match engine.rankMap.lookup config.rule with
    | none => .failed context
    | some rankConfig =>
        match rankConfig.run library engine.sort inputValue context with
        | .ok (context, rankResult) =>
            let selected :=
              if 0 < config.topK ∧ config.topK < rankResult.length then
                rankResult.take config.topK
              else rankResult
            .ok (setRank (.array selected) context)
        | .failed => .failed context
        | .undefined => .undefined

def runAll (library : Library) (engine : RankEngine) :
    List FlowRankConfig → Context → Outcome Context
  | [], context => .ok context
  | config :: rest, context =>
      (config.run library engine context).andThen (runAll library engine rest)

end FlowRankConfig

/-! Ranking writes `item` and `rank` in the scope of the flow only: a view of the
context that these two do not change stays the same. -/

section Frame

variable {library : Library} {view : Context → β}

section Item

variable {config : RankConfig} {context after : Context} {entries : List RankEntry}
  (hitem : ∀ item context, view (RankConfig.setItem item context) = view context)

include hitem

theorem RankConfig.rankItem_view {features : List Json} {name : String} {item : Json}
    (hrun : config.rankItem library features name item context =
      .ok (after, entries)) : view after = view context := by
  unfold rankItem at hrun
  simp only at hrun
  split at hrun
  · split at hrun
    · cases hrun
      exact hitem item context
    · cases hrun
      exact hitem item context
  · cases hrun
    exact hitem item context
  · cases hrun

theorem RankConfig.rankElements_view {features : List Json} {name : String}
    {index : Nat} {items : List Json}
    (hrun : config.rankElements library features name index items context =
      .ok (after, entries)) : view after = view context := by
  induction items generalizing index context entries with
  | nil =>
      cases hrun
      rfl
  | cons item rest ih =>
      rw [rankElements, Result.bind_eq_ok] at hrun
      obtain ⟨⟨middle, first⟩, hfirst, hrun⟩ := hrun
      obtain ⟨⟨final, others⟩, hrest, hrun⟩ := Result.bind_eq_ok.mp hrun
      cases hrun
      exact (ih hrest).trans (rankItem_view hitem hfirst)

theorem RankConfig.rankCandidate_view {place : Option Nat} {candidate : String}
    (hrun : config.rankCandidate library place candidate context =
      .ok (after, entries)) : view after = view context := by
  unfold rankCandidate at hrun
  simp only at hrun
  split at hrun
  · split at hrun
    · cases hrun
      rfl
    · exact rankElements_view hitem hrun
    · exact rankItem_view hitem hrun
  · cases hrun

theorem RankConfig.rankCandidates_view {place : Option Nat}
    {candidates : List Json}
    (hrun : config.rankCandidates library place candidates context =
      .ok (after, entries)) : view after = view context := by
  induction candidates generalizing context entries with
  | nil =>
      cases hrun
      rfl
  | cons candidate rest ih =>
      cases candidate with
      | string name =>
          rw [rankCandidates, Result.bind_eq_ok] at hrun
          obtain ⟨⟨middle, first⟩, hcandidate, hrun⟩ := hrun
          obtain ⟨⟨final, others⟩, hrest, hrun⟩ := Result.bind_eq_ok.mp hrun
          cases hrun
          exact (ih hrest).trans (rankCandidate_view hitem hcandidate)
      | null | bool | number | array | object => cases hrun

theorem RankConfig.run_view
    {sort : (RankEntry → RankEntry → Bool) → List RankEntry → List RankEntry}
    {candidates : Json} {ranked : List Json}
    (hrun : config.run library sort candidates context = .ok (after, ranked)) :
    view after = view context := by
  unfold run at hrun
  split at hrun
  · cases hrun
    rfl
  · obtain ⟨⟨middle, entries⟩, hcandidates, hrun⟩ := Result.bind_eq_ok.mp hrun
    simp only at hrun
    split at hrun
    · cases hrun
      exact rankCandidates_view hitem hcandidates
    · cases hrun
  · cases hrun

end Item

theorem FlowRankConfig.runAll_view
    (hitem : ∀ item context, view (RankConfig.setItem item context) = view context)
    (hrank : ∀ rank context, view (setRank rank context) = view context)
    (engine : RankEngine) (configs : List FlowRankConfig) (context : Context) :
    (runAll library engine configs context).Keeps view context := by
  induction configs generalizing context with
  | nil => exact .refl _ context
  | cons config rest ih =>
      refine Outcome.Keeps.andThen ?_ ih
      apply Outcome.Keeps.evaluate
      intro inputValue
      split
      · exact .failed rfl
      · split
        · rename_i hrun
          apply Outcome.Leaves.ok
          rw [hrank]
          exact RankConfig.run_view hitem hrun
        · exact .failed rfl
        · exact .undefined

end Frame

theorem FlowRankConfig.runAll_parents (library : Library) (engine : RankEngine)
    (configs : List FlowRankConfig) (context : Context) :
    (runAll library engine configs context).Keeps Context.parents context := by
  apply runAll_view
  · intro item context
    unfold RankConfig.setItem
    split <;> rfl
  · intro rank context
    unfold setRank
    split <;> rfl

/-! `item` and `rank` are erased if they are there, and set behind the others. -/

section Reset

variable {key name : String} (hcut : cStr key = key) (value : Json) (context : Context)

include hcut

theorem Context.allNamed_reset (hne : key ≠ name) :
    Context.allNamed name (if context.hasVariable key then
      (context.eraseVariable key).setVariable key value
      else context.setVariable key value) = context.allNamed name := by
  split
  · rw [allNamed_setVariable_of_ne hne]
    exact allNamed_eraseVariable_of_ne (by rwa [hcut]) context
  · exact allNamed_setVariable_of_ne hne value context

theorem Context.named_reset :
    Members.named key (if context.hasVariable key then
      (context.eraseVariable key).setVariable key value
      else context.setVariable key value).ownVariables =
        (Members.named key context.ownVariables).tail ++ [(key, value)] := by
  unfold hasVariable
  rw [hcut, Members.lookup_eq_head_named]
  cases hnamed : Members.named key context.ownVariables with
  | nil =>
      rw [List.head?_nil, Option.map_none, Option.isSome_none, if_neg Bool.false_ne_true,
        setVariable, Members.named_append, hnamed]
      simp
  | cons first rest =>
      rw [List.head?_cons, Option.map_some, Option.isSome_some, if_pos rfl,
        setVariable, eraseVariable, hcut, Members.named_append,
        Members.named_eraseFirst_self, hnamed]
      simp

/-- The first of the variables with the name is shown. -/
theorem Context.getVariable_reset :
    (if context.hasVariable key then (context.eraseVariable key).setVariable key value
      else context.setVariable key value).getVariable key =
        (((Members.named key context.ownVariables).tail ++ [(key, value)]).head?).map
          Prod.snd := by
  rw [getVariable_eq, hcut, Members.lookup_eq_head_named, named_reset hcut]
  cases (Members.named key context.ownVariables).tail with
  | nil => rfl
  | cons first rest => rfl

end Reset

theorem cStr_item : cStr "item" = "item" := by decide

theorem cStr_rank : cStr "rank" = "rank" := by decide

theorem RankConfig.allNamed_setItem {name : String} (hne : "item" ≠ name) (item : Json)
    (context : Context) : (setItem item context).allNamed name = context.allNamed name :=
  Context.allNamed_reset cStr_item item context hne

theorem FlowRankConfig.allNamed_setRank {name : String} (hne : "rank" ≠ name)
    (rank : Json) (context : Context) :
    (setRank rank context).allNamed name = context.allNamed name :=
  Context.allNamed_reset cStr_rank rank context hne

theorem FlowRankConfig.runAll_allNamed {name : String} (hitem : "item" ≠ name)
    (hrank : "rank" ≠ name) (library : Library) (engine : RankEngine)
    (configs : List FlowRankConfig) (context : Context) :
    (runAll library engine configs context).Keeps (Context.allNamed name) context :=
  runAll_view (RankConfig.allNamed_setItem hitem) (allNamed_setRank hrank) engine configs
    context

end Uskit
