import Uskit.Data.ComparatorSort
import Uskit.DynamicConfig.Compare
import Uskit.DynamicConfig.RankTurns

namespace Uskit

open Uskit.Data

/-! What `RankConfig::run` and `FlowRankConfig::run` are to give: the eligible
entries in the order of their features, and the first of them. -/

structure SortByConfig where
  expr : String
  desc : Int := 1

structure RankNodeConfig where
  order : List String := []
  sortBy : List SortByConfig := []

namespace RankConfig

/-- The candidates that a line of `order` lists. -/
def lineNames (splitString : String → List String) (order : String) : List String :=
  if ',' ∈ order.toList then splitString order else [order]

/-- The entries for `_order`, as they are emplaced; a name in an earlier line has
the higher priority. -/
def orderEntries (splitString : String → List String) (lines : List String) :
    Members String Int :=
  lines.zipIdx.flatMap fun line =>
    (lineNames splitString line.1).map fun name => (name, (lines.length : Int) - line.2)

/-- `RankConfig::init`. -/
def init (parse : String → Option Expr) (splitString : String → List String)
    (config : RankNodeConfig) : Option RankConfig := do
  let order := Members.emplaceAll [] (orderEntries splitString config.order)
  let sortBy ← config.sortBy.mapM fun sortBy => parse sortBy.expr
  some {
    sortBy
    order
    desc := (if order.isEmpty then [] else [true]) ++
      config.sortBy.map fun sortBy => decide (sortBy.desc = 1) }

/-- The directions of a rule: the priority from high to low, if there is an order,
and each `sort_by` in its own. -/
def Built (config : RankConfig) : Prop :=
  ∃ directions : List Bool, directions.length = config.sortBy.length ∧
    config.desc = if config.order.isEmpty then directions else true :: directions

theorem length_of_mapM {α β : Type} {f : α → Option β} {elements : List α}
    {images : List β} (hmap : elements.mapM f = some images) :
    images.length = elements.length := by
  induction elements generalizing images with
  | nil =>
      cases hmap
      rfl
  | cons element rest ih =>
      rw [List.mapM_cons] at hmap
      obtain ⟨image, -, hrest⟩ := Option.bind_eq_some_iff.mp hmap
      obtain ⟨others, hothers, himages⟩ := Option.bind_eq_some_iff.mp hrest
      cases himages
      rw [List.length_cons, List.length_cons, ih hothers]

theorem init_built {parse : String → Option Expr}
    {splitString : String → List String} {config : RankNodeConfig} {rule : RankConfig}
    (hinit : init parse splitString config = some rule) : rule.Built := by
  unfold init at hinit
  obtain ⟨exprs, hexprs, hrule⟩ := Option.bind_eq_some_iff.mp hinit
  cases hrule
  refine ⟨config.sortBy.map fun sortBy => decide (sortBy.desc = 1), ?_, ?_⟩
  · rw [List.length_map]
    exact (length_of_mapM hexprs).symm
  · dsimp only
    split
    · rfl
    · rfl

theorem init_order {parse : String → Option Expr}
    {splitString : String → List String} {config : RankNodeConfig} {rule : RankConfig}
    (hinit : init parse splitString config = some rule) (name : String) :
    rule.order.lookup name = (orderEntries splitString config.order).lookup name := by
  unfold init at hinit
  obtain ⟨exprs, hexprs, hrule⟩ := Option.bind_eq_some_iff.mp hinit
  cases hrule
  exact Members.lookup_emplaceAll [] _ name

/-- The context in which `item` is the item. -/
def withItem (item : Json) (context : Context) : Context :=
  context.enter.setVariable "item" item

/-- The entry of an item, if its candidate is listed and every `sort_by` evaluates. -/
def entryOf (library : Library) (config : RankConfig) (context : Context)
    (candidate : String) (item : String × Json) : Option RankEntry :=
  if config.order.isEmpty || (config.order.lookup candidate).isSome then
    match Expr.runArgs library (withItem item.2 context) config.sortBy with
    | .ok values => some ⟨item.1, config.orderFeatures candidate ++ values⟩
    | _ => none
  else none

def eligible (library : Library) (config : RankConfig) (backend : JsonMembers)
    (candidates : List String) (context : Context) : List RankEntry :=
  candidates.flatMap fun candidate =>
    (itemsOf candidate (backend.lookup candidate)).filterMap
      (config.entryOf library context candidate)

/-- All values of `sort_by` that evaluate are numbers. -/
def Numeric (library : Library) (config : RankConfig) (backend : JsonMembers)
    (candidates : List String) (context : Context) : Prop :=
  ∀ candidate ∈ candidates,
    ∀ item ∈ itemsOf candidate (backend.lookup candidate), ∀ values,
      Expr.runArgs library (withItem item.2 context) config.sortBy = .ok values →
        ∀ value ∈ values, ∃ number, value = .number number

/-- One number is less than another, as they are. -/
def NumberLt : (a b : Json) → Prop
  | .number a, .number b => a.Less b
  | _, _ => False

/-- The first feature in which the two differ decides, by its direction. -/
def FirstDiffering : List Bool → (a b : List Json) → Prop
  | desc :: descs, a :: as, b :: bs =>
      NumberLt a b ∧ desc = false ∨ NumberLt b a ∧ desc = true ∨
        ¬ NumberLt a b ∧ ¬ NumberLt b a ∧ FirstDiffering descs as bs
  | _, _, _ => False

/-- The eligible entries, sorted by the first feature in which two differ. -/
structure Ranked (library : Library) (config : RankConfig) (backend : JsonMembers)
    (candidates : List String) (context : Context) (sorted : List RankEntry) : Prop where
  perm : sorted.Perm (config.eligible library backend candidates context)
  ordered : sorted.Pairwise fun a b =>
    ¬ FirstDiffering config.desc b.features a.features

/-- Every `sort_by` has a result or fails, and the doubles of the features, of which
none is NaN, are in the order of the features. -/
structure PlainFeatures (library : Library) (config : RankConfig)
    (backend : JsonMembers) (candidates : List String) (context : Context) : Prop where
  defined : ∀ candidate ∈ candidates,
    ∀ item ∈ itemsOf candidate (backend.lookup candidate),
      Expr.runArgs library (withItem item.2 context) config.sortBy ≠ .undefined
  noNan : ∀ entry ∈ config.eligible library backend candidates context,
    NoNan entry.features
  toldApart : ∀ a ∈ config.eligible library backend candidates context,
    ∀ b ∈ config.eligible library backend candidates context,
      ∀ pair ∈ a.features.zip b.features,
        featureLt pair.1 pair.2 = true ↔ NumberLt pair.1 pair.2

def names (entries : List RankEntry) : List Json :=
  entries.map fun entry => .string entry.name

/-- The first so many, or all for 0. -/
def top (count : Nat) (ranked : List Json) : List Json :=
  if count = 0 then ranked else ranked.take count

/-- `RankConfig::run` gives the ranked names, and `FlowRankConfig::run` leaves the
first of them in `rank`. -/
def RanksRight (library : Library)
    (sort : (RankEntry → RankEntry → Bool) → List RankEntry → List RankEntry)
    (config : RankConfig) (backend : JsonMembers) (candidates : List String)
    (context : Context) : Prop :=
  ∃ after sorted, Ranked library config backend candidates context sorted ∧
    config.run library sort (.array (candidates.map .string)) context =
      .ok (after, names sorted) ∧
    ∀ (engine : RankEngine) (flow : FlowRankConfig), engine.sort = sort →
      engine.rankMap.lookup flow.rule = some config →
      flow.input.run library context = .ok (.array (candidates.map .string)) →
        ∃ final, flow.run library engine context = .ok final ∧
          final.getVariable "rank" = some (.array (top flow.topK (names sorted)))

/-- The doubles of features that `GetDouble` does not round are in their order. -/
theorem featureLt_iff_of_exact {as bs : List Json}
    (has : ∀ feature ∈ as, ∃ number, feature = .number number ∧ number.Exact)
    (hbs : ∀ feature ∈ bs, ∃ number, feature = .number number ∧ number.Exact) :
    ∀ pair ∈ as.zip bs, featureLt pair.1 pair.2 = true ↔ NumberLt pair.1 pair.2 := by
  intro pair hpair
  obtain ⟨hfirst, hsecond⟩ := List.of_mem_zip hpair
  obtain ⟨first, hfirst, hfirstExact⟩ := has pair.1 hfirst
  obtain ⟨second, hsecond, hsecondExact⟩ := hbs pair.2 hsecond
  rw [hfirst, hsecond]
  exact Number.lt_iff_less hfirstExact hsecondExact

/-! What a turn evaluates `sort_by` in. -/

def shown (turns : List (String × Context)) : Members String (Option Json) :=
  turns.map fun turn => (turn.1, turn.2.getVariable "item")

def wanted (items : List (String × Json)) : Members String (Option Json) :=
  items.map fun item => (item.1, some item.2)

/-- The item of the turn is the one that `item` shows. -/
def ShowsItems (items : List (String × Json)) (turns : List (String × Context)) : Prop :=
  shown turns = wanted items

/-- Whenever a candidate is looked up, the pointer to `backend` shows its items, and
`item` shows each of them in turn. -/
def SeesBackend (backend : JsonMembers) (candidates : List String) (context : Context) :
    Prop :=
  ∃ all final, candidateTurns (backendPlace context) candidates context =
      some (all, final) ∧
    ∀ candidate ∈ all,
      ShowsItems (itemsOf candidate.1 (backend.lookup candidate.1)) candidate.2

/-- The other variables are as before. -/
def KeepsOthers (first second : Context) : Prop :=
  ∀ name, "item" ≠ name → first.allNamed name = second.allNamed name

theorem setItems_keepsOthers (items : List (String × Json)) (context : Context) :
    KeepsOthers (setItems items context) context := by
  induction items generalizing context with
  | nil => exact fun _ _ => rfl
  | cons item rest ih =>
      intro name hne
      rw [setItems, ih _ name hne, allNamed_setItem hne]

theorem turns_keepOthers (items : List (String × Json)) (context : Context) :
    ∀ turn ∈ turns items context, KeepsOthers turn.2 context := by
  induction items generalizing context with
  | nil => exact fun turn hturn => nomatch hturn
  | cons item rest ih =>
      rw [turns, List.forall_mem_cons]
      constructor
      · exact fun name hne => allNamed_setItem hne item.2 context
      · intro turn hturn name hne
        rw [ih _ turn hturn name hne, allNamed_setItem hne]

theorem candidateTurns_keepOthers {place : Option Nat} {candidates : List String}
    {context final : Context} {all : List (String × List (String × Context))}
    (hturns : candidateTurns place candidates context = some (all, final)) :
    KeepsOthers final context ∧
      ∀ candidate ∈ all, ∀ turn ∈ candidate.2, KeepsOthers turn.2 context := by
  induction candidates generalizing context all with
  | nil =>
      cases hturns
      exact ⟨fun _ _ => rfl, fun candidate hcandidate => nomatch hcandidate⟩
  | cons candidate rest ih =>
      rw [candidateTurns] at hturns
      split at hturns
      · rename_i backend _
        obtain ⟨others, hothers, hall⟩ := Option.map_eq_some_iff.mp hturns
        cases hall
        obtain ⟨hfinal, hrest⟩ := ih hothers
        have hitems := setItems_keepsOthers
          (itemsOf candidate (backend.lookup candidate)) context
        refine ⟨fun name hne => (hfinal name hne).trans (hitems name hne), ?_⟩
        rw [List.forall_mem_cons]
        refine ⟨turns_keepOthers _ context, ?_⟩
        intro other hother turn hturn name hne
        exact (hrest other hother turn hturn name hne).trans (hitems name hne)
      · cases hturns

theorem getVariable_withItem_self (item : Json) (context : Context) {name : String}
    (hname : cStr name = "item") :
    (withItem item context).getVariable name = some item := by
  rw [Context.getVariable_eq, hname]
  simp [withItem, Context.setVariable]

theorem getVariable_withItem_of_ne (item : Json) (context : Context) {name : String}
    (hne : "item" ≠ cStr name) :
    (withItem item context).getVariable name = context.getVariable name := by
  rw [Context.getVariable_eq, withItem, Context.setVariable, Context.ownVariables_enter,
    List.nil_append, Members.lookup_cons_of_ne hne.symm, List.lookup_nil, Option.none_or]
  rfl

theorem getVariable_of_cStr {first second : String} (hname : cStr first = cStr second)
    (context : Context) : context.getVariable first = context.getVariable second := by
  rw [Context.getVariable, Context.getVariable, hname]

/-- Where `item` shows the item and nothing else has changed, `sort_by` has the
values that it is to have. -/
theorem runArgs_turn (library : Library) {turn context : Context} {item : Json}
    (hitem : turn.getVariable "item" = some item) (hothers : KeepsOthers turn context)
    (sortBy : KEVec) :
    Expr.runArgs library turn sortBy =
      Expr.runArgs library (withItem item context) sortBy := by
  apply Expr.runArgs_congr
  intro name
  by_cases hname : "item" = cStr name
  · rw [getVariable_withItem_self item context hname.symm, ← hitem]
    exact getVariable_of_cStr (by rw [cStr_item, hname]) turn
  · rw [getVariable_withItem_of_ne item context hname]
    exact Context.getVariable_congr (hothers (cStr name) hname)

theorem runArgs_length {library : Library} {context : Context} {sortBy : KEVec}
    {values : List Json} (hrun : Expr.runArgs library context sortBy = .ok values) :
    values.length = sortBy.length := by
  induction sortBy generalizing values with
  | nil =>
      cases hrun
      rfl
  | cons expr rest ih =>
      rw [Expr.runArgs, Result.bind_eq_ok] at hrun
      obtain ⟨value, -, hrest⟩ := hrun
      obtain ⟨others, hothers, hvalues⟩ := Result.bind_eq_ok.mp hrest
      cases hvalues
      rw [List.length_cons, List.length_cons, ih hothers]

/-- The number of features tells whether a candidate is listed. -/
theorem Built.length_iff {config : RankConfig} (hbuilt : config.Built)
    (candidate : String) {values : List Json}
    (hvalues : values.length = config.sortBy.length) :
    (config.orderFeatures candidate ++ values).length = config.desc.length ↔
      (config.order.isEmpty || (config.order.lookup candidate).isSome) = true := by
  obtain ⟨directions, hdirections, hdesc⟩ := hbuilt
  rw [hdesc, List.length_append, orderFeatures, hvalues, ← hdirections]
  cases horder : config.order with
  | nil => simp
  | cons first rest =>
      cases hfound : List.lookup candidate (first :: rest) with
      | none => simp
      | some priority => simp; omega

section Collect

variable {library : Library} {config : RankConfig} {backend : JsonMembers}
  {candidates : List String} {context : Context}

theorem gather_eq (hbuilt : config.Built) {candidate : String}
    {items : List (String × Json)} {turns : List (String × Context)}
    (hshows : ShowsItems items turns)
    (hothers : ∀ turn ∈ turns, KeepsOthers turn.2 context)
    (hdefined : ∀ item ∈ items,
      Expr.runArgs library (withItem item.2 context) config.sortBy ≠ .undefined) :
    gather library config (config.orderFeatures candidate) turns =
      .ok (items.filterMap (config.entryOf library context candidate)) := by
  induction turns generalizing items with
  | nil =>
      rw [ShowsItems, shown, wanted, List.map_nil, eq_comm, List.map_eq_nil_iff] at hshows
      rw [hshows]
      rfl
  | cons turn rest ih =>
      obtain ⟨name, turnContext⟩ := turn
      cases items with
      | nil => cases hshows
      | cons item items =>
          rw [ShowsItems, shown, wanted, List.map_cons, List.map_cons, List.cons.injEq,
            Prod.mk.injEq] at hshows
          rw [List.forall_mem_cons] at hothers hdefined
          obtain ⟨⟨hname, hitem⟩, hrest⟩ := hshows
          have hturn := runArgs_turn library hitem hothers.1 config.sortBy
          rw [gather, hturn, List.filterMap_cons, entryOf,
            ih hrest hothers.2 hdefined.2]
          cases hvalues : Expr.runArgs library (withItem item.2 context) config.sortBy with
          | undefined => exact absurd hvalues hdefined.1
          | failed => simp
          | ok values =>
              have hlength := hbuilt.length_iff candidate (runArgs_length hvalues)
              dsimp only at hname ⊢
              rw [Result.ok_bind, hname]
              by_cases hlisted : (config.order.isEmpty ||
                  (config.order.lookup candidate).isSome) = true
              · rw [if_pos hlisted, if_pos (hlength.mpr hlisted)]
              · rw [if_neg hlisted, if_neg (mt hlength.mp hlisted)]

theorem candidateTurns_names {place : Option Nat} {context final : Context}
    {all : List (String × List (String × Context))}
    (hturns : candidateTurns place candidates context = some (all, final)) :
    all.map Prod.fst = candidates := by
  induction candidates generalizing context all with
  | nil =>
      cases hturns
      rfl
  | cons candidate rest ih =>
      rw [candidateTurns] at hturns
      split at hturns
      · obtain ⟨others, hothers, hall⟩ := Option.map_eq_some_iff.mp hturns
        cases hall
        rw [List.map_cons, ih hothers]
      · cases hturns

theorem gatherAll_eq (library : Library) (hbuilt : config.Built)
    {all : List (String × List (String × Context))}
    (hshows : ∀ candidate ∈ all,
      ShowsItems (itemsOf candidate.1 (backend.lookup candidate.1)) candidate.2)
    (hothers : ∀ candidate ∈ all, ∀ turn ∈ candidate.2, KeepsOthers turn.2 context)
    (hdefined : ∀ candidate ∈ all.map Prod.fst,
      ∀ item ∈ itemsOf candidate (backend.lookup candidate),
        Expr.runArgs library (withItem item.2 context) config.sortBy ≠ .undefined) :
    gatherAll library config all =
      .ok (config.eligible library backend (all.map Prod.fst) context) := by
  induction all with
  | nil => rfl
  | cons candidate rest ih =>
      rw [List.map_cons, List.forall_mem_cons] at hdefined
      rw [List.forall_mem_cons] at hshows hothers
      rw [gatherAll, gather_eq hbuilt hshows.1 hothers.1 hdefined.1, Result.ok_bind,
        ih hshows.2 hothers.2 hdefined.2, Result.ok_bind]
      rfl

theorem mem_eligible {entry : RankEntry}
    (hentry : entry ∈ config.eligible library backend candidates context) :
    ∃ candidate ∈ candidates, ∃ item ∈ itemsOf candidate (backend.lookup candidate),
      ∃ values, (config.order.isEmpty || (config.order.lookup candidate).isSome) = true ∧
        Expr.runArgs library (withItem item.2 context) config.sortBy = .ok values ∧
        entry = ⟨item.1, config.orderFeatures candidate ++ values⟩ := by
  obtain ⟨candidate, hcandidate, hentry⟩ := List.mem_flatMap.mp hentry
  obtain ⟨item, hitem, hentry⟩ := List.mem_filterMap.mp hentry
  rw [entryOf] at hentry
  split at hentry
  · rename_i hlisted
    split at hentry
    · rename_i values hvalues
      exact ⟨candidate, hcandidate, item, hitem, values, hlisted, hvalues,
        (Option.some.inj hentry).symm⟩
    · cases hentry
  · cases hentry

theorem Numeric.features (hnumeric : Numeric library config backend candidates context)
    {entry : RankEntry}
    (hentry : entry ∈ config.eligible library backend candidates context) :
    ∀ feature ∈ entry.features, ∃ number, feature = .number number := by
  obtain ⟨candidate, hcandidate, item, hitem, values, -, hvalues, rfl⟩ :=
    mem_eligible hentry
  intro feature hfeature
  rcases List.mem_append.mp hfeature with hpriority | hvalue
  · rw [orderFeatures] at hpriority
    split at hpriority
    · rename_i priority _
      exact ⟨.int priority, List.mem_singleton.mp hpriority⟩
    · cases hpriority
  · exact hnumeric candidate hcandidate item hitem values hvalues feature hvalue

theorem length_features (hbuilt : config.Built) {entry : RankEntry}
    (hentry : entry ∈ config.eligible library backend candidates context) :
    entry.features.length = config.desc.length := by
  obtain ⟨candidate, -, item, -, values, hlisted, hvalues, rfl⟩ := mem_eligible hentry
  exact (hbuilt.length_iff candidate (runArgs_length hvalues)).mpr hlisted

theorem not_shareNull {a b : List Json}
    (ha : ∀ feature ∈ a, ∃ number, feature = .number number) : ¬ ShareNull a b := by
  induction a generalizing b with
  | nil => exact id
  | cons first rest ih =>
      rw [List.forall_mem_cons] at ha
      cases b with
      | nil => exact id
      | cons other others =>
          intro hshare
          rcases hshare with ⟨hnull, -⟩ | ⟨-, -, hlater⟩
          · obtain ⟨number, hnumber⟩ := ha.1
            rw [hnull] at hnumber
            cases hnumber
          · exact ih ha.2 hlater

/-- The comparator is a strict weak order on the eligible entries. -/
theorem Numeric.weaklyOrders (hbuilt : config.Built)
    (hnumeric : Numeric library config backend candidates context)
    (hplain : PlainFeatures library config backend candidates context) :
    WeaklyOrders (RankEntry.compare config.desc)
      (config.eligible library backend candidates context) := by
  apply compare_isStrictWeakOrder config.desc
    {entry | entry ∈ config.eligible library backend candidates context}
    (fun entry hentry => length_features hbuilt hentry) hplain.noNan
  intro a ha b _ c _ _ hbeside
  exact not_shareNull (hnumeric.features ha) hbeside.shareNull

/-- Where the doubles are in the order of the numbers, the features decide as the
numbers do. -/
theorem firstDiffering_iff {descs : List Bool} {a b : List Json}
    (hahead : ∀ pair ∈ a.zip b, featureLt pair.1 pair.2 = true ↔ NumberLt pair.1 pair.2)
    (hback : ∀ pair ∈ b.zip a, featureLt pair.1 pair.2 = true ↔ NumberLt pair.1 pair.2) :
    FirstDiffering descs a b ↔ LexBefore descs a b := by
  induction descs generalizing a b with
  | nil => simp [FirstDiffering, LexBefore]
  | cons desc descs ih =>
      cases a with
      | nil => simp [FirstDiffering, LexBefore]
      | cons first rest =>
          cases b with
          | nil => simp [FirstDiffering, LexBefore]
          | cons second others =>
              rw [List.zip_cons_cons, List.forall_mem_cons] at hahead hback
              rw [FirstDiffering, LexBefore, ih hahead.2 hback.2, ← hahead.1, ← hback.1]
              dsimp only
              cases hlt : featureLt first second with
              | true =>
                  have hgt : featureLt second first = false := Double.not_lt_of_lt hlt
                  simp [hgt]
              | false => cases featureLt second first <;> simp

theorem Numeric.ranked (hbuilt : config.Built)
    (hnumeric : Numeric library config backend candidates context)
    (hplain : PlainFeatures library config backend candidates context)
    {sort : (RankEntry → RankEntry → Bool) → List RankEntry → List RankEntry}
    (hsort : SortsWeakOrders sort) :
    Ranked library config backend candidates context
      (sort (RankEntry.compare config.desc)
        (config.eligible library backend candidates context)) := by
  obtain ⟨hperm, hordered⟩ := hsort _ _ (hnumeric.weaklyOrders hbuilt hplain)
  refine ⟨hperm, ?_⟩
  refine hordered.imp_of_mem ?_
  intro a b ha hb hless hfirst
  have ha := hperm.mem_iff.mp ha
  have hb := hperm.mem_iff.mp hb
  rw [firstDiffering_iff (hplain.toldApart b hb a ha) (hplain.toldApart a ha b hb)]
    at hfirst
  rw [← Bool.not_eq_true, RankEntry.compare_iff_before] at hless
  exact hless ⟨hfirst, not_shareNull (hnumeric.features hb)⟩

theorem run_eq {sort : (RankEntry → RankEntry → Bool) → List RankEntry → List RankEntry}
    (hbackend : context.getVariable "backend" = some (.object backend))
    (hnames : ∀ candidate ∈ candidates, cStr candidate = candidate) :
    config.run library sort (.array (candidates.map .string)) context =
      match candidateTurns (backendPlace context) candidates context with
      | some (all, final) => gatherAll library config all >>= fun entries =>
          if entries.length ≤ 1 ∨
              ∀ entry ∈ entries, ∀ feature ∈ entry.features, isFeature feature = true then
            .ok (final, names (sort (RankEntry.compare config.desc) entries))
          else .undefined
      | none => .undefined := by
  unfold run
  rw [hbackend]
  dsimp only
  rw [rankCandidates_eq library config _ hnames]
  cases candidateTurns (backendPlace context) candidates context with
  | none => rfl
  | some turned =>
      dsimp only
      rw [Result.bind_assoc]
      rfl

theorem run_of_seesBackend (hbuilt : config.Built)
    (hnumeric : Numeric library config backend candidates context)
    (hplain : PlainFeatures library config backend candidates context)
    (sort : (RankEntry → RankEntry → Bool) → List RankEntry → List RankEntry)
    (hbackend : context.getVariable "backend" = some (.object backend))
    (hnames : ∀ candidate ∈ candidates, cStr candidate = candidate)
    (hsees : SeesBackend backend candidates context) :
    ∃ final, KeepsOthers final context ∧
      config.run library sort (.array (candidates.map .string)) context =
        .ok (final, names (sort (RankEntry.compare config.desc)
          (config.eligible library backend candidates context))) := by
  obtain ⟨all, final, hturns, hshows⟩ := hsees
  obtain ⟨hfinal, hothers⟩ := candidateTurns_keepOthers hturns
  have hall := candidateTurns_names hturns
  have hgather := gatherAll_eq library hbuilt hshows hothers
    (by rw [hall]; exact hplain.defined)
  rw [hall] at hgather
  refine ⟨final, hfinal, ?_⟩
  rw [run_eq hbackend hnames, hturns]
  dsimp only
  rw [hgather, Result.ok_bind, if_pos]
  right
  intro entry hentry feature hfeature
  obtain ⟨number, rfl⟩ := hnumeric.features hentry feature hfeature
  rfl

end Collect

end RankConfig

end Uskit
