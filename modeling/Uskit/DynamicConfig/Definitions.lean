import Uskit.DynamicConfig.KEInit
import Uskit.Json.PointerSet

namespace Uskit

open Uskit.Data

/-! The definitions of a block: when their evaluation by depth is the evaluation
in the order in which they are listed. -/

namespace Expr

mutual
/-- The expression that spells out a value. -/
def literal : Json → Expr
  | .null => .null
  | .bool value => .boolean value
  | .number (.int value) => .integer value
  | .number (.double value) => .double value
  | .string text => .string text
  | .array elements => .array (literals elements)
  | .object members => .dict (literalMembers members)

def literals : List Json → List Expr
  | [] => []
  | element :: rest => literal element :: literals rest

def literalMembers : List (String × Json) → List (String × Expr)
  | [] => []
  | (name, value) :: rest => (name, literal value) :: literalMembers rest
end

variable (library : Library) (context : Context)

mutual
theorem run_literal : ∀ value : Json,
    (literal value).run library context = .ok value
  | .null => rfl
  | .bool _ => rfl
  | .number (.int _) => rfl
  | .number (.double _) => rfl
  | .string _ => rfl
  | .array elements => by
      rw [literal, run, runArgs_literals elements]
      rfl
  | .object members => by
      rw [literal, run, runDict_literalMembers members]
      rfl

theorem runArgs_literals : ∀ elements : List Json,
    runArgs library context (literals elements) = .ok elements
  | [] => rfl
  | element :: rest => by
      rw [literals, runArgs, run_literal element, runArgs_literals rest]
      rfl

theorem runDict_literalMembers : ∀ members : List (String × Json),
    runDict library context (literalMembers members) = .ok members
  | [] => rfl
  | (name, value) :: rest => by
      rw [literalMembers, runDict, run_literal value, runDict_literalMembers rest]
      rfl
end

/-- Fails whatever the context. -/
def failing : Expr :=
  .not .null

/-- Evaluates only where a variable equals a value. -/
def probe (name : String) (value : Json) : Expr :=
  .ternary (.binary .equal (literal value) (.variable name)) (.dict []) failing

theorem run_probe (name : String) (value : Json) :
    (probe name value).run library context =
      match context.getVariable name with
      | some found => if value.valueEq found then .ok (.object []) else .failed
      | none => .failed := by
  have hcond : (Expr.binary .equal (literal value) (.variable name)).run library
      context = match context.getVariable name with
        | some found => .ok (.bool (value.valueEq found))
        | none => .failed := by
    rw [run, run_literal, run, Result.ok_bind]
    cases context.getVariable name with
    | none => rfl
    | some found => rfl
  rw [probe, run, hcond]
  cases context.getVariable name with
  | none => rfl
  | some found =>
      simp only [Result.ok_bind, requireBool]
      cases value.valueEq found with
      | true => rfl
      | false => rfl

theorem run_probe_found {library : Library} {context : Context} {name : String}
    {value : Json} (hfound : context.getVariable name = some value)
    (hself : value.valueEq value = true) :
    (probe name value).run library context = .ok (.object []) := by
  rw [run_probe, hfound]
  simp only
  rw [if_pos hself]

theorem run_probe_failed {library : Library} {context : Context} {name : String}
    {value : Json} (hother : ∀ found, context.getVariable name = some found →
      value.valueEq found = false) :
    (probe name value).run library context = .failed := by
  rw [run_probe]
  cases hfound : context.getVariable name with
  | none => rfl
  | some found =>
      simp only
      rw [hother found hfound, if_neg Bool.false_ne_true]

end Expr

open Json

section Write

/-- A write of an object leaves an object. -/
theorem jsonSetValueByPath_object (key : String) (own members : JsonMembers) :
    ∃ after, (jsonSetValueByPath key (.object own) (.object members)).1 =
      .object after := by
  unfold jsonSetValueByPath
  cases pathTokens key with
  | none => exact ⟨members, rfl⟩
  | some tokens =>
      cases tokens with
      | nil => exact ⟨members, rfl⟩
      | cons token tokens =>
          obtain ⟨after, heq, -⟩ :=
            Pointer.set_object (.object members) token tokens own
          exact ⟨after, heq⟩

theorem setVariableByPath_object {key : String} {own members after : JsonMembers}
    (hafter : (jsonSetValueByPath key (.object own) (.object members)).1 =
      .object after) (parents : List JsonMembers) :
    ((⟨own, parents⟩ : Context).setVariableByPath key (.object members)).ignoreCode =
      .ok ⟨after, parents⟩ := by
  unfold Context.setVariableByPath
  simp only
  generalize jsonSetValueByPath key (.object own) (.object members) = written at hafter
  obtain ⟨doc, code⟩ := written
  cases hafter
  cases code with
  | true => rfl
  | false => rfl

end Write

namespace KEMap

variable {library : Library} {trimString : String → String → String}

theorem define_object (key : String) {expr : Expr} {own members : JsonMembers}
    {parents : List JsonMembers}
    (hrun : expr.run library ⟨own, parents⟩ = .ok (.object members)) :
    ∃ after, (jsonSetValueByPath key (.object own) (.object members)).1 =
        .object after ∧
      define library key expr ⟨own, parents⟩ = .ok ⟨after, parents⟩ := by
  obtain ⟨after, hafter⟩ := jsonSetValueByPath_object key own members
  refine ⟨after, hafter, ?_⟩
  rw [define, hrun, Outcome.evaluate_ok]
  exact setVariableByPath_object hafter parents

theorem runDef_append (first second : KEMap) (context : Context) :
    runDef library (first ++ second) context =
      (runDef library first context).andThen (runDef library second) := by
  induction first generalizing context with
  | nil => rfl
  | cons entry rest ih =>
      obtain ⟨key, expr⟩ := entry
      rw [List.cons_append, runDef, runDef]
      cases define library key expr context with
      | ok state => exact ih state
      | failed state => rfl
      | undefined => rfl

/-- Definitions of empty objects all succeed. -/
theorem runDef_empties (library : Library) {material : Material}
    (hnames : ∀ name, material.name name) {own : JsonMembers}
    (hown : (Json.object own).Built material) (parents : List JsonMembers)
    {expr : String → Expr} {keys : List String}
    (hempty : ∀ key ∈ keys, expr key = .dict []) :
    ∃ after, runDef library (keys.map fun key => (key, expr key)) ⟨own, parents⟩ =
        .ok ⟨after, parents⟩ ∧
      (Json.object after).Built material := by
  induction keys generalizing own with
  | nil => exact ⟨own, rfl, hown⟩
  | cons key rest ih =>
      have hrun : (expr key).run library ⟨own, parents⟩ = .ok (.object []) := by
        rw [hempty key List.mem_cons_self]
        rfl
      obtain ⟨middle, hmiddle, hdefine⟩ := define_object key hrun
      have hbuilt : (Json.object middle).Built material := by
        rw [← hmiddle]
        exact jsonSetValueByPath_built (fun _ _ _ _ => hnames _) hown built_empty
      obtain ⟨after, hafter, hlast⟩ :=
        ih hbuilt fun other hother => hempty other (.tail _ hother)
      refine ⟨after, ?_, hlast⟩
      rw [List.map_cons, runDef, hdefine, Outcome.ok_andThen, hafter]

/-- No key is listed twice, and each is at least as deep as those before it; only
the first can be the root. -/
def ListedByDepth (trimString : String → String → String) (keys : List String) : Prop :=
  keys.Nodup ∧ keys.Pairwise fun a b =>
    keyDepth trimString a ≤ keyDepth trimString b ∧ 0 < keyDepth trimString b

theorem keyStays_iff_deeper (a b : String) :
    KeyStays trimString a b ↔
      keyDepth trimString a ≤ keyDepth trimString b ∧ 0 < keyDepth trimString b := by
  rw [keyStays_iff]
  omega

instance : IsTrans String (KeyStays trimString) where
  trans a b c hab hbc := by
    rw [keyStays_iff] at hab hbc ⊢
    omega

theorem ofPairs_of_listedByDepth {pairs : List (String × Expr)}
    (hlisted : ListedByDepth trimString (pairs.map Prod.fst)) :
    ofPairs trimString pairs = pairs := by
  obtain ⟨hnodup, hdepth⟩ := hlisted
  have hstays : (pairs.map Prod.fst).Pairwise (KeyStays trimString) :=
    hdepth.imp fun hdeeper => (keyStays_iff_deeper _ _).mpr hdeeper
  have horder : keyOrder trimString (pairs.map Prod.fst) = pairs.map Prod.fst :=
    hstays.insertionSort_eq
  obtain ⟨expr, hpairs⟩ := exists_expr_of_nodup hnodup
  rw [hpairs, ofPairs_map, horder]

/-- What the first of two exchanged definitions defines. -/
def marker : Json :=
  .object [("x", .number (.int 1))]

/-- Documents in which the marker may stand. -/
def marked : Material :=
  ⟨(· = .int 1), fun _ => True⟩

/-- Documents in which it cannot. -/
def unmarked : Material :=
  ⟨fun _ => False, fun _ => True⟩

theorem exists_repeated_of_not_nodup {keys : List String} (hrepeated : ¬ keys.Nodup) :
    ∃ before key after, keys = before ++ key :: after ∧ key ∈ before := by
  induction keys with
  | nil => exact absurd .nil hrepeated
  | cons first rest ih =>
      by_cases hmem : first ∈ rest
      · obtain ⟨before, after, rfl⟩ := List.append_of_mem hmem
        exact ⟨first :: before, first, after, rfl, List.mem_cons_self⟩
      · have hrest : ¬ rest.Nodup := by
          intro hnodup
          exact hrepeated (List.nodup_cons.mpr ⟨hmem, hnodup⟩)
        obtain ⟨before, key, after, rfl, hkey⟩ := ih hrest
        exact ⟨first :: before, key, after, rfl, .tail _ hkey⟩

/-- The later expression of a repeated key is never evaluated. -/
theorem exists_differ_of_repeated (trimString : String → String → String)
    (library : Library) {keys : List String}
    (hrepeated : ¬ keys.Nodup) :
    ∃ pairs : List (String × Expr), pairs.map Prod.fst = keys ∧
      runDef library (ofPairs trimString pairs) ⟨[], []⟩ ≠ runDef library pairs ⟨[], []⟩ := by
  obtain ⟨before, key, after, rfl, hkey⟩ := exists_repeated_of_not_nodup hrepeated
  have hbuilt : (Json.object []).Built unmarked := built_empty
  let empties (keys : List String) : List (String × Expr) :=
    keys.map fun key => (key, .dict [])
  have hfst : ∀ keys, (empties keys).map Prod.fst = keys := by
    intro keys
    rw [List.map_map]
    exact List.map_id keys
  refine ⟨empties before ++ (key, .failing) :: empties after, ?_, ?_⟩
  · rw [List.map_append, List.map_cons, hfst, hfst]
  · have hlookup : ∀ other ∈ (empties before ++
        (key, Expr.failing) :: empties after).map Prod.fst,
        (empties before ++ (key, Expr.failing) :: empties after).lookup other =
          some (.dict []) := by
      intro other hother
      rw [List.map_append, List.map_cons, hfst, hfst, List.mem_append] at hother
      by_cases hbefore : other ∈ before
      · rw [List.lookup_append, lookup_map_key (fun _ => .dict []) hbefore]
        rfl
      · have hne : other ≠ key := fun heq => hbefore (heq ▸ hkey)
        have hafter : other ∈ after :=
          List.mem_of_ne_of_mem hne (hother.resolve_left hbefore)
        have hnames : other ∉ Members.names (empties before) := by
          rwa [Members.names, hfst]
        rw [Members.lookup_append_of_not_mem hnames, Members.lookup_cons_of_ne hne,
          lookup_map_key (fun _ => .dict []) hafter]
    have hsucceed : ∀ keys, ∃ own,
        runDef library (empties keys) ⟨[], []⟩ = .ok ⟨own, []⟩ := by
      intro keys
      have hempty : ∀ key ∈ keys, (fun _ : String => Expr.dict []) key = .dict [] :=
        fun _ _ => rfl
      obtain ⟨own, hown, -⟩ :=
        runDef_empties library (fun _ => trivial) hbuilt [] hempty
      exact ⟨own, hown⟩
    obtain ⟨first, hfirst⟩ := hsucceed before
    have hlisted : runDef library
        (empties before ++ (key, .failing) :: empties after) ⟨[], []⟩ =
          .failed ⟨first, []⟩ := by
      rw [runDef_append, hfirst]
      rfl
    obtain ⟨last, hlast⟩ := hsucceed (keyOrder trimString ((empties before ++
      (key, Expr.failing) :: empties after).map Prod.fst))
    rw [ofPairs_of_lookup hlookup, hlast, hlisted]
    simp

theorem marker_built : marker.Built marked := by
  have hnumber : (Json.number (.int 1)).Built marked := .number rfl
  exact hnumber.singleton trivial

/-- The second definition reads what the first defines, all others are empty. -/
def exchanged (a b name : String) (value : Json) (key : String) : Expr :=
  if key = a then .literal marker
  else if key = b then .probe name value
  else .dict []

theorem exchanged_first (a b name : String) (value : Json) :
    exchanged a b name value a = .literal marker :=
  if_pos rfl

theorem exchanged_second {a b : String} (hne : a ≠ b) (name : String) (value : Json) :
    exchanged a b name value b = .probe name value := by
  rw [exchanged, if_neg hne.symm, if_pos rfl]

theorem exchanged_other {a b key : String} (ha : key ≠ a) (hb : key ≠ b)
    (name : String) (value : Json) : exchanged a b name value key = .dict [] := by
  rw [exchanged, if_neg ha, if_neg hb]

/-- The marker is found in some variable once it is written. -/
theorem exists_marked (key : String) {own : JsonMembers}
    (hown : (Json.object own).Built marked) {after : JsonMembers}
    (hafter : (jsonSetValueByPath key (.object own) marker).1 = .object after) :
    ∃ name value, cStr name = name ∧ after.lookup name = some value ∧
      Occurs (.number (.int 1)) value ∧ value.Built marked := by
  have hplain : ∃ name value, cStr name = name ∧
      List.lookup name [("x", Json.number (.int 1))] = some value ∧
        Occurs (.number (.int 1)) value ∧ value.Built marked :=
    ⟨"x", .number (.int 1), by decide, rfl, .here, .number rfl⟩
  unfold jsonSetValueByPath at hafter
  cases htokens : pathTokens key with
  | none =>
      rw [htokens] at hafter
      cases hafter
      exact hplain
  | some tokens =>
      rw [htokens] at hafter
      cases tokens with
      | nil =>
          cases hafter
          exact hplain
      | cons token tokens =>
          obtain ⟨written, hwritten, hlookup⟩ :=
            Pointer.set_object marker token tokens own
          simp only [hwritten] at hafter
          cases hafter
          refine ⟨token.name, _, cStr_eq_self (free_of_pathTokens htokens List.mem_cons_self),
            hlookup, ?_, ?_⟩
          · have hoccurs := Pointer.occurs_set marker tokens
              ((own.lookup token.name).getD .null)
            exact (Occurs.singleton .here "x").trans hoccurs
          · apply Pointer.built_set marker_built fun _ _ => trivial
            cases hold : own.lookup token.name with
            | none => exact .null
            | some old =>
                cases hown with
                | object _ _ hvalues =>
                    exact hvalues _ (Members.mem_of_lookup hold)

theorem getVariable_fresh {name : String} (hname : cStr name = name)
    (own : JsonMembers) :
    (⟨own, []⟩ : Context).getVariable name = own.lookup name := by
  rw [Context.getVariable_eq, hname]
  exact Option.or_none

/-- In the listed order the second definition finds the first one. -/
theorem exists_runDef_exchanged (library : Library) {before after : List String}
    {a b : String} (hnodup : (before ++ a :: b :: after).Nodup) :
    ∃ name value own, cStr name = name ∧ Occurs (.number (.int 1)) value ∧
      runDef library ((before ++ a :: b :: after).map fun key =>
        (key, exchanged a b name value key)) ⟨[], []⟩ = .ok ⟨own, []⟩ := by
  obtain ⟨-, hrest, hdisjoint⟩ := List.nodup_append'.mp hnodup
  obtain ⟨ha, hrest⟩ := List.nodup_cons.mp hrest
  obtain ⟨hb, -⟩ := List.nodup_cons.mp hrest
  have hab : a ≠ b := fun heq => ha (heq ▸ List.mem_cons_self)
  have hother : ∀ keys : List String, a ∉ keys → b ∉ keys → ∀ name value,
      ∀ key ∈ keys, exchanged a b name value key = .dict [] := by
    intro keys haKeys hbKeys name value key hkey
    apply exchanged_other
    · intro heq
      exact haKeys (heq ▸ hkey)
    · intro heq
      exact hbKeys (heq ▸ hkey)
  have hbefore := hother before
    (fun hmem => hdisjoint hmem List.mem_cons_self)
    (fun hmem => hdisjoint hmem (.tail _ List.mem_cons_self))
  have hafter := hother after (fun hmem => ha (.tail _ hmem)) hb
  have hfresh : (Json.object []).Built marked := built_empty
  obtain ⟨first, hfirst, hbuilt⟩ :=
    runDef_empties library (fun _ => trivial) hfresh [] (hbefore "" .null)
  obtain ⟨second, hsecond, hdefine⟩ :=
    define_object a (Expr.run_literal library ⟨first, []⟩ marker)
  obtain ⟨name, value, hname, hlookup, hoccurs, hvalue⟩ :=
    exists_marked a hbuilt hsecond
  have hself : value.valueEq value = true := by
    apply hvalue.valueEq_self
    intro number hnumber
    rw [hnumber]
    decide
  have hprobe : (Expr.probe name value).run library ⟨second, []⟩ =
      .ok (.object []) :=
    Expr.run_probe_found (by rw [getVariable_fresh hname, hlookup]) hself
  obtain ⟨third, hthird, hread⟩ := define_object b hprobe
  have hsecondBuilt : (Json.object second).Built marked := by
    rw [← hsecond]
    exact jsonSetValueByPath_built (fun _ _ _ _ => trivial) hbuilt marker_built
  have hthirdBuilt : (Json.object third).Built marked := by
    rw [← hthird]
    exact jsonSetValueByPath_built (fun _ _ _ _ => trivial) hsecondBuilt built_empty
  obtain ⟨last, hlast, -⟩ :=
    runDef_empties library (fun _ => trivial) hthirdBuilt [] (hafter name value)
  refine ⟨name, value, last, hname, hoccurs, ?_⟩
  have hfirst' : runDef library (before.map fun key =>
      (key, exchanged a b name value key)) ⟨[], []⟩ = .ok ⟨first, []⟩ := by
    have hsame : (before.map fun key => (key, exchanged a b name value key)) =
        before.map fun key => (key, exchanged a b "" .null key) := by
      apply List.map_congr_left
      intro key hkey
      rw [hbefore name value key hkey, hbefore "" .null key hkey]
    rw [hsame, hfirst]
  rw [List.map_append, runDef_append, hfirst', List.map_cons, List.map_cons,
    exchanged_first, exchanged_second hab, Outcome.ok_andThen, runDef, hdefine,
    Outcome.ok_andThen, runDef, hread, Outcome.ok_andThen, hlast]

/-- In the order of the sort it does not. -/
theorem runDef_exchanged_fails (library : Library) {a b name : String} {value : Json}
    (hname : cStr name = name) (hoccurs : Occurs (.number (.int 1)) value)
    {order : List String} (hnodup : order.Nodup) (hfirst : [b, a].Sublist order) :
    ∃ own, runDef library (order.map fun key =>
      (key, exchanged a b name value key)) ⟨[], []⟩ = .failed ⟨own, []⟩ := by
  obtain ⟨left, right, rfl, hb, ha⟩ := List.cons_sublist_iff.mp hfirst
  rw [List.singleton_sublist] at ha
  obtain ⟨before, after, rfl⟩ := List.append_of_mem hb
  obtain ⟨hleft, -, hdisjoint⟩ := List.nodup_append'.mp hnodup
  obtain ⟨-, -, hbefore⟩ := List.nodup_append'.mp hleft
  have hab : a ≠ b := by
    intro heq
    exact hdisjoint (List.mem_append_right _ List.mem_cons_self) (heq ▸ ha)
  have hempty : ∀ key ∈ before, exchanged a b name value key = .dict [] := by
    intro key hkey
    apply exchanged_other
    · intro heq
      exact hdisjoint (List.mem_append_left _ hkey) (heq ▸ ha)
    · intro heq
      exact hbefore hkey (heq ▸ List.mem_cons_self)
  have hfresh : (Json.object []).Built unmarked := built_empty
  obtain ⟨own, hown, hbuilt⟩ :=
    runDef_empties library (fun _ => trivial) hfresh [] hempty
  have hmissed : (Expr.probe name value).run library ⟨own, []⟩ = .failed := by
    apply Expr.run_probe_failed
    intro found hfound
    rw [getVariable_fresh hname] at hfound
    cases hbuilt with
    | object _ _ hvalues =>
        exact not_occurs_of_valueEq hoccurs
          (hvalues _ (Members.mem_of_lookup hfound)) fun _ => False.elim
  refine ⟨own, ?_⟩
  rw [List.map_append, List.map_append, List.append_assoc, runDef_append, hown,
    List.map_cons, exchanged_second hab, Outcome.ok_andThen, List.cons_append, runDef,
    define, hmissed]
  rfl

/-- Two neighbours that the sort exchanges make a difference. -/
theorem exists_differ_of_inverted (library : Library) {before after : List String}
    {a b : String} (hnodup : (before ++ a :: b :: after).Nodup)
    (hinverted : ¬ KeyStays trimString a b) :
    ∃ pairs : List (String × Expr), pairs.map Prod.fst = before ++ a :: b :: after ∧
      runDef library (ofPairs trimString pairs) ⟨[], []⟩ ≠ runDef library pairs ⟨[], []⟩ := by
  obtain ⟨name, value, own, hname, hoccurs, hlisted⟩ :=
    exists_runDef_exchanged library hnodup
  have hfirst : [b, a].Sublist (keyOrder trimString (before ++ a :: b :: after)) :=
    keyStays_goesBy.pair_sublist_insertionSort not_keyStays_of_le hinverted
      List.mem_cons_self
  obtain ⟨stuck, hsorted⟩ := runDef_exchanged_fails library hname hoccurs
    ((keyOrder_perm trimString _).nodup_iff.mpr hnodup) hfirst
  refine ⟨(before ++ a :: b :: after).map fun key =>
    (key, exchanged a b name value key), ?_, ?_⟩
  · rw [List.map_map]
    exact List.map_id _
  · rw [ofPairs_map, hsorted, hlisted]
    simp

theorem runDef_listed_iff (trimString : String → String → String) (library : Library)
    (keys : List String) :
    (∀ pairs : List (String × Expr), pairs.map Prod.fst = keys → ∀ context,
      runDef library (ofPairs trimString pairs) context = runDef library pairs context) ↔
        ListedByDepth trimString keys := by
  constructor
  · intro hall
    have hnodup : keys.Nodup := by
      by_contra hrepeated
      obtain ⟨pairs, hkeys, hdiffer⟩ := exists_differ_of_repeated trimString library hrepeated
      exact hdiffer (hall pairs hkeys _)
    have hchain : keys.IsChain (KeyStays trimString) := by
      by_contra hchain
      obtain ⟨before, a, b, after, rfl, hinverted⟩ :=
        exists_inverted_of_not_isChain hchain
      obtain ⟨pairs, hkeys, hdiffer⟩ :=
        exists_differ_of_inverted library hnodup hinverted
      exact hdiffer (hall pairs hkeys _)
    refine ⟨hnodup, ?_⟩
    exact (List.isChain_iff_pairwise.mp hchain).imp fun hstays =>
      (keyStays_iff_deeper _ _).mp hstays
  · intro hlisted pairs hkeys context
    rw [ofPairs_of_listedByDepth (by rwa [hkeys])]

/-- `c` is evaluated before the definition of `a/b` that it uses. -/
theorem runDef_shallow_first :
    ¬ ∀ trimString, Function.TrimsEnds trimString →
      ∀ (library : Library) (pairs : List (String × Expr)) (context : Context),
        (∀ pair ∈ pairs, (pathTokens pair.1).isSome) →
          runDef library (ofPairs trimString pairs) context =
            runDef library pairs context := by
  intro hall
  have heq := hall Function.trimBoth Function.trimBoth_trimsEnds .bare
    [("a/b", .integer 1), ("c", .variable "a")] ⟨[], []⟩ (by decide)
  revert heq
  decide

end KEMap

end Uskit
