import Mathlib.Logic.Function.Basic
import Uskit.Data.Machine
import Uskit.Expression.Context

namespace Uskit

open Uskit.Data

/-! A chain of nested contexts as a store: what a run of calls on its contexts
has written, and what `get_variable` reads.  Contexts are known by their depth in
the chain, 0 the innermost. -/

abbrev Chain := List JsonMembers

namespace Chain

def contextAt (chain : Chain) (depth : Nat) : Context :=
  ⟨chain.getD depth [], chain.drop (depth + 1)⟩

/-- The chain after a call on one of its contexts. -/
def put (chain : Chain) (depth : Nat) (after : Context) : Chain :=
  chain.set depth after.ownVariables

end Chain

inductive StoreCall where
  | setVariable (depth : Nat) (key : String) (value : Json)
  | setVariableByPath (depth : Nat) (path : String) (value : Json)
  | eraseVariable (depth : Nat) (name : String)
deriving DecidableEq, Repr

namespace StoreCall

def depth : StoreCall → Nat
  | .setVariable depth _ _ => depth
  | .setVariableByPath depth _ _ => depth
  | .eraseVariable depth _ => depth

def run (context : Context) : StoreCall → Outcome Context
  | .setVariable _ key value => .ok (context.setVariable key value)
  | .setVariableByPath _ path value => context.setVariableByPath path value
  | .eraseVariable _ name => .ok (context.eraseVariable name)

def step : Machine Chain StoreCall := fun chain call =>
  if call.depth < chain.length then
    match call.run (chain.contextAt call.depth) with
    | .ok after | .failed after => some (chain.put call.depth after)
    | .undefined => none
  else none

/-- A path of one token, the name of a variable. -/
def SingleToken : StoreCall → Prop
  | .setVariableByPath _ path _ => ∃ token, pathTokens path = some [token]
  | _ => True

/-- `set_variable` is called for a variable that its context does not hold. -/
def SetsFresh (chain : Chain) : StoreCall → Prop
  | .setVariable depth key _ => key ∉ Members.names (chain.getD depth [])
  | _ => True

def ErasesPlain : StoreCall → Prop
  | .eraseVariable _ name => '\x00' ∉ name.toList
  | _ => True

/-- What the call writes or erases: the value after it, by depth and name. -/
def record (call : StoreCall) (written : Nat → String → Option Json) :
    Nat → String → Option Json :=
  match call with
  | .setVariable depth key value =>
      Function.update written depth
        (Function.update (written depth) key (some value))
  | .setVariableByPath depth path value =>
      match pathTokens path with
      | some [token] =>
          Function.update written depth
            (Function.update (written depth) token.name (some value))
      | _ => written
  | .eraseVariable depth name =>
      Function.update written depth
        (Function.update (written depth) name none)

@[simp] theorem record_eraseVariable (depth : Nat) (name : String)
    (written : Nat → String → Option Json) :
    (StoreCall.eraseVariable depth name).record written =
      Function.update written depth
        (Function.update (written depth) name none) := rfl

/-- The value most recently written and not erased since. -/
def written (calls : List StoreCall) : Nat → String → Option Json :=
  calls.foldl (fun before call => call.record before) fun _ _ => none

/-- The nearest value, from `depth` outwards, in a chain of `count` contexts. -/
def nearest (written : Nat → String → Option Json) (count depth : Nat)
    (name : String) : Option Json :=
  ((List.range count).drop depth).findSome? fun outer => written outer name

end StoreCall

/-- What the store promises after a run of calls. -/
structure StoreSound (calls : List StoreCall) (chain : Chain) : Prop where
  nodup : ∀ scope ∈ chain, (Members.names scope).Nodup
  erased : ∀ earlier depth name,
    calls = earlier ++ [.eraseVariable depth name] →
      (chain.contextAt depth).hasVariable name = false
  read : ∀ depth < chain.length, ∀ name, '\x00' ∉ name.toList →
    (chain.contextAt depth).getVariable name =
      StoreCall.nearest (StoreCall.written calls) chain.length depth name

/-! What one call does to the scope it works on. -/

section Scope

variable {scope : JsonMembers}

theorem lookup_append_fresh {key : String}
    (hfresh : key ∉ Members.names scope) (value : Json) :
    (fun name => (scope ++ [(key, value)]).lookup name) =
      Function.update (fun name => scope.lookup name) key (some value) := by
  funext name
  by_cases hname : name = key
  · subst hname
    rw [Function.update_self, Members.lookup_append_of_not_mem hfresh]
    exact List.lookup_cons_self
  · rw [Function.update_of_ne hname]
    exact Members.lookup_append_singleton_of_ne hname scope value

theorem lookup_replaceFirst {key : String} (hmem : key ∈ Members.names scope)
    (value : Json) :
    (fun name => (Members.replaceFirst key value scope).lookup name) =
      Function.update (fun name => scope.lookup name) key (some value) := by
  funext name
  by_cases hname : name = key
  · subst hname
    rw [Function.update_self, Members.lookup_replaceFirst_self value hmem]
  · rw [Function.update_of_ne hname]
    exact Members.lookup_replaceFirst_of_ne (Ne.symm hname) value scope

theorem lookup_eraseFirst (key : String)
    (hnodup : (Members.names scope).Nodup) :
    (fun name => (Members.eraseFirst key scope).lookup name) =
      Function.update (fun name => scope.lookup name) key none := by
  funext name
  by_cases hname : name = key
  · subst hname
    rw [Function.update_self, Members.lookup_eq_none]
    exact Members.not_mem_names_eraseFirst hnodup
  · rw [Function.update_of_ne hname]
    exact Members.lookup_eraseFirst_of_ne (Ne.symm hname) scope

/-- `Set` through a pointer of one token. -/
theorem set_token (value : Json) (token : Token)
    (hnodup : (Members.names scope).Nodup) :
    ∃ after : JsonMembers,
      Pointer.set value [token] (.object scope) = .object after ∧
        (Members.names after).Nodup ∧
        (fun name => after.lookup name) =
          Function.update (fun name => scope.lookup name) token.name
            (some value) := by
  rw [Pointer.set]
  cases hfound : scope.lookup token.name with
  | some old =>
      have hmem : token.name ∈ Members.names scope :=
        Members.lookup_isSome.mp (by rw [hfound]; rfl)
      refine ⟨_, rfl, ?_, lookup_replaceFirst hmem value⟩
      rw [Members.names_replaceFirst]
      exact hnodup
  | none =>
      have hfresh := Members.lookup_eq_none.mp hfound
      exact ⟨_, rfl, Members.nodup_names_append_singleton hnodup hfresh _,
        lookup_append_fresh hfresh value⟩

end Scope

namespace Chain

/-- What every context of the chain holds. -/
def lookups (chain : Chain) (depth : Nat) (name : String) : Option Json :=
  (chain.getD depth []).lookup name

theorem lookups_set {chain : Chain} {depth : Nat} (hdepth : depth < chain.length)
    (after : JsonMembers) :
    lookups (chain.set depth after) =
      Function.update chain.lookups depth fun name => after.lookup name := by
  funext other name
  unfold lookups
  by_cases hother : other = depth
  · subst hother
    rw [Function.update_self, List.getD_eq_getElem?_getD,
      List.getElem?_set_self hdepth]
    rfl
  · rw [Function.update_of_ne hother, List.getD_eq_getElem?_getD,
      List.getElem?_set_ne (Ne.symm hother), ← List.getD_eq_getElem?_getD]

theorem lookups_replicate (count : Nat) :
    lookups (List.replicate count []) = fun _ _ => none := by
  funext depth name
  unfold lookups
  rw [List.getD_eq_getElem?_getD, List.getElem?_replicate]
  split
  · rfl
  · rfl

def Unrepeated (chain : Chain) : Prop :=
  ∀ scope ∈ chain, (Members.names scope).Nodup

theorem Unrepeated.getD {chain : Chain} (hunrepeated : chain.Unrepeated)
    (depth : Nat) : (Members.names (chain.getD depth [])).Nodup := by
  rw [List.getD_eq_getElem?_getD]
  cases hscope : chain[depth]? with
  | none => exact List.nodup_nil
  | some scope => exact hunrepeated scope (List.mem_of_getElem? hscope)

theorem Unrepeated.set {chain : Chain} (hunrepeated : chain.Unrepeated)
    {after : JsonMembers} (hafter : (Members.names after).Nodup) (depth : Nat) :
    Unrepeated (chain.set depth after) := by
  intro scope hmem
  cases List.mem_or_eq_of_mem_set hmem with
  | inl hbefore => exact hunrepeated scope hbefore
  | inr heq => exact heq ▸ hafter

end Chain

namespace StoreCall

/-- What one call does to its context is what is recorded of it. -/
theorem run_context {context : Context} {call : StoreCall}
    (hnodup : (Members.names context.ownVariables).Nodup)
    (hsingle : call.SingleToken) (hplain : call.ErasesPlain)
    (hfresh : ∀ key value, call = .setVariable call.depth key value →
      key ∉ Members.names context.ownVariables) :
    ∃ after key held, call.run context = .ok after ∧
      (Members.names after.ownVariables).Nodup ∧
      (fun name => after.ownVariables.lookup name) =
        Function.update (fun name => context.ownVariables.lookup name) key held ∧
      ∀ written, call.record written =
        Function.update written call.depth
          (Function.update (written call.depth) key held) := by
  cases call with
  | setVariable depth key value =>
      have hkey := hfresh key value rfl
      exact ⟨_, key, some value, rfl,
        Members.nodup_names_append_singleton hnodup hkey value,
        lookup_append_fresh hkey value, fun _ => rfl⟩
  | setVariableByPath depth path value =>
      obtain ⟨token, htoken⟩ := hsingle
      obtain ⟨after, hset, hafter, hlookup⟩ := set_token value token hnodup
      refine ⟨{ context with ownVariables := after }, token.name, some value, ?_,
        hafter, hlookup, ?_⟩
      · unfold run Context.setVariableByPath jsonSetValueByPath
        simp only [htoken, hset]
      · intro written
        unfold record
        simp only [htoken]
        rfl
  | eraseVariable depth name =>
      rw [ErasesPlain] at hplain
      refine ⟨_, name, none, rfl,
        Members.nodup_names_eraseFirst (cStr name) hnodup, ?_, fun _ => rfl⟩
      rw [Context.eraseVariable, cStr_eq_self hplain]
      exact lookup_eraseFirst name hnodup

/-- A call keeps the names apart and does to the store what is recorded of it. -/
theorem step_sound {chain next : Chain} {call : StoreCall}
    (hunrepeated : chain.Unrepeated) (hsingle : call.SingleToken)
    (hplain : call.ErasesPlain) (hfresh : call.SetsFresh chain)
    (hstep : step chain call = some next) :
    next.length = chain.length ∧ next.Unrepeated ∧
      next.lookups = call.record chain.lookups := by
  have hkey : ∀ key value, call = .setVariable call.depth key value →
      key ∉ Members.names (chain.contextAt call.depth).ownVariables := by
    intro key value heq
    rw [heq] at hfresh
    exact hfresh
  obtain ⟨after, key, held, hrun, hafter, hlookup, hrecord⟩ :=
    run_context (hunrepeated.getD call.depth) hsingle hplain hkey
  unfold step at hstep
  rw [hrun] at hstep
  split at hstep
  · rename_i hdepth
    obtain rfl : chain.put call.depth after = next := Option.some.inj hstep
    refine ⟨List.length_set, hunrepeated.set hafter _, ?_⟩
    rw [Chain.put, Chain.lookups_set hdepth, hlookup, hrecord]
    rfl
  · cases hstep

theorem run_sound {chain final : Chain} {calls : List StoreCall}
    (hunrepeated : chain.Unrepeated) (hsingle : ∀ call ∈ calls, call.SingleToken)
    (hplain : ∀ call ∈ calls, call.ErasesPlain)
    (hfresh : Machine.Guarded step (fun chain call => call.SetsFresh chain)
      chain calls)
    (hrun : Machine.run step chain calls = some final) :
    final.length = chain.length ∧ final.Unrepeated ∧
      final.lookups =
        calls.foldl (fun before call => call.record before) chain.lookups := by
  induction calls generalizing chain with
  | nil =>
      cases hrun
      exact ⟨rfl, hunrepeated, rfl⟩
  | cons call calls ih =>
      obtain ⟨next, hstep, hrest⟩ := Machine.run_cons.mp hrun
      obtain ⟨hlength, hnext, hlookups⟩ := step_sound hunrepeated
        (hsingle call List.mem_cons_self) (hplain call List.mem_cons_self)
        hfresh.1 hstep
      have hlater := ih hnext (fun other hmem => hsingle other (.tail _ hmem))
        (fun other hmem => hplain other (.tail _ hmem)) (hfresh.2 next hstep) hrest
      rw [hlength, hlookups] at hlater
      exact hlater

end StoreCall

/-! Reading through the chain. -/

theorem findVariable_eq_findSome? (name : String) (scopes : List JsonMembers) :
    Context.findVariable name scopes =
      scopes.findSome? fun scope => scope.lookup name := by
  induction scopes with
  | nil => rfl
  | cons scope parents ih =>
      rw [Context.findVariable, List.findSome?_cons, ih]
      cases scope.lookup name with
      | some value => rfl
      | none => rfl

theorem Chain.scopes_contextAt {chain : Chain} {depth : Nat}
    (hdepth : depth < chain.length) :
    (chain.contextAt depth).scopes = chain.drop depth := by
  rw [List.drop_eq_getElem_cons hdepth, contextAt, Context.scopes]
  simp [List.getD_eq_getElem?_getD, hdepth]

theorem Chain.drop_eq_map (chain : Chain) (depth : Nat) :
    chain.drop depth =
      ((List.range chain.length).drop depth).map fun outer =>
        chain.getD outer [] := by
  have hwhole : chain =
      (List.range chain.length).map fun outer => chain.getD outer [] := by
    apply List.ext_getElem
    · simp
    · intro index hindex _
      have hinside : index < chain.length := hindex
      simp [List.getD_eq_getElem?_getD, hinside]
  exact (congrArg (List.drop depth) hwhole).trans List.map_drop.symm

theorem Chain.getVariable_contextAt {chain : Chain} {depth : Nat}
    (hdepth : depth < chain.length) {name : String}
    (hfree : '\x00' ∉ name.toList) :
    (chain.contextAt depth).getVariable name =
      StoreCall.nearest chain.lookups chain.length depth name := by
  rw [Context.getVariable, cStr_eq_self hfree, scopes_contextAt hdepth,
    findVariable_eq_findSome?, drop_eq_map, List.findSome?_map]
  rfl

/-- A run in which every variable is set where it is not held yet, and names
without NUL are erased, leaves a sound store. -/
theorem storeSound_of_fresh {count : Nat} {calls : List StoreCall} {final : Chain}
    (hsingle : ∀ call ∈ calls, call.SingleToken)
    (hplain : ∀ call ∈ calls, call.ErasesPlain)
    (hfresh : Machine.Guarded StoreCall.step
      (fun chain call => call.SetsFresh chain) (List.replicate count []) calls)
    (hrun : Machine.run StoreCall.step (List.replicate count []) calls =
      some final) : StoreSound calls final := by
  have hstart : Chain.Unrepeated (List.replicate count []) := by
    intro scope hmem
    rw [List.eq_of_mem_replicate hmem]
    exact List.nodup_nil
  obtain ⟨-, hnodup, hlookups⟩ :=
    StoreCall.run_sound hstart hsingle hplain hfresh hrun
  rw [Chain.lookups_replicate] at hlookups
  refine ⟨hnodup, ?_, ?_⟩
  · rintro earlier depth name rfl
    have hname := hplain (.eraseVariable depth name)
      (List.mem_append_right earlier List.mem_cons_self)
    rw [StoreCall.ErasesPlain] at hname
    have herased : final.lookups depth name = none := by
      rw [hlookups, List.foldl_append, List.foldl_cons, List.foldl_nil,
        StoreCall.record_eraseVariable, Function.update_self,
        Function.update_self]
    unfold Context.hasVariable
    rw [cStr_eq_self hname]
    exact congrArg Option.isSome herased
  · intro depth hdepth name hfree
    rw [Chain.getVariable_contextAt hdepth hfree, hlookups]
    rfl

/-- No other call keeps the names apart: a variable that is held is repeated. -/
theorem repeated_of_not_fresh {chain next : Chain} {call : StoreCall}
    (hheld : ¬ call.SetsFresh chain)
    (hstep : StoreCall.step chain call = some next) : ¬ next.Unrepeated := by
  cases call with
  | setVariable depth key value =>
      have hmem : key ∈ Members.names (chain.getD depth []) := not_not.mp hheld
      intro hunrepeated
      unfold StoreCall.step at hstep
      split at hstep
      · rename_i hdepth
        cases hstep
        have hscope := hunrepeated _ (List.mem_set hdepth _)
        rw [show (StoreCall.setVariable depth key value).depth = depth from rfl,
          Context.setVariable, Members.names_append, List.nodup_append] at hscope
        exact hscope.2.2 key hmem key List.mem_cons_self rfl
      · cases hstep
  | setVariableByPath => exact absurd trivial hheld
  | eraseVariable => exact absurd trivial hheld

def setAndErase : List StoreCall :=
  [.setVariable 1 "query" (.bool false), .setVariableByPath 0 "query" (.bool true),
    .eraseVariable 0 "query"]

theorem setAndErase_sound :
    StoreSound setAndErase [[], [("query", .bool false)]] := by
  refine @storeSound_of_fresh 2 setAndErase _ ?_ ?_ ?_ ?_
  · intro call hmem
    simp only [setAndErase, List.mem_cons, List.not_mem_nil, or_false] at hmem
    obtain rfl | rfl | rfl := hmem
    · trivial
    · exact ⟨⟨"query", none⟩, by decide⟩
    · trivial
  · intro call hmem
    simp only [setAndErase, List.mem_cons, List.not_mem_nil, or_false] at hmem
    obtain rfl | rfl | rfl := hmem
    · trivial
    · trivial
    · exact (by decide : '\x00' ∉ "query".toList)
  · refine ⟨List.not_mem_nil, fun _ _ => ⟨trivial, fun _ _ => ⟨trivial, ?_⟩⟩⟩
    exact fun _ _ => trivial
  · decide

theorem setTwice_repeats :
    ¬ ∀ (count : Nat) (calls : List StoreCall) (final : Chain),
      (∀ call ∈ calls, call.SingleToken) →
        Machine.run StoreCall.step (List.replicate count []) calls = some final →
          StoreSound calls final := by
  intro hall
  have hsound := hall 1
    [.setVariable 0 "cond" (.bool false), .setVariable 0 "cond" (.bool true)]
    [[("cond", .bool false), ("cond", .bool true)]] (by
      intro call hmem
      simp only [List.mem_cons, List.not_mem_nil, or_false] at hmem
      obtain rfl | rfl := hmem
      · trivial
      · trivial) (by decide)
  have hnodup := hsound.nodup _ List.mem_cons_self
  revert hnodup
  decide

end Uskit
