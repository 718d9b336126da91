import Uskit.DynamicConfig.Rank
import Uskit.Expression.Reads

namespace Uskit

open Uskit.Data

/-! The contexts in which the loop over the candidates evaluates `sort_by`. -/

namespace RankConfig

/-- The elements of an array from `index` on, as `name/index`. -/
def elementItems (name : String) : (index : Nat) → List Json → List (String × Json)
  | _, [] => []
  | index, item :: rest =>
      (name ++ "/" ++ toString index, item) :: elementItems name (index + 1) rest

/-- The items that are ranked for a candidate, by the names of their entries. -/
def itemsOf (candidate : String) : Option Json → List (String × Json)
  | none => []
  | some (.array elements) => elementItems candidate 0 elements
  | some item => [(candidate, item)]

/-- Each item is set over the one before. -/
def turns : List (String × Json) → Context → List (String × Context)
  | [], _ => []
  | (name, item) :: rest, context =>
      (name, setItem item context) :: turns rest (setItem item context)

def setItems : List (String × Json) → Context → Context
  | [], context => context
  | (_, item) :: rest, context => setItems rest (setItem item context)

/-- The turns of each candidate, with the items that the pointer shows then, and
the context in the end. -/
def candidateTurns (place : Option Nat) :
    List String → Context → Option (List (String × List (String × Context)) × Context)
  | [], context => some ([], context)
  | candidate :: rest, context =>
      match backendAt place context with
      | some (.object backend) =>
          let items := itemsOf candidate (backend.lookup candidate)
          (candidateTurns place rest (setItems items context)).map fun others =>
            ((candidate, turns items context) :: others.1, others.2)
      | _ => none

/-- The entries of the turns whose features are all there. -/
def gather (library : Library) (config : RankConfig) (features : List Json) :
    List (String × Context) → Result (List RankEntry)
  | [] => .ok []
  | (name, context) :: rest =>
      match Expr.runArgs library context config.sortBy with
      | .ok values => do
          let others ← gather library config features rest
          .ok (if (features ++ values).length = config.desc.length then
            ⟨name, features ++ values⟩ :: others else others)
      | .failed => gather library config features rest
      | .undefined => .undefined

def gatherAll (library : Library) (config : RankConfig) :
    List (String × List (String × Context)) → Result (List RankEntry)
  | [] => .ok []
  | (candidate, ts) :: rest => do
      let first ← gather library config (config.orderFeatures candidate) ts
      let others ← gatherAll library config rest
      .ok (first ++ others)

section Loops

variable (library : Library) (config : RankConfig)

theorem gather_ne_failed (features : List Json) (ts : List (String × Context)) :
    gather library config features ts ≠ .failed := by
  induction ts with
  | nil => exact fun hfailed => nomatch hfailed
  | cons turn rest ih =>
      rw [gather]
      cases Expr.runArgs library turn.2 config.sortBy with
      | failed => exact ih
      | undefined => exact fun hfailed => nomatch hfailed
      | ok values =>
          cases hrest : gather library config features rest with
          | failed => exact absurd hrest ih
          | undefined => exact fun hfailed => nomatch hfailed
          | ok others => exact fun hfailed => nomatch hfailed

theorem rankItem_eq (features : List Json) (name : String) (item : Json)
    (context : Context) :
    config.rankItem library features name item context =
      (gather library config features [(name, setItem item context)] >>= fun entries =>
        .ok (setItem item context, entries)) := by
  rw [rankItem, gather]
  cases Expr.runArgs library (setItem item context) config.sortBy with
  | failed => rfl
  | undefined => rfl
  | ok values =>
      dsimp only
      rw [gather, Result.ok_bind, Result.ok_bind]
      split
      · rfl
      · rfl

theorem gather_cons (features : List Json) (turn : String × Context)
    (rest : List (String × Context)) :
    gather library config features (turn :: rest) =
      (gather library config features [turn] >>= fun first =>
        gather library config features rest >>= fun others => .ok (first ++ others)) := by
  obtain ⟨name, context⟩ := turn
  simp only [gather]
  cases Expr.runArgs library context config.sortBy with
  | failed => 
      dsimp only
      rw [Result.ok_bind]
      exact (Result.bind_ok _).symm
  | undefined => rfl
  | ok values =>
      simp only [Result.ok_bind]
      split
      · rfl
      · rfl

theorem rankElements_eq (features : List Json) (name : String) (index : Nat)
    (items : List Json) (context : Context) :
    config.rankElements library features name index items context =
      (gather library config features (turns (elementItems name index items) context) >>=
        fun entries => .ok (setItems (elementItems name index items) context, entries)) := by
  induction items generalizing index context with
  | nil => rfl
  | cons item rest ih =>
      rw [rankElements, rankItem_eq, elementItems, turns, setItems]
      conv_rhs => rw [gather_cons]
      simp only [Result.bind_assoc, Result.ok_bind, ih]

theorem rankCandidate_eq (place : Option Nat) {candidate : String}
    (hname : cStr candidate = candidate) (context : Context) :
    config.rankCandidate library place candidate context =
      match backendAt place context with
      | some (.object backend) =>
          let items := itemsOf candidate (backend.lookup candidate)
          gather library config (config.orderFeatures candidate) (turns items context) >>=
            fun entries => .ok (setItems items context, entries)
      | _ => .undefined := by
  rw [rankCandidate, hname]
  cases backendAt place context with
  | none => rfl
  | some shown =>
      cases shown with
      | null | bool | number | string | array => rfl
      | object backend =>
          dsimp only
          cases backend.lookup candidate with
          | none => rfl
          | some item =>
              cases item with
              | array elements => exact rankElements_eq library config _ _ _ _ _
              | null | bool | number | string | object =>
                  exact rankItem_eq library config _ _ _ _

theorem rankCandidates_eq (place : Option Nat) {candidates : List String}
    (hnames : ∀ candidate ∈ candidates, cStr candidate = candidate) (context : Context) :
    config.rankCandidates library place (candidates.map .string) context =
      match candidateTurns place candidates context with
      | some (all, final) =>
          gatherAll library config all >>= fun entries => .ok (final, entries)
      | none => .undefined := by
  induction candidates generalizing context with
  | nil => rfl
  | cons candidate rest ih =>
      rw [List.forall_mem_cons] at hnames
      rw [List.map_cons, rankCandidates, rankCandidate_eq library config place hnames.1,
        candidateTurns]
      split
      · rename_i backend _
        dsimp only
        rw [Result.bind_assoc]
        simp only [Result.ok_bind, ih hnames.2]
        cases hrest : candidateTurns place rest
            (setItems (itemsOf candidate (backend.lookup candidate)) context) with
        | none =>
            simp only [Option.map_none]
            cases hgather : gather library config (config.orderFeatures candidate)
                (turns (itemsOf candidate (backend.lookup candidate)) context) with
            | failed => exact absurd hgather (gather_ne_failed library config _ _)
            | undefined => rfl
            | ok entries => rfl
        | some others =>
            simp only [Option.map_some, gatherAll, Result.bind_assoc, Result.ok_bind]
      · rfl

end Loops

end RankConfig

end Uskit
