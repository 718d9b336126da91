import Uskit.Expression.Expression

namespace Uskit

open Uskit.Data

/-! An expression sees of its context what `get_variable` finds there. -/

namespace Expr

variable {first second : Context}

mutual

theorem run_congr (library : Library)
    (hsame : ∀ name, first.getVariable name = second.getVariable name) :
    (expr : Expr) → run library first expr = run library second expr
  | .null | .integer _ | .double _ | .string _ | .boolean _ => by simp only [run]
  | .array items => by
      rw [run, run, runArgs_congr library hsame items]
  | .dict entries => by
      rw [run, run, runDict_congr library hsame entries]
  | .binary _ lhs rhs => by
      rw [run, run, run_congr library hsame lhs, run_congr library hsame rhs]
  | .ternary cond lhs rhs => by
      rw [run, run, run_congr library hsame cond, run_congr library hsame lhs,
        run_congr library hsame rhs]
  | .not expr => by
      rw [run, run, run_congr library hsame expr]
  | .call _ args next => by
      rw [run, run, runArgs_congr library hsame args]
      simp only [runNext_congr library hsame next]
  | .variable name => by
      rw [run, run, hsame name]

theorem runArgs_congr (library : Library)
    (hsame : ∀ name, first.getVariable name = second.getVariable name) :
    (args : List Expr) → runArgs library first args = runArgs library second args
  | [] => by simp only [runArgs]
  | arg :: rest => by
      rw [runArgs, runArgs, run_congr library hsame arg, runArgs_congr library hsame rest]

theorem runDict_congr (library : Library)
    (hsame : ∀ name, first.getVariable name = second.getVariable name) :
    (entries : List (String × Expr)) →
      runDict library first entries = runDict library second entries
  | [] => by simp only [runDict]
  | (_, expr) :: rest => by
      rw [runDict, runDict, run_congr library hsame expr,
        runDict_congr library hsame rest]

theorem runNext_congr (library : Library)
    (hsame : ∀ name, first.getVariable name = second.getVariable name) :
    (next : List (String × List Expr)) → (input : Json) →
      runNext library first next input = runNext library second next input
  | [], _ => by simp only [runNext]
  | (_, args) :: next, _ => by
      rw [runNext, runNext, runArgs_congr library hsame args]
      simp only [runNext_congr library hsame next]

end

end Expr

end Uskit
