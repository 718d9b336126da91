import Uskit.Expression.Expression

namespace Uskit

open Uskit.Data

/-! Key-expression maps and vectors of a configuration. -/

/-- The entries in the order of `_key_order`, each with the expression that
`_ke_map` holds for its key. -/
abbrev KEMap := List (String × Expr)

abbrev KEVec := List Expr

namespace KEMap

/-- One turn of the loop of `run_def`. -/
def define (library : Library) (key : String) (expr : Expr)
    (context : Context) : Outcome Context :=
  .evaluate context (expr.run library context) fun value =>
    (context.setVariableByPath key value).ignoreCode

def runDef (library : Library) : KEMap → Context → Outcome Context
  | [], context => .ok context
  | (key, expr) :: rest, context =>
      (define library key expr context).andThen (runDef library rest)

/-- The loop of `KEMap::run`, from the document built so far. -/
def runEntries (library : Library) (context : Context) :
    KEMap → Json → Result Json
  | [], doc => .ok doc
  | (key, expr) :: rest, doc => do
      let value ← expr.run library context
      runEntries library context rest (jsonSetValueByPath key doc value).1

def run (library : Library) (context : Context) (keMap : KEMap) : Result Json :=
  if keMap.isEmpty then .ok .null
  else runEntries library context keMap (.object [])

theorem define_parents (library : Library) (key : String) (expr : Expr)
    (context : Context) :
    (define library key expr context).Keeps Context.parents context := by
  apply Outcome.Keeps.evaluate
  intro value
  exact (Context.setVariableByPath_parents key value context).ignoreCode

theorem runDef_parents (library : Library) (keMap : KEMap) (context : Context) :
    (runDef library keMap context).Keeps Context.parents context := by
  induction keMap generalizing context with
  | nil => exact .refl _ context
  | cons entry rest ih =>
      exact (define_parents library entry.1 entry.2 context).andThen ih

theorem runDef_outerNamed (library : Library) (name : String) (keMap : KEMap)
    (context : Context) :
    (runDef library keMap context).Keeps (Context.outerNamed name) context :=
  (runDef_parents library keMap context).image
    (List.map (Members.named name))

/-- No definition writes into the variable. -/
def Spares (name : String) (keMap : KEMap) : Prop :=
  ∀ entry ∈ keMap, ∃ token tokens,
    pathTokens entry.1 = some (token :: tokens) ∧ token.name ≠ name

theorem define_allNamed (library : Library) {key name : String} {token : Token}
    {tokens : List Token} (hpath : pathTokens key = some (token :: tokens))
    (hne : token.name ≠ name) (expr : Expr) (context : Context) :
    (define library key expr context).Keeps (Context.allNamed name) context := by
  apply Outcome.Keeps.evaluate
  intro value
  exact (Context.setVariableByPath_allNamed hpath hne value context).ignoreCode

theorem runDef_allNamed (library : Library) {name : String} {keMap : KEMap}
    (hspares : keMap.Spares name) (context : Context) :
    (runDef library keMap context).Keeps (Context.allNamed name) context := by
  induction keMap generalizing context with
  | nil => exact .refl _ context
  | cons entry rest ih =>
      obtain ⟨token, tokens, hpath, hne⟩ := hspares entry List.mem_cons_self
      exact (define_allNamed library hpath hne entry.2 context).andThen
        (ih fun other hother => hspares other (.tail entry hother))

end KEMap

namespace KEVec

def logicalAnd (library : Library) (context : Context) : KEVec → Result Bool
  | [] => .ok true
  | ke :: rest => do
      let v ← ke.run library context
      let value ← Expr.requireBool v
      if value then logicalAnd library context rest else .ok false

def run (library : Library) (context : Context) (keVec : KEVec) : Result Json := do
  let values ← Expr.runArgs library context keVec
  .ok (.array values)

end KEVec

end Uskit
