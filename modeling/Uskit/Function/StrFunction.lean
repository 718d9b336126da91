import Uskit.Function.StdString

namespace Uskit.Function

open Uskit.Data Checked

/-! The functions of `str_function.cpp`. -/

def strSplit (host : Host) (args : List Json) : Call Json := do
  require (parameterCheck args [.string, .string] || parameterCheck args [.string])
  let delimiter ← if args.length = 1 then .ok " "
    else do getString (← position args 1)
  let text ← getString (← position args 0)
  .ok (.array ((host.splitStringUsingSubstr text delimiter).map fun piece =>
    .string (cStr piece)))

/-- An end that is no `int` leaves the result empty. -/
def strSlice (args : List Json) : Call Json := do
  require (parameterCheck args [.string, .number, .number] ||
    parameterCheck args [.string, .number])
  let input ← getString (← position args 0)
  let size := asInt input.toList.length
  let index ← position args 1
  require (isInt index)
  let start ← reverseIndex (← getInt index) size
  if args.length = 2 then do
    let output ← substr input (asSize start) npos
    .ok (.string output)
  else do
    let index ← position args 2
    if isInt index then do
      let last ← reverseIndex (← getInt index) size
      require (decide (start < last) && start != size)
      let output ← substr input (asSize start) (last - start).toNat
      .ok (.string output)
    else .ok (.string "")

def arrayJoin (host : Host) (args : List Json) : Call Json := do
  require (parameterCheck args [.array, .string])
  let delimiter ← getString (← position args 1)
  let items ← getArray (← position args 0)
  let output := items.foldl (fun output item => output ++ host.textOf item ++ delimiter)
    ""
  .ok (.string (cStr (host.trimString output delimiter)))

def strLength (args : List Json) : Call Json := do
  require (parameterCheck args [.string])
  let input ← getString (← position args 0)
  .ok (setInt (asInt input.toList.length))

/-- The last argument of `str_find`: whether to search from the end. -/
def fromEnd (args : List Json) : Call Bool :=
  if args.length = 4 then do getBool (← position args 3)
  else .ok false

def findIndex (args : List Json) (input target : String) : Call (Option Nat) :=
  if args.length = 2 then .ok (find input target 0)
  else do
    let pos ← getInt (← position args 2)
    let reverse ← fromEnd args
    .ok (if reverse then rfind input target (asSize pos)
      else find input target (asSize pos))

def strFind (args : List Json) : Call Json := do
  require (parameterCheck args [.string, .string] ||
    parameterCheck args [.string, .string, .number] ||
    parameterCheck args [.string, .string, .number, .boolTrue] ||
    parameterCheck args [.string, .string, .number, .boolFalse])
  let input ← getString (← position args 0)
  let target ← getString (← position args 1)
  let index ← findIndex args input target
  .ok (setInt (match index with
    | some index => asInt index
    | none => -1))

end Uskit.Function
