import Uskit.Function.StdString
import Uskit.Utils

namespace Uskit.Function

open Uskit.Data Checked

/-! The functions of `builtin.cpp`, each on the array of its arguments.  A failed
check returns -1. -/

def getValueByPath (args : List Json) : Call Json := do
  require (args.length == 2 || args.length == 3)
  let json ← position args 0
  require (json.isObject || isArray json)
  let path ← position args 1
  require (isString path)
  let path ← getString path
  match getValueByPointer json path with
  | some value => .ok value
  | none => if args.length = 2 then .ok .null else position args 2

/-- The return codes of `json_set_value_by_path` are not looked at. -/
def forEachSetByPath (args : List Json) : Call Json := do
  require (parameterCheck args [.array, .string, .array])
  let elements ← getArray (← position args 0)
  let values ← getArray (← position args 2)
  require (values.length == elements.length)
  let path ← getString (← position args 1)
  .ok (.array (List.zipWith
    (fun element value =>
      (jsonSetValueByPath (normalizePath path) element value).1) elements values))

def setValueByPath (args : List Json) : Call Json := do
  require (args.length == 3)
  let json ← position args 0
  require (json.isObject || isArray json)
  let path ← position args 1
  require (isString path)
  let path ← getString path
  let value ← position args 2
  let (result, valid) := jsonSetValueByPath (normalizePath path) json value
  require valid
  .ok result

/-- A turn of the loop of `replace_value_by_path_and_dict`. -/
def replaceElement (path : String) (dict : JsonMembers) (element : Json) :
    Call Json :=
  match getValueByPointer element path with
  | some (.string key) =>
      match dict.lookup (cStr key) with
      | some replaceValue => do
          let text ← getString replaceValue
          .ok (setFound path (.string text) element)
      | none => .ok element
  | _ => .ok element

def replaceValueByPathAndDict (args : List Json) : Call Json := do
  require (parameterCheck args [.array, .string, .object])
  let path ← getString (← position args 1)
  let elements ← getArray (← position args 0)
  let dict ← getObject (← position args 2)
  let result ← Checked.traverse (replaceElement path dict) elements
  .ok (.array result)

def stringContain (args : List Json) : Call Json := do
  require (parameterCheck args [.string, .string])
  let source ← getString (← position args 0)
  let target ← getString (← position args 1)
  .ok (.bool (find source target 0).isSome)

/-- An optional argument of type boolean, false by default. -/
def optionalBool (args : List Json) (index : Nat) : Call Bool :=
  if args.length ≤ index then .ok false
  else do
    let value ← position args index
    require (isBool value)
    getBool value

def getSubStr (args : List Json) : Call Json := do
  require (args.length == 2 || args.length == 3 || args.length == 4)
  let source ← position args 0
  require (isString source)
  let target ← position args 1
  require (isString target)
  let isContain ← optionalBool args 2
  let isReverse ← optionalBool args 3
  let source ← getString source
  let target ← getString target
  match if isReverse then rfind source target npos else find source target 0 with
  | some pos => do
      let text ← substr source
        (if isContain then pos else pos + target.toList.length) npos
      .ok (.string text)
  | none => .ok (.string source)

section Nested

variable (callFunction : String → List Json → Call Json)

/-- A turn of the loop of `array_func`.  The message for a wrong number of elements
reads a third argument. -/
def arrayFuncElement (args : List Json) (element : Json) : Call Json := do
  let call ← getArray (← position args 1)
  if call.length ≠ 2 then do
    let _ ← position args 2
    .failed
  else do
    let name ← position call 0
    require (isString name)
    let funcName ← getString name
    let extra ← position call 1
    require (isArray extra)
    let extra ← getArray extra
    callFunction funcName (element :: extra)

def arrayFunc (args : List Json) : Call Json := do
  require (parameterCheck args [.array, .array])
  let elements ← getArray (← position args 0)
  let result ← Checked.traverse (arrayFuncElement callFunction args) elements
  .ok (.array result)

/-- The call that an array of a name and arguments stands for, on a value. -/
def callOn (call : List Json) (value : Json) : Call Json := do
  require (parameterCheck call [.string, .array])
  let funcName ← getString (← position call 0)
  let extra ← getArray (← position call 1)
  callFunction funcName (value :: extra)

/-- A turn of the loop of `normalized`. -/
def normalizeElement (path : String) (containCall replaceCall : List Json)
    (element : Json) : Call Json :=
  match getValueByPointer element path with
  | some (.string text) => do
      let containKey ← callOn callFunction containCall (.string text)
      require (isBool containKey)
      let contained ← getBool containKey
      if contained then do
        let value ← callOn callFunction replaceCall (.string text)
        require (isString value)
        .ok (setFound path value element)
      else .ok element
  | _ => .failed

def normalized (args : List Json) : Call Json := do
  require (parameterCheck args [.array, .string, .array, .array])
  let path ← getString (← position args 1)
  let elements ← getArray (← position args 0)
  let containCall ← getArray (← position args 2)
  let replaceCall ← getArray (← position args 3)
  let result ← Checked.traverse (normalizeElement callFunction path containCall replaceCall)
    elements
  .ok (.array result)

end Nested

/-- The loop of `get_index_by_key`, at `index`. -/
def indexFrom (path key : String) : (index : Nat) → List Json → Call Json
  | _, [] => .ok (.string "-1")
  | index, element :: rest => do
      let value ← dereference (getValueByPointer element path)
      let text ← getString value
      if text = key then .ok (.string (toString index))
      else indexFrom path key (index + 1) rest

def getIndexByKey (args : List Json) : Call Json := do
  require (parameterCheck args [.array, .string, .string])
  let path ← getString (← position args 1)
  let elements ← getArray (← position args 0)
  let key ← getString (← position args 2)
  indexFrom path key 0 elements

def forEachGetByPath (args : List Json) : Call Json := do
  require (args.length == 2 || args.length == 3)
  let json ← position args 0
  require (isArray json)
  let path ← position args 1
  require (isString path)
  let path ← getString path
  let elements ← getArray json
  let default ← if args.length = 2 then .ok .null else position args 2
  .ok (.array (elements.map fun element =>
    (getValueByPointer element path).getD default))

def jsonEncode (host : Host) (args : List Json) : Call Json := do
  require (args.length == 1)
  let value ← position args 0
  .ok (.string (host.jsonEncode value))

def jsonDecode (host : Host) (args : List Json) : Call Json := do
  require (args.length == 1)
  let value ← position args 0
  require (isString value)
  let text ← getString value
  match host.parseJson text with
  | some document => .ok document
  | none => .failed

def replaceAll (args : List Json) : Call Json := do
  require (parameterCheck args [.string, .string, .string])
  let source ← getString (← position args 0)
  let old ← getString (← position args 1)
  let new ← getString (← position args 2)
  match Uskit.replaceAll source old new with
  | some text => .ok (.string text)
  | none => .undefined

def hasKey (args : List Json) : Call Json := do
  require (args.length == 2)
  let json ← position args 0
  let key ← position args 1
  match json with
  | .object members => do
      require (isString key)
      let name ← getString key
      .ok (.bool (members.lookup name).isSome)
  | .array elements => .ok (.bool (elements.any (·.valueEq key)))
  | _ => .failed

def arrayLength (args : List Json) : Call Json := do
  require (args.length == 1)
  let json ← position args 0
  require (isArray json)
  let elements ← getArray json
  .ok (setInt (asInt elements.length))

/-- The elements at the other indexes. -/
def removeIndexes (indexToMv : List Int) (elements : List Json) : List Json :=
  (elements.zipIdx.filter fun entry => !indexToMv.contains (asInt entry.2)).map
    Prod.fst

/-- A member that has to be there and to be of a type. -/
def requiredMember (members : JsonMembers) (name : String)
    (ofType : Json → Bool) : Call Json :=
  match members.lookup name with
  | some value => do
      require (ofType value)
      .ok value
  | none => .failed

/-- What `slice` keeps by the text of the value at the path. -/
def keepsElement (host : Host) (method path : String) (keys : List String)
    (element : Json) : Bool :=
  match getValueByPointer element path with
  | none => false
  | some value =>
      if method = "AND" then keys.contains (host.textOf value)
      else if method = "EXCLUSIVE" then !keys.contains (host.textOf value)
      else true

def sliceByKeys (host : Host) (sliceArgs : JsonMembers) (elements : List Json) :
    Call Json := do
  let method ← getString (← requiredMember sliceArgs "method" isString)
  let path ← getString (← requiredMember sliceArgs "path" isString)
  let keys ← getArray (← requiredMember sliceArgs "keys" isArray)
  .ok (.array (elements.filter
    (keepsElement host method path (keys.map host.textOf))))

/-- The loop from `start` to `last`.  An index out of bounds is not a fault of the
arguments. -/
def window (start last : Int) (elements : List Json) : Call Json :=
  if start < last ∧ ¬ (0 ≤ start ∧ last ≤ elements.length) then .undefined
  else .ok (.array ((elements.take last.toNat).drop start.toNat))

def arraySlice (host : Host) (args : List Json) : Call Json := do
  let json ← position args 0
  require (isArray json)
  let elements ← getArray json
  let size := asInt elements.length
  if args.length < 2 then window 0 size elements
  else do
    match ← position args 1 with
    | .array indexes => do
        let indexToMv ← Checked.traverse getInt indexes
        .ok (.array (removeIndexes indexToMv elements))
    | .object sliceArgs => sliceByKeys host sliceArgs elements
    | index => do
        require (isInt index)
        let start ← reverseIndex (← getInt index) size
        if args.length < 3 then window start size elements
        else do
          let index ← position args 2
          require (isInt index)
          let last ← reverseIndex (← getInt index) size
          window start last elements

/-- A value that is neither a boolean nor a string leaves the result null. -/
def intValue (args : List Json) : Call Json := do
  require (args.length == 1)
  match ← position args 0 with
  | .bool value => .ok (setInt (if value then 1 else 0))
  | .string text =>
      match stoi (cStr text) with
      | some value => .ok (setInt value)
      | none => .failed
  | _ => .ok .null

/-- `GetDouble() == 0`. -/
def isZero (number : Number) : Bool :=
  number.getDouble.le (Double.zero false) && (Double.zero false).le number.getDouble

def boolValue (args : List Json) : Call Json := do
  require (args.length == 1)
  match ← position args 0 with
  | .bool value => .ok (.bool value)
  | .null => .ok (.bool false)
  | .number number => .ok (.bool !isZero number)
  | .string text => .ok (.bool !(cStr text).toList.isEmpty)
  | .array elements => .ok (.bool !elements.isEmpty)
  | .object members => .ok (.bool !members.isEmpty)

def md5Hash (host : Host) (args : List Json) : Call Json := do
  require (args.length == 1)
  let value ← position args 0
  require (isString value)
  let rawStr ← getString value
  .ok (.string (digestFromChar host .md5 rawStr))

def sha1Hash (host : Host) (args : List Json) : Call Json := do
  require (decide (1 ≤ args.length))
  let value ← position args 0
  require (isString value)
  let rawStr ← getString value
  .ok (.string (digestFromChar host .sha1 rawStr))

def time (host : Host) (args : List Json) : Call Json :=
  if args.length = 1 then do
    let format ← position args 0
    require (isString format)
    let format ← getString format
    match host.strftime format with
    | some text => .ok (.string (cStr text))
    | none => .undefined
  else .ok (setInt (asInt host.time))

def hmacSha1 (host : Host) (args : List Json) : Call Json := do
  require (args.length == 3)
  let data ← position args 0
  let key ← position args 1
  require (isString data && isString key)
  let isSha1 ← position args 2
  require (isBool isSha1)
  let key ← getString key
  let data ← getString data
  let digest := host.hmacSha1 key data
  if ← getBool isSha1 then .ok (.string (digestToBase16 digest))
  else .ok (.string (digestFromChar host .md5 digest))

def base64Encode (host : Host) (args : List Json) : Call Json := do
  require (parameterCheck args [.string])
  let input ← getString (← position args 0)
  .ok (.string (host.base64Encode input))

/-- The buffer is an array of variable length, which cannot be empty. -/
def randStr (host : Host) (args : List Json) : Call Json := do
  require (parameterCheck args [.number])
  let strLength ← getInt (← position args 0)
  if strLength < 1 then .undefined
  else .ok (.string (host.fastRandBytes strLength.toNat))

def queryEncode (host : Host) (args : List Json) : Call Json := do
  require (parameterCheck args [.string])
  let source ← getString (← position args 0)
  match host.curlEscape source with
  | some escapeQuery => .ok (.string (cStr escapeQuery))
  | none => .undefined

end Uskit.Function
