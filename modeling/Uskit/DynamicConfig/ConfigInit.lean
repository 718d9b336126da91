import Uskit.DynamicConfig.If
import Uskit.DynamicConfig.KEInit

namespace Uskit

/-! The messages that describe requests and responses, and the configurations that `init`
makes of them. -/

namespace Proto

structure RedisCommandConfig where
  op : String
  arg : List String := []

structure RequestConfig where
  name : String := ""
  /-- The field `include`. -/
  includeName : Option String := none
  /-- The field `def`. -/
  definition : List KVE := []
  httpMethod : Option String := none
  httpUri : Option String := none
  httpHeader : List KVE := []
  httpQuery : List KVE := []
  httpBody : List KVE := []
  redisCmd : List RedisCommandConfig := []
  dynamicArgs : List KVE := []
  dynamicArgsNode : Option String := none
  dynamicArgsPath : Option String := none
  hostIpPort : Option String := none

structure IfConfig where
  cond : List String := []
  definition : List KVE := []
  output : List KVE := []

structure ResponseConfig where
  name : String := ""
  includeName : Option String := none
  definition : List KVE := []
  ifConfigs : List IfConfig := []
  output : List KVE := []

end Proto

variable (runtime : Expression.Runtime) (trimString : String → String → String)

/-- `Driver::parse`, and `get_expression` if it has returned 0. -/
def parseExpr (text : String) : Option Expr :=
  match Expression.Driver.parse runtime text.toList with
  | .accepted expr => some expr
  | _ => none

def KEVec.init (exprList : List String) : Option KEVec :=
  exprList.mapM (parseExpr runtime)

def HttpRequestConfig.init (config : Proto.RequestConfig) : Option HttpRequestConfig := do
  let definition ← KEMap.init trimString runtime config.definition
  let httpHeader ← KEMap.init trimString runtime config.httpHeader
  let httpQuery ← KEMap.init trimString runtime config.httpQuery
  let httpBody ← KEMap.init trimString runtime config.httpBody
  let hostIpPort ← config.hostIpPort.mapM (parseExpr runtime)
  some
    { definition := definition
      httpMethod := config.httpMethod
      httpUri := config.httpUri
      hostIpPort := hostIpPort
      httpHeader := httpHeader
      httpQuery := httpQuery
      httpBody := httpBody }

def DynamicHttpRequestConfig.init (config : Proto.RequestConfig) :
    Option DynamicHttpRequestConfig := do
  let httpConfig ← HttpRequestConfig.init runtime trimString config
  let dynamicArgs ← KEMap.init trimString runtime config.dynamicArgs
  some
    { httpConfig with
      dynamicArgs := dynamicArgs
      dynamicArgsNode := config.dynamicArgsNode
      dynamicArgsPath := config.dynamicArgsPath }

def RedisCommand.init (config : Proto.RedisCommandConfig) : Option RedisCommand := do
  let arg ← KEVec.init runtime config.arg
  some { op := config.op, arg := arg }

def RedisRequestConfig.init (config : Proto.RequestConfig) : Option RedisRequestConfig := do
  let definition ← KEMap.init trimString runtime config.definition
  let redisCommand ← config.redisCmd.mapM (RedisCommand.init runtime)
  some { definition := definition, redisCommand := redisCommand }

def BaseIfConfig.init (config : Proto.IfConfig) : Option BaseIfConfig := do
  let definition ← KEMap.init trimString runtime config.definition
  let condition ← KEVec.init runtime config.cond
  let output ← KEMap.init trimString runtime config.output
  some { definition := definition, condition := condition, output := output }

def ResponseConfig.init (config : Proto.ResponseConfig) : Option ResponseConfig := do
  let definition ← KEMap.init trimString runtime config.definition
  let output ← KEMap.init trimString runtime config.output
  let ifBlocks ← config.ifConfigs.mapM (BaseIfConfig.init runtime trimString)
  some { definition := definition, ifBlocks := ifBlocks, output := output }

end Uskit
