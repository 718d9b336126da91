import Uskit.Data.Members
import Uskit.Data.Machine
import Uskit.Data.History
import Uskit.Data.Selection
import Uskit.Data.Loop
import Uskit.Data.Endless
import Uskit.Data.Turns
import Uskit.Data.WeakOrder
import Uskit.Data.Numbering
import Uskit.Data.Checked
import Uskit.Data.RankedSort
import Uskit.Data.DecisionList
import Uskit.Data.FirstOccurrences
import Uskit.Data.Occurrences
import Uskit.Data.Overlay
import Uskit.Data.Trim
import Uskit.Data.Window
import Uskit.Data.ComparatorSort
import Uskit.Grammar.Regex
import Uskit.Grammar.Scanner
import Uskit.Grammar.Derivation
import Uskit.Grammar.Prefix
import Uskit.Json.Double
import Uskit.Json.DoubleRounding
import Uskit.Json.Nearest
import Uskit.Json.NumberOrder
import Uskit.Json.DiyFp
import Uskit.Json.CachedPower
import Uskit.Json.Boundaries
import Uskit.Json.Value
import Uskit.Json.Encode
import Uskit.Json.EncodeText
import Uskit.Json.Reader
import Uskit.Json.Numeral
import Uskit.Json.Spelling
import Uskit.Json.RoundTrip
import Uskit.Json.Decimal
import Uskit.Json.Dtoa
import Uskit.Json.DigitGen
import Uskit.Json.Grisu
import Uskit.Json.Prettify
import Uskit.Json.DoubleText
import Uskit.Json.Pointer
import Uskit.Json.Merge
import Uskit.Json.Shape
import Uskit.Json.Reordered
import Uskit.Json.MergeContract
import Uskit.Json.Equality
import Uskit.Json.MergeAssoc
import Uskit.Json.PointerSet
import Uskit.Json.SetPath
import Uskit.Json.PathText
import Uskit.Json.PlainPath
import Uskit.Json.SelfMerge
import Uskit.Utils
import Uskit.Function.ReplaceAll
import Uskit.Expression.Outcome
import Uskit.Expression.Context
import Uskit.Expression.Expression
import Uskit.Expression.IntRange
import Uskit.Expression.IntOrder
import Uskit.Expression.Token
import Uskit.Expression.Lexer
import Uskit.Expression.Relex
import Uskit.Expression.Grammar
import Uskit.Expression.Parser
import Uskit.Expression.Reduction
import Uskit.Expression.ParserSound
import Uskit.Expression.ParserRuns
import Uskit.Expression.ParserComplete
import Uskit.Expression.Tame
import Uskit.Expression.Driver
import Uskit.Expression.Literals
import Uskit.Expression.Print
import Uskit.Expression.Writable
import Uskit.Expression.FluentChain
import Uskit.Expression.SetByPath
import Uskit.Expression.Store
import Uskit.Expression.ArraySets
import Uskit.Expression.ArrayLaws
import Uskit.Expression.Reads
import Uskit.DynamicConfig.KE
import Uskit.DynamicConfig.LogicalAnd
import Uskit.DynamicConfig.Request
import Uskit.DynamicConfig.If
import Uskit.DynamicConfig.Rank
import Uskit.DynamicConfig.Flow
import Uskit.DynamicConfig.FlowOutput
import Uskit.DynamicConfig.Override
import Uskit.DynamicConfig.Compare
import Uskit.Backend.RequestPolicy
import Uskit.Backend.RedisCommands
import Uskit.Backend.ResponsePolicy
import Uskit.Backend.RedisReplies
import Uskit.Backend.Engine
import Uskit.Backend.Isolation
import Uskit.Backend.Collect
import Uskit.Call.CallIds
import Uskit.Call.Recall
import Uskit.Call.QuitSafety
import Uskit.Call.JoinSafety
import Uskit.Call.Reregistration
import Uskit.Closure.Barrier
import Uskit.Closure.GlobalCancel
import Uskit.Closure.Cancellation
import Uskit.Closure.CancelCoverage
import Uskit.Closure.CancelRight
import Uskit.Flow.DefaultPolicy
import Uskit.Flow.RecallFound
import Uskit.Flow.AsyncNode
import Uskit.Flow.AsyncRecalled
import Uskit.Flow.ServiceContexts
import Uskit.Flow.MergeBack
import Uskit.Flow.AsyncMerged
import Uskit.Flow.Init
import Uskit.Flow.Interventions
import Uskit.Flow.ResultKept
import Uskit.Flow.ServiceIndex
import Uskit.Flow.NextFlows
import Uskit.Flow.JumpTargets
import Uskit.Manager.ParseRequest
import Uskit.Manager.Dispatch
import Uskit.Manager.SendResponse
import Uskit.Manager.FlowAnswers
import Uskit.Manager.RequiredParams
import Uskit.Function.Access
import Uskit.Flow.Deliver
import Uskit.Flow.DeliverInit
import Uskit.Flow.DeliverFlows
import Uskit.Flow.Filterout
import Uskit.Function.StdString
import Uskit.DynamicConfig.KEInit
import Uskit.DynamicConfig.ConfigInit
import Uskit.DynamicConfig.KeyPath
import Uskit.DynamicConfig.KeyOrder
import Uskit.DynamicConfig.OutputKeys
import Uskit.DynamicConfig.Definitions
import Uskit.DynamicConfig.Intervene
import Uskit.DynamicConfig.ResponseOutput
import Uskit.DynamicConfig.RankTurns
import Uskit.DynamicConfig.Ranking
import Uskit.DynamicConfig.RankRight
import Uskit.Backend.Load
import Uskit.Backend.Loaded
import Uskit.Function.Builtin
import Uskit.Function.ForEachSet
import Uskit.Function.StrFunction
import Uskit.Function.FunctionManager
import Uskit.Function.ArgumentChecks
import Uskit.Function.Faults
import Uskit.Function.Signatures
import Uskit.Function.TypeSafety
import Uskit.Function.JsonText
import Uskit.Function.SetGet
import Uskit.Function.Slice
import Uskit.Function.Join
import Uskit.Function.SliceByKeys
