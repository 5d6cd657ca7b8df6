import Ydsh.Library.PartitionPoint
import Ydsh.Library.Compaction
import Ydsh.Library.Run
import Ydsh.Library.SortedVector
import Ydsh.Library.RoundRobin
import Ydsh.Library.FirstGap
import Ydsh.Library.Nesting
import Ydsh.Job.Lookup
import Ydsh.Job.Waiting
import Ydsh.Signal.Pending
import Ydsh.Code.BreakTarget
import Ydsh.Code.LeftTries
import Ydsh.Code.Emit
import Ydsh.Bytecode.Operands
import Ydsh.Bytecode.LineTable
import Ydsh.Object.MapMeaning
import Ydsh.Object.RegexReplaced
import Ydsh.Object.ValueMap
import Ydsh.Scope.LocalSlots
import Ydsh.Scope.GlobalIndex
import Ydsh.Scope.ImportForms
import Ydsh.Type.TypesInterned
import Ydsh.Redir.Restoration
import Ydsh.Folding.Exact
import Ydsh.Glob.Exactness
import Ydsh.Glob.WildCard
import Ydsh.Archive.RoundTrip
import Ydsh.Builtin.IntMethods
import Ydsh.Builtin.ArrayRefines
import Ydsh.Builtin.SortWith
import Ydsh.Case.Meets
import Ydsh.Render.Undisturbed
import Ydsh.Json.RoundTrip
import Ydsh.Lexer.EscapedSingle
import Ydsh.Serialize.RoundTrip
import Ydsh.Rpc.Framing
import Ydsh.Rpc.Conversing
import Ydsh.Parser.RoundTrip
import Ydsh.Uri.RoundTrip
import Ydsh.VM.FinallyBlocks
import Ydsh.VM.OperandStack
import Ydsh.VM.BalancedCalls
import Ydsh.Builtin.StringChars
import Ydsh.Builtin.StringSplit
import Ydsh.VM.CommandSubstitution
import Ydsh.Core.ExpandDots
import Ydsh.Core.FilePathCache
import Ydsh.Misc.NumText
import Ydsh.Misc.GetOpt
import Ydsh.Misc.FlexBuffer
import Ydsh.Builtin.Umask
import Ydsh.Builtin.Ulimit
import Ydsh.Signal.SignalVector
import Ydsh.VM.StringObjects
import Ydsh.Code.StringConcat
import Ydsh.Library.PathWalk
import Ydsh.Core.WorkingDir
import Ydsh.Builtin.Read
import Ydsh.Library.LongestMatch
import Ydsh.Lexer.Rules
import Ydsh.Lexer.NextToken
import Ydsh.Lexer.Tracking
import Ydsh.Lexer.Positions
import Ydsh.Complete.Escape
