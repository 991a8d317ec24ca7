import Haisos.Hsh.Text
import Haisos.Hsh.Arithmetic.Tokens
import Haisos.Hsh.Arithmetic.Evaluator
import Haisos.Hsh.Arithmetic.Expression
import Haisos.Hsh.Arithmetic.Tokenization
import Haisos.Hsh.Arithmetic.Agreement
import Haisos.Hsh.Arithmetic.Correctness
import Haisos.Hsh.Variables
import Haisos.Wildcard
import Haisos.Hsh.Pattern
import Haisos.Hsh.Glob
import Haisos.Hsh.Expansion
import Haisos.Hsh.Expansion.PlainFields
import Haisos.Hsh.Expansion.DoubleQuotes
import Haisos.Hsh.Pattern.Quoting
import Haisos.Hsh.Expansion.Reading
import Haisos.Hsh.Expansion.Walk
import Haisos.Hsh.Expansion.Patterns
import Haisos.Hsh.Ast
import Haisos.Hsh.Redirection
import Haisos.Hsh.Stages
import Haisos.Hsh.Executor
import Haisos.Hsh.Executor.Discipline
import Haisos.Hsh.Executor.Errexit
import Haisos.Hsh.Executor.Contexts
import Haisos.Hsh.Executor.Status
import Haisos.Hsh.Executor.LastStatus
import Haisos.PipeService.Pipe
import Haisos.Transition
import Haisos.PipeService.Fifo
import Haisos.Filesystem.InMemory
import Haisos.Filesystem.Listing
import Haisos.Filesystem.OpenFiles
import Haisos.Filesystem.WayDown
import Haisos.Filesystem.Agreement
import Haisos.DescriptorTable
import Haisos.Hsh.Expansion.Frame
import Haisos.Hsh.Arithmetic.Store
import Haisos.Hsh.Expansion.Fields
import Haisos.Hsh.Redirection.Frame
import Haisos.Hsh.Redirection.PutBack
import Haisos.Hsh.Redirection.Undo
import Haisos.Hsh.Shell.Assignments
import Haisos.Hsh.Shell.Discipline
import Haisos.Hsh.Shell.Scopes
import Haisos.Hsh.Shell.Starting
import Haisos.Agent.CommandQueue
import Haisos.HaisosOS.ProcessCap
import Haisos.HaisosOS.ProcessEnd
import Haisos.Hsh.Shell.Control
import Haisos.Hsh.Shell.ControlFlow
import Haisos.LLMService
import Haisos.PipeService.Callbacks
import Haisos.PipeService.WakeUps
import Haisos.Agent.Conversation
import Haisos.Agent.WellFormed
import Haisos.LLMCommunicator.WholeReply
import Haisos.Hsh.Shell.Run
import Haisos.Hsh.Shell.Boundaries
import Haisos.Delimited
import Haisos.HaisosFile.Content
import Haisos.Hsh.Expansion.FieldSplitting
import Haisos.Hsh.Glob.Components
import Haisos.Hsh.Glob.Expansion
import Haisos.Hsh.Pattern.Removal
import Haisos.Hsh.Shell.ReadLine
import Haisos.Hsh.Shell.Test
import Haisos.Hsh.Lexer
import Haisos.Filesystem.FileTree
import Haisos.HaisosFile.Copy
import Haisos.HaisosFile.CopyRoot
import Haisos.HaisosFile.Setup
import Haisos.Hsh.Lexer.Characters
import Haisos.Hsh.Lexer.ReadBack
import Haisos.HaisosOS.DescriptorCalls
import Haisos.Hsh.UnboundedPipe
import Haisos.Filesystem.Stack
import Haisos.Filesystem.SubFileSystem
import Haisos.Filesystem.TreeShape
import Haisos.Filesystem.PosixFile
import Haisos.Filesystem.ReadOnly
import Haisos.BuiltinCommands.Args
import Haisos.BuiltinCommands.Columns
import Haisos.BuiltinCommands.Wc
import Haisos.BuiltinCommands.QuotedWord
import Haisos.Filesystem.PhysicalPath
import Haisos.BuiltinCommands.Cat
import Haisos.Filesystem.ReadWhole
import Haisos.HaisosOS.ProgramText
import Haisos.Hsh.Shell.Invocation
import Haisos.AgentTrafficLog.Diff
import Haisos.AgentTrafficLog.Log
import Haisos.Lua.Api
import Haisos.LuaProcess.Arguments
import Haisos.LuaProcess.Crossing
import Haisos.Hsh.Lexer.Bodies
import Haisos.Hsh.Lexer.Readers
import Haisos.Hsh.Lexer.Tiling
import Haisos.Hsh.Lexer.DoubleQuotes
import Haisos.Hsh.Pipeline.Progress
