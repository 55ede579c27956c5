import Scriptlet.CommandLine
import Scriptlet.Fault
import Scriptlet.Host.Library
import Scriptlet.Host.ListMethod
import Scriptlet.Host.Registry
import Scriptlet.Host.Standard
import Scriptlet.Host.World
import Scriptlet.Machine.Basic
import Scriptlet.Machine.Evaluation
import Scriptlet.Machine.Stack
import Scriptlet.Main
import Scriptlet.Number.Binary
import Scriptlet.Number.Decimal
import Scriptlet.Number.Numeral
import Scriptlet.Number.Whole
import Scriptlet.Proofs.ActingAlike
import Scriptlet.Proofs.AcyclicRuns
import Scriptlet.Proofs.Allowance
import Scriptlet.Proofs.BareArguments
import Scriptlet.Proofs.Bystanders
import Scriptlet.Proofs.ComparedBothWays
import Scriptlet.Proofs.CompiledRuns
import Scriptlet.Proofs.Concatenation
import Scriptlet.Proofs.Congruence
import Scriptlet.Proofs.DeadStatements
import Scriptlet.Proofs.Declarations
import Scriptlet.Proofs.DepthLimit
import Scriptlet.Proofs.DirectEvaluation
import Scriptlet.Proofs.Doubles
import Scriptlet.Proofs.Ensures
import Scriptlet.Proofs.ExactValues
import Scriptlet.Proofs.FailedRuns
import Scriptlet.Proofs.FlatStore
import Scriptlet.Proofs.GroundedActions
import Scriptlet.Proofs.Groundedness
import Scriptlet.Proofs.HostExtension
import Scriptlet.Proofs.IndependentCopies
import Scriptlet.Proofs.IntegerConversions
import Scriptlet.Proofs.IntegerRanges
import Scriptlet.Proofs.Isolation
import Scriptlet.Proofs.JoinedTexts
import Scriptlet.Proofs.LawfulTokens
import Scriptlet.Proofs.Layout
import Scriptlet.Proofs.ListTexts
import Scriptlet.Proofs.LocalFaults
import Scriptlet.Proofs.Lookahead
import Scriptlet.Proofs.MethodCalls
import Scriptlet.Proofs.Moments
import Scriptlet.Proofs.NodeLines
import Scriptlet.Proofs.Numerals
import Scriptlet.Proofs.NumericTokens
import Scriptlet.Proofs.OperatorResults
import Scriptlet.Proofs.OutlineLines
import Scriptlet.Proofs.OutlinePlaces
import Scriptlet.Proofs.Partition
import Scriptlet.Proofs.Precedence
import Scriptlet.Proofs.PrintLimits
import Scriptlet.Proofs.PrintedPrograms
import Scriptlet.Proofs.Reachability
import Scriptlet.Proofs.ReadingAlike
import Scriptlet.Proofs.ReadingProgress
import Scriptlet.Proofs.ReadingText
import Scriptlet.Proofs.RecordedNames
import Scriptlet.Proofs.ReferenceCounts
import Scriptlet.Proofs.RefusedPrints
import Scriptlet.Proofs.Removal
import Scriptlet.Proofs.Renaming
import Scriptlet.Proofs.Renumbering
import Scriptlet.Proofs.RoundTrip
import Scriptlet.Proofs.RunningAlike
import Scriptlet.Proofs.Scanning
import Scriptlet.Proofs.ScopeFrames
import Scriptlet.Proofs.Seclusion
import Scriptlet.Proofs.Shape
import Scriptlet.Proofs.SideBySide
import Scriptlet.Proofs.Simulation
import Scriptlet.Proofs.SourceTokens
import Scriptlet.Proofs.SpelledDoubles
import Scriptlet.Proofs.SpentTokens
import Scriptlet.Proofs.Spelling
import Scriptlet.Proofs.StackDiscipline
import Scriptlet.Proofs.StoreAccounts
import Scriptlet.Proofs.StructuralEquality
import Scriptlet.Proofs.Writing
import Scriptlet.Proofs.WrittenExpressions
import Scriptlet.Proofs.WrittenTokens
import Scriptlet.Reading.Basic
import Scriptlet.Reading.Expression
import Scriptlet.Reading.Statement
import Scriptlet.Script
import Scriptlet.Store
import Scriptlet.Text.Character
import Scriptlet.Text.Extender
import Scriptlet.Text.Letter
import Scriptlet.Text.Piece
import Scriptlet.Text.Quoted
import Scriptlet.Text.Unprintable
import Scriptlet.Token.Basic
import Scriptlet.Token.Fault
import Scriptlet.Token.Lexer
import Scriptlet.Tree.Basic
import Scriptlet.Tree.Operator
import Scriptlet.Tree.Outline
import Scriptlet.Value.Access
import Scriptlet.Value.Basic
import Scriptlet.Value.Coercion
import Scriptlet.Value.Heap
import Scriptlet.Value.Operation
