import Scriptlet.Source.LineMap
import Scriptlet.Token.Lexer
import Scriptlet.Decimal.Reading
import Scriptlet.Program.Extern
import Scriptlet.Program.Dump
import Scriptlet.Parser
import Scriptlet.Folding.Effects
import Scriptlet.Folding
import Scriptlet.Host.Input
import Scriptlet.Prelude
import Scriptlet.Evaluation.Session
import Scriptlet.Evaluation.Observation
import Scriptlet.Linking
import Scriptlet.Comparison
import Scriptlet.Diagnostic.Explain
import Scriptlet.Diagnostic.Report
import Scriptlet.Diagnostic.Terminal
import Scriptlet.Diagnostic.Findings
import Scriptlet.Diagnostic.Survey
import Scriptlet.File.Tree
import Scriptlet.CommandLine
import Scriptlet.Main
import Scriptlet.Proofs.Binding.Resolution
import Scriptlet.Proofs.Binding.Programs
import Scriptlet.Proofs.Folding.Replacements
import Scriptlet.Proofs.Folding.OptimizedRuns
import Scriptlet.Proofs.Evaluation.SafeSessions
import Scriptlet.Proofs.Folding.CompileTimeCalls
import Scriptlet.Proofs.Folding.CalledBodies
import Scriptlet.Proofs.Folding.LocalValues
import Scriptlet.Proofs.Evaluation.PendingTasks
import Scriptlet.Proofs.Folding.TypeErrors
import Scriptlet.Proofs.Evaluation.ReportedLeaks
import Scriptlet.Proofs.Evaluation.AwaitedCalls
import Scriptlet.Proofs.Evaluation.CallBoundaries
import Scriptlet.Proofs.Token.Tiling
import Scriptlet.Proofs.Grammar.RoundTrip
import Scriptlet.Proofs.Linking.Instances
import Scriptlet.Proofs.Evaluation.EffectFreeCalls
import Scriptlet.Proofs.Folding.GivingUp
import Scriptlet.Proofs.Folding.FoldedTrees
import Scriptlet.Proofs.Folding.Idempotence
import Scriptlet.Proofs.Token.LongestMatch
import Scriptlet.Proofs.CommandLine.ExitStatus
import Scriptlet.Proofs.Evaluation.UnassignedReads
import Scriptlet.Proofs.Evaluation.StartOrder
import Scriptlet.Proofs.Parsing.EndOfInput
import Scriptlet.Proofs.Scope.Words
import Scriptlet.Proofs.Operator.WholeNumbers
import Scriptlet.Proofs.Source.LineTexts
import Scriptlet.Proofs.Folding.Quota
import Scriptlet.Proofs.Folding.CountedChanges
import Scriptlet.Proofs.CommandLine.ComparedRuns
import Scriptlet.Proofs.Diagnostic.Marks
