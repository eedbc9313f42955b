import Lox.Cursor
import Lox.Main
import Lox.Proofs.AcceptedPrograms
import Lox.Proofs.ConsistentRuns
import Lox.Proofs.Scopes
import Lox.Proofs.Semantics
import Lox.Proofs.EvaluationRefinement
import Lox.Proofs.ExecutionRefinement
import Lox.Proofs.ScannedLines
import Lox.Proofs.EnoughFuel
import Lox.Proofs.RenumberedReading
import Lox.Proofs.RaisedLines
import Lox.Proofs.JoinedSources
import Lox.Proofs.ReachableSessions
import Lox.Proofs.BalancedRuns
import Lox.Proofs.Dialogues
import Lox.Proofs.LexicalRules
import Lox.Proofs.LongestPieces
import Lox.Proofs.ScannedPieces
import Lox.Proofs.ClauseReading
import Lox.Proofs.FaultyClauses
import Lox.Proofs.LoneExpressions
import Lox.Proofs.BlamedTokens
import Lox.Proofs.ErrorPlaces
import Lox.Proofs.DeclarationPlaces
import Lox.Proofs.OrderedDiagnostics
import Lox.Proofs.NestedDeclarations
import Lox.Proofs.AppendedOperands
import Lox.Proofs.MissingSemicolons
import Lox.Proofs.UnclosedStatements
import Lox.Proofs.SemicolonRecovery
import Lox.Proofs.LooseBreaks
import Lox.Proofs.ReadingProgress
import Lox.Proofs.RespacedLexemes
import Lox.Proofs.StackedScopes
import Lox.Proofs.MatchedRuns
import Lox.Proofs.UnmentionedNames
import Lox.Proofs.RenamedLocals
import Lox.Proofs.ListedSessions
import Lox.Proofs.ExactFloats
import Lox.Proofs.PrintedNumbers
import Lox.Proofs.Phrases
import Lox.Proofs.PrintedTrees
import Lox.Proofs.KnownTrees
import Lox.Proofs.StatementBoundaries
import Lox.Proofs.PackedKinds
