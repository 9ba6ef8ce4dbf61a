import DecimalScript.Text.Ranges
import DecimalScript.Text.Letter
import DecimalScript.Text.Digit
import DecimalScript.Text.Blank
import DecimalScript.Text.Shown
import DecimalScript.Text.Lines
import DecimalScript.Decimal.Numeral
import DecimalScript.Decimal.Basic
import DecimalScript.Decimal.Bounds
import DecimalScript.Decimal.Notation
import DecimalScript.Decimal.Reader
import DecimalScript.Decimal.Order
import DecimalScript.Decimal.Arithmetic
import DecimalScript.Decimal.Rounding
import DecimalScript.Source.Position
import DecimalScript.Source.Diagnostic
import DecimalScript.Source.Failure
import DecimalScript.Value.Kind
import DecimalScript.Token.Basic
import DecimalScript.Token.Escape
import DecimalScript.Token.Lexer
import DecimalScript.Program.Basic
import DecimalScript.Program.Parser
import DecimalScript.Program.SExpr
import DecimalScript.Program.Listing
import DecimalScript.Scope.Names
import DecimalScript.Scope.Tracker
import DecimalScript.Scope.Capture
import DecimalScript.Value.Basic
import DecimalScript.Value.Dictionary
import DecimalScript.Env.Basic
import DecimalScript.Value.Heap
import DecimalScript.Value.Display
import DecimalScript.Builtin.Registry
import DecimalScript.Machine.Basic
import DecimalScript.Machine.Eval
import DecimalScript.Builtin.Run
import DecimalScript.Machine.Step
import DecimalScript.Text.Uppercase
import DecimalScript.Config.Calendar
import DecimalScript.Config.Double
import DecimalScript.Config.Setting
import DecimalScript.Config.Spelling
import DecimalScript.Config.Document
import DecimalScript.Config.Basic
import DecimalScript.Machine.Session
import DecimalScript.Value.Inspect
import DecimalScript.Machine.Log
import DecimalScript.Command.Path
import DecimalScript.Command.Files
import DecimalScript.Command.Arguments
import DecimalScript.Command.Basic
import DecimalScript.Main
import DecimalScript.Proofs.BuiltinEffects
import DecimalScript.Proofs.Stability
import DecimalScript.Proofs.Unwinding
import DecimalScript.Proofs.FreeNames
import DecimalScript.Proofs.Tables
import DecimalScript.Proofs.CaptureEquivalence
import DecimalScript.Proofs.Derivation
import DecimalScript.Proofs.Lookahead
import DecimalScript.Proofs.StuckDerivations
import DecimalScript.Proofs.ExpressionParsing
import DecimalScript.Proofs.ParserCorrect
import DecimalScript.Proofs.RefusedExpressions
import DecimalScript.Proofs.Bare
import DecimalScript.Proofs.ListingLayout
import DecimalScript.Proofs.ListingDerivation
import DecimalScript.Proofs.RoundTrip
import DecimalScript.Proofs.Declarations
import DecimalScript.Proofs.Breakpoints
import DecimalScript.Proofs.Transitions
import DecimalScript.Proofs.EvaluationCourse
import DecimalScript.Proofs.SessionCourse
import DecimalScript.Proofs.TableUpdates
import DecimalScript.Proofs.SoundSituations
import DecimalScript.Proofs.CallIsolation
import DecimalScript.Proofs.GlobalNames
import DecimalScript.Proofs.Resolution
import DecimalScript.Proofs.Relocation
import DecimalScript.Proofs.ShallowFaults
import DecimalScript.Proofs.Pairing
import DecimalScript.Proofs.CallDepth
import DecimalScript.Proofs.PendingReturns
import DecimalScript.Proofs.Placement
import DecimalScript.Proofs.Numerals
import DecimalScript.Proofs.DecimalOrder
import DecimalScript.Proofs.RaisedLimits
import DecimalScript.Proofs.TokenPlaces
import DecimalScript.Proofs.TokenLayout
import DecimalScript.Proofs.Pieces
import DecimalScript.Proofs.ValueIdentity
import DecimalScript.Proofs.DictionaryMap
import DecimalScript.Proofs.CorrespondingLists
import DecimalScript.Proofs.HeapGrowth
import DecimalScript.Proofs.DictionaryHistory
import DecimalScript.Proofs.PlainNotation
import DecimalScript.Proofs.Data
import DecimalScript.Proofs.DataLiterals
import DecimalScript.Proofs.LiteralEvaluation
import DecimalScript.Proofs.DisplayedData
import DecimalScript.Proofs.BackEdges
import DecimalScript.Proofs.Visibility
import DecimalScript.Proofs.ExactCaptures
import DecimalScript.Proofs.Division
import DecimalScript.Proofs.ExactArithmetic
import DecimalScript.Proofs.Powers
import DecimalScript.Proofs.ParsedPlaces
import DecimalScript.Proofs.SpanTrees
import DecimalScript.Proofs.NestedSpans
import DecimalScript.Proofs.FirstImpossibleToken
import DecimalScript.Proofs.QuotedLines
import DecimalScript.Proofs.DiagnosticPlaces
import DecimalScript.Proofs.FaultLines
import DecimalScript.Proofs.NumberSpellings
import DecimalScript.Proofs.NumberLiterals
import DecimalScript.Proofs.ValueOrder
import DecimalScript.Proofs.NumberTexts
import DecimalScript.Proofs.IntegerRounding
import DecimalScript.Proofs.StringSpellings
import DecimalScript.Proofs.CaretRows
import DecimalScript.Proofs.StringLiterals
import DecimalScript.Proofs.ConfigDocuments
import DecimalScript.Proofs.BuiltinCalls
