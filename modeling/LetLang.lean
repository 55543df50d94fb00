import LetLang.Main
import LetLang.Proofs.CommandLine.EmittedTree
import LetLang.Proofs.CommandLine.Listing
import LetLang.Proofs.CommandLine.Paths
import LetLang.Proofs.CommandLine.Status
import LetLang.Proofs.Document.Codec
import LetLang.Proofs.Document.Format
import LetLang.Proofs.Document.Loading
import LetLang.Proofs.Document.Unread
import LetLang.Proofs.Execution.Completeness
import LetLang.Proofs.Execution.Congruence
import LetLang.Proofs.Execution.CountingLoop
import LetLang.Proofs.Execution.DepthLimit
import LetLang.Proofs.Execution.Division
import LetLang.Proofs.Execution.Hidden
import LetLang.Proofs.Execution.Invariant
import LetLang.Proofs.Execution.Levels
import LetLang.Proofs.Execution.Names
import LetLang.Proofs.Execution.NumberRange
import LetLang.Proofs.Execution.Parentheses
import LetLang.Proofs.Execution.Part
import LetLang.Proofs.Execution.Relabeling
import LetLang.Proofs.Execution.Safety
import LetLang.Proofs.Execution.Scope
import LetLang.Proofs.Execution.Semantics
import LetLang.Proofs.Execution.Soundness
import LetLang.Proofs.Execution.Values
import LetLang.Proofs.Execution.Variables
import LetLang.Proofs.Execution.Verbosity
import LetLang.Proofs.Execution.WrittenOut
import LetLang.Proofs.FrontEnds.Equivalence
import LetLang.Proofs.FrontEnds.FirstDefect
import LetLang.Proofs.FrontEnds.Layout
import LetLang.Proofs.FrontEnds.Meaning
import LetLang.Proofs.FrontEnds.ReadBack
import LetLang.Proofs.FrontEnds.Rejection
import LetLang.Proofs.Grammar.Completeness
import LetLang.Proofs.Grammar.Derivation
import LetLang.Proofs.Grammar.Extension
import LetLang.Proofs.Grammar.Lookahead
import LetLang.Proofs.Grammar.NearestElse
import LetLang.Proofs.Grammar.Reading
import LetLang.Proofs.Grammar.Relabeling
import LetLang.Proofs.Grammar.SyntaxTree
import LetLang.Proofs.Grammar.Uniqueness
import LetLang.Proofs.Grammar.ViablePrefix
import LetLang.Proofs.Json.RoundTrip
import LetLang.Proofs.Json.Strings
import LetLang.Proofs.Lexing.Division
import LetLang.Proofs.Lexing.Joining
import LetLang.Proofs.Lexing.LineBreaks
import LetLang.Proofs.Lexing.Longest
import LetLang.Proofs.Lexing.Scan
import LetLang.Proofs.Lexing.Tokens
import LetLang.Proofs.Lexing.Writing
import LetLang.Proofs.Number.Bounds
import LetLang.Proofs.Number.Division
import LetLang.Proofs.Number.Text
import LetLang.Proofs.Parsing.Agreement
import LetLang.Proofs.Parsing.Append
import LetLang.Proofs.Parsing.Attempts
import LetLang.Proofs.Parsing.Building
import LetLang.Proofs.Parsing.Expression
import LetLang.Proofs.Parsing.Locality
import LetLang.Proofs.Parsing.MissingSemicolon
import LetLang.Proofs.Parsing.Program
import LetLang.Proofs.Parsing.Progress
import LetLang.Proofs.Parsing.Recording
import LetLang.Proofs.Parsing.Recovery
import LetLang.Proofs.Parsing.Relabeling
import LetLang.Proofs.Parsing.Shape
import LetLang.Proofs.Parsing.Statement
import LetLang.Proofs.Parsing.WellFormed
import LetLang.Proofs.Session.Chunks
import LetLang.Proofs.Session.Isolation
import LetLang.Proofs.Session.Verbosity
import LetLang.Proofs.Text.Quoted
import LetLang.Proofs.Text.Span
