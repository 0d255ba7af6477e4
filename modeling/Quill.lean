import Quill.Main
import Quill.Proofs.Scope.Linked
import Quill.Proofs.Optimize.Node
import Quill.Proofs.Optimize.Shape
import Quill.Proofs.Optimize.Normal
import Quill.Proofs.Optimize.Context
import Quill.Proofs.Number.Exact
import Quill.Proofs.Number.Equality
import Quill.Proofs.Number.SignedZero
import Quill.Proofs.Optimize.Evaluation
import Quill.Proofs.Optimize.Value
import Quill.Proofs.Session.Fragments
import Quill.Proofs.Session.Bindings
import Quill.Proofs.Scope.Relabeling
import Quill.Proofs.Scope.Renumbering
import Quill.Proofs.Session.Batch
import Quill.Proofs.Grammar.Derivation
import Quill.Proofs.Grammar.Skip
import Quill.Proofs.Grammar.Lexeme
import Quill.Proofs.Grammar.Tokens
import Quill.Proofs.Grammar.Tabs
import Quill.Proofs.Grammar.Soundness
import Quill.Proofs.Grammar.Delimited
import Quill.Proofs.Grammar.Completeness
import Quill.Proofs.Grammar.Layout
import Quill.Proofs.Optimize.Fault
import Quill.Proofs.Optimize.Scoping
import Quill.Proofs.Scope.Rejection
import Quill.Proofs.Grammar.Shape
import Quill.Proofs.Session.Lines
import Quill.Proofs.Session.Safety
import Quill.Proofs.Graph.Renumbering
import Quill.Proofs.Optimize.Replacement
import Quill.Proofs.Session.Isolation
import Quill.Proofs.Number.Decimal
import Quill.Proofs.Number.Display
import Quill.Proofs.Text.Quoted
import Quill.Proofs.Node
import Quill.Proofs.Graph.Line
import Quill.Proofs.Graph.Walk
import Quill.Proofs.Graph.Faithful
import Quill.Proofs.Scope.Acceptance
import Quill.Proofs.Graph.Isomorphism
import Quill.Proofs.Grammar.Course
import Quill.Proofs.Graph.Parsed
import Quill.Proofs.Text.Place
import Quill.Proofs.Report.ParseError
import Quill.Proofs.Report.Diagnostic
import Quill.Proofs.Scope.Renaming
import Quill.Proofs.Grammar.Sequence
import Quill.Proofs.Report.Commitment
import Quill.Proofs.Grammar.Names
import Quill.Proofs.Report.Braces
import Quill.Proofs.Report.Unclosed
import Quill.Proofs.Number.Overflow
import Quill.Proofs.Number.Host
import Quill.Proofs.Optimize.Shrink
import Quill.Proofs.Optimize.Calls
import Quill.Proofs.Optimize.Host
import Quill.Proofs.Optimize.Constant
import Quill.Proofs.Graph.Size
import Quill.Proofs.Optimize.Statements
import Quill.Proofs.Optimize.Identity
import Quill.Proofs.Grammar.Position
import Quill.Proofs.Graph.Visit
import Quill.Proofs.Graph.Numbering
import Quill.Proofs.Graph.Objects
import Quill.Proofs.Report.OpenBlocks
import Quill.Proofs.Number.ReadBack
import Quill.Proofs.Scope.Agreement
import Quill.Proofs.Scope.Relevance
