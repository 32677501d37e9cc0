import Lox.Text
import Lox.Text.Rune
import Lox.Text.Printable
import Lox.Text.Quoted
import Lox.Number.Shortest
import Lox.Number.Positional
import Lox.Value
import Lox.Token
import Lox.Token.Segment
import Lox.Token.Scan
import Lox.Report
import Lox.Tree
import Lox.Tree.Sexp
import Lox.Tree.Position
import Lox.Tree.Parse
import Lox.Stop
import Lox.Operator
import Lox.Arena
import Lox.Arena.Operation
import Lox.Log
import Lox.Evaluate
import Lox.Execute
import Lox.Session
import Lox.Path
import Lox.Directory
import Lox.Document.Stream
import Lox.Document.Scalar
import Lox.Document.Item
import Lox.Document.Folding
import Lox.Document.Scan
import Lox.Document.Node
import Lox.Preferences
import Lox.Preferences.Load
import Lox.Command.Console
import Lox.Command.Listing
import Lox.Command.Declarations
import Lox.Command.Flags
import Lox.Command.Script
import Lox.Command.Prompt
import Lox.Command
import Lox.Main
import Lox.Proofs.Tree
import Lox.Proofs.Execution
import Lox.Proofs.Reading
import Lox.Proofs.Grammar
import Lox.Proofs.Grammar.Completeness
import Lox.Proofs.Grammar.Account
import Lox.Proofs.Grammar.Soundness
import Lox.Proofs.Semantics.Frames
import Lox.Proofs.Semantics.Environment
import Lox.Proofs.Semantics.BigStep
import Lox.Proofs.Semantics.Evaluation
import Lox.Proofs.Semantics.Refinement
import Lox.Proofs.Text.Utf8
import Lox.Proofs.Token.Pattern
import Lox.Proofs.Token.MaximalMunch
import Lox.Proofs.Lines
import Lox.Proofs.Lines.Reading
import Lox.Proofs.Token.Seam
import Lox.Proofs.Session
import Lox.Proofs.Scopes
import Lox.Proofs.Moments
import Lox.Proofs.Tree.Produced
import Lox.Proofs.Procedure
import Lox.Proofs.Descent
import Lox.Proofs.Descent.Cursor
import Lox.Proofs.Descent.Simulation
import Lox.Proofs.Descent.Statements
import Lox.Proofs.Descent.Totality
import Lox.Proofs.Scanning
import Lox.Proofs.Scanning.Totality
import Lox.Proofs.Safety
import Lox.Proofs.Isolation
import Lox.Proofs.Renaming
import Lox.Proofs.Layout
import Lox.Proofs.WellScoped
import Lox.Proofs.Number.Unsigned
import Lox.Proofs.Number.Shortest
import Lox.Proofs.Text.Delimited
import Lox.Proofs.Number.Positional
import Lox.Proofs.Tree.Built
import Lox.Proofs.Tree.Sexp
import Lox.Proofs.Tree.Unambiguous
import Lox.Proofs.Logging
import Lox.Proofs.Commands
import Lox.Proofs.Grammar.ValidPrefix
import Lox.Proofs.Surface
import Lox.Proofs.Surface.Widening
import Lox.Proofs.Surface.Desugaring
import Lox.Proofs.Footprint
import Lox.Proofs.Arena.Walk
import Lox.Proofs.Arena.Laws
import Lox.Proofs.Grammar.Boundaries
import Lox.Proofs.Token.Respelling
import Lox.Proofs.Tree.Flatten
import Lox.Proofs.Token.Lines
import Lox.Proofs.Grammar.ErrorOrder
import Lox.Proofs.Grammar.Resumption
import Lox.Proofs.Culprits
