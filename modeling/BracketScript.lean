import BracketScript.Command.Arguments
import BracketScript.Command.Directive
import BracketScript.Command.Filter
import BracketScript.Command.Run
import BracketScript.Config.Basic
import BracketScript.Config.Document
import BracketScript.Config.Reading
import BracketScript.Config.Resolve
import BracketScript.Config.Warning
import BracketScript.Console
import BracketScript.Decimal.Layout
import BracketScript.Decimal.Shortest
import BracketScript.Diagnostic
import BracketScript.Eval
import BracketScript.Failure
import BracketScript.Files
import BracketScript.Json
import BracketScript.Log
import BracketScript.Machine
import BracketScript.Main
import BracketScript.Outline
import BracketScript.Proofs.Grammar.Composition
import BracketScript.Proofs.Grammar.Derivation
import BracketScript.Proofs.Grammar.Soundness
import BracketScript.Proofs.Reading.Parallel
import BracketScript.Proofs.Reading.Productions
import BracketScript.Proofs.Tree.Traversal
import BracketScript.Session
import BracketScript.Store
import BracketScript.Text.Alphanumeric
import BracketScript.Text.Blank
import BracketScript.Text.Digits
import BracketScript.Text.EditDistance
import BracketScript.Text.Quoted
import BracketScript.Text.Search
import BracketScript.Text.Visible
import BracketScript.Token.Basic
import BracketScript.Token.Scan
import BracketScript.Token.Segment
import BracketScript.Toml.Basic
import BracketScript.Toml.Document
import BracketScript.Toml.Quoted
import BracketScript.Toml.Scalar
import BracketScript.Tree.Basic
import BracketScript.Tree.Cursor
import BracketScript.Tree.Dump
import BracketScript.Tree.Grammar
import BracketScript.Value.Basic
import BracketScript.Value.Builtin
import BracketScript.Value.Native
import BracketScript.Value.Operator
import BracketScript.Proofs.Grammar.Printer
import BracketScript.Proofs.Grammar.RoundTrip
import BracketScript.Proofs.Reading.Repeating
import BracketScript.Proofs.Grammar.Repeating
import BracketScript.Proofs.Grammar.Extents
import BracketScript.Proofs.Grammar.ForLoops
import BracketScript.Proofs.Token.Newline
import BracketScript.Proofs.Eval.Steps
import BracketScript.Proofs.Grammar.Lines
import BracketScript.Proofs.Value.Tokens
import BracketScript.Proofs.Eval.Agreement
import BracketScript.Proofs.Eval.Lines
import BracketScript.Proofs.Eval.Sequence
import BracketScript.Proofs.Session.Units
import BracketScript.Proofs.Session.Interactive
import BracketScript.Proofs.Eval.Regime
import BracketScript.Proofs.Eval.Preservation
import BracketScript.Proofs.Eval.Frame
import BracketScript.Proofs.Eval.Holdings
import BracketScript.Proofs.Eval.Fuel
import BracketScript.Proofs.Token.Spelling
import BracketScript.Proofs.Grammar.Tokens
import BracketScript.Proofs.Decimal.Rounding
import BracketScript.Proofs.Decimal.Reading
import BracketScript.Proofs.Decimal.Nearest
import BracketScript.Proofs.Decimal.Packing
import BracketScript.Proofs.Decimal.Conversion
import BracketScript.Proofs.Json
import BracketScript.Proofs.Tree.Dump
import BracketScript.Proofs.Session.Sources
import BracketScript.Proofs.Session.Confinement
import BracketScript.Proofs.Session.Coherence
import BracketScript.Proofs.Session.Termination
import BracketScript.Proofs.Eval.Restoration
import BracketScript.Proofs.Eval.Inner
import BracketScript.Proofs.Eval.Points
import BracketScript.Proofs.Eval.Interruption
import BracketScript.Proofs.Eval.Comparison
import BracketScript.Proofs.Session.Comparison
import BracketScript.Proofs.Session.Idle
import BracketScript.Proofs.Session.LineNumbers
import BracketScript.Proofs.Session.ForLoops
import BracketScript.Proofs.Session.DepthLimit
import BracketScript.Proofs.Session.Truncation
import BracketScript.Proofs.Session.Dump
import BracketScript.Proofs.Session.Interruption
import BracketScript.Proofs.Session.Diagnostics
import BracketScript.Proofs.Token.Numeral
import BracketScript.Proofs.Token.Lexeme
import BracketScript.Proofs.Token.Integer
import BracketScript.Proofs.Token.Layout
import BracketScript.Proofs.Token.Respelling
import BracketScript.Proofs.Indexed.Agreement
import BracketScript.Proofs.Indexed.Productions
import BracketScript.Proofs.Indexed.Totality
import BracketScript.Proofs.Store.Lookup
import BracketScript.Proofs.Store.Assignment
import BracketScript.Proofs.Store.Ancestry
import BracketScript.Proofs.Eval.Course
import BracketScript.Proofs.Eval.Instances
import BracketScript.Proofs.Eval.Opening
import BracketScript.Proofs.Session.Construction
import BracketScript.Proofs.Session.Moments
import BracketScript.Proofs.Eval.Lineage
import BracketScript.Proofs.Session.Receiver
import BracketScript.Proofs.Session.Ancestry
import BracketScript.Proofs.Text.EditDistance
import BracketScript.Proofs.Config.Suggestion
import BracketScript.Proofs.Text.Trimming
import BracketScript.Proofs.Config.Layers
import BracketScript.Proofs.Config.Warning
import BracketScript.Proofs.Tree.Chains
import BracketScript.Proofs.Grammar.Nesting
import BracketScript.Proofs.Grammar.Limit
import BracketScript.Proofs.Eval.Nesting
import BracketScript.Proofs.Session.Nesting
import BracketScript.Proofs.Store.Forgetting
import BracketScript.Proofs.Value.Mentions
import BracketScript.Proofs.Eval.Region
import BracketScript.Proofs.Eval.Unmentioned
import BracketScript.Proofs.Session.Unmentioned
