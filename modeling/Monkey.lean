import Monkey.Platform
import Monkey.Text.Blank
import Monkey.Text.Split
import Monkey.Text.Printable
import Monkey.Text.Quoted
import Monkey.Text.Units
import Monkey.Text.Decimal
import Monkey.Token.Basic
import Monkey.Token.Cursor
import Monkey.Token.Scan
import Monkey.Syntax.Node
import Monkey.Syntax.Render
import Monkey.Syntax.Outline
import Monkey.Parse.Precedence
import Monkey.Parse.Stream
import Monkey.Parse.Grammar
import Monkey.Value.Basic
import Monkey.Table
import Monkey.Value.HashKey
import Monkey.Value.Failure
import Monkey.Value.Inspect
import Monkey.Machine.Scope
import Monkey.Machine.Basic
import Monkey.Eval.Complaint
import Monkey.Eval.Operator
import Monkey.Eval.Builtin
import Monkey.Eval.Node
import Monkey.Session.Settings
import Monkey.Session.Submission
import Monkey.Session.Command
import Monkey.Session.Brackets
import Monkey.Session.EditBuffer
import Monkey.Session.Highlight
import Monkey.Session.Loop
import Monkey.CommandLine.Path
import Monkey.CommandLine.Directory
import Monkey.CommandLine.Run
import Monkey.CommandLine.Listing
import Monkey.Main
import Monkey.Proofs.Text.Decimal
import Monkey.Proofs.Text.Units
import Monkey.Proofs.Token.EndOfText
import Monkey.Proofs.Token.Places
import Monkey.Proofs.Token.Respelling
import Monkey.Proofs.Token.Scanning
import Monkey.Proofs.Token.Partition
import Monkey.Proofs.Token.Writing
import Monkey.Proofs.Token.Positions
import Monkey.Proofs.Token.Actions
import Monkey.Proofs.Token.Spacing
import Monkey.Proofs.Syntax.MapTokens
import Monkey.Proofs.Syntax.MapNames
import Monkey.Proofs.Syntax.Text
import Monkey.Proofs.Syntax.Known
import Monkey.Proofs.Syntax.Essence
import Monkey.Proofs.Syntax.Legible
import Monkey.Proofs.Syntax.Renaming
import Monkey.Proofs.Parse.Spelling
import Monkey.Proofs.Parse.Composition
import Monkey.Proofs.Parse.Steps
import Monkey.Proofs.Parse.Hereditary
import Monkey.Proofs.Parse.Soundness
import Monkey.Proofs.Parse.Completeness
import Monkey.Proofs.Parse.NestingLimit
import Monkey.Proofs.Parse.Acceptance
import Monkey.Proofs.Parse.Relocation
import Monkey.Proofs.Parse.Locality
import Monkey.Proofs.Parse.Begun
import Monkey.Proofs.Parse.ErrorPlace
import Monkey.Proofs.Parse.Follows
import Monkey.Proofs.Parse.Joining
import Monkey.Proofs.Parse.Rendering
import Monkey.Proofs.Parse.DeepNesting
import Monkey.Proofs.Parse.Levels
import Monkey.Proofs.Parse.MovedTokens
import Monkey.Proofs.Parse.Termination
import Monkey.Proofs.Parse.Window
import Monkey.Proofs.Value.Within
import Monkey.Proofs.Value.Written
import Monkey.Proofs.Value.Data
import Monkey.Proofs.Value.Translation
import Monkey.Proofs.Machine.Keeps
import Monkey.Proofs.Machine.Reaches
import Monkey.Proofs.Machine.Translation
import Monkey.Proofs.Machine.History
import Monkey.Proofs.Machine.Arguments
import Monkey.Proofs.Eval.Simulation
import Monkey.Proofs.Eval.Form
import Monkey.Proofs.Eval.Likeness
import Monkey.Proofs.Eval.Frame
import Monkey.Proofs.Eval.Log
import Monkey.Proofs.Eval.Checked
import Monkey.Proofs.Eval.MoreLevels
import Monkey.Proofs.Eval.Gauged
import Monkey.Proofs.Eval.Essence
import Monkey.Proofs.Eval.ErrorsEnd
import Monkey.Proofs.Eval.HashLookup
import Monkey.Proofs.Eval.HashEntries
import Monkey.Proofs.Eval.Data
import Monkey.Proofs.Eval.Keeps
import Monkey.Proofs.Eval.Watched
import Monkey.Proofs.Eval.Moments
import Monkey.Proofs.Eval.StoredErrors
import Monkey.Proofs.Eval.Canonical
import Monkey.Proofs.Eval.ReturnMarks
import Monkey.Proofs.Eval.Returns
import Monkey.Proofs.Eval.Arithmetic
import Monkey.Proofs.Eval.Safety
import Monkey.Proofs.Eval.Moving
import Monkey.Proofs.Eval.Scoping
import Monkey.Proofs.Eval.Printed
import Monkey.Proofs.Eval.Renamed
import Monkey.Proofs.Session.Answers
import Monkey.Proofs.Session.OneProgram
import Monkey.Proofs.Session.ReadBack
import Monkey.Proofs.Session.Arithmetic
import Monkey.Proofs.Session.Layout
import Monkey.Proofs.Session.Brackets
import Monkey.Proofs.Session.Fusing
import Monkey.Proofs.Session.Normalize
import Monkey.Proofs.Session.OpenBrackets
import Monkey.Proofs.Session.Highlighting
import Monkey.Proofs.Session.Invariants
import Monkey.Proofs.Session.Outlines
import Monkey.Proofs.Session.Reset
import Monkey.Proofs.CommandLine.Literal
