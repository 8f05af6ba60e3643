import Script.Text.Decimal
import Script.Text.CodeRange
import Script.Text.Blank
import Script.Text.BreakClass.Ranges
import Script.Text.BreakClass
import Script.Text.Cluster
import Script.Text.Backspace
import Script.Integer
import Script.Token.Basic
import Script.Token.Scan
import Script.Program.Basic
import Script.Program.Equality
import Script.Program.Text
import Script.Program.ParseError
import Script.Program.Precedence
import Script.Program.Reply
import Script.Program.Parse
import Script.Program.Parse.Equations
import Script.Table
import Script.Value.Fault
import Script.Value.Basic
import Script.Value.Text
import Script.Value.Equality
import Script.State
import Script.Eval.Basic
import Script.Eval.Operator
import Script.Eval.Builtin
import Script.Eval.Expr
import Script.Text.Line
import Script.Session
import Script.CommandLine
import Script.Main
import Script.Eval.Depth
import Script.Proofs.Token.Append
import Script.Proofs.Token.Indent
import Script.Proofs.Grammar.Basic
import Script.Proofs.Grammar.First
import Script.Proofs.Grammar.Replies
import Script.Proofs.Grammar.Strength
import Script.Proofs.Grammar.Sound
import Script.Proofs.Grammar.Complete
import Script.Proofs.Grammar
import Script.Proofs.Token.Spells
import Script.Proofs.Canonical.WellFormed
import Script.Proofs.Token.Lexical
import Script.Proofs.Grammar.Local
import Script.Proofs.Canonical.Parsed
import Script.Proofs.Canonical.Writes
import Script.Proofs.Canonical
import Script.Proofs.Content.Basic
import Script.Proofs.Content
import Script.Proofs.Errors.First
import Script.Proofs.Errors.Local
import Script.Proofs.Errors.Sight
import Script.Proofs.Errors.Begun
import Script.Proofs.Errors.Stuck
import Script.Proofs.Token.Text
import Script.Proofs.Errors
import Script.Proofs.Eval.After
import Script.Proofs.Eval.Origin
import Script.Proofs.Eval.Bound
import Script.Proofs.Eval.Frame
import Script.Proofs.Eval.Task
import Script.Proofs.Eval.Closed
import Script.Proofs.Eval.Rename
import Script.Proofs.Eval.Names
import Script.Proofs.Eval.Realm
import Script.Proofs.Eval.Lockstep
import Script.Proofs.Eval.Mirror
import Script.Proofs.Eval.Order
import Script.Proofs.Marker.Free
import Script.Proofs.Marker.Builtin
import Script.Proofs.Marker.Leak
import Script.Proofs.Marker
import Script.Proofs.Discipline.Basic
import Script.Proofs.Discipline.Keeps
import Script.Proofs.Discipline
import Script.Proofs.Repeat
import Script.Proofs.Eval.Sequence
import Script.Proofs.Pieces
import Script.Proofs.AsCall
import Script.Proofs.Coincidence
import Script.Proofs.Token.Exact
import Script.Proofs.Eval.Failure
import Script.Proofs.Failure
import Script.Proofs.Uncaught
import Script.Proofs.Canonical.Functions
import Script.Proofs.Shown
import Script.Proofs.Token.Layout
import Script.Proofs.Errors.Count
import Script.Proofs.Machine.Basic
import Script.Table.Indexed
import Script.Proofs.Machine.Ends
import Script.Proofs.Table.Order
import Script.Proofs.Eval.Rules
import Script.Proofs.Hashes
import Script.Proofs.Eval.Effects
import Script.Proofs.Eval.Extends
import Script.Proofs.Eval.Walk
import Script.Proofs.Map.Text
import Script.Proofs.Map.Round
import Script.Proofs.Map
import Script.Proofs.Scopes.History
import Script.Proofs.Scopes
import Script.Proofs.Eval.Time
import Script.Proofs.Eval.Objects
import Script.Proofs.Eval.Provenance
import Script.Proofs.Sameness.Values
import Script.Proofs.Sameness.Run
import Script.Proofs.Sameness
import Script.Proofs.Arrays
import Script.Proofs.Arithmetic
import Script.Proofs.Strengths
import Script.Proofs.Eval.ClosedTasks
import Script.Proofs.CallFrames
import Script.Proofs.Canonical.Indented
