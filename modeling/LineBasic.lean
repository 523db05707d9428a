import LineBasic.Builtin
import LineBasic.Console
import LineBasic.Control
import LineBasic.Decimal.Layout
import LineBasic.Decimal.Reader
import LineBasic.Decimal.Shortest
import LineBasic.Error
import LineBasic.Expr.Basic
import LineBasic.Expr.Reader
import LineBasic.Integer
import LineBasic.Lexeme
import LineBasic.Line
import LineBasic.Listing
import LineBasic.Machine.Basic
import LineBasic.Machine.Closing
import LineBasic.Machine.Exec
import LineBasic.Machine.Perform
import LineBasic.Machine.Run
import LineBasic.Main
import LineBasic.Memory
import LineBasic.Proofs.Alike.Basic
import LineBasic.Proofs.Alike.Execute
import LineBasic.Proofs.Alike.Script
import LineBasic.Proofs.Error
import LineBasic.Proofs.Fitting.Action
import LineBasic.Proofs.Fitting.Expr
import LineBasic.Proofs.Fitting.Script
import LineBasic.Proofs.Grammar.Longest
import LineBasic.Proofs.Grammar.Loop
import LineBasic.Proofs.Grammar.LoopLines
import LineBasic.Proofs.Grammar.OnePass
import LineBasic.Proofs.Grammar.Phrase
import LineBasic.Proofs.Grammar.Reading
import LineBasic.Proofs.Grammar.Statement
import LineBasic.Proofs.Integer
import LineBasic.Proofs.Joined.Execute
import LineBasic.Proofs.Joined.Script
import LineBasic.Proofs.Lexeme.Cover
import LineBasic.Proofs.Lexeme.Cut
import LineBasic.Proofs.Lexeme.Gaps
import LineBasic.Proofs.Lexeme.Standing
import LineBasic.Proofs.Line.FinalColon
import LineBasic.Proofs.Line.Joined
import LineBasic.Proofs.Line.Leading
import LineBasic.Proofs.Line.Legible
import LineBasic.Proofs.Line.RoundTrip
import LineBasic.Proofs.Listing.Changes
import LineBasic.Proofs.Listing.Headings
import LineBasic.Proofs.Listing.Typing
import LineBasic.Proofs.Listing.View
import LineBasic.Proofs.Lockstep.Expr
import LineBasic.Proofs.Lockstep.Script
import LineBasic.Proofs.Machine.Agenda
import LineBasic.Proofs.Machine.Calls
import LineBasic.Proofs.Machine.ChecksFirst
import LineBasic.Proofs.Machine.Conduct
import LineBasic.Proofs.Machine.Editing
import LineBasic.Proofs.Machine.Effect
import LineBasic.Proofs.Machine.FailingNext
import LineBasic.Proofs.Machine.Fault
import LineBasic.Proofs.Machine.Finishes
import LineBasic.Proofs.Machine.Granted
import LineBasic.Proofs.Machine.Jumps
import LineBasic.Proofs.Machine.Labels
import LineBasic.Proofs.Machine.LineLoop
import LineBasic.Proofs.Machine.Placed
import LineBasic.Proofs.Machine.Quits
import LineBasic.Proofs.Machine.RestOfLine
import LineBasic.Proofs.Machine.Resume
import LineBasic.Proofs.Machine.Rounds
import LineBasic.Proofs.Machine.SaveLoad
import LineBasic.Proofs.Machine.Skipping
import LineBasic.Proofs.Machine.Sound
import LineBasic.Proofs.Machine.Step
import LineBasic.Proofs.Memory
import LineBasic.Proofs.Memory.Failure
import LineBasic.Proofs.Memory.History
import LineBasic.Proofs.Session.Batch
import LineBasic.Proofs.Session.Dialogue
import LineBasic.Proofs.Session.FailingLine
import LineBasic.Proofs.Session.LoopForms
import LineBasic.Proofs.Session.Report
import LineBasic.Proofs.Text.Cursor
import LineBasic.Proofs.Text.Lines
import LineBasic.Proofs.Text.Position
import LineBasic.Proofs.Token.Reading
import LineBasic.Proofs.Token.Spelling
import LineBasic.Proofs.Value.Connective
import LineBasic.Proofs.Value.Division
import LineBasic.Proofs.Value.IntegerText
import LineBasic.Proofs.Value.Slice
import LineBasic.Script.Basic
import LineBasic.Script.Body
import LineBasic.Script.Reader
import LineBasic.Session
import LineBasic.Storage
import LineBasic.Text.Blank
import LineBasic.Text.Cursor
import LineBasic.Text.Lines
import LineBasic.Text.Position
import LineBasic.Token.Basic
import LineBasic.Value.Basic
import LineBasic.Value.Operator
import LineBasic.Proofs.Machine.Fragments
import LineBasic.Proofs.Machine.LoopText
