import DeskCalc.AngleMode
import DeskCalc.Arithmetic
import DeskCalc.Batch
import DeskCalc.Binary64.Arithmetic
import DeskCalc.Binary64.Basic
import DeskCalc.Binary64.Elementary
import DeskCalc.Binary64.FixedPoint
import DeskCalc.Binary64.Rounding
import DeskCalc.Calendar
import DeskCalc.CommandLine.Options
import DeskCalc.CommandLine.Report
import DeskCalc.Decimal
import DeskCalc.Decimal.Layout
import DeskCalc.Decimal.Shortest
import DeskCalc.Display
import DeskCalc.Evaluation
import DeskCalc.ExpressionFile
import DeskCalc.Fault
import DeskCalc.Function
import DeskCalc.History
import DeskCalc.History.Step
import DeskCalc.Main
import DeskCalc.Numeral
import DeskCalc.Operator
import DeskCalc.Operator.Application
import DeskCalc.Payload
import DeskCalc.Postfix.Conversion
import DeskCalc.Postfix.Machine
import DeskCalc.Session
import DeskCalc.Settings
import DeskCalc.Table
import DeskCalc.Text.Blank
import DeskCalc.Text.Digit
import DeskCalc.Text.Integer
import DeskCalc.Text.Line
import DeskCalc.Text.Printable
import DeskCalc.Text.Quoted
import DeskCalc.Timestamp
import DeskCalc.Token
import DeskCalc.Token.Scan
import DeskCalc.Wording
import DeskCalc.Proofs.Expression.Tree
import DeskCalc.Proofs.Expression.Value
import DeskCalc.Proofs.Expression.Grammar
import DeskCalc.Proofs.Postfix.Release
import DeskCalc.Proofs.Expression.Conversion
import DeskCalc.Proofs.Expression.Signs
import DeskCalc.Proofs.Postfix.Brackets
import DeskCalc.Proofs.Outcome
import DeskCalc.Proofs.Postfix.Effect
import DeskCalc.Proofs.Postfix.Conservation
import DeskCalc.Proofs.Postfix.Nesting
import DeskCalc.Proofs.Display.Characters
import DeskCalc.Proofs.Postfix.Finiteness
import DeskCalc.Proofs.Expression.Closed
import DeskCalc.Proofs.Expression.Angles
import DeskCalc.Proofs.Expression.LetterCase
import DeskCalc.Proofs.History.Records
import DeskCalc.Proofs.AngleMode
import DeskCalc.Proofs.History.Step
import DeskCalc.Proofs.History.Log
import DeskCalc.Proofs.Session.Line
import DeskCalc.Proofs.Session.Dialogue
import DeskCalc.Proofs.Postfix.Depth
import DeskCalc.Proofs.Expression.Adjacency
import DeskCalc.Proofs.Binary64.Rounding
import DeskCalc.Proofs.Decimal.Shortest
import DeskCalc.Proofs.Decimal.Reading
import DeskCalc.Proofs.Display.Reentry
import DeskCalc.Proofs.Text.Span
import DeskCalc.Proofs.Text.Blank
import DeskCalc.Proofs.Text.Listing
import DeskCalc.Proofs.ExpressionFile
import DeskCalc.Proofs.Token.Segmentation
import DeskCalc.Proofs.History.Persistence
import DeskCalc.Proofs.CommandLine.FrontEnds
import DeskCalc.Proofs.Binary64.Nearest
import DeskCalc.Proofs.Binary64.Comparison
import DeskCalc.Proofs.Decimal.Fewest
import DeskCalc.Proofs.Decimal.Literal
import DeskCalc.Proofs.Display.Reversible
import DeskCalc.Proofs.Token.Junction
import DeskCalc.Proofs.Text.Integer
import DeskCalc.Proofs.Timestamp
import DeskCalc.Proofs.History.Restoring
import DeskCalc.Proofs.Postfix.Tally
import DeskCalc.Proofs.Postfix.Redundancy
import DeskCalc.Proofs.Postfix.Renaming
import DeskCalc.Proofs.Binary64.Integral
import DeskCalc.Proofs.Operator.Factorial
import DeskCalc.Proofs.Function.Round
import DeskCalc.Proofs.Postfix.Framing
import DeskCalc.Proofs.Postfix.Waiting
import DeskCalc.Proofs.Binary64.Range
import DeskCalc.Proofs.Numeral
