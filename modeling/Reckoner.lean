import Reckoner.Whole
import Reckoner.Fault
import Reckoner.Double.Basic
import Reckoner.Double.Arithmetic
import Reckoner.Double.Bits
import Reckoner.Decimal.Numeral
import Reckoner.Decimal.Scaled
import Reckoner.Decimal.Layout
import Reckoner.Text.Character
import Reckoner.Text.ControlSequence
import Reckoner.Decimal.Lenient
import Reckoner.Decimal.Reading
import Reckoner.Number
import Reckoner.Style
import Reckoner.Outcome
import Reckoner.Integer
import Reckoner.SquareRoot
import Reckoner.Json.Token
import Reckoner.Json.StringLiteral
import Reckoner.Json.Reader
import Reckoner.Json.Writer
import Reckoner.Settings.Basic
import Reckoner.Settings.Complaint
import Reckoner.Settings.Field
import Reckoner.Settings.Schema
import Reckoner.Report.Transcript
import Reckoner.Report.Line
import Reckoner.Demonstration
import Reckoner.CommandLine.Arguments
import Reckoner.CommandLine.Response
import Reckoner.Main
import Reckoner.Proofs.Fault
import Reckoner.Proofs.Double.Nearest
import Reckoner.Proofs.Double.Value
import Reckoner.Proofs.Integer.Division
import Reckoner.Proofs.SquareRoot.Guesses
import Reckoner.Proofs.SquareRoot.Parameters
import Reckoner.Proofs.Text.ControlSequence
import Reckoner.Proofs.Decimal.Numeral
import Reckoner.Proofs.Decimal.Scaled
import Reckoner.Proofs.Decimal.Shortest
import Reckoner.Proofs.Decimal.Layout
import Reckoner.Proofs.Json.Literal
import Reckoner.Proofs.Json.StringLiteral
import Reckoner.Proofs.Json.Grammar
import Reckoner.Proofs.Json.RoundTrip
import Reckoner.Proofs.Settings.Schema
import Reckoner.Proofs.Settings.Kernel
import Reckoner.Proofs.Settings.RoundTrip
import Reckoner.Proofs.Report.Transcript
import Reckoner.Proofs.Report.Line
import Reckoner.Proofs.Demonstration.Completion
import Reckoner.Proofs.Demonstration.Styles
import Reckoner.Proofs.CommandLine.Arguments
import Reckoner.Proofs.CommandLine.Response
import Reckoner.Proofs.Json.Compact
import Reckoner.Proofs.Settings.Acceptance
import Reckoner.Proofs.Settings.Parts
import Reckoner.Proofs.Settings.Sources
import Reckoner.Proofs.Double.Relative
import Reckoner.Proofs.SquareRoot.Search
import Reckoner.Proofs.SquareRoot.Newton
import Reckoner.Proofs.SquareRoot.Closeness
import Reckoner.Proofs.SquareRoot.Budget
import Reckoner.Proofs.SquareRoot.Defaults
import Reckoner.Proofs.Integer.Divisor
import Reckoner.Proofs.Double.Finite
import Reckoner.Proofs.Number
import Reckoner.Proofs.SquareRoot.Endings
import Reckoner.Proofs.Demonstration.Combined
import Reckoner.Proofs.Decimal.Fixed
import Reckoner.Proofs.Demonstration.Primes
import Reckoner.Proofs.Report.Outcome
import Reckoner.Proofs.SquareRoot.Stopping
import Reckoner.Proofs.Outcome
import Reckoner.Proofs.Report.Conversion
import Reckoner.Proofs.Decimal.Tidied
import Reckoner.Proofs.Decimal.Lenient
import Reckoner.Proofs.Settings.Integers
import Reckoner.Proofs.Double.Bits
import Reckoner.Proofs.SquareRoot.Convergence
import Reckoner.Proofs.Description
