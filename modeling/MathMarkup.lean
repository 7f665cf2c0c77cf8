import MathMarkup.Command.Arguments
import MathMarkup.Command.Listing
import MathMarkup.Command.Overrides
import MathMarkup.Command.Run
import MathMarkup.Convert
import MathMarkup.ConvertError
import MathMarkup.Decimal.Shortest
import MathMarkup.Macros
import MathMarkup.Main
import MathMarkup.Options
import MathMarkup.Options.Config
import MathMarkup.ParseError
import MathMarkup.Proofs.Command.Overrides
import MathMarkup.Proofs.Convert.Arrays
import MathMarkup.Proofs.Convert.Blame
import MathMarkup.Proofs.Convert.ColumnRules
import MathMarkup.Proofs.Convert.Content
import MathMarkup.Proofs.Convert.DefinedEqual
import MathMarkup.Proofs.Convert.ErrorPlaces
import MathMarkup.Proofs.Convert.Fractions
import MathMarkup.Proofs.Convert.Grids
import MathMarkup.Proofs.Convert.Inverse
import MathMarkup.Proofs.Convert.KeptSpaces
import MathMarkup.Proofs.Convert.NamedArguments
import MathMarkup.Proofs.Convert.NonStrict
import MathMarkup.Proofs.Convert.OfTex
import MathMarkup.Proofs.Convert.OfTypst
import MathMarkup.Proofs.Convert.Parentheses
import MathMarkup.Proofs.Convert.RoundTrip
import MathMarkup.Proofs.Convert.Shorthands
import MathMarkup.Proofs.Convert.SpacingSymbols
import MathMarkup.Proofs.Convert.Text
import MathMarkup.Proofs.Convert.Totality
import MathMarkup.Proofs.Options.Config
import MathMarkup.Proofs.Progress
import MathMarkup.Proofs.Result
import MathMarkup.Proofs.Scan
import MathMarkup.Proofs.Scan.Lossless
import MathMarkup.Proofs.Scan.Places
import MathMarkup.Proofs.Script
import MathMarkup.Proofs.Span
import MathMarkup.Proofs.Symbol
import MathMarkup.Proofs.Tex.BareDigits
import MathMarkup.Proofs.Tex.Brackets
import MathMarkup.Proofs.Tex.Element
import MathMarkup.Proofs.Tex.ErrorPlaces
import MathMarkup.Proofs.Tex.Lexing
import MathMarkup.Proofs.Tex.Nesting
import MathMarkup.Proofs.Tex.Origin
import MathMarkup.Proofs.Tex.Parsed
import MathMarkup.Proofs.Tex.Positions
import MathMarkup.Proofs.Tex.Reading
import MathMarkup.Proofs.Tex.Regular
import MathMarkup.Proofs.Tex.RoundTrip
import MathMarkup.Proofs.Tex.ScriptSpaces
import MathMarkup.Proofs.Tex.Spacing
import MathMarkup.Proofs.Tex.Subformulas
import MathMarkup.Proofs.Tex.WellFormed
import MathMarkup.Proofs.Tex.WithoutSpaces
import MathMarkup.Proofs.Tex.WrittenTokens
import MathMarkup.Proofs.Text
import MathMarkup.Proofs.Token.Nesting
import MathMarkup.Proofs.Token.Positions
import MathMarkup.Proofs.Toml.Forms
import MathMarkup.Proofs.Toml.Library
import MathMarkup.Proofs.Typst.Arguments
import MathMarkup.Proofs.Typst.Balance
import MathMarkup.Proofs.Typst.Call
import MathMarkup.Proofs.Typst.CleanUp
import MathMarkup.Proofs.Typst.Division
import MathMarkup.Proofs.Typst.Filled
import MathMarkup.Proofs.Typst.Fitting
import MathMarkup.Proofs.Typst.Ink
import MathMarkup.Proofs.Typst.Lexing
import MathMarkup.Proofs.Typst.Literal
import MathMarkup.Proofs.Typst.Marks
import MathMarkup.Proofs.Typst.Nesting
import MathMarkup.Proofs.Typst.Positions
import MathMarkup.Proofs.Typst.Readable
import MathMarkup.Proofs.Typst.Reading
import MathMarkup.Proofs.Typst.Regular
import MathMarkup.Proofs.Typst.Rewriting
import MathMarkup.Proofs.Typst.RoundTrip
import MathMarkup.Proofs.Typst.RoundingPairs
import MathMarkup.Proofs.Typst.Shorthands
import MathMarkup.Proofs.Typst.Spacing
import MathMarkup.Proofs.Typst.Spells
import MathMarkup.Proofs.Typst.Splitting
import MathMarkup.Proofs.Typst.WithoutSpaces
import MathMarkup.Proofs.Typst.Words
import MathMarkup.Proofs.WithoutSpaces
import MathMarkup.Report
import MathMarkup.Scan
import MathMarkup.Scan.Words
import MathMarkup.Script
import MathMarkup.Span
import MathMarkup.Symbol
import MathMarkup.Symbol.Table
import MathMarkup.Tex.Escape
import MathMarkup.Tex.Formula
import MathMarkup.Tex.Formula.OfTypst
import MathMarkup.Tex.Formula.Parser
import MathMarkup.Tex.Formula.Printer
import MathMarkup.Tex.Token
import MathMarkup.Text.Basic
import MathMarkup.Text.Digit
import MathMarkup.Text.Identifier
import MathMarkup.Text.Printable
import MathMarkup.Text.Width
import MathMarkup.Token
import MathMarkup.Token.Nesting
import MathMarkup.Toml.Document
import MathMarkup.Toml.Library
import MathMarkup.Toml.Scalar
import MathMarkup.Toml.Value
import MathMarkup.Toml.Writer
import MathMarkup.Typst.Formula
import MathMarkup.Typst.Formula.Division
import MathMarkup.Typst.Formula.OfTex
import MathMarkup.Typst.Formula.Parser
import MathMarkup.Typst.Formula.Printer
import MathMarkup.Typst.Quote
import MathMarkup.Typst.Token
