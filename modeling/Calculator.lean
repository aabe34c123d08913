import Calculator.Main
import Calculator.CrossCheck.Evaluation
import Calculator.CrossCheck.Generator
import Calculator.Proofs.Console.Endings
import Calculator.Proofs.Grammar.Acceptance
import Calculator.Proofs.Session.Isolation
import Calculator.Proofs.Bindings.Changes
import Calculator.Proofs.Grammar.Yield
import Calculator.Proofs.Session.Effects
import Calculator.Proofs.Bindings.History
import Calculator.Proofs.Console.Requests
import Calculator.Proofs.CrossCheck.Literals
import Calculator.Proofs.CrossCheck.Notation
import Calculator.Proofs.CrossCheck.Formula
import Calculator.Proofs.CrossCheck.Agreement
import Calculator.Proofs.Reading.Places
import Calculator.Proofs.Grammar.Blame
import Calculator.Proofs.Session.Places
import Calculator.Proofs.Session.Progress
import Calculator.Proofs.Token.Pieces
import Calculator.Proofs.Console.Progress
import Calculator.Proofs.Token.Words
import Calculator.Proofs.Reading.Dialects
import Calculator.Proofs.Session.Dialects
import Calculator.Proofs.Binary64.Decimals
import Calculator.Proofs.Decimal.Layout
import Calculator.Proofs.Decimal.Significant
import Calculator.Proofs.Session.ReadBack
import Calculator.Proofs.Console.Rendering
import Calculator.Proofs.Console.Lines
import Calculator.Proofs.Session.Misplaced
import Calculator.Proofs.Token.Longest
import Calculator.Proofs.Binary64.Closest
import Calculator.Proofs.Decimal.Denotation
import Calculator.Proofs.Diagnostic.Caret
import Calculator.Proofs.Token.Literals
import Calculator.Proofs.Token.Lexemes
import Calculator.Proofs.Token.Discard
import Calculator.Proofs.Token.Spacing
import Calculator.Proofs.Session.Spacing
import Calculator.Proofs.Binary64.Remainder
import Calculator.Proofs.Binary64.Products
import Calculator.Proofs.Binary64.Values
import Calculator.Proofs.Factorial
import Calculator.Proofs.Binary64.Powers
import Calculator.Proofs.Session.Names
import Calculator.Proofs.Token.Offsets
import Calculator.Proofs.Session.Scanned
import Calculator.Proofs.Console.Trace
import Calculator.Proofs.CommandLine.Verbose
