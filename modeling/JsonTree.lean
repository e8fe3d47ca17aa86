import JsonTree.Binary64.Basic
import JsonTree.Binary64.Rounding
import JsonTree.Datum
import JsonTree.Decimal.Basic
import JsonTree.Decimal.Layout
import JsonTree.Decimal.Reading
import JsonTree.Decimal.Shortest
import JsonTree.Document.Basic
import JsonTree.Document.Data
import JsonTree.Document.Debug
import JsonTree.JsonText.Builder
import JsonTree.JsonText.Lexer
import JsonTree.JsonText.Reader
import JsonTree.JsonText.Token
import JsonTree.JsonText.Writer
import JsonTree.Logged
import JsonTree.MachineNumber
import JsonTree.Members
import JsonTree.Members.Lemmas
import JsonTree.Number
import JsonTree.NumberError
import JsonTree.Numeral.Check
import JsonTree.Numeral.Grammar
import JsonTree.Numeral.Scan
import JsonTree.Policy
import JsonTree.Recipe
import JsonTree.Session
import JsonTree.Text.DefaultIgnorable
import JsonTree.Text.ExtendingMark
import JsonTree.Text.Quoted
import JsonTree.Text.Ranges
import JsonTree.Text.Unprintable
import JsonTree.Tree.Basic
import JsonTree.Tree.Equality
import JsonTree.Tree.Hashing
import JsonTree.Tree.Lemmas
import JsonTree.Tree.Traversal
import JsonTree.Proofs.DecimalValue
import JsonTree.Proofs.NumeralScan
import JsonTree.Proofs.NumeralLanguage
import JsonTree.Proofs.RefusalPosition
import JsonTree.Proofs.FiniteRange
import JsonTree.Proofs.NumeralValue
import JsonTree.Proofs.NearestValue
import JsonTree.Proofs.FloatSyntax
import JsonTree.Proofs.Spelling
import JsonTree.Proofs.SafeText
import JsonTree.Proofs.CanonicalText
import JsonTree.Proofs.MachineText
import JsonTree.Proofs.Traversal
import JsonTree.Proofs.DataRoundTrip
import JsonTree.Proofs.Soundness
import JsonTree.Proofs.PolicyChange
import JsonTree.Proofs.Rearrangement
import JsonTree.Proofs.HashAgreement
import JsonTree.Proofs.SafeRuns
import JsonTree.Proofs.BuilderRuns
import JsonTree.Proofs.TokenLexing
import JsonTree.Proofs.TextRoundTrip
import JsonTree.Proofs.WaysToData
import JsonTree.Proofs.LexedNumbers
import JsonTree.Proofs.NumberReaders
import JsonTree.Proofs.FloatReading
import JsonTree.Proofs.NumberReading
import JsonTree.Proofs.FewestDigits
import JsonTree.Proofs.ShortestText
import JsonTree.Proofs.TwoSpellings
import JsonTree.Proofs.IntegerReading
import JsonTree.Proofs.IntegralFloats
import JsonTree.Proofs.PlainSpelling
import JsonTree.Proofs.CollectedMembers
import JsonTree.Proofs.Concatenation
import JsonTree.Proofs.Lookup
import JsonTree.Proofs.Congruence
import JsonTree.Proofs.LossRecords
import JsonTree.Proofs.EscapedText
import JsonTree.Proofs.RefusalMessage
import JsonTree.Proofs.DebugTokens
import JsonTree.Proofs.DebugLayout
import JsonTree.Proofs.DebugText
