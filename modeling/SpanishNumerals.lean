import SpanishNumerals.Analysis
import SpanishNumerals.Binary64.Decimal
import SpanishNumerals.Binary64.Rounding
import SpanishNumerals.Binary64.Shortest
import SpanishNumerals.Binary64.Value
import SpanishNumerals.Catalogue
import SpanishNumerals.CommandLine
import SpanishNumerals.Compound
import SpanishNumerals.Condition
import SpanishNumerals.Figures
import SpanishNumerals.Inspection
import SpanishNumerals.Main
import SpanishNumerals.Numeral
import SpanishNumerals.Options
import SpanishNumerals.Pattern
import SpanishNumerals.Rule
import SpanishNumerals.StableSort
import SpanishNumerals.Text.Alphabetic
import SpanishNumerals.Text.Casing
import SpanishNumerals.Text.CharClass
import SpanishNumerals.Text.CodePoints
import SpanishNumerals.Text.Cursor
import SpanishNumerals.Text.Folding
import SpanishNumerals.Text.Lowercase
import SpanishNumerals.Text.Numeric
import SpanishNumerals.Token
import SpanishNumerals.Vocabulary
import SpanishNumerals.Proofs.Derivation
import SpanishNumerals.Proofs.LongestFirst
import SpanishNumerals.Proofs.Ending
import SpanishNumerals.Proofs.Heights
import SpanishNumerals.Proofs.Characters
import SpanishNumerals.Proofs.WholeText
import SpanishNumerals.Proofs.Opposite
import SpanishNumerals.Proofs.WholeNumbers
import SpanishNumerals.Proofs.WrittenWords
import SpanishNumerals.Proofs.WordReadings
import SpanishNumerals.Proofs.WordPatterns
import SpanishNumerals.Proofs.Spellings
import SpanishNumerals.Proofs.SpelledNumbers
import SpanishNumerals.Proofs.FigureForms
import SpanishNumerals.Proofs.Captures
import SpanishNumerals.Proofs.Beginning
import SpanishNumerals.Proofs.CleanCuts
import SpanishNumerals.Proofs.Leaves
import SpanishNumerals.Proofs.Reanalysis
import SpanishNumerals.Proofs.Parting
import SpanishNumerals.Proofs.Separators
import SpanishNumerals.Proofs.LiteralCuts
import SpanishNumerals.Proofs.Registries
import SpanishNumerals.Proofs.NearestValues
import SpanishNumerals.Proofs.WrittenValues
import SpanishNumerals.Proofs.SimpleRules
import SpanishNumerals.Proofs.FigureNumbers
import SpanishNumerals.Proofs.WordNumbers
import SpanishNumerals.Proofs.FirstPass
import SpanishNumerals.Proofs.Thousands
import SpanishNumerals.Proofs.Slices
import SpanishNumerals.Proofs.Blocks
import SpanishNumerals.Proofs.TwinPlaces
import SpanishNumerals.Proofs.Spacing
import SpanishNumerals.Proofs.ReadingOrder
import SpanishNumerals.Proofs.AdjacentFigures
import SpanishNumerals.Proofs.FirstTokens
import SpanishNumerals.Proofs.Suffixes
import SpanishNumerals.Proofs.ScaledWholes
import SpanishNumerals.Proofs.PlainPasses
import SpanishNumerals.Proofs.OrderOfFinding
import SpanishNumerals.Proofs.WordsAlone
import SpanishNumerals.Proofs.Recasing
import SpanishNumerals.Proofs.OneReading
import SpanishNumerals.Proofs.DecimalParts
import SpanishNumerals.Proofs.PointWord
import SpanishNumerals.Proofs.NamedRanges
import SpanishNumerals.Proofs.OppositeWholes
import SpanishNumerals.Proofs.PlaceValues
import SpanishNumerals.Proofs.ArgumentGroups
import SpanishNumerals.Proofs.RecordLines
