-- The rules for Spanish numerals, in the order in which they are tried: figures, single words,
-- compounds. The opposite of a number stands before the decimals: of two readings of one
-- stretch the first found is kept, and "menos tres punto cinco" is the opposite of 3.5.
import SpanishNumerals.Rule
import SpanishNumerals.Compound

namespace SpanishNumerals

/-! ## Elements -/

/-- A whole number as a bound. -/
def bound (n : Nat) : Binary64 := .finite (.ofNat n)

/-- One word, in whatever case. -/
def wordElement (word : String) : Element := .text (.caseless [word.toList])

/-- How many thousands there may be before "mil": a whole number without a scale from 2 to
999. -/
def thousandsCount : Condition := .all [.between (bound 2) (bound 1000), .whole, .unscaled]

/-- What may remain after hundreds or thousands: a whole number without a scale from one up to
below a bound. -/
def remainderBelow (high : Binary64) : Condition :=
  .all [.between (bound 1) high, .whole, .unscaled]

/-! ## Rules -/

/-- Numbers written with figures. -/
def figureRules : Registry :=
  [{ name := "integer (numeric)"
     description := "Entero de 1 a 18 cifras"
     elements := [.text (Pattern.integer.followedBy noFigureFollows)]
     produce := Figures.integer },
   { name := "decimal with thousands separator"
     description := "Millares con punto y decimales con coma: 1.234.567,89"
     elements := [.text (Pattern.groupedDecimal.followedBy noFigureFollows)]
     produce := Figures.decimal },
   { name := "integer with thousands separator ."
     description := "Millares con punto sin decimales: 1.234"
     elements := [.text (Pattern.groupedInteger.followedBy noNumberFollows)]
     produce := Figures.groupedInteger },
   { name := "decimal number"
     description := "Decimal con coma: 3,5 o ,5"
     elements := [.text (Pattern.decimal.followedBy noFigureFollows)]
     produce := Figures.decimal },
   { name := "decimal number with point"
     description := "Decimal con punto cuando no es agrupación de millares: 2.5"
     elements := [.text (Pattern.pointDecimal.followedBy noNumberFollows)]
     produce := Figures.pointDecimal }]

/-- Numbers in one word. -/
def wordRules : Registry :=
  [{ name := "number (0..15)"
     description := ""
     elements := [.text ones.pattern]
     produce := ones.produce },
   { name := "number (16..19 21..29)"
     description := ""
     elements := [.text teens.pattern]
     produce := teens.produce },
   { name := "number (20..90)"
     description := ""
     elements := [.text tens.pattern]
     produce := tens.produce },
   { name := "number (100..1000)"
     description := ""
     elements := [.text hundreds.pattern]
     produce := hundreds.produce }]

/-- Numbers made of other numbers. -/
def compoundRules : Registry :=
  [{ name := "number (16..19)"
     description := "diez y seis → 16"
     elements :=
       [.number (.equals (bound 10)), wordElement "y", .number (.between (bound 6) (bound 10))]
     produce := Compound.sum },
   { name := "number (21..29 31..39 .. 91..99)"
     description := "treinta y siete → 37"
     elements :=
       [.number (.oneOf (tensValues.map .finite)), wordElement "y",
        .number (.between (bound 1) (bound 10))]
     produce := Compound.sum },
   { name := "numbers 200..999"
     description := "tres cientos veinte → 320"
     elements :=
       [.number (.between (bound 2) (bound 10)), .number (.equals (bound 100)),
        .number (.between (bound 0) (bound 100))]
     produce := Compound.hundredsOf },
   { name := "numbers prefix with -, negative or minus"
     description := "menos cinco → -5"
     elements := [.text (.caseless ["-".toList, "menos".toList]), .number .any]
     produce := Compound.negated },
   { name := "number dot number"
     description := "tres punto cinco → 3.5"
     elements := [.number .any, wordElement "punto", .number .unscaled]
     produce := Compound.decimals },
   { name := "numbers suffixes (K, M, G)"
     description := "2k → 2000"
     elements :=
       [.number .any,
        .text ((Pattern.caselessLetter ['k', 'm', 'g']).followedBy noWordFollows)]
     produce := Compound.suffixed },
   { name := "hundreds plus remainder"
     description := "ciento veinte → 120"
     elements := [.text hundreds.pattern, .number (remainderBelow (bound 100))]
     produce := Compound.hundredsAnd },
   { name := "thousands"
     description := "dos mil → 2000"
     elements := [.number thousandsCount, wordElement "mil"]
     produce := Compound.thousands },
   { name := "thousands plus remainder"
     description := "dos mil quinientos → 2500"
     elements :=
       [.number thousandsCount, wordElement "mil", .number (remainderBelow (bound 1000))]
     produce := Compound.thousandsAnd },
   { name := "mil plus remainder"
     description := "mil cien → 1100"
     elements := [wordElement "mil", .number (remainderBelow (bound 1000))]
     produce := Compound.thousandsAnd }]

/-- All the rules. -/
def spanishRules : Registry := figureRules ++ wordRules ++ compoundRules

end SpanishNumerals
