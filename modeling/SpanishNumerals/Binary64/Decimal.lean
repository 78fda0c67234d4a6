-- Numbers written with figures. A decimal is a coefficient and a power of ten; its number is
-- the nearest one of the format. The written forms are a sign, figures with or without a
-- point, and an exponent, or else a word for an infinity or for what is no number.
import SpanishNumerals.Binary64.Rounding
import SpanishNumerals.Text.CodePoints

namespace SpanishNumerals

/-- A number as a coefficient and a power of ten. -/
structure Decimal where
  /-- Whether the sign is a minus. -/
  negative : Bool
  /-- The figures as a whole number. -/
  coefficient : Nat
  /-- The power of ten. -/
  exponent : Int
deriving DecidableEq

/-! ## The nearest number -/

namespace Decimal

/-- The exponent between bounds beyond which nothing changes: from 400 on every coefficient
but zero gives an infinity, and below `-400` less the binary digits of the coefficient every
one gives zero. -/
def boundedExponent (d : Decimal) : Int :=
  max (-400 - d.coefficient.log2) (min 400 d.exponent)

/-- The number nearest to a decimal. -/
def toBinary64 (d : Decimal) : Binary64 :=
  if 0 ≤ d.boundedExponent then
    Binary64.round d.negative (d.coefficient * tenPow d.boundedExponent.toNat * quantaPerUnit) 1
      Nat.one_pos
  else
    Binary64.round d.negative (d.coefficient * quantaPerUnit) (tenPow (-d.boundedExponent).toNat)
      (tenPow_pos _)

end Decimal

/-! ## Reading -/

/-- The whole number written by a row of figures. -/
def figuresValue (figures : Text) : Nat :=
  figures.foldl (fun n c => 10 * n + (c.toNat - '0'.toNat)) 0

/-- Whether a sign in front is a minus, and what follows the sign. -/
def splitSign : Text → Bool × Text
  | '-' :: text => (true, text)
  | '+' :: text => (false, text)
  | text => (false, text)

/-- A whole number: a sign or none, then one figure or more, and nothing else. -/
def readInteger? (text : Text) : Option Int :=
  let (negative, figures) := splitSign text
  if figures ≠ [] ∧ figures.all Char.isDigit then
    some (if negative then -(figuresValue figures : Int) else figuresValue figures)
  else none

/-- What may follow the figures of a decimal: nothing, or an `e` and a whole number. -/
def readExponent? : Text → Option Int
  | [] => some 0
  | c :: text => if c = 'e' ∨ c = 'E' then readInteger? text else none

/-- The fraction that a point introduces, and what follows it. Without a point the fraction
is empty. -/
def splitFraction : Text → Text × Text
  | '.' :: text => (text.takeWhile Char.isDigit, text.dropWhile Char.isDigit)
  | text => ([], text)

/-- A decimal: figures on at least one side of a point, then an exponent or none. -/
def Decimal.read? (text : Text) : Option Decimal :=
  let (negative, unsigned) := splitSign text
  let whole := unsigned.takeWhile Char.isDigit
  let (fraction, rest) := splitFraction (unsigned.dropWhile Char.isDigit)
  if whole = [] ∧ fraction = [] then none
  else (readExponent? rest).map fun exponent =>
    ⟨negative, figuresValue (whole ++ fraction), exponent - fraction.length⟩

namespace Binary64

/-- The words for numbers that no decimal gives, in small letters. -/
def readWord? (text : Text) : Option Binary64 :=
  let (negative, word) := splitSign text
  let small := word.map Char.toLower
  if small = ['n', 'a', 'n'] then some nan
  else if small = ['i', 'n', 'f'] ∨ small = ['i', 'n', 'f', 'i', 'n', 'i', 't', 'y'] then
    some (infinity negative)
  else none

/-- The number that a text writes. -/
def read? (text : Text) : Option Binary64 :=
  match Decimal.read? text with
  | some d => some d.toBinary64
  | none => readWord? text

end Binary64

end SpanishNumerals
