-- The shortest decimal of a value. Among the decimals that round to the value it has the
-- fewest digits, and among those it is the nearest; of two as near, the greater. A grid of a
-- power of ten has such a decimal only if one of the two neighbours of the value on it is
-- one, so grids of one digit, of two and so on to seventeen are tried, and exact whole
-- numbers are compared throughout.
import SpanishNumerals.Binary64.Decimal

namespace SpanishNumerals

/-! ## The interval of a value -/

/-- The numbers that round to a magnitude, in quarters of a quantum. -/
structure RoundingInterval where
  /-- The least number. -/
  low : Nat
  /-- The greatest number. -/
  high : Nat
  /-- Whether the two ends belong to it. -/
  closed : Bool

/-- The interval reaches half way to both neighbours. Below a power of two the spacing is
halved, unless it is the least spacing. The ends go to the even neighbour. -/
def RoundingInterval.of (quanta : Nat) : RoundingInterval :=
  let spacing := twoPow (quanta.log2 - 52)
  let narrow := quanta = twoPow quanta.log2 ∧ 52 < quanta.log2
  { low := if narrow then 4 * quanta - spacing else 4 * quanta - 2 * spacing
    high := 4 * quanta + 2 * spacing
    closed := quanta / spacing % 2 = 0 }

/-- Whether `num / den` quarters of a quantum lie in the interval. -/
def RoundingInterval.holds (interval : RoundingInterval) (num den : Nat) : Bool :=
  if interval.closed then interval.low * den ≤ num && num ≤ interval.high * den
  else interval.low * den < num && num < interval.high * den

/-! ## The search -/

/-- A power of ten of either sign, as a quotient. -/
def tenPowQuotient (exponent : Int) : Nat × Nat :=
  if 0 ≤ exponent then (tenPow exponent.toNat, 1) else (1, tenPow (-exponent).toNat)

/-- The multiple of a power of ten that rounds to the magnitude, if one does: the nearer of
its two neighbours on the grid, and the upper one in the middle. -/
def onTenGrid? (quanta : Nat) (exponent : Int) : Option Nat :=
  let (num, den) := tenPowQuotient exponent
  let interval := RoundingInterval.of quanta
  let exact := 4 * quanta * den
  let step := num * (4 * quantaPerUnit)
  let below := exact / step
  let belowHits := interval.holds (below * step) den
  let aboveHits := interval.holds ((below + 1) * step) den
  if belowHits && (!aboveHits || 2 * (exact % step) < step) then some below
  else if aboveHits then some (below + 1)
  else none

/-- The number of zeros between the point and the first digit of `num / den`, which is less
than one, up to a limit. -/
def zerosAfterPoint (den : Nat) : (limit num : Nat) → Nat
  | 0, _ => 0
  | limit + 1, num => if den ≤ 10 * num then 0 else zerosAfterPoint den limit (10 * num) + 1

/-- The place of the point relative to the first digit: the least power of ten above the
magnitude. -/
def pointPlace (quanta : Nat) : Int :=
  if quantaPerUnit ≤ quanta then (Nat.toDigits 10 (quanta / quantaPerUnit)).length
  else -(zerosAfterPoint quantaPerUnit 324 quanta : Int)

/-- The shortest decimal of a value. Were no grid to have one, the exact decimal would be it. -/
def Value.shortest (v : Value) : Decimal :=
  if v.quanta = 0 then ⟨v.negative, 0, 0⟩
  else
    let found := (List.range 17).findSome? fun (n : Nat) =>
      let exponent := pointPlace v.quanta - (n + 1 : Nat)
      (onTenGrid? v.quanta exponent).map fun coefficient =>
        Decimal.mk v.negative coefficient exponent
    match found with
    | some d => d
    | none => ⟨v.negative, v.quanta * Nat.pow 5 1074, -1074⟩

/-! ## Writing -/

/-- The text without the zeros at its end. -/
def dropZeros (figures : Text) : Text := (figures.reverse.dropWhile (· = '0')).reverse

/-- The positional form of a magnitude: no exponent, at least one figure before the point,
and no point without a figure other than zero after it. -/
def positional (coefficient : Nat) (exponent : Int) : Text :=
  let figures := Nat.toDigits 10 coefficient
  if 0 ≤ exponent then figures ++ List.replicate exponent.toNat '0'
  else
    let places := (-exponent).toNat
    let padded := List.replicate (places + 1 - figures.length) '0' ++ figures
    let whole := padded.take (padded.length - places)
    match dropZeros (padded.drop (padded.length - places)) with
    | [] => whole
    | fraction => whole ++ '.' :: fraction

/-- The positional form with a minus where the sign is one. -/
def Decimal.text (d : Decimal) : Text :=
  if d.negative then '-' :: positional d.coefficient d.exponent
  else positional d.coefficient d.exponent

/-- The text of a value: its shortest decimal in positional form. -/
def Value.text (v : Value) : Text := v.shortest.text

/-- The text of a number. -/
def Binary64.text : Binary64 → Text
  | .nan => ['N', 'a', 'N']
  | .infinity true => ['-', 'i', 'n', 'f']
  | .infinity false => ['i', 'n', 'f']
  | .finite v => v.text

end SpanishNumerals
