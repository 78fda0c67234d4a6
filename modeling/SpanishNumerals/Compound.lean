-- Numbers made of other numbers. Each production takes a window of the shape that its rule
-- reads; a window of another shape has no token.
import SpanishNumerals.Vocabulary
import SpanishNumerals.Figures

namespace SpanishNumerals

/-! ## A number read as decimals -/

/-- A number as the decimals that its figures write: 25 gives 0.25. It is divided by the
first power of ten above it, from one to a thousand million; a greater number gives zero. -/
def Value.asDecimals (v : Value) : Value :=
  match (List.range 10).find? fun k => v.signed < (tenPow k * quantaPerUnit : Nat) with
  | some k => v.divNat (tenPow k) (tenPow_pos k)
  | none => .zero false

/-- The same for any number: minus infinity lies below every scale and stays, and what lies
below none gives zero. -/
def Binary64.asDecimals : Binary64 → Binary64
  | .finite v => .finite v.asDecimals
  | .infinity true => .infinity true
  | _ => .finite (.zero false)

/-! ## Suffixes -/

/-- The factor and the scale of a suffix letter, in whatever case. -/
def suffixScale (suffix : Text) : Option (Value × Nat) :=
  match lowercase suffix with
  | ['k'] => some (.ofNat 1000, 3)
  | ['m'] => some (.ofNat 1000000, 6)
  | ['g'] => some (.ofNat 1000000000, 9)
  | _ => none

/-- No character that belongs to a word follows: no letter, no digit, no low line. -/
def noWordFollows : Text → Bool
  | c :: _ => !(isAlphabetic c || isNumeric c || c = '_')
  | [] => true

/-! ## Productions -/

namespace Compound

/-- The sum of the numbers on both sides of a word. -/
def sum : Production
  | [.number a, .capture _, .number b] => Token.plain? (a.value.add? b.value)
  | _ => none

/-- So many hundreds and a remainder: "tres cientos veinte". -/
def hundredsOf : Production
  | [.number count, .number _, .number remainder] =>
    Token.plain? do ((← (Value.ofNat 100).mul? count.value).add? remainder.value)
  | _ => none

/-- A number and its decimals: "tres punto cinco". -/
def decimals : Production
  | [.number whole, .capture _, .number fraction] =>
    Token.plain? (whole.value.add? fraction.value.asDecimals)
  | _ => none

/-- A number and a suffix: "2k". The letter is the first group, or else the whole text. -/
def suffixed : Production
  | [.number base, .capture suffix] => do
    let (factor, grain) ← suffixScale ((suffix.group 1).getD suffix.text)
    Token.scaled? (base.value.mul? factor) grain
  | _ => none

/-- The opposite number, of the same scale: "menos cinco". -/
def negated : Production
  | [.capture _, .number token] => some ⟨token.value.neg, token.grain⟩
  | _ => none

/-- A word for hundreds and a remainder: "ciento veinte". The hundreds have to be a word, and
"mil" is not one of them. -/
def hundredsAnd : Production
  | [.capture word, .number remainder] => do
    let n ← (hundreds.lookup word.text).toOption
    let value ← Value.ofNat? n
    if value ∈ hundredsValues then Token.plain? (value.add? remainder.value) else none
  | _ => none

/-- So many thousands: "dos mil". -/
def thousands : Production
  | [.number count, .capture _] => Token.scaled? (count.value.mul? (.ofNat 1000)) 3
  | _ => none

/-- So many thousands and a remainder, "dos mil quinientos", or one thousand and a remainder,
"mil cien". -/
def thousandsAnd : Production
  | [.number count, .capture _, .number remainder] =>
    Token.plain? do ((← count.value.mul? (.ofNat 1000)).add? remainder.value)
  | [.capture _, .number remainder] => Token.plain? ((Value.ofNat 1000).add? remainder.value)
  | _ => none

end Compound

end SpanishNumerals
