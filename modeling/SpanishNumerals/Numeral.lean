-- A numeral is a number recognised at a place of a text.
import SpanishNumerals.Token
import SpanishNumerals.Text.Cursor

namespace SpanishNumerals

/-- A number recognised in a text. -/
structure Numeral where
  /-- The byte position where it begins. -/
  start : Nat
  /-- The text that it covers. -/
  text : Text
  /-- The number. -/
  token : Token
  /-- The name of the rule that gave it. -/
  rule : String
deriving DecidableEq

namespace Numeral

/-- The number of bytes that it covers. -/
def size (numeral : Numeral) : Nat := byteLength numeral.text

/-- The byte position where it ends. -/
def stop (numeral : Numeral) : Nat := numeral.start + numeral.size

/-- Whether two numerals share a byte. -/
def overlaps (a b : Numeral) : Bool := a.start < b.stop && b.start < a.stop

/-- Where a numeral stands and which number it is, whatever the rule that gave it. -/
def key (numeral : Numeral) : Nat × Nat × Token := (numeral.start, numeral.stop, numeral.token)

theorem key_eq_iff {numeral : Numeral} {start stop : Nat} {token : Token} :
    numeral.key = (start, stop, token) ↔
      numeral.start = start ∧ numeral.stop = stop ∧ numeral.token = token := by
  rw [key, Prod.mk.injEq, Prod.mk.injEq]

/-- Whether two numerals are the same number at the same place. -/
def sameAs (a b : Numeral) : Bool :=
  a.start = b.start && a.stop = b.stop && a.token = b.token

theorem sameAs_iff (a b : Numeral) : a.sameAs b = true ↔ a.key = b.key := by
  simp [sameAs, key, and_assoc]

end Numeral

end SpanishNumerals
