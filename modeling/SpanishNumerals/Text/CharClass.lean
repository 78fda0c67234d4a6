-- The four classes of characters, and the boundaries between them. A stretch of text may
-- begin or end anywhere but inside a word or inside a row of figures. The blanks are the
-- characters with the White_Space property of Unicode 17.0: the zero-width space, the byte order
-- mark and the separators U+001C to U+001F are none.
import SpanishNumerals.Text.Alphabetic
import SpanishNumerals.Text.Numeric

namespace SpanishNumerals

/-! ## Blanks -/

/-- The ranges of the White_Space property. -/
def blankRanges : List (Nat × Nat) :=
  [(0x9, 0xd), (0x20, 0x20), (0x85, 0x85), (0xa0, 0xa0), (0x1680, 0x1680), (0x2000, 0x200a),
   (0x2028, 0x2029), (0x202f, 0x202f), (0x205f, 0x205f), (0x3000, 0x3000)]

/-- Whether the character has the White_Space property. -/
def isBlank (c : Char) : Bool := inRanges c.toNat blankRanges

/-- The text without the blanks at its two ends. -/
def trimBlank (text : Text) : Text :=
  ((text.dropWhile isBlank).reverse.dropWhile isBlank).reverse

/-! ## Classes -/

/-- The class of a character. -/
inductive CharClass
  | letter
  | digit
  | blank
  | other
deriving DecidableEq, Repr

/-- The class of a character. Letters are tested first: a letter that counts as a number
is a letter. -/
def classify (c : Char) : CharClass :=
  if isAlphabetic c then .letter
  else if isNumeric c then .digit
  else if isBlank c then .blank
  else .other

/-- Whether a stretch may end after `a` and another begin at `b`: not between two letters,
and not between two digits. -/
def separates (a b : Char) : Bool :=
  match classify a, classify b with
  | .letter, .letter => false
  | .digit, .digit => false
  | _, _ => true

/-- Whether there is a boundary between two neighbours. Both ends of a text are boundaries. -/
def isBoundary : Option Char → Option Char → Bool
  | some a, some b => separates a b
  | _, _ => true

@[simp]
theorem isBoundary_none_left (after : Option Char) : isBoundary none after = true := by
  cases after <;> rfl

@[simp]
theorem isBoundary_none_right (before : Option Char) : isBoundary before none = true := by
  cases before <;> rfl

theorem separates_comm (a b : Char) : separates a b = separates b a := by
  unfold separates
  cases classify a <;> cases classify b <;> rfl

end SpanishNumerals
