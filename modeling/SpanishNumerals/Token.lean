-- Tokens and windows. A token is a number that was recognised, and a reading that gives none has a
-- reason. A window is what a rule has read: one node for each of its elements, a token or a piece
-- of text.
import SpanishNumerals.Binary64.Shortest

namespace SpanishNumerals

/-! ## Reasons -/

/-- The greatest number of figures of a whole number written without separators. -/
def maxIntegerFigures : Nat := 18

/-- Why a reading gives no number. -/
inductive NumeralError
  /-- The word, in small letters, stands in no row of its table. -/
  | lookupMiss (spelling : Text)
  /-- The row of figures is too long. -/
  | digitOverflow (figures : Nat)
  /-- The text writes no number. -/
  | format (text : Text)
  /-- The number is not finite. -/
  | nonFinite
deriving DecidableEq

/-- The wording of a reason. -/
def NumeralError.message : NumeralError → String
  | lookupMiss spelling =>
    "la grafía '" ++ String.ofList spelling ++ "' no figura en la tabla léxica"
  | digitOverflow figures =>
    "secuencia de " ++ toString figures ++ " dígitos (máximo " ++ toString maxIntegerFigures ++ ")"
  | format text => "literal numérico mal formado: '" ++ String.ofList text ++ "'"
  | nonFinite => "el valor calculado no es finito"

/-! ## Tokens -/

/-- What a token measures. -/
inductive Dimension
  | number
deriving DecidableEq, Repr

/-- The name of a dimension. -/
def Dimension.name : Dimension → String
  | number => "number"

/-- A recognised number. -/
structure Token where
  /-- The number. -/
  value : Value
  /-- The power of ten that the value already stands for, as 3 in "2k". -/
  grain : Option Nat
deriving DecidableEq

namespace Token

/-- A token for a finite number. -/
def ofNumber (number : Binary64) (grain : Option Nat) : Except NumeralError Token :=
  match number with
  | .finite value => .ok ⟨value, grain⟩
  | _ => .error .nonFinite

/-- A token for a value, if there is one, without a scale. -/
def plain? (value : Option Value) : Option Token := value.map fun v => ⟨v, none⟩

/-- A token for a value, if there is one, with a scale. -/
def scaled? (value : Option Value) (grain : Nat) : Option Token :=
  value.map fun v => ⟨v, some grain⟩

/-- What every token measures. -/
def dimension (_ : Token) : Dimension := .number

/-- The text of a token: its value, and its scale if it has one. -/
def text (token : Token) : Text :=
  match token.grain with
  | some grain => token.value.text ++ s!" (grain {grain})".toList
  | none => token.value.text

end Token

/-- A piece of text that a pattern has read, and its groups. -/
structure Capture where
  /-- The text read. -/
  text : Text
  /-- The groups in order; one that took no part is none. -/
  groups : List (Option Text)
deriving DecidableEq

/-- The group of a number from one on. -/
def Capture.group (capture : Capture) : Nat → Option Text
  | 0 => none
  | index + 1 => (capture.groups[index]?).join

/-- What one element of a rule has read. -/
inductive Node
  | number (token : Token)
  | capture (read : Capture)
deriving DecidableEq

namespace Node

/-- The token, if the node is one. -/
def token? : Node → Option Token
  | number token => some token
  | capture _ => none

/-- The piece of text, if the node is one. -/
def capture? : Node → Option Capture
  | number _ => none
  | capture read => some read

end Node

/-- What a rule has read, one node for each element. -/
abbrev Window := List Node

/-- What a rule makes of a window. -/
abbrev Production := Window → Option Token

/-- The piece of text that a window begins with. -/
def Window.firstCapture? (window : Window) : Option Capture := window.head?.bind Node.capture?

end SpanishNumerals
