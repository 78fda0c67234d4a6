-- The words for numbers, in four tables. Spellings with and without an accent, and common
-- misspellings, have rows of their own: accents are never dropped before a word is looked up.
import SpanishNumerals.Text.Lowercase
import SpanishNumerals.Binary64.Rounding
import SpanishNumerals.Pattern
import SpanishNumerals.StableSort

namespace SpanishNumerals

/-- A table of words. -/
structure WordTable where
  /-- The name of the table. -/
  name : String
  /-- The words in small letters, each with its number. -/
  entries : List (String × Nat)

namespace WordTable

/-- The number of a word, in whatever case. -/
def lookup (table : WordTable) (spelling : Text) : Except NumeralError Nat :=
  match table.entries.find? fun (word, _) => word.toList = lowercase spelling with
  | some (_, n) => .ok n
  | none => .error (.lookupMiss (lowercase spelling))

/-- The words, the longer ones first, those of one length in the order of their characters.
So no word is cut short to one that it begins with. -/
def words (table : WordTable) : List Text :=
  sortBy (fun a b => b.length < a.length || (a.length = b.length && !decide (b < a)))
    (table.entries.map fun (word, _) => word.toList)

/-- The pattern of all the words, without regard to case. -/
def pattern (table : WordTable) : Pattern where
  source := "(?i)(?:" ++ "|".intercalate (table.words.map String.ofList) ++ ")"
  extent := (Pattern.caseless table.words).extent
  follow := none

/-- The token for the word that a window begins with. -/
def produce (table : WordTable) (window : Window) : Option Token := do
  let capture ← window.firstCapture?
  let n ← (table.lookup capture.text).toOption
  Token.plain? (Value.ofNat? n)

end WordTable

/-! ## The tables -/

/-- Zero to fifteen. -/
def ones : WordTable where
  name := "ones"
  entries :=
    [("cero", 0), ("zero", 0), ("un", 1), ("uno", 1), ("una", 1), ("dos", 2), ("tres", 3),
     ("trés", 3), ("cuatro", 4), ("cinco", 5), ("seis", 6), ("séis", 6), ("siete", 7),
     ("ocho", 8), ("nueve", 9), ("diez", 10), ("dies", 10), ("once", 11), ("doce", 12),
     ("trece", 13), ("catorce", 14), ("quince", 15)]

/-- Sixteen to nineteen, and twenty-one to twenty-nine. -/
def teens : WordTable where
  name := "teens"
  entries :=
    [("dieciséis", 16), ("dieciseis", 16), ("diesiseis", 16), ("diesiséis", 16),
     ("diecisiete", 17), ("diesisiete", 17), ("dieciocho", 18), ("diesiocho", 18),
     ("diecinueve", 19), ("diesinueve", 19), ("veintiuno", 21), ("veintiuna", 21),
     ("veintiún", 21), ("veintidós", 22), ("veintidos", 22), ("veintitrés", 23),
     ("veintitres", 23), ("veinticuatro", 24), ("veinticinco", 25), ("veintiséis", 26),
     ("veintiseis", 26), ("veintisiete", 27), ("veintiocho", 28), ("veintinueve", 29)]

/-- Twenty to ninety by tens. -/
def tens : WordTable where
  name := "tens"
  entries :=
    [("veinte", 20), ("treinta", 30), ("cuarenta", 40), ("cincuenta", 50), ("sesenta", 60),
     ("setenta", 70), ("ochenta", 80), ("noventa", 90)]

/-- A hundred to nine hundred by hundreds, and a thousand. -/
def hundreds : WordTable where
  name := "hundreds"
  entries :=
    [("cien", 100), ("cientos", 100), ("ciento", 100), ("doscientos", 200),
     ("trescientos", 300), ("cuatrocientos", 400), ("quinientos", 500), ("seiscientos", 600),
     ("setecientos", 700), ("ochocientos", 800), ("novecientos", 900), ("mil", 1000)]

/-- All the tables. -/
def wordTables : List WordTable := [ones, teens, tens, hundreds]

/-! ## Numbers in one word -/

/-- The tens that a unit may follow. -/
def tensValues : List Value :=
  [.ofNat 20, .ofNat 30, .ofNat 40, .ofNat 50, .ofNat 60, .ofNat 70, .ofNat 80, .ofNat 90]

/-- The hundreds that are one word. -/
def hundredsValues : List Value :=
  [.ofNat 100, .ofNat 200, .ofNat 300, .ofNat 400, .ofNat 500, .ofNat 600, .ofNat 700,
   .ofNat 800, .ofNat 900]

end SpanishNumerals
