-- Rules written out for inspection, on one line. The forms are those that the rules of a catalogue
-- need: bounds of a few figures, and names and patterns of printable characters.
import SpanishNumerals.Catalogue

namespace SpanishNumerals

/-- A number with at least one decimal. Very great and very small numbers are not written with an
exponent here, for no bound is one. -/
def Binary64.inspect : Binary64 → String
  | .finite v => String.ofList (if v.isWhole then v.text ++ ['.', '0'] else v.text)
  | number => String.ofList number.text

/-- A text in double quotes. A quote or a backslash in it has a backslash in front. Control
characters are left as they are, for no name and no pattern has one. -/
def inspectText (text : String) : String :=
  let escaped := text.toList.flatMap fun c => if c = '"' ∨ c = '\\' then ['\\', c] else [c]
  "\"" ++ String.ofList escaped ++ "\""

namespace Condition

mutual

/-- A condition written out. -/
def inspect : Condition → String
  | any => "Any"
  | equals number => "Equals(" ++ number.inspect ++ ")"
  | between low high =>
    "Between \x7b min: " ++ low.inspect ++ ", max: " ++ high.inspect ++ " \x7d"
  | oneOf numbers => "OneOf([" ++ ", ".intercalate (numbers.map Binary64.inspect) ++ "])"
  | whole => "Integer"
  | unscaled => "GrainAbsent"
  | all conditions => "All([" ++ ", ".intercalate (inspectAll conditions) ++ "])"

/-- Conditions written out one by one. -/
def inspectAll : List Condition → List String
  | [] => []
  | condition :: conditions => inspect condition :: inspectAll conditions

end

end Condition

/-- An element written out. -/
def Element.inspect : Element → String
  | .text pattern =>
    "Text(TextPattern \x7b regex: " ++ inspectText ("^(?:" ++ pattern.source ++ ")") ++
      ", guarded: " ++ (if pattern.follow.isSome then "true" else "false") ++ " \x7d)"
  | .number condition => "Number(" ++ condition.inspect ++ ")"

/-- A rule written out. -/
def Rule.inspect (rule : Rule) : String :=
  "Rule \x7b name: " ++ inspectText rule.name ++ ", pattern: [" ++
    ", ".intercalate (rule.elements.map Element.inspect) ++ "], .. \x7d"

end SpanishNumerals
