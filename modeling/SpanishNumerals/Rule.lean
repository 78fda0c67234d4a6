-- Rules. A rule is a row of elements and a production. Each element is a pattern of text or a
-- condition on a number recognised before; the production makes a token of what they read.
import SpanishNumerals.Condition
import SpanishNumerals.Pattern

namespace SpanishNumerals

/-- One element of a rule. -/
inductive Element
  /-- Text that the pattern reads. -/
  | text (pattern : Pattern)
  /-- A number that meets the condition. -/
  | number (condition : Condition)

namespace Element

/-- Whether the element takes the node. -/
def accepts : Element → Node → Bool
  | text _, .capture _ => true
  | number condition, .number token => condition.accepts token
  | _, _ => false

/-- Whether the element reads a number. -/
def isNumber : Element → Bool
  | text _ => false
  | number _ => true

/-- The letter for the kind of element. -/
def letter : Element → Char
  | text _ => 'T'
  | number _ => 'N'

end Element

/-- A rule of composition. -/
structure Rule where
  /-- The name, under which rules are looked up. -/
  name : String
  /-- A few words, or none. -/
  description : String
  /-- The elements in the order of the text. -/
  elements : List Element
  /-- The production. -/
  produce : Production

namespace Rule

/-- The token for a window, if the window has one node for each element, each element takes
its node, and the production gives one. -/
def apply (rule : Rule) (window : Window) : Option Token :=
  if window.length = rule.elements.length ∧
      (rule.elements.zip window).all (fun (element, node) => element.accepts node) then
    rule.produce window
  else none

/-- Whether the rule builds on numbers recognised before. -/
def composes (rule : Rule) : Bool := rule.elements.any Element.isNumber

/-- One letter for each element. -/
def shape (rule : Rule) : String := String.ofList (rule.elements.map Element.letter)

end Rule

/-- Rules in the order in which they are tried. -/
abbrev Registry := List Rule

namespace Registry

/-- The first rule of a name. -/
def find? (registry : Registry) (name : String) : Option Rule :=
  List.find? (fun rule => rule.name = name) registry

/-- The rules of some names, in the order of the names, or the first name without a rule. -/
def pick (registry : Registry) : List String → Except String (List Rule)
  | [] => .ok []
  | name :: names =>
    match registry.find? name with
    | none => .error name
    | some rule => (pick registry names).map (rule :: ·)

end Registry

end SpanishNumerals
