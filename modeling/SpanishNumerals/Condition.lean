-- Conditions on a token that is to be part of a greater number. They compare as numbers do:
-- the two zeros are equal, and a bound that is no number admits nothing.
import SpanishNumerals.Token

namespace SpanishNumerals

/-- A condition on a token. -/
inductive Condition
  /-- No condition. -/
  | any
  /-- The value is this number. -/
  | equals (number : Binary64)
  /-- The value is at least `low` and less than `high`. -/
  | between (low high : Binary64)
  /-- The value is one of these numbers. -/
  | oneOf (numbers : List Binary64)
  /-- The value is whole. -/
  | whole
  /-- The token has no scale. -/
  | unscaled
  /-- All these conditions hold. -/
  | all (conditions : List Condition)

namespace Condition

mutual

/-- Whether the token meets the condition. -/
def accepts (token : Token) : Condition → Bool
  | any => true
  | equals number => (Binary64.finite token.value).equals number
  | between low high =>
    low.atMost (.finite token.value) && (Binary64.finite token.value).less high
  | oneOf numbers => numbers.any fun number => (Binary64.finite token.value).equals number
  | whole => token.value.isWhole
  | unscaled => token.grain.isNone
  | all conditions => acceptsAll token conditions

/-- Whether the token meets all the conditions. -/
def acceptsAll (token : Token) : List Condition → Bool
  | [] => true
  | condition :: conditions => accepts token condition && acceptsAll token conditions

end

theorem acceptsAll_eq (token : Token) (conditions : List Condition) :
    acceptsAll token conditions = conditions.all (accepts token) := by
  induction conditions with
  | nil => rfl
  | cons condition conditions ih => rw [acceptsAll, ih, List.all_cons]

end Condition

end SpanishNumerals
