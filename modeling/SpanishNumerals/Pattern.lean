-- Patterns of text. A pattern says how many characters it reads at the front of a text, and
-- may put a condition on what follows. What it reads does not depend on that condition: when
-- the condition fails, no shorter reading is tried.
import SpanishNumerals.Text.Cursor
import SpanishNumerals.Text.Folding
import SpanishNumerals.Token

namespace SpanishNumerals

/-- How far a pattern reads, and its groups. -/
structure Extent where
  /-- The number of characters. -/
  length : Nat
  /-- The groups in order. -/
  groups : List (Option Text)

/-- A pattern of text. -/
structure Pattern where
  /-- The pattern as a regular expression. -/
  source : String
  /-- What the pattern reads at the front of a text. -/
  extent : Text → Option Extent
  /-- The condition on what follows. -/
  follow : Option (Text → Bool)

namespace Pattern

/-- Whether what follows a reading meets the condition. -/
def admits (pattern : Pattern) (rest : Text) : Bool :=
  match pattern.follow with
  | some follow => follow rest
  | none => true

/-- The same pattern with a condition on what follows. -/
def followedBy (pattern : Pattern) (follow : Text → Bool) : Pattern :=
  { pattern with follow := some follow }

/-- What the pattern reads from a place on, and the place where it ends. A reading of no
characters is none. -/
def read? (pattern : Pattern) (here : Cursor) : Option (Capture × Cursor) :=
  match pattern.extent here.ahead with
  | none => none
  | some extent =>
    let there := here.forward extent.length
    match here.ahead.take extent.length with
    | [] => none
    | text =>
      if pattern.admits there.ahead then some (⟨text, extent.groups⟩, there) else none

/-- What the pattern reads from a place on, when there is a boundary at both ends. -/
def readBounded? (pattern : Pattern) (here : Cursor) : Option (Capture × Cursor) :=
  if here.atBoundary then
    (pattern.read? here).filter fun (_, there) => there.atBoundary
  else none

/-- What the pattern reads at a byte position of a text, and the position where it ends. -/
def readAt? (pattern : Pattern) (text : Text) (pos : Nat) : Option (Capture × Nat) :=
  (cursorAt? text pos).bind fun here =>
    (pattern.read? here).map fun (capture, there) => (capture, there.pos)

/-- What is read is not empty and stands ahead of the place; the reading ends behind it. -/
theorem read?_eq_some {pattern : Pattern} {here there : Cursor} {capture : Capture}
    (h : pattern.read? here = some (capture, there)) :
    capture.text ≠ [] ∧ capture.text ++ there.ahead = here.ahead ∧
      there = here.forward capture.text.length ∧ pattern.admits there.ahead = true := by
  unfold read? at h
  split at h
  · simp at h
  · rename_i extent _
    dsimp only at h
    split at h
    · simp at h
    · rename_i text hne
      split at h
      · rename_i hfollow
        simp only [Option.some.injEq, Prod.mk.injEq] at h
        obtain ⟨rfl, rfl⟩ := h
        refine ⟨hne, ?_, ?_, hfollow⟩
        · simp
        · dsimp only
          rcases Nat.le_total extent.length here.ahead.length with hle | hle
          · rw [List.length_take, Nat.min_eq_left hle]
          · rw [List.length_take, Nat.min_eq_right hle]
            exact Cursor.forward_of_length_le hle
      · simp at h

end Pattern

/-! ## Words -/

/-- Whether a text begins with a word, under a comparison of characters. -/
def beginsWith (same : Char → Char → Bool) : (word text : Text) → Bool
  | [], _ => true
  | _ :: _, [] => false
  | w :: word, c :: text => same w c && beginsWith same word text

namespace Pattern

/-- One text, as it stands. -/
def exactly (word : Text) : Pattern where
  source := String.ofList word
  extent text := if beginsWith (fun a b => a = b) word text then some ⟨word.length, []⟩ else none
  follow := none

/-- Several words side by side. -/
def alternatives : List Text → String
  | [word] => String.ofList word
  | words => "(?:" ++ "|".intercalate (words.map String.ofList) ++ ")"

/-- The first of several words that is there, without regard to case. -/
def caseless (words : List Text) : Pattern where
  source := "(?i)" ++ alternatives words
  extent text := (words.find? fun word => beginsWith sameFold word text).map fun word =>
    ⟨word.length, []⟩
  follow := none

/-- One of several letters, without regard to case. The letter is the first group. -/
def caselessLetter (letters : Text) : Pattern where
  source := "(?i)([" ++ String.ofList letters ++ "])"
  extent
    | [] => none
    | c :: _ => if letters.any (fun letter => sameFold letter c) then some ⟨1, [some [c]]⟩ else none
  follow := none

end Pattern

end SpanishNumerals
