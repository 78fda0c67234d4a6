-- The analysis of a text. Saturation: the rules are applied to the text, pass after pass, until a
-- pass finds nothing new. Each pass works on what the passes before it have found. A number found
-- again at the same place is not new, whatever the rule. Selection: of the numerals found, the
-- longest is kept first, and of two as long the one found first; what overlaps a numeral kept
-- before is dropped.
import SpanishNumerals.Catalogue
import SpanishNumerals.Numeral
import SpanishNumerals.StableSort

namespace SpanishNumerals

/-! ## Reading a rule -/

/-- What a rule has read so far: where it begins, where it ends, and its nodes. -/
structure Reading where
  /-- The place where it begins. -/
  first : Cursor
  /-- The place where it ends. -/
  last : Cursor
  /-- One node for each element. -/
  window : Window

namespace Reading

/-- The text that a reading covers. -/
def text (reading : Reading) : Text :=
  reading.first.ahead.take (reading.first.ahead.length - reading.last.ahead.length)

/-- The numeral that a rule makes of a reading. -/
def numeral? (reading : Reading) (rule : Rule) : Option Numeral :=
  (rule.apply reading.window).map fun token =>
    ⟨reading.first.pos, reading.text, token, rule.name⟩

end Reading

/-- The ways to read an element from a place on: the node and the place where it ends. A
number is one that was found at that very place. -/
def readElement (found : List Numeral) (here : Cursor) : Element → List (Node × Cursor)
  | .text pattern =>
    (pattern.readBounded? here).toList.map fun (capture, there) => (.capture capture, there)
  | .number condition =>
    (found.filter fun n => n.start = here.pos && condition.accepts n.token).map fun n =>
      (.number n.token, here.forward n.text.length)

/-- The ways to read elements one after the other from a place on. Blanks may stand before
each of them. -/
def readElements (found : List Numeral) : List Element → Cursor → List (Window × Cursor)
  | [], here => [([], here)]
  | element :: elements, here =>
    (readElement found here.skipBlank element).flatMap fun (node, there) =>
      (readElements found elements there).map fun (window, last) => (node :: window, last)

/-- The ways to read the first element of a rule. Text begins where a stretch may begin; a
number begins where it was found. -/
def readFirst (text : Text) (found : List Numeral) : Element → List (Cursor × Node × Cursor)
  | .text pattern =>
    (segments text).filterMap fun here =>
      (pattern.readBounded? here).map fun (capture, there) => (here, .capture capture, there)
  | .number condition =>
    (found.filter fun n => condition.accepts n.token).filterMap fun n =>
      (cursorAt? text n.start).map fun here =>
        (here, .number n.token, here.forward n.text.length)

/-- The ways to read a rule in a text. A rule without elements reads nothing. -/
def readRule (text : Text) (found : List Numeral) (rule : Rule) : List Reading :=
  match rule.elements with
  | [] => []
  | element :: elements =>
    (readFirst text found element).flatMap fun (first, node, there) =>
      (readElements found elements there).map fun (window, last) => ⟨first, last, node :: window⟩

/-! ## Passes -/

/-- What the rules give in one pass, in the order of the rules and of their readings. -/
def proposals (rules : Registry) (text : Text) (found : List Numeral) : List Numeral :=
  rules.flatMap fun rule =>
    (readRule text found rule).filterMap fun reading => reading.numeral? rule

/-- The numerals that are new: not among the known ones, nor given earlier in the list. -/
def keepNew (known : List Numeral) : List Numeral → List Numeral
  | [] => []
  | n :: rest =>
    if known.any n.sameAs then keepNew known rest else n :: keepNew (n :: known) rest

theorem mem_of_mem_keepNew {known proposed : List Numeral} {n : Numeral}
    (h : n ∈ keepNew known proposed) : n ∈ proposed := by
  induction proposed generalizing known with
  | nil => simp [keepNew] at h
  | cons m rest ih =>
    unfold keepNew at h
    split at h
    · exact List.mem_cons_of_mem m (ih h)
    · rcases List.mem_cons.mp h with rfl | h
      · exact List.mem_cons_self
      · exact List.mem_cons_of_mem m (ih h)

/-- What is kept is no number known before at the same place. -/
theorem key_ne_of_mem_keepNew {known proposed : List Numeral} {n : Numeral}
    (h : n ∈ keepNew known proposed) : ∀ m ∈ known, n.key ≠ m.key := by
  induction proposed generalizing known with
  | nil => simp [keepNew] at h
  | cons p rest ih =>
    unfold keepNew at h
    split at h
    · exact ih h
    · rename_i hp
      rcases List.mem_cons.mp h with rfl | h
      · intro m hm hkey
        exact hp (List.any_eq_true.mpr ⟨m, hm, (Numeral.sameAs_iff n m).mpr hkey⟩)
      · exact fun m hm => ih h m (List.mem_cons_of_mem p hm)

/-- What is kept has one numeral for each number and place. -/
theorem pairwise_keepNew (known proposed : List Numeral) :
    (keepNew known proposed).Pairwise fun a b => a.key ≠ b.key := by
  induction proposed generalizing known with
  | nil => exact List.Pairwise.nil
  | cons p rest ih =>
    unfold keepNew
    split
    · exact ih known
    · refine List.pairwise_cons.mpr ⟨?_, ih (p :: known)⟩
      intro m hm hkey
      exact key_ne_of_mem_keepNew hm p List.mem_cons_self hkey.symm

/-- Nothing is lost: each number proposed for a place is known before or kept. -/
theorem key_mem_of_proposed {known proposed : List Numeral} {n : Numeral} (h : n ∈ proposed) :
    ∃ m, (m ∈ known ∨ m ∈ keepNew known proposed) ∧ m.key = n.key := by
  induction proposed generalizing known with
  | nil => simp at h
  | cons p rest ih =>
    unfold keepNew
    split
    · rename_i hp
      rcases List.mem_cons.mp h with rfl | h
      · obtain ⟨m, hm, hsame⟩ := List.any_eq_true.mp hp
        exact ⟨m, Or.inl hm, ((Numeral.sameAs_iff n m).mp hsame).symm⟩
      · exact ih h
    · rcases List.mem_cons.mp h with rfl | h
      · exact ⟨n, Or.inr List.mem_cons_self, rfl⟩
      · obtain ⟨m, hm, hkey⟩ := @ih (p :: known) h
        refine ⟨m, ?_, hkey⟩
        rcases hm with hm | hm
        · rcases List.mem_cons.mp hm with rfl | hm
          · exact Or.inr List.mem_cons_self
          · exact Or.inl hm
        · exact Or.inr (List.mem_cons_of_mem p hm)

/-- Up to so many passes more, the last of them the first that finds nothing new. -/
def saturate (rules : Registry) (text : Text) : (passes : Nat) → List Numeral → List Numeral
  | 0, found => found
  | passes + 1, found =>
    match keepNew found (proposals rules text found) with
    | [] => found
    | fresh => saturate rules text passes (found ++ fresh)

/-- The number of passes unless another is asked for. -/
def defaultPasses : Nat := 32

/-- All that the rules find in a text, in the order of finding. There is at least one pass.
Rules of text alone find nothing new after the first. -/
def candidates (rules : Registry) (text : Text) (passes : Nat) : List Numeral :=
  saturate (rules.filter Rule.composes) text (passes - 1)
    (keepNew [] (proposals rules text []))

/-! ## Selection -/

/-- Keeps each numeral that overlaps none kept before. -/
def keepApart (kept : List Numeral) : List Numeral → List Numeral
  | [] => kept
  | n :: rest =>
    if kept.any (·.overlaps n) then keepApart kept rest else keepApart (kept ++ [n]) rest

/-- The numerals by falling size; those of one size stay in order. -/
def bySize (found : List Numeral) : List Numeral :=
  sortBy (fun a b => b.size ≤ a.size) found

/-- The numerals that are kept, in the order of the text. -/
def select (found : List Numeral) : List Numeral :=
  sortBy (fun a b => a.start ≤ b.start) (keepApart [] (bySize found))

/-! ## Analysis -/

/-- The numerals of a text that are kept, in the order of the text. -/
def analyze (rules : Registry) (text : Text) (passes : Nat) : List Numeral :=
  select (candidates rules text passes)

/-- The Spanish numerals of a text. -/
def parseNumerals (text : Text) : List Numeral := analyze spanishRules text defaultPasses

end SpanishNumerals
