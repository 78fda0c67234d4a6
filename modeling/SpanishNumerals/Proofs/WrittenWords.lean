-- Texts of words. Between the words there are blanks, so a stretch can begin at a word only,
-- and a rule reads such a text word by word: what its elements take is a row of whole words.
import SpanishNumerals.Proofs.Characters
import SpanishNumerals.Proofs.Ending
import SpanishNumerals.Proofs.Heights

namespace SpanishNumerals

/-! ## Words -/

/-- A word of a text: the blanks before it, and its characters. -/
structure Word where
  /-- The blanks before it. -/
  gap : Text
  /-- Its characters. -/
  text : Text
  /-- They are blanks. -/
  blank : ∀ c ∈ gap, isBlank c = true

theorem blank_nothing : ∀ c ∈ ([] : Text), isBlank c = true := by decide

theorem blank_space : ∀ c ∈ [' '], isBlank c = true := by decide

theorem blank_two_spaces : ∀ c ∈ [' ', ' '], isBlank c = true := by decide

theorem blank_tab : ∀ c ∈ ['\t'], isBlank c = true := by decide

/-- The text of some words. -/
def written (words : List Word) : Text := words.flatMap fun word => word.gap ++ word.text

/-- There are blanks before each word but the first. -/
def Spaced : List Word → Prop
  | [] => True
  | word :: words => word.gap = [] ∧ ∀ other ∈ words, other.gap ≠ []

/-- The words have blanks between them, and none can be cut through: each is made of letters
only or of figures only, one at least. -/
structure Unbroken (words : List Word) : Prop where
  spaced : Spaced words
  nonempty : ∀ word ∈ words, word.text ≠ []
  joined : ∀ word ∈ words, ∀ c ∈ word.text, ∀ d ∈ word.text, separates c d = false

/-- No character of such a word is a blank. -/
theorem Unbroken.not_blank {words : List Word} (h : Unbroken words) {word : Word}
    (hword : word ∈ words) {c : Char} (hc : c ∈ word.text) : classify c ≠ .blank := by
  intro hblank
  have hjoined := h.joined word hword c hc c hc
  simp [separates, hblank] at hjoined

theorem written_append (a b : List Word) : written (a ++ b) = written a ++ written b :=
  List.flatMap_append

theorem written_cons (word : Word) (words : List Word) :
    written (word :: words) = word.gap ++ (word.text ++ written words) := by
  rw [written, List.flatMap_cons, List.append_assoc]
  rfl

theorem gap_ne_nil {before after : List Word} {word : Word}
    (h : Spaced (before ++ word :: after)) (hbefore : before ≠ []) : word.gap ≠ [] := by
  cases before with
  | nil => exact absurd rfl hbefore
  | cons first before =>
    exact h.2 word (List.mem_append_right _ List.mem_cons_self)

theorem gap_eq_nil {after : List Word} {word : Word} (h : Spaced (word :: after)) :
    word.gap = [] := h.1

/-! ## Their places -/

/-- The place after the words `before`, when the words `after` follow. -/
def placeAfter (before after : List Word) : Cursor := ⟨(written before).reverse, written after⟩

/-- The place where the word begins that comes after `before`. -/
def placeOf (before : List Word) (word : Word) (after : List Word) : Cursor :=
  (Cursor.start (word.text ++ written after)).after (written before ++ word.gap)

section Places

variable (before after : List Word) (word : Word)

theorem text_placeAfter : (placeAfter before after).text = written (before ++ after) := by
  simp [placeAfter, Cursor.text, written_append]

theorem pos_placeAfter : (placeAfter before after).pos = byteLength (written before) := by
  simp [placeAfter, Cursor.pos]

theorem cursorAt?_after : cursorAt? (written (before ++ after)) (byteLength (written before)) =
    some (placeAfter before after) :=
  cursorAt?_eq_some.mpr ⟨text_placeAfter before after, pos_placeAfter before after⟩

theorem text_placeOf : (placeOf before word after).text = written (before ++ word :: after) := by
  simp [placeOf, Cursor.text, Cursor.after, Cursor.start, written_append, written_cons]

theorem pos_placeOf : (placeOf before word after).pos =
    byteLength (written before) + byteLength word.gap := by
  simp [placeOf, Cursor.pos, Cursor.after, Cursor.start, Nat.add_comm]

theorem placeAfter_word :
    (Cursor.mk word.text.reverse (written after)).after (written before ++ word.gap) =
      placeAfter (before ++ [word]) after := by
  simp [Cursor.after, placeAfter, written]

end Places

section Unbroken

variable {before after : List Word} {word : Word}

/-- No word begins with a blank. -/
theorem head_not_blank (h : Unbroken (before ++ word :: after)) :
    ∀ c, (word.text ++ written after).head? = some c → isBlank c = false := by
  have hmem : word ∈ before ++ word :: after := List.mem_append_right _ List.mem_cons_self
  obtain ⟨c, rest, htext⟩ := List.exists_cons_of_ne_nil (h.nonempty word hmem)
  intro d hd
  rw [htext] at hd
  obtain rfl := Option.some.inj hd
  exact isBlank_eq_false (h.not_blank hmem (htext ▸ List.mem_cons_self))

/-- Blanks skipped, one comes from the end of a word to the beginning of the next. -/
theorem skipBlank_placeAfter (h : Unbroken (before ++ word :: after)) :
    (placeAfter before (word :: after)).skipBlank = placeOf before word after := by
  apply Cursor.skipBlank_of_reaches word.blank
  · refine ⟨written_cons word after, ?_⟩
    simp [placeOf, placeAfter, Cursor.after, Cursor.start]
  · exact head_not_blank h

theorem skipBlankAt_written (h : Unbroken (before ++ word :: after)) :
    skipBlankAt (written (before ++ word :: after)) (byteLength (written before)) =
      byteLength (written before) + byteLength word.gap := by
  rw [← pos_placeOf before after word, ← skipBlank_placeAfter h]
  simp only [skipBlankAt, cursorAt?_after]

theorem skipBlankAt_end (words : List Word) :
    skipBlankAt (written words) (byteLength (written words)) = byteLength (written words) := by
  have hend := cursorAt?_after words []
  rw [List.append_nil] at hend
  simp only [skipBlankAt, hend]
  exact pos_placeAfter words []

/-- What follows a word is the end or a blank. -/
theorem blank_after_word (h : Spaced (before ++ word :: after)) :
    ∀ c, (written after).head? = some c → isBlank c = true := by
  intro c hc
  cases after with
  | nil => simp [written] at hc
  | cons next after =>
    have hgap : next.gap ≠ [] := by
      have hspaced : Spaced ((before ++ [word]) ++ next :: after) := by
        rw [List.append_assoc]
        exact h
      exact gap_ne_nil hspaced (by simp)
    obtain ⟨d, gap, hd⟩ := List.exists_cons_of_ne_nil hgap
    rw [written_cons, hd] at hc
    obtain rfl := Option.some.inj hc
    exact next.blank d (hd ▸ List.mem_cons_self)

/-- Before a word there is the beginning or a blank. -/
theorem boundary_before_word (h : Spaced (before ++ word :: after)) (next : Option Char) :
    isBoundary (written before ++ word.gap).reverse.head? next = true := by
  cases before with
  | nil =>
    rw [gap_eq_nil h]
    exact isBoundary_none_left next
  | cons first before =>
    have hgap := gap_ne_nil h (List.cons_ne_nil first before)
    have hlast : (written (first :: before) ++ word.gap).reverse.head? =
        some (word.gap.getLast hgap) := by
      rw [List.head?_reverse, List.getLast?_append, List.getLast?_eq_getLast_of_ne_nil hgap]
      rfl
    rw [hlast]
    cases next with
    | none => rfl
    | some c => exact separates_of_isBlank_left c (word.blank _ (List.getLast_mem hgap))

end Unbroken

/-! ## Where a stretch may begin -/

/-- A place with a boundary before a character that is no blank is the beginning of a word. -/
theorem begins_word {words : List Word}
    (hjoined : ∀ w ∈ words, ∀ c ∈ w.text, ∀ d ∈ w.text, separates c d = false)
    {passed rest : Text} {c : Char} (htext : written words = passed ++ c :: rest)
    (hc : classify c ≠ .blank) (hboundary : isBoundary passed.reverse.head? (some c) = true) :
    ∃ before word after, words = before ++ word :: after ∧
      passed = written before ++ word.gap := by
  induction words generalizing passed with
  | nil => simp [written] at htext
  | cons word words ih =>
    have hrest : ∀ w ∈ words, ∀ c ∈ w.text, ∀ d ∈ w.text, separates c d = false :=
      fun w hw => hjoined w (List.mem_cons_of_mem word hw)
    -- The place may lie behind this word.
    have hlater : ∀ more, passed = (word.gap ++ word.text) ++ more →
        written words = more ++ c :: rest → ∃ before w after,
          word :: words = before ++ w :: after ∧ passed = written before ++ w.gap := by
      rintro more rfl hmore
      have hmoreboundary : isBoundary more.reverse.head? (some c) = true := by
        rw [List.reverse_append] at hboundary
        cases hhead : more.reverse with
        | nil => rfl
        | cons d tail =>
          rw [hhead] at hboundary
          exact hboundary
      obtain ⟨before, w, after, rfl, rfl⟩ := ih hrest hmore hmoreboundary
      exact ⟨word :: before, w, after, rfl, by simp [written_cons]⟩
    have hhere : passed = word.gap → ∃ before w after,
        word :: words = before ++ w :: after ∧ passed = written before ++ w.gap := by
      rintro rfl
      exact ⟨[], word, words, rfl, rfl⟩
    rw [written_cons, ← List.append_assoc] at htext
    rcases List.append_eq_append_iff.mp htext with ⟨more, hpassed, hmore⟩ | ⟨tail, hword, htail⟩
    · exact hlater more hpassed hmore
    · cases tail with
      | nil =>
        rw [List.append_nil] at hword
        exact hlater [] (by rw [hword, List.append_nil]) htail.symm
      | cons d tail =>
        obtain ⟨rfl, _⟩ := List.cons.inj htail
        rcases List.append_eq_append_iff.mp hword with ⟨front, rfl, hfront⟩ | ⟨front, hgap, hfront⟩
        · rcases List.eq_nil_or_concat front with rfl | ⟨front, e, rfl⟩
          · exact hhere (List.append_nil _)
          · -- Between two characters of the word there is no boundary.
            have hinside : isBoundary (some e) (some c) = true := by
              simpa using hboundary
            have hword : separates e c = false :=
              hjoined word List.mem_cons_self e (by rw [hfront]; simp) c (by rw [hfront]; simp)
            rw [isBoundary, hword] at hinside
            exact absurd hinside (by decide)
        · cases front with
          | nil =>
            rw [List.append_nil] at hgap
            exact hhere hgap.symm
          | cons d front =>
            obtain ⟨rfl, _⟩ := List.cons.inj hfront
            have hblank := word.blank c (by rw [hgap]; simp)
            exact absurd (classify_of_isBlank hblank) hc

theorem exists_placeOf_of_mem_segments {words : List Word} (h : Unbroken words) {here : Cursor}
    (hhere : here ∈ segments (written words)) :
    ∃ before word after, words = before ++ word :: after ∧ here = placeOf before word after := by
  obtain ⟨htext, c, rest, hahead, hc, hboundary⟩ := mem_segments.mp hhere
  have hsplit : written words = here.behind.reverse ++ c :: rest := by
    rw [← htext, Cursor.text, hahead]
  rw [← List.reverse_reverse here.behind] at hboundary
  obtain ⟨before, word, after, rfl, hpassed⟩ := begins_word h.joined hsplit hc hboundary
  refine ⟨before, word, after, rfl, Cursor.eq_of_pos ?_ ?_⟩
  · rw [htext, text_placeOf]
  · rw [pos_placeOf, Cursor.pos, ← byteLength_reverse, hpassed, byteLength_append]

theorem placeOf_mem_segments {before after : List Word} {word : Word}
    (h : Unbroken (before ++ word :: after)) :
    placeOf before word after ∈ segments (written (before ++ word :: after)) := by
  have hmem : word ∈ before ++ word :: after := List.mem_append_right _ List.mem_cons_self
  obtain ⟨c, rest, htext⟩ := List.exists_cons_of_ne_nil (h.nonempty word hmem)
  refine mem_segments.mpr ⟨text_placeOf before after word, c, rest ++ written after, ?_, ?_, ?_⟩
  · simp [placeOf, Cursor.after, Cursor.start, htext]
  · exact h.not_blank hmem (htext ▸ List.mem_cons_self)
  · exact boundary_before_word h.spaced (some c)

end SpanishNumerals
