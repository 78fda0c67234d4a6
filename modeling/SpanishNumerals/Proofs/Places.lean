-- The places of a text. A byte position names one place or none. From one place to a later
-- one some characters are passed. A numeral stands in a text when the text has its characters
-- at its position.
import SpanishNumerals.Numeral
import SpanishNumerals.Pattern

namespace SpanishNumerals

theorem byteLength_pos {text : Text} (h : text ≠ []) : 0 < byteLength text := by
  cases text with
  | nil => exact absurd rfl h
  | cons c text =>
    have := c.utf8Size_pos
    simp only [byteLength]
    omega

/-- Of two beginnings of a text the longer one goes on where the other ends. -/
theorem exists_between_of_byteLength_le {a b c d : Text} (h : a ++ b = c ++ d)
    (hle : byteLength a ≤ byteLength c) : ∃ between, c = a ++ between ∧ b = between ++ d := by
  rcases List.append_eq_append_iff.mp h with hc | ⟨extra, rfl, rfl⟩
  · exact hc
  · cases extra with
    | nil => exact ⟨[], by simp, rfl⟩
    | cons x extra =>
      have := byteLength_pos (List.cons_ne_nil x extra)
      rw [byteLength_append] at hle
      omega

/-- Two beginnings of a text that are as long are the same. -/
theorem append_inj_of_byteLength_eq {a b c d : Text} (h : a ++ b = c ++ d)
    (heq : byteLength a = byteLength c) : a = c ∧ b = d := by
  obtain ⟨between, rfl, rfl⟩ := exists_between_of_byteLength_le h (Nat.le_of_eq heq)
  cases between with
  | nil => simp
  | cons x between =>
    have := byteLength_pos (List.cons_ne_nil x between)
    rw [byteLength_append] at heq
    omega

/-- A character that is not read stands before or behind what is read. -/
theorem split_at_unread {front read back before after : Text} {c : Char}
    (h : front ++ read ++ back = before ++ c :: after) (hc : c ∉ read) :
    (∃ between, before = front ++ read ++ between ∧ back = between ++ c :: after) ∨
      ∃ between, front = before ++ c :: between ∧ after = between ++ read ++ back := by
  rcases List.append_eq_append_iff.mp h with ⟨between, hbefore, hback⟩ | ⟨extra, hread, hafter⟩
  · exact Or.inl ⟨between, hbefore, hback⟩
  · cases extra with
    | nil => exact Or.inl ⟨[], by simpa using hread.symm, hafter.symm⟩
    | cons d extra =>
      obtain ⟨rfl, rfl⟩ := List.cons.inj hafter
      right
      rcases List.append_eq_append_iff.mp hread with ⟨left, _, rfl⟩ | ⟨left, rfl, hover⟩
      · exact absurd (List.mem_append_right left List.mem_cons_self) hc
      · cases left with
        | nil =>
          rw [List.nil_append] at hover
          exact absurd (hover ▸ List.mem_cons_self) hc
        | cons e left =>
          obtain ⟨rfl, rfl⟩ := List.cons.inj hover
          exact ⟨left, rfl, rfl⟩

/-! ## Positions -/

theorem cursorAt?_eq_some {text : Text} {pos : Nat} {here : Cursor} :
    cursorAt? text pos = some here ↔ here.text = text ∧ here.pos = pos := by
  constructor
  · exact text_of_cursorAt?
  · rintro ⟨rfl, rfl⟩
    obtain ⟨behind, ahead⟩ := here
    have h := cursorAt?_append behind.reverse ahead
    rwa [byteLength_reverse, List.reverse_reverse] at h

/-- A position names at most one place. -/
theorem Cursor.eq_of_pos {a b : Cursor} (htext : a.text = b.text) (hpos : a.pos = b.pos) :
    a = b := by
  have ha : cursorAt? b.text b.pos = some a := cursorAt?_eq_some.mpr ⟨htext, hpos⟩
  have hb : cursorAt? b.text b.pos = some b := cursorAt?_eq_some.mpr ⟨rfl, rfl⟩
  rw [ha] at hb
  exact Option.some.inj hb

theorem skipBlankAt_pos (here : Cursor) : skipBlankAt here.text here.pos = here.skipBlank.pos := by
  have h : cursorAt? here.text here.pos = some here := cursorAt?_eq_some.mpr ⟨rfl, rfl⟩
  simp only [skipBlankAt, h]

/-! ## What lies between two places -/

namespace Cursor

/-- From `here` one comes to `there` past the characters `passed`. -/
def Reaches (here : Cursor) (passed : Text) (there : Cursor) : Prop :=
  here.ahead = passed ++ there.ahead ∧ there.behind = passed.reverse ++ here.behind

namespace Reaches

variable {a b c : Cursor} {p q : Text}

theorem refl (a : Cursor) : a.Reaches [] a := ⟨rfl, rfl⟩

theorem trans (hab : a.Reaches p b) (hbc : b.Reaches q c) : a.Reaches (p ++ q) c := by
  refine ⟨?_, ?_⟩
  · rw [hab.1, hbc.1, List.append_assoc]
  · rw [hbc.2, hab.2, List.reverse_append, List.append_assoc]

theorem text_eq (h : a.Reaches p b) : b.text = a.text := by
  simp [text, h.1, h.2]

theorem pos_eq (h : a.Reaches p b) : b.pos = a.pos + byteLength p := by
  simp [pos, h.2, Nat.add_comm]

/-- To come to a later place one passes something. -/
theorem ne_nil (h : a.Reaches p b) (hlt : a.pos < b.pos) : p ≠ [] := by
  rintro rfl
  rw [h.pos_eq] at hlt
  exact absurd hlt (Nat.lt_irrefl _)

end Reaches

theorem reaches_forward {here : Cursor} {passed rest : Text} (h : here.ahead = passed ++ rest) :
    here.Reaches passed (here.forward passed.length) := by
  refine ⟨?_, ?_⟩
  · simp [h]
  · simp [h]

theorem reaches_skipBlank (here : Cursor) :
    ∃ blanks : Text, (∀ c ∈ blanks, isBlank c = true) ∧ here.Reaches blanks here.skipBlank := by
  obtain ⟨blanks, hall, hahead, hbehind, _⟩ := skipBlankFrom_spec here.behind here.ahead
  exact ⟨blanks, hall, hahead, hbehind⟩

/-- Past blanks, to a place that no blank follows: that is where the skipping ends. -/
theorem skipBlank_of_reaches {here there : Cursor} {blanks : Text}
    (hall : ∀ c ∈ blanks, isBlank c = true) (h : here.Reaches blanks there)
    (hnext : ∀ c, there.ahead.head? = some c → isBlank c = false) : here.skipBlank = there := by
  obtain ⟨behind, ahead⟩ := here
  obtain ⟨behind', ahead'⟩ := there
  obtain ⟨hahead, hbehind⟩ := h
  dsimp only at hahead hbehind hnext
  subst hahead hbehind
  unfold skipBlank
  dsimp only
  induction blanks generalizing behind with
  | nil =>
    cases ahead' with
    | nil => rfl
    | cons c ahead' => simp [skipBlankFrom, hnext c rfl]
  | cons c blanks ih =>
    have hc : isBlank c = true := hall c List.mem_cons_self
    simp only [List.cons_append, skipBlankFrom, hc, if_true]
    rw [ih (fun d hd => hall d (List.mem_cons_of_mem c hd))]
    simp

/-- Of two places of a text one comes from the first to the second. -/
theorem reaches_of_pos_le {here there : Cursor} (htext : here.text = there.text)
    (hpos : here.pos ≤ there.pos) : ∃ passed, here.Reaches passed there := by
  have hsplit : here.behind.reverse ++ here.ahead = there.behind.reverse ++ there.ahead := htext
  obtain ⟨passed, hbehind, hahead⟩ :=
    exists_between_of_byteLength_le hsplit (by simpa [pos] using hpos)
  refine ⟨passed, hahead, ?_⟩
  rw [← List.reverse_reverse there.behind, hbehind, List.reverse_append, List.reverse_reverse]

/-- A place between two others parts what lies between them. -/
theorem exists_between {here place there : Cursor} {passed : Text}
    (hreach : here.Reaches passed there) (htext : place.text = here.text)
    (hfrom : here.pos ≤ place.pos) (hto : place.pos ≤ there.pos) :
    ∃ left right, passed = left ++ right ∧ here.Reaches left place ∧
      place.Reaches right there := by
  obtain ⟨left, hleft⟩ := reaches_of_pos_le htext.symm hfrom
  obtain ⟨right, hright⟩ := reaches_of_pos_le (htext.trans hreach.text_eq.symm) hto
  refine ⟨left, right, ?_, hleft, hright⟩
  have hahead := (hleft.trans hright).1
  rw [hreach.1] at hahead
  exact List.append_cancel_right hahead

theorem reaches_of_read? {pattern : Pattern} {here there : Cursor} {capture : Capture}
    (h : pattern.read? here = some (capture, there)) : here.Reaches capture.text there := by
  obtain ⟨_, hahead, hthere, _⟩ := Pattern.read?_eq_some h
  rw [hthere]
  exact reaches_forward hahead.symm

end Cursor

/-- A bounded reading is a reading with a boundary at both ends. -/
theorem Pattern.readBounded?_eq_some {pattern : Pattern} {here there : Cursor}
    {capture : Capture} :
    pattern.readBounded? here = some (capture, there) ↔
      here.atBoundary = true ∧ pattern.read? here = some (capture, there) ∧
        there.atBoundary = true := by
  unfold readBounded?
  split
  · rename_i h
    simp [h, Option.filter_eq_some_iff]
  · rename_i h
    simp [h]

/-! ## Where a stretch may begin -/

/-- The place before a character is one of them or not; the others lie past it. -/
theorem Cursor.mem_segmentsFrom_cons {behind ahead : Text} {d : Char} {here : Cursor} :
    here ∈ segmentsFrom behind (d :: ahead) ↔
      (classify d ≠ .blank ∧ isBoundary behind.head? (some d) = true ∧
        here = ⟨behind, d :: ahead⟩) ∨ here ∈ segmentsFrom (d :: behind) ahead := by
  simp only [segmentsFrom]
  split
  · rename_i h
    simp only [Bool.and_eq_true, decide_eq_true_eq] at h
    rw [List.mem_cons]
    simp only [h, ne_eq, not_false_eq_true, true_and]
  · rename_i h
    simp only [Bool.and_eq_true, decide_eq_true_eq, not_and] at h
    constructor
    · exact Or.inr
    · rintro (⟨h1, h2, _⟩ | h1)
      · exact absurd h2 (h h1)
      · exact h1

theorem Cursor.mem_segmentsFrom {behind ahead : Text} {here : Cursor} :
    here ∈ segmentsFrom behind ahead ↔
      ∃ passed c rest, (Cursor.mk behind ahead).Reaches passed here ∧ here.ahead = c :: rest ∧
        classify c ≠ .blank ∧ isBoundary here.behind.head? (some c) = true := by
  induction ahead generalizing behind with
  | nil =>
    simp only [segmentsFrom, List.not_mem_nil, false_iff]
    rintro ⟨passed, c, rest, ⟨hahead, _⟩, hnext, _⟩
    rw [hnext] at hahead
    simp at hahead
  | cons d ahead ih =>
    rw [mem_segmentsFrom_cons, ih]
    constructor
    · rintro (⟨hd, hb, rfl⟩ | ⟨passed, c, rest, ⟨hahead, hbehind⟩, hnext⟩)
      · exact ⟨[], d, ahead, Reaches.refl _, rfl, hd, hb⟩
      · exact ⟨d :: passed, c, rest, ⟨congrArg (d :: ·) hahead, by simp [hbehind]⟩, hnext⟩
    · rintro ⟨passed, c, rest, ⟨hahead, hbehind⟩, hnext, hc, hb⟩
      cases passed with
      | nil =>
        simp only [List.nil_append, List.reverse_nil] at hahead hbehind
        obtain rfl : here = ⟨behind, d :: ahead⟩ := eq_of_behind_ahead hbehind hahead.symm
        obtain ⟨rfl, rfl⟩ := List.cons.inj hnext
        exact Or.inl ⟨hc, hb, rfl⟩
      | cons e passed =>
        obtain ⟨rfl, hrest⟩ := List.cons.inj hahead
        exact Or.inr ⟨passed, c, rest, ⟨hrest, by simp [hbehind]⟩, hnext, hc, hb⟩

/-- A stretch may begin at a place of the text with a boundary that a character follows
which is no blank. -/
theorem mem_segments {text : Text} {here : Cursor} :
    here ∈ segments text ↔ here.text = text ∧
      ∃ c rest, here.ahead = c :: rest ∧ classify c ≠ .blank ∧
        isBoundary here.behind.head? (some c) = true := by
  unfold segments
  rw [Cursor.mem_segmentsFrom]
  constructor
  · rintro ⟨passed, c, rest, hreach, hnext⟩
    exact ⟨hreach.text_eq, c, rest, hnext⟩
  · rintro ⟨rfl, c, rest, hnext⟩
    exact ⟨here.behind.reverse, c, rest, ⟨rfl, by simp⟩, hnext⟩

/-! ## Numerals in a text -/

/-- The text has the characters of the numeral, one at least, at its position. -/
def Numeral.StandsIn (n : Numeral) (text : Text) : Prop :=
  n.text ≠ [] ∧ ∃ first last : Cursor, first.text = text ∧ first.pos = n.start ∧
    first.Reaches n.text last

namespace Numeral.StandsIn

variable {n : Numeral} {text : Text}

theorem size_pos (h : n.StandsIn text) : 0 < n.size := byteLength_pos h.1

theorem start_lt_stop (h : n.StandsIn text) : n.start < n.stop :=
  Nat.lt_add_of_pos_right h.size_pos

theorem stop_le (h : n.StandsIn text) : n.stop ≤ byteLength text := by
  obtain ⟨_, first, last, rfl, hpos, hreach⟩ := h
  have hlast : last.pos = n.stop := by rw [hreach.pos_eq, hpos, stop, size]
  rw [← hlast, ← hreach.text_eq]
  simp [Cursor.pos, Cursor.text]

/-- The place where a numeral begins, and from there the place where it ends. -/
theorem cursor (h : n.StandsIn text) :
    ∃ here, cursorAt? text n.start = some here ∧
      here.Reaches n.text (here.forward n.text.length) := by
  obtain ⟨_, first, last, htext, hpos, hreach⟩ := h
  exact ⟨first, cursorAt?_eq_some.mpr ⟨htext, hpos⟩, Cursor.reaches_forward hreach.1⟩

/-- The place where a numeral ends. -/
theorem last_cursor (h : n.StandsIn text) : ∃ here, cursorAt? text n.stop = some here := by
  obtain ⟨here, hhere, hreach⟩ := h.cursor
  obtain ⟨rfl, hpos⟩ := cursorAt?_eq_some.mp hhere
  refine ⟨here.forward n.text.length, cursorAt?_eq_some.mpr ⟨hreach.text_eq, ?_⟩⟩
  rw [hreach.pos_eq, hpos, stop, size]

/-- Behind a place in a numeral stands a character of the numeral. -/
theorem mem_behind (h : n.StandsIn text) {here : Cursor} (htext : here.text = text)
    (hfrom : n.start < here.pos) (hto : here.pos ≤ n.stop) :
    ∃ c ∈ n.text, here.behind.head? = some c := by
  obtain ⟨_, first, last, rfl, hpos, hreach⟩ := h
  have hlast : last.pos = n.stop := by rw [hreach.pos_eq, hpos, stop, size]
  obtain ⟨left, right, hsplit, hleft, _⟩ :=
    Cursor.exists_between hreach htext (by omega) (by omega)
  have hne : left.reverse ≠ [] := by simpa using hleft.ne_nil (by omega)
  obtain ⟨c, more, hc⟩ := List.exists_cons_of_ne_nil hne
  refine ⟨c, ?_, by rw [hleft.2, hc]; rfl⟩
  rw [hsplit, List.mem_append, ← List.mem_reverse, hc]
  exact Or.inl List.mem_cons_self

/-- Ahead of a place in a numeral stands a character of the numeral. -/
theorem mem_ahead (h : n.StandsIn text) {here : Cursor} (htext : here.text = text)
    (hfrom : n.start ≤ here.pos) (hto : here.pos < n.stop) :
    ∃ c ∈ n.text, here.ahead.head? = some c := by
  obtain ⟨_, first, last, rfl, hpos, hreach⟩ := h
  have hlast : last.pos = n.stop := by rw [hreach.pos_eq, hpos, stop, size]
  obtain ⟨left, right, hsplit, _, hright⟩ :=
    Cursor.exists_between hreach htext (by omega) (by omega)
  obtain ⟨c, more, rfl⟩ := List.exists_cons_of_ne_nil (hright.ne_nil (by omega))
  exact ⟨c, by simp [hsplit], by rw [hright.1]; rfl⟩

end Numeral.StandsIn

end SpanishNumerals
