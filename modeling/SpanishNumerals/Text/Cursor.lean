-- A cursor is a place in a text: the characters behind it, nearest first, and those ahead.
-- Positions are counted in the bytes of the UTF-8 form. A position inside a character, or
-- past the end, is no place.
import SpanishNumerals.Text.CharClass

namespace SpanishNumerals

/-- The number of bytes of the UTF-8 form of a text. -/
def byteLength : Text → Nat
  | [] => 0
  | c :: text => c.utf8Size + byteLength text

@[simp]
theorem byteLength_append (a b : Text) : byteLength (a ++ b) = byteLength a + byteLength b := by
  induction a with
  | nil => simp [byteLength]
  | cons c a ih => simp only [List.cons_append, byteLength, ih, Nat.add_assoc]

@[simp]
theorem byteLength_reverse (text : Text) : byteLength text.reverse = byteLength text := by
  induction text with
  | nil => rfl
  | cons c text ih =>
    simp only [List.reverse_cons, byteLength_append, ih, byteLength]
    omega

/-- A place in a text. -/
structure Cursor where
  /-- What lies before the place, nearest first. -/
  behind : Text
  /-- What lies from the place on. -/
  ahead : Text
deriving DecidableEq

namespace Cursor

/-- The place before the first character. -/
def start (text : Text) : Cursor := ⟨[], text⟩

/-- The whole text of which this is a place. -/
def text (here : Cursor) : Text := here.behind.reverse ++ here.ahead

/-- The byte position of the place. -/
def pos (here : Cursor) : Nat := byteLength here.behind

/-- The place after the first `n` characters ahead, or the end. -/
def forward : Nat → Cursor → Cursor
  | 0, here => here
  | _ + 1, ⟨behind, []⟩ => ⟨behind, []⟩
  | n + 1, ⟨behind, c :: ahead⟩ => forward n ⟨c :: behind, ahead⟩

/-- Whether there is a boundary at the place. -/
def atBoundary (here : Cursor) : Bool := isBoundary here.behind.head? here.ahead.head?

/-- The first place from `⟨behind, ahead⟩` on that no blank follows. -/
def skipBlankFrom (behind : Text) : Text → Cursor
  | [] => ⟨behind, []⟩
  | c :: ahead => if isBlank c then skipBlankFrom (c :: behind) ahead else ⟨behind, c :: ahead⟩

/-- The first place from here on that no blank follows. -/
def skipBlank (here : Cursor) : Cursor := skipBlankFrom here.behind here.ahead

/-- The place `bytes` further on than `⟨behind, ahead⟩`, if there is one. -/
def seekFrom (behind : Text) : Text → Nat → Option Cursor
  | ahead, 0 => some ⟨behind, ahead⟩
  | [], _ + 1 => none
  | c :: ahead, bytes + 1 =>
    if c.utf8Size ≤ bytes + 1 then seekFrom (c :: behind) ahead (bytes + 1 - c.utf8Size) else none

/-- The places from `⟨behind, ahead⟩` on where a stretch may begin: at a character that is
no blank, after a boundary. -/
def segmentsFrom (behind : Text) : Text → List Cursor
  | [] => []
  | c :: ahead =>
    if classify c ≠ .blank && isBoundary behind.head? (some c) then
      ⟨behind, c :: ahead⟩ :: segmentsFrom (c :: behind) ahead
    else segmentsFrom (c :: behind) ahead

/-! ## What the steps keep -/

@[simp]
theorem ahead_forward (n : Nat) (here : Cursor) :
    (forward n here).ahead = here.ahead.drop n := by
  induction n generalizing here with
  | zero => rfl
  | succ n ih =>
    obtain ⟨behind, ahead⟩ := here
    cases ahead with
    | nil => rfl
    | cons c ahead => rw [forward, ih, List.drop_succ_cons]

@[simp]
theorem behind_forward (n : Nat) (here : Cursor) :
    (forward n here).behind = (here.ahead.take n).reverse ++ here.behind := by
  induction n generalizing here with
  | zero => rfl
  | succ n ih =>
    obtain ⟨behind, ahead⟩ := here
    cases ahead with
    | nil => rfl
    | cons c ahead =>
      rw [forward, ih]
      simp

/-- Two places are the same when the same lies behind them and ahead of them. -/
theorem eq_of_behind_ahead {a b : Cursor} (hbehind : a.behind = b.behind)
    (hahead : a.ahead = b.ahead) : a = b := by
  obtain ⟨_, _⟩ := a
  obtain ⟨_, _⟩ := b
  subst hbehind hahead
  rfl

/-- Past the end there is nowhere to go. -/
theorem forward_of_length_le {n : Nat} {here : Cursor} (h : here.ahead.length ≤ n) :
    forward n here = forward here.ahead.length here := by
  apply eq_of_behind_ahead
  · simp [List.take_of_length_le h]
  · simp [List.drop_of_length_le h]

theorem pos_forward (n : Nat) (here : Cursor) :
    (forward n here).pos = here.pos + byteLength (here.ahead.take n) := by
  simp [pos, Nat.add_comm]

theorem text_forward (n : Nat) (here : Cursor) : (forward n here).text = here.text := by
  induction n generalizing here with
  | zero => rfl
  | succ n ih =>
    obtain ⟨behind, ahead⟩ := here
    cases ahead with
    | nil => rfl
    | cons c ahead =>
      rw [forward, ih]
      simp [text]

theorem text_skipBlankFrom (behind ahead : Text) :
    (skipBlankFrom behind ahead).text = (Cursor.mk behind ahead).text := by
  induction ahead generalizing behind with
  | nil => rfl
  | cons c ahead ih =>
    unfold skipBlankFrom
    split
    · rw [ih]
      simp [text]
    · rfl

theorem text_skipBlank (here : Cursor) : here.skipBlank.text = here.text :=
  text_skipBlankFrom here.behind here.ahead

/-- Only blanks are skipped, and all of them. -/
theorem skipBlankFrom_spec (behind ahead : Text) :
    ∃ blanks : Text, (∀ c ∈ blanks, isBlank c = true) ∧
      ahead = blanks ++ (skipBlankFrom behind ahead).ahead ∧
      (skipBlankFrom behind ahead).behind = blanks.reverse ++ behind ∧
      ∀ c, (skipBlankFrom behind ahead).ahead.head? = some c → isBlank c = false := by
  induction ahead generalizing behind with
  | nil => exact ⟨[], by simp, rfl, rfl, by simp [skipBlankFrom]⟩
  | cons c ahead ih =>
    unfold skipBlankFrom
    split
    · rename_i hc
      obtain ⟨blanks, hall, hahead, hbehind, hnext⟩ := ih (c :: behind)
      refine ⟨c :: blanks, ?_, ?_, ?_, hnext⟩
      · intro d hd
        rcases List.mem_cons.mp hd with rfl | hd
        · exact hc
        · exact hall d hd
      · rw [List.cons_append, ← hahead]
      · rw [hbehind]
        simp
    · rename_i hc
      refine ⟨[], by simp, rfl, rfl, ?_⟩
      intro d hd
      simp only [List.head?_cons, Option.some.injEq] at hd
      subst hd
      simpa using hc

/-- The place after a beginning of the text is found at the length of that beginning. -/
theorem seekFrom_append (behind a b : Text) :
    seekFrom behind (a ++ b) (byteLength a) = some ⟨a.reverse ++ behind, b⟩ := by
  induction a generalizing behind with
  | nil =>
    cases b with
    | nil => rfl
    | cons c b => rfl
  | cons c a ih =>
    have hc := c.utf8Size_pos
    obtain ⟨n, hn⟩ : ∃ n, c.utf8Size + byteLength a = n + 1 :=
      ⟨c.utf8Size + byteLength a - 1, by omega⟩
    simp only [List.cons_append, byteLength, hn, seekFrom]
    have hle : c.utf8Size ≤ n + 1 := by omega
    have hsub : n + 1 - c.utf8Size = byteLength a := by omega
    rw [if_pos hle, hsub, ih]
    simp

theorem text_of_mem_segmentsFrom {behind ahead : Text} {here : Cursor}
    (h : here ∈ segmentsFrom behind ahead) : here.text = (Cursor.mk behind ahead).text := by
  induction ahead generalizing behind with
  | nil => simp [segmentsFrom] at h
  | cons c ahead ih =>
    unfold segmentsFrom at h
    split at h
    · rcases List.mem_cons.mp h with rfl | h
      · rfl
      · rw [ih h]
        simp [text]
    · rw [ih h]
      simp [text]

theorem seekFrom_eq_some {behind ahead : Text} {bytes : Nat} {there : Cursor}
    (h : seekFrom behind ahead bytes = some there) :
    there.text = (Cursor.mk behind ahead).text ∧ there.pos = byteLength behind + bytes := by
  induction ahead generalizing behind bytes with
  | nil =>
    cases bytes with
    | zero =>
      simp only [seekFrom, Option.some.injEq] at h
      subst h
      simp [pos]
    | succ bytes => simp [seekFrom] at h
  | cons c ahead ih =>
    cases bytes with
    | zero =>
      simp only [seekFrom, Option.some.injEq] at h
      subst h
      simp [pos]
    | succ bytes =>
      unfold seekFrom at h
      split at h
      · obtain ⟨htext, hpos⟩ := ih h
        refine ⟨?_, ?_⟩
        · rw [htext]
          simp [text]
        · rw [hpos]
          simp only [byteLength]
          omega
      · simp at h

end Cursor

/-! ## Places of a text -/

/-- The place of a text at a byte position, if the position is one. -/
def cursorAt? (text : Text) (pos : Nat) : Option Cursor := Cursor.seekFrom [] text pos

/-- The places of a text where a stretch may begin. -/
def segments (text : Text) : List Cursor := Cursor.segmentsFrom [] text

/-- The positions of a text where a stretch may begin. -/
def segmentStarts (text : Text) : List Nat := (segments text).map Cursor.pos

/-- The character that ends at a position. -/
def charBefore (text : Text) (pos : Nat) : Option Char :=
  (cursorAt? text pos).bind fun here => here.behind.head?

/-- The character that begins at a position. -/
def charAt (text : Text) (pos : Nat) : Option Char :=
  (cursorAt? text pos).bind fun here => here.ahead.head?

/-- The first position from `pos` on that no blank follows. What is no position stays. -/
def skipBlankAt (text : Text) (pos : Nat) : Nat :=
  match cursorAt? text pos with
  | some here => here.skipBlank.pos
  | none => pos

theorem text_of_cursorAt? {text : Text} {pos : Nat} {here : Cursor}
    (h : cursorAt? text pos = some here) : here.text = text ∧ here.pos = pos := by
  have := Cursor.seekFrom_eq_some h
  simpa [Cursor.text, byteLength] using this

theorem cursorAt?_append (a b : Text) :
    cursorAt? (a ++ b) (byteLength a) = some ⟨a.reverse, b⟩ := by
  rw [cursorAt?, Cursor.seekFrom_append, List.append_nil]

theorem text_of_mem_segments {text : Text} {here : Cursor} (h : here ∈ segments text) :
    here.text = text :=
  Cursor.text_of_mem_segmentsFrom h

end SpanishNumerals
