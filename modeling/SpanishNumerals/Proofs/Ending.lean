-- What a text finds at its end. When a boundary parts a text into a beginning and an ending,
-- the numerals that begin in the ending are those of the ending by itself, pass by pass and in
-- the same order. Nothing that is read looks back further than one character.
import Mathlib.Data.List.Basic
import SpanishNumerals.Proofs.Derivation

namespace SpanishNumerals

/-! ## Places of the ending -/

namespace Cursor

/-- The same place when `before` comes before the text. -/
def after (before : Text) (here : Cursor) : Cursor := ⟨here.behind ++ before.reverse, here.ahead⟩

variable (before : Text) (here : Cursor)

@[simp]
theorem pos_after : (here.after before).pos = byteLength before + here.pos := by
  simp [after, pos, Nat.add_comm]

theorem forward_after (n : Nat) :
    (here.after before).forward n = (here.forward n).after before := by
  induction n generalizing here with
  | zero => rfl
  | succ n ih =>
    obtain ⟨behind, ahead⟩ := here
    cases ahead with
    | nil => rfl
    | cons c ahead => exact ih ⟨c :: behind, ahead⟩

theorem skipBlank_after : (here.after before).skipBlank = here.skipBlank.after before := by
  obtain ⟨behind, ahead⟩ := here
  unfold skipBlank after
  dsimp only
  induction ahead generalizing behind with
  | nil => rfl
  | cons c ahead ih =>
    simp only [skipBlankFrom]
    split
    · exact ih (c :: behind)
    · rfl

/-- A boundary at the cut makes the boundaries of the ending those of the whole text. -/
theorem atBoundary_after (hcut : isBoundary before.reverse.head? here.text.head? = true) :
    (here.after before).atBoundary = here.atBoundary := by
  obtain ⟨behind, ahead⟩ := here
  cases behind with
  | nil => simpa [atBoundary, after, text] using hcut
  | cons c behind => rfl

end Cursor

theorem seekFrom_after (before behind ahead : Text) (bytes : Nat) :
    Cursor.seekFrom (behind ++ before.reverse) ahead bytes =
      (Cursor.seekFrom behind ahead bytes).map (Cursor.after before) := by
  induction ahead generalizing behind bytes with
  | nil =>
    cases bytes with
    | zero => rfl
    | succ bytes => rfl
  | cons c ahead ih =>
    cases bytes with
    | zero => rfl
    | succ bytes =>
      simp only [Cursor.seekFrom]
      split
      · exact ih (c :: behind) _
      · rfl

theorem seekFrom_past (a b behind : Text) (bytes : Nat) :
    Cursor.seekFrom behind (a ++ b) (byteLength a + bytes) =
      Cursor.seekFrom (a.reverse ++ behind) b bytes := by
  induction a generalizing behind with
  | nil => simp [byteLength]
  | cons c a ih =>
    have hc := c.utf8Size_pos
    obtain ⟨n, hn⟩ : ∃ n, byteLength (c :: a) + bytes = n + 1 :=
      ⟨c.utf8Size + byteLength a + bytes - 1, by simp only [byteLength]; omega⟩
    simp only [byteLength] at hn
    have hle : c.utf8Size ≤ n + 1 := by omega
    have hsub : n + 1 - c.utf8Size = byteLength a + bytes := by omega
    simp only [List.cons_append, byteLength, hn, Cursor.seekFrom]
    rw [if_pos hle, hsub, ih]
    simp

theorem cursorAt?_past (a b : Text) (pos : Nat) :
    cursorAt? (a ++ b) (byteLength a + pos) = (cursorAt? b pos).map (Cursor.after a) := by
  rw [cursorAt?, cursorAt?, seekFrom_past, ← seekFrom_after, List.append_nil, List.nil_append]

theorem segmentsFrom_after {before behind ahead : Text}
    (hcut : behind = [] → isBoundary before.reverse.head? ahead.head? = true) :
    Cursor.segmentsFrom (behind ++ before.reverse) ahead =
      (Cursor.segmentsFrom behind ahead).map (Cursor.after before) := by
  induction ahead generalizing behind with
  | nil => rfl
  | cons c ahead ih =>
    have hboundary : isBoundary (behind ++ before.reverse).head? (some c) =
        isBoundary behind.head? (some c) := by
      cases behind with
      | nil => simpa using hcut rfl
      | cons d behind => rfl
    simp only [Cursor.segmentsFrom, hboundary]
    have hrest := @ih (c :: behind) (by simp)
    rw [List.cons_append] at hrest
    split
    · rw [hrest, List.map_cons]
      rfl
    · exact hrest

/-- The places of the beginning come first. -/
theorem filter_segmentsFrom (a b behind : Text) :
    (Cursor.segmentsFrom behind (a ++ b)).filter
        (fun here => decide (byteLength behind + byteLength a ≤ here.pos)) =
      (Cursor.segmentsFrom (a.reverse ++ behind) b).filter
        (fun here => decide (byteLength behind + byteLength a ≤ here.pos)) := by
  induction a generalizing behind with
  | nil => rfl
  | cons c a ih =>
    have hc := c.utf8Size_pos
    have hrest := ih (c :: behind)
    have hlength : byteLength (c :: behind) + byteLength a =
        byteLength behind + byteLength (c :: a) := by
      simp only [byteLength]
      omega
    rw [hlength] at hrest
    simp only [List.cons_append, Cursor.segmentsFrom, List.reverse_cons, List.append_assoc,
      List.nil_append]
    split
    · rw [List.filter_cons_of_neg, hrest]
      intro hle
      have : byteLength behind + byteLength (c :: a) ≤ byteLength behind := of_decide_eq_true hle
      simp only [byteLength] at this
      omega
    · exact hrest

/-! ## Tests that can be made earlier -/

section Filter

variable {α β : Type _} {p : β → Bool} {q : α → Bool}

/-- A test of what a list is turned into can be made before when it looks at nothing new. -/
theorem filter_filterMap_of_eq {f : α → Option β} (list : List α)
    (h : ∀ x y, f x = some y → p y = q x) :
    (list.filterMap f).filter p = (list.filter q).filterMap f := by
  rw [List.filter_filterMap, List.filterMap_filter]
  congr 1
  funext x
  cases hx : f x with
  | none => simp
  | some y => simp only [Option.filter_some, h x y hx]

theorem filter_flatMap_of_eq {g : α → List β} (list : List α) (h : ∀ x, ∀ y ∈ g x, p y = q x) :
    (list.flatMap g).filter p = (list.filter q).flatMap g := by
  induction list with
  | nil => rfl
  | cons x list ih =>
    rw [List.flatMap_cons, List.filter_append, ih]
    by_cases hx : q x = true
    · rw [List.filter_cons_of_pos hx, List.flatMap_cons]
      rw [List.filter_eq_self.mpr fun y hy => (h x y hy).trans hx]
    · rw [List.filter_cons_of_neg hx]
      have hnil : (g x).filter p = [] := by
        rw [List.filter_eq_nil_iff]
        intro y hy
        rw [h x y hy]
        exact hx
      rw [hnil, List.nil_append]

end Filter

/-! ## Readings of the ending -/

/-- The same numeral so many bytes further on. -/
def Numeral.shift (bytes : Nat) (n : Numeral) : Numeral := { n with start := bytes + n.start }

namespace Numeral

@[simp]
theorem start_shift (bytes : Nat) (n : Numeral) : (n.shift bytes).start = bytes + n.start := rfl

@[simp]
theorem stop_shift (bytes : Nat) (n : Numeral) : (n.shift bytes).stop = bytes + n.stop := by
  simp [shift, stop, size, Nat.add_assoc]

theorem key_shift_iff (bytes : Nat) (m n : Numeral) :
    (m.shift bytes).key = (n.shift bytes).key ↔ m.key = n.key := by
  simp only [key, Prod.mk.injEq, start_shift, stop_shift, Nat.add_left_cancel_iff]
  exact Iff.rfl

end Numeral

/-- The same reading when `before` comes before the text. -/
def Reading.after (before : Text) (reading : Reading) : Reading :=
  ⟨reading.first.after before, reading.last.after before, reading.window⟩

theorem numeral?_after (before : Text) (reading : Reading) (rule : Rule) :
    (reading.after before).numeral? rule =
      (reading.numeral? rule).map (Numeral.shift (byteLength before)) := by
  unfold Reading.numeral? Reading.after Reading.text
  simp only [Cursor.pos_after, Option.map_map]
  rfl

theorem read?_after (pattern : Pattern) (before : Text) (here : Cursor) :
    pattern.read? (here.after before) =
      (pattern.read? here).map fun (capture, there) => (capture, there.after before) := by
  have hahead : ∀ place : Cursor, (place.after before).ahead = place.ahead := fun _ => rfl
  unfold Pattern.read?
  simp only [Cursor.forward_after, hahead]
  cases pattern.extent here.ahead with
  | none => rfl
  | some extent =>
    dsimp only
    split
    · rfl
    · split <;> rfl

theorem text_of_mem_readElement {found : List Numeral} {here there : Cursor} {element : Element}
    {node : Node} (h : (node, there) ∈ readElement found here element) :
    there.text = here.text := by
  cases element with
  | text pattern =>
    simp only [readElement, List.mem_map, Option.mem_toList, Prod.mk.injEq, Prod.exists] at h
    obtain ⟨capture, _, hread, _, rfl⟩ := h
    obtain ⟨_, hread, _⟩ := Pattern.readBounded?_eq_some.mp hread
    exact (Cursor.reaches_of_read? hread).text_eq
  | number condition =>
    simp only [readElement, List.mem_map, Prod.mk.injEq] at h
    obtain ⟨n, _, _, rfl⟩ := h
    exact Cursor.text_forward _ _

/-! ## The cut -/

section Cut

variable {a b : Text} (hcut : isBoundary a.reverse.head? b.head? = true)

include hcut

theorem filter_segments :
    (segments (a ++ b)).filter (fun here => decide (byteLength a ≤ here.pos)) =
      (segments b).map (Cursor.after a) := by
  have hlater : Cursor.segmentsFrom a.reverse b = (segments b).map (Cursor.after a) :=
    @segmentsFrom_after a [] b (fun _ => hcut)
  have hfilter := filter_segmentsFrom a b []
  simp only [byteLength, Nat.zero_add, List.append_nil] at hfilter
  rw [segments, hfilter, hlater]
  apply List.filter_eq_self.mpr
  intro here hhere
  obtain ⟨there, _, rfl⟩ := List.mem_map.mp hhere
  simp

theorem readBounded?_after (pattern : Pattern) {here : Cursor} (hhere : here.text = b) :
    pattern.readBounded? (here.after a) =
      (pattern.readBounded? here).map fun (capture, there) => (capture, there.after a) := by
  have hboundary : ∀ place : Cursor, place.text = b →
      (place.after a).atBoundary = place.atBoundary := by
    rintro place rfl
    exact Cursor.atBoundary_after a place hcut
  unfold Pattern.readBounded?
  rw [hboundary here hhere, read?_after]
  split
  · cases hread : pattern.read? here with
    | none => rfl
    | some pair =>
      obtain ⟨capture, there⟩ := pair
      have hthere : there.text = b := (Cursor.reaches_of_read? hread).text_eq.trans hhere
      simp only [Option.map_some, Option.filter_some, hboundary there hthere]
      split <;> rfl
  · rfl

/-- The numerals of `found` that begin in the ending are those of `ending`. -/
def EndsWith (bytes : Nat) (found ending : List Numeral) : Prop :=
  found.filter (fun n => decide (bytes ≤ n.start)) = ending.map (Numeral.shift bytes)

variable {found ending : List Numeral} (hfound : EndsWith (byteLength a) found ending)

include hfound

theorem readElement_after {here : Cursor} (hhere : here.text = b) (element : Element) :
    readElement found (here.after a) element =
      (readElement ending here element).map fun (node, there) => (node, there.after a) := by
  cases element with
  | text pattern =>
    simp only [readElement, readBounded?_after hcut pattern hhere]
    cases pattern.readBounded? here <;> rfl
  | number condition =>
    -- Only numerals of the ending begin at a place of the ending.
    have hfilter : (found.filter fun n =>
          n.start = (here.after a).pos && condition.accepts n.token) =
        ((ending.filter fun n => n.start = here.pos && condition.accepts n.token).map
          (Numeral.shift (byteLength a))) := by
      have hmap : ((found.filter fun n => decide (byteLength a ≤ n.start)).filter fun n =>
            n.start = (here.after a).pos && condition.accepts n.token) =
          ((ending.filter fun n => n.start = here.pos && condition.accepts n.token).map
            (Numeral.shift (byteLength a))) := by
        rw [hfound, List.filter_map]
        congr 2
        funext n
        simp [Numeral.shift]
      rw [← hmap, List.filter_filter]
      congr 1
      funext n
      by_cases hn : n.start = (here.after a).pos
      · have hle : byteLength a ≤ n.start := by
          rw [hn, Cursor.pos_after]
          omega
        simp only [hle, decide_true, Bool.and_true]
      · simp only [hn, decide_false, Bool.false_and]
    simp only [readElement, hfilter, List.map_map]
    apply List.map_congr_left
    intro n _
    exact congrArg _ (Cursor.forward_after a here n.text.length)

theorem readElements_after (elements : List Element) {here : Cursor} (hhere : here.text = b) :
    readElements found elements (here.after a) =
      (readElements ending elements here).map fun (window, last) => (window, last.after a) := by
  induction elements generalizing here with
  | nil => rfl
  | cons element elements ih =>
    have hskip : here.skipBlank.text = b := (Cursor.text_skipBlank here).trans hhere
    simp only [readElements, Cursor.skipBlank_after,
      readElement_after hcut hfound hskip element, List.flatMap_map, List.map_flatMap]
    apply List.flatMap_congr
    rintro ⟨node, there⟩ hthere
    rw [ih ((text_of_mem_readElement hthere).trans hskip), List.map_map, List.map_map]
    rfl

theorem readFirst_after (element : Element) :
    (readFirst (a ++ b) found element).filter (fun r => decide (byteLength a ≤ r.1.pos)) =
      (readFirst b ending element).map fun (first, node, there) =>
        (first.after a, node, there.after a) := by
  cases element with
  | text pattern =>
    simp only [readFirst]
    rw [@filter_filterMap_of_eq _ _ _ (fun here => decide (byteLength a ≤ here.pos)),
      filter_segments hcut, List.filterMap_map, List.map_filterMap]
    · apply List.filterMap_congr
      intro here hhere
      simp only [Function.comp_apply,
        readBounded?_after hcut pattern (text_of_mem_segments hhere), Option.map_map]
      rfl
    · rintro here _ h
      obtain ⟨_, _, rfl⟩ := Option.map_eq_some_iff.mp h
      rfl
  | number condition =>
    simp only [readFirst]
    rw [@filter_filterMap_of_eq _ _ _ (fun n => decide (byteLength a ≤ n.start)),
      List.filter_comm, hfound, List.filter_map, List.filterMap_map, List.map_filterMap]
    · apply List.filterMap_congr
      intro n _
      simp only [Function.comp_apply, Numeral.start_shift, cursorAt?_past, Option.map_map]
      congr 1
      funext here
      simp only [Function.comp_apply, Cursor.forward_after]
      rfl
    · rintro n _ h
      obtain ⟨here, hhere, rfl⟩ := Option.map_eq_some_iff.mp h
      rw [← (cursorAt?_eq_some.mp hhere).2]

theorem readRule_after (rule : Rule) :
    (readRule (a ++ b) found rule).filter (fun r => decide (byteLength a ≤ r.first.pos)) =
      (readRule b ending rule).map (Reading.after a) := by
  unfold readRule
  cases rule.elements with
  | nil => rfl
  | cons element elements =>
    dsimp only
    rw [@filter_flatMap_of_eq _ _ _ (fun r => decide (byteLength a ≤ r.1.pos)),
      readFirst_after hcut hfound element, List.flatMap_map, List.map_flatMap]
    · apply List.flatMap_congr
      rintro ⟨first, node, there⟩ hmem
      have htext : there.text = b := by
        obtain ⟨hfirst, hnode, _⟩ := mem_readFirst.mp hmem
        exact (text_of_mem_readElement hnode).trans hfirst
      dsimp only
      rw [readElements_after hcut hfound elements htext, List.map_map, List.map_map]
      rfl
    · rintro ⟨first, node, there⟩ _ h
      obtain ⟨_, _, rfl⟩ := List.mem_map.mp h
      rfl

theorem proposals_after (rules : Registry) :
    EndsWith (byteLength a) (proposals rules (a ++ b) found) (proposals rules b ending) := by
  unfold EndsWith proposals
  rw [List.filter_flatMap, List.map_flatMap]
  apply List.flatMap_congr
  intro rule _
  rw [@filter_filterMap_of_eq _ _ _ (fun r => decide (byteLength a ≤ r.first.pos)),
    readRule_after hcut hfound rule, List.filterMap_map, List.map_filterMap]
  · apply List.filterMap_congr
    intro reading _
    exact numeral?_after a reading rule
  · rintro reading _ h
    obtain ⟨_, _, rfl⟩ := Option.map_eq_some_iff.mp h
    rfl

theorem keepNew_after (rules : Registry) :
    EndsWith (byteLength a) (keepNew found (proposals rules (a ++ b) found))
      (keepNew ending (proposals rules b ending)) := by
  unfold EndsWith
  rw [filter_keepNew, hfound, proposals_after hcut hfound rules,
    map_keepNew (Numeral.key_shift_iff (byteLength a))]
  intro m n hkey
  rw [(Prod.mk.inj hkey).1]

theorem grow_after (rules : Registry) :
    EndsWith (byteLength a) (grow rules (a ++ b) found) (grow rules b ending) := by
  unfold EndsWith grow
  rw [List.filter_append, hfound, keepNew_after hcut hfound rules, List.map_append]

end Cut

/-- Within any number of passes, what begins behind the cut is what the ending finds by
itself, in the same order. -/
theorem candidates_after {a b : Text} (hcut : isBoundary a.reverse.head? b.head? = true)
    (rules : Registry) (passes : Nat) :
    EndsWith (byteLength a) (candidates rules (a ++ b) passes) (candidates rules b passes) :=
  candidates_side_by_side (show EndsWith (byteLength a) [] [] from rfl)
    (fun taking _ _ _ hfound => grow_after hcut hfound taking) passes

/-! ## Pieces behind the cut -/

theorem skipBlankAt_past (a b : Text) (pos : Nat) :
    skipBlankAt (a ++ b) (byteLength a + pos) = byteLength a + skipBlankAt b pos := by
  unfold skipBlankAt
  rw [cursorAt?_past]
  cases cursorAt? b pos with
  | none => rfl
  | some here => exact (congrArg Cursor.pos (here.skipBlank_after a)).trans (Cursor.pos_after a _)

/-- What a pattern reads behind the cut it reads in the ending. -/
theorem Piece.Fits.past {a b : Text} (hcut : isBoundary a.reverse.head? b.head? = true)
    {pattern : Pattern} {piece : Piece} {pos : Nat} (h : piece.Fits (a ++ b) (.text pattern))
    (hstart : piece.start = byteLength a + pos) :
    ∃ here capture there, cursorAt? b pos = some here ∧
      pattern.readBounded? here = some (capture, there) ∧ piece.stop = byteLength a + there.pos ∧
      piece.node = .capture capture := by
  obtain ⟨place, capture, last, hplace, hread, hstop, hnode, _⟩ := h
  rw [hstart, cursorAt?_past] at hplace
  obtain ⟨here, hhere, rfl⟩ := Option.map_eq_some_iff.mp hplace
  rw [readBounded?_after hcut pattern (cursorAt?_eq_some.mp hhere).1] at hread
  obtain ⟨⟨_, there⟩, hthere, heq⟩ := Option.map_eq_some_iff.mp hread
  obtain ⟨rfl, rfl⟩ := Prod.mk.inj heq
  exact ⟨here, _, there, hhere, hthere, hstop.trans (Cursor.pos_after a there), hnode⟩

/-- A numeral found behind the cut is one of the ending. -/
theorem EndsWith.exists_of_start {bytes : Nat} {found ending : List Numeral}
    (h : EndsWith bytes found ending) {pos : Nat} {n : Numeral} (hn : n ∈ found)
    (hstart : n.start = bytes + pos) :
    ∃ m ∈ ending, m.start = pos ∧ n.stop = bytes + m.stop ∧ m.token = n.token := by
  have hmem : n ∈ found.filter fun n => decide (bytes ≤ n.start) :=
    List.mem_filter.mpr ⟨hn, decide_eq_true (hstart ▸ Nat.le_add_right bytes pos)⟩
  rw [h] at hmem
  obtain ⟨m, hm, rfl⟩ := List.mem_map.mp hmem
  exact ⟨m, hm, Nat.add_left_cancel hstart, Numeral.stop_shift bytes m, rfl⟩

/-- The pieces of a row behind the cut are those of a row of the ending. -/
theorem Row.past {a b : Text} (hcut : isBoundary a.reverse.head? b.head? = true)
    {found ending : List Numeral} (hends : EndsWith (byteLength a) found ending)
    {elements : List Element} {pieces : List Piece} {pos place stop : Nat}
    (h : Row (a ++ b) elements pieces place stop) (hplace : place = byteLength a + pos)
    (hknown : ∀ piece ∈ pieces, piece.Known found) :
    ∃ others stop', stop = byteLength a + stop' ∧ Row b elements others pos stop' ∧
      others.map Piece.node = pieces.map Piece.node ∧ ∀ piece ∈ others, piece.Known ending := by
  induction h generalizing pos with
  | nil => exact ⟨[], pos, hplace, Row.nil, rfl, by simp⟩
  | @cons element elements piece pieces _ stop hfits hstart _ ih =>
    rw [hplace, skipBlankAt_past] at hstart
    obtain ⟨hfirst, hrest⟩ := List.forall_mem_cons.mp hknown
    -- The piece as it stands in the ending.
    obtain ⟨other, hotherfits, hotherstart, hotherstop, hothernode, hotherknown⟩ :
        ∃ other : Piece, other.Fits b element ∧ other.start = skipBlankAt b pos ∧
          piece.stop = byteLength a + other.stop ∧ other.node = piece.node ∧
          other.Known ending := by
      cases element with
      | text pattern =>
        obtain ⟨here, capture, there, hhere, hread, hstop, hnode⟩ := hfits.past hcut hstart
        exact ⟨⟨skipBlankAt b pos, there.pos, .capture capture, 0⟩,
          ⟨here, capture, there, hhere, hread, rfl, rfl, rfl⟩, rfl, hstop, hnode.symm,
          Piece.known_of_capture rfl⟩
      | number condition =>
        obtain ⟨n, hn, hnstart, hnstop, hnode, haccepts⟩ := hfirst.exists_number hfits
        obtain ⟨m, hm, hmstart, hmstop, hmtoken⟩ :=
          hends.exists_of_start hn (hnstart.trans hstart)
        exact ⟨⟨skipBlankAt b pos, m.stop, .number m.token, 0⟩, ⟨m.token, rfl, hmtoken ▸ haccepts⟩,
          rfl, hnstop.symm.trans hmstop, by rw [hnode, hmtoken],
          Piece.known_of_mem hm hmstart rfl rfl⟩
    obtain ⟨others, stop', rfl, hrow, hnodes, hknowns⟩ := ih hotherstop hrest
    exact ⟨other :: others, stop', rfl, Row.cons hotherfits hotherstart hrow,
      by rw [List.map_cons, List.map_cons, hothernode, hnodes],
      List.forall_mem_cons.mpr ⟨hotherknown, hknowns⟩⟩

end SpanishNumerals
