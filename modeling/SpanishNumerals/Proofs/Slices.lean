-- Slices of a text, by byte positions. A slice is there only when both positions are places of
-- the text and come in order. The saturation is told once more as a run on byte positions, in
-- which each slice that is taken may fail, and level by level where the readings of a rule go
-- one element after the other. None of the slices fails, and both find the same.
import SpanishNumerals.Analysis
import SpanishNumerals.Proofs.Leaves
import SpanishNumerals.Proofs.LongestFirst

namespace SpanishNumerals

/-! ## Slices -/

/-- The text from a position on, if the position is a place of the text. -/
def sliceFrom? (text : Text) (start : Nat) : Option Text :=
  (cursorAt? text start).map Cursor.ahead

/-- The text from one position to another, if both are places of the text and come in order. -/
def slice? (text : Text) (start stop : Nat) : Option Text :=
  if start ≤ stop then
    (sliceFrom? text start).bind fun rest =>
      (cursorAt? rest (stop - start)).map fun there => there.behind.reverse
  else none

theorem sliceFrom?_eq_some {text rest : Text} {start : Nat} :
    sliceFrom? text start = some rest ↔
      ∃ before, text = before ++ rest ∧ byteLength before = start := by
  unfold sliceFrom?
  rw [Option.map_eq_some_iff]
  constructor
  · rintro ⟨here, hhere, rfl⟩
    obtain ⟨rfl, rfl⟩ := cursorAt?_eq_some.mp hhere
    exact ⟨here.behind.reverse, rfl, byteLength_reverse _⟩
  · rintro ⟨before, rfl, rfl⟩
    exact ⟨_, cursorAt?_append before rest, rfl⟩

/-- A slice is there when the text has its characters at the position where it starts, and they
end at the position where it stops. -/
theorem slice?_eq_some {text part : Text} {start stop : Nat} :
    slice? text start stop = some part ↔ ∃ before after, text = before ++ part ++ after ∧
      byteLength before = start ∧ byteLength (before ++ part) = stop := by
  unfold slice?
  constructor
  · intro h
    split at h
    · obtain ⟨rest, hrest, hthere⟩ := Option.bind_eq_some_iff.mp h
      obtain ⟨before, rfl, rfl⟩ := sliceFrom?_eq_some.mp hrest
      obtain ⟨there, hat, rfl⟩ := Option.map_eq_some_iff.mp hthere
      obtain ⟨rfl, hpos⟩ := cursorAt?_eq_some.mp hat
      refine ⟨before, there.ahead, ?_, rfl, ?_⟩
      · rw [List.append_assoc]
        rfl
      · rw [byteLength_append, byteLength_reverse]
        have : byteLength there.behind = stop - byteLength before := hpos
        omega
    · simp at h
  · rintro ⟨before, after, rfl, rfl, rfl⟩
    rw [byteLength_append, if_pos (Nat.le_add_right _ _), Nat.add_sub_cancel_left,
      sliceFrom?_eq_some.mpr ⟨before, List.append_assoc _ _ _, rfl⟩, Option.bind_some,
      cursorAt?_append, Option.map_some, List.reverse_reverse]

theorem sliceFrom?_pos (here : Cursor) : sliceFrom? here.text here.pos = some here.ahead :=
  sliceFrom?_eq_some.mpr ⟨here.behind.reverse, rfl, byteLength_reverse _⟩

theorem slice?_of_reaches {first last : Cursor} {passed : Text} (h : first.Reaches passed last) :
    slice? first.text first.pos last.pos = some passed := by
  refine slice?_eq_some.mpr ⟨first.behind.reverse, last.ahead, ?_, byteLength_reverse _, ?_⟩
  · rw [List.append_assoc, ← h.1]
    rfl
  · rw [h.pos_eq, byteLength_append, byteLength_reverse]
    rfl

theorem charBefore_pos (here : Cursor) : charBefore here.text here.pos = here.behind.head? := by
  rw [charBefore, cursorAt?_eq_some.mpr ⟨rfl, rfl⟩, Option.bind_some]

theorem charAt_pos (here : Cursor) : charAt here.text here.pos = here.ahead.head? := by
  rw [charAt, cursorAt?_eq_some.mpr ⟨rfl, rfl⟩, Option.bind_some]

/-! ## Numerals that stand well -/

/-- A numeral covers a stretch of the text from one place to a later one. It begins with no
blank, a stretch may begin and end where it does, and its value is a finite number. -/
structure Numeral.WellFormed (n : Numeral) (text : Text) : Prop where
  start_lt_stop : n.start < n.stop
  stop_le : n.stop ≤ byteLength text
  start_place : (cursorAt? text n.start).isSome = true
  stop_place : (cursorAt? text n.stop).isSome = true
  slice : slice? text n.start n.stop = some n.text
  begins : ∃ c, charAt text n.start = some c ∧ isBlank c = false
  opens : isBoundary (charBefore text n.start) (charAt text n.start) = true
  closes : isBoundary (charBefore text n.stop) (charAt text n.stop) = true
  finite : n.token.value.quanta < quantaLimit

section Derived

variable {rules : Registry} {text : Text} {key : Key} {height : Nat}

/-- A number begins with no blank and behind a boundary. -/
theorem Derived.opens (hd : Derived rules text key height) :
    (∃ c, charAt text key.1 = some c ∧ isBlank c = false) ∧
      isBoundary (charBefore text key.1) (charAt text key.1) = true := by
  obtain ⟨here, hhere, hpos⟩ := List.mem_map.mp hd.start_mem_segmentStarts
  obtain ⟨rfl, c, rest, hahead, hc, hboundary⟩ := mem_segments.mp hhere
  rw [← hpos, charAt_pos, charBefore_pos, hahead]
  exact ⟨⟨c, rfl, isBlank_eq_false hc⟩, hboundary⟩

/-- A number ends at a boundary: the piece of text read last has one behind it. -/
theorem Derived.closes (hd : Derived rules text key height) :
    isBoundary (charBefore text key.2.1) (charAt text key.2.1) = true := by
  obtain ⟨front, read, back, hleaf, _, hstop⟩ := hd.ends
  obtain ⟨last, more, hlast⟩ :=
    List.exists_cons_of_ne_nil (List.reverse_ne_nil_iff.mpr hleaf.ne_nil)
  have hboundary := hleaf.closes
  rw [hlast] at hboundary
  rw [← hstop, hleaf.split, charBefore, charAt, cursorAt?_append, Option.bind_some,
    Option.bind_some, List.reverse_append, hlast]
  exact hboundary

end Derived

theorem wellFormed_of_mem_candidates {rules : Registry} {text : Text} {passes : Nat} :
    ∀ n ∈ candidates rules text passes, n.WellFormed text := by
  intro n hn
  have hstands := standsIn_of_mem_candidates n hn
  obtain ⟨_, _, hderived⟩ := mem_candidates_iff.mp (List.mem_map.mpr ⟨n, hn, rfl⟩)
  obtain ⟨hbegins, hopens⟩ := hderived.opens
  obtain ⟨first, hfirst, hreach⟩ := hstands.cursor
  obtain ⟨last, hlast⟩ := hstands.last_cursor
  refine ⟨hstands.start_lt_stop, hstands.stop_le, by rw [hfirst]; rfl, by rw [hlast]; rfl, ?_,
    hbegins, hopens, hderived.closes, n.token.value.bounded⟩
  obtain ⟨rfl, hpos⟩ := cursorAt?_eq_some.mp hfirst
  have hstop : n.stop = (first.forward n.text.length).pos := by
    rw [hreach.pos_eq, hpos, Numeral.stop, Numeral.size]
  rw [← hpos, hstop, slice?_of_reaches hreach]

/-! ## The run on positions -/

/-- What a rule has read so far, in positions. -/
structure Span where
  /-- The position where it begins. -/
  start : Nat
  /-- The position where it ends. -/
  stop : Nat
  /-- One node for each element. -/
  nodes : Window

/-- A reading in positions. -/
def Reading.span (reading : Reading) : Span :=
  ⟨reading.first.pos, reading.last.pos, reading.window⟩

/-- Whether a stretch may begin or end at a position. -/
def boundaryAt (text : Text) (pos : Nat) : Bool :=
  isBoundary (charBefore text pos) (charAt text pos)

/-- Whether what follows a position meets the condition of the pattern. Without a slice from
that position on there is no answer. -/
def Pattern.admitsFrom? (pattern : Pattern) (text : Text) (pos : Nat) : Option Bool :=
  match pattern.follow with
  | some follow => (sliceFrom? text pos).map follow
  | none => some true

/-- What a pattern reads at a position, when there is a boundary at both ends. That it reads
nothing is an answer; that a slice fails is none. -/
def Pattern.readSliced? (pattern : Pattern) (text : Text) (pos : Nat) :
    Option (Option (Capture × Nat)) :=
  if boundaryAt text pos then
    match (sliceFrom? text pos).bind fun rest =>
      (pattern.extent rest).map fun extent => (rest.take extent.length, extent.groups) with
    | none => some none
    | some ([], _) => some none
    | some (read, groups) =>
      (pattern.admitsFrom? text (pos + byteLength read)).map fun admitted =>
        if admitted && boundaryAt text (pos + byteLength read) then
          some (⟨read, groups⟩, pos + byteLength read)
        else none
  else some none

namespace Span

/-- The ways to begin with an element. -/
def begin? (text : Text) (found : List Numeral) : Element → Option (List Span)
  | .text pattern =>
    ((segmentStarts text).mapM fun pos =>
      (pattern.readSliced? text pos).map fun read =>
        read.toList.map fun r => ⟨pos, r.2, [.capture r.1]⟩).map List.flatten
  | .number condition =>
    some ((found.filter fun n => condition.accepts n.token).map fun n =>
      ⟨n.start, n.stop, [.number n.token]⟩)

/-- The ways to go on with an element, past blanks. -/
def extend? (text : Text) (found : List Numeral) (element : Element) (span : Span) :
    Option (List Span) :=
  match element with
  | .text pattern =>
    (pattern.readSliced? text (skipBlankAt text span.stop)).map fun read =>
      read.toList.map fun r => ⟨span.start, r.2, span.nodes ++ [.capture r.1]⟩
  | .number condition =>
    some ((found.filter fun n =>
      n.start = skipBlankAt text span.stop && condition.accepts n.token).map fun n =>
        ⟨span.start, n.stop, span.nodes ++ [.number n.token]⟩)

/-- All spans gone on with an element. -/
def extendAll? (text : Text) (found : List Numeral) (spans : List Span) (element : Element) :
    Option (List Span) :=
  (spans.mapM (extend? text found element)).map List.flatten

/-- The ways to read a rule, level by level. -/
def ofRule? (text : Text) (found : List Numeral) (rule : Rule) : Option (List Span) :=
  match rule.elements with
  | [] => some []
  | element :: elements =>
    (begin? text found element).bind fun spans => elements.foldlM (extendAll? text found) spans

/-- The numeral that a rule makes of a span. It takes the slice that the span covers. -/
def numeral? (text : Text) (rule : Rule) (span : Span) : Option (Option Numeral) :=
  match rule.apply span.nodes with
  | none => some none
  | some token =>
    (slice? text span.start span.stop).map fun part => some ⟨span.start, part, token, rule.name⟩

end Span

/-- What one rule gives in a pass of the run on positions. -/
def slicedNumerals? (text : Text) (found : List Numeral) (rule : Rule) : Option (List Numeral) :=
  (Span.ofRule? text found rule).bind fun spans =>
    (spans.mapM (Span.numeral? text rule)).map fun numerals => numerals.filterMap id

/-- What the rules give in a pass of the run on positions. A slice is taken of what is not new
as well. -/
def slicedProposals? (rules : Registry) (text : Text) (found : List Numeral) :
    Option (List Numeral) :=
  (rules.mapM (slicedNumerals? text found)).map List.flatten

/-- The passes of the run on positions. -/
def slicedSaturate? (rules : Registry) (text : Text) :
    (passes : Nat) → List Numeral → Option (List Numeral)
  | 0, found => some found
  | passes + 1, found =>
    (slicedProposals? rules text found).bind fun proposed =>
      match keepNew found proposed with
      | [] => some found
      | fresh => slicedSaturate? rules text passes (found ++ fresh)

/-- All that the run on positions finds, if no slice fails. -/
def slicedCandidates? (rules : Registry) (text : Text) (passes : Nat) : Option (List Numeral) :=
  (slicedProposals? rules text []).bind fun proposed =>
    slicedSaturate? (rules.filter Rule.composes) text (passes - 1) (keepNew [] proposed)

/-! ## No slice fails -/

/-- A step that has an answer at each member has the list of the answers. -/
theorem mapM_eq_some_map {α β : Type} {f : α → Option β} {g : α → β} {list : List α}
    (h : ∀ a ∈ list, f a = some (g a)) : list.mapM f = some (list.map g) := by
  induction list with
  | nil => rfl
  | cons a list ih =>
    rw [List.mapM_cons, h a List.mem_cons_self, ih fun b hb => h b (List.mem_cons_of_mem a hb)]
    rfl

theorem boundaryAt_pos (here : Cursor) : boundaryAt here.text here.pos = here.atBoundary := by
  rw [boundaryAt, charBefore_pos, charAt_pos]
  rfl

/-- The slice for the condition on what follows is there: the position is a place. -/
theorem Pattern.admitsFrom?_pos (pattern : Pattern) (there : Cursor) :
    pattern.admitsFrom? there.text there.pos = some (pattern.admits there.ahead) := by
  unfold admitsFrom? admits
  cases pattern.follow with
  | none => rfl
  | some follow => simp only [sliceFrom?_pos, Option.map_some]

theorem Pattern.readSliced?_pos (pattern : Pattern) (here : Cursor) :
    pattern.readSliced? here.text here.pos =
      some ((pattern.readBounded? here).map fun r => (r.1, r.2.pos)) := by
  unfold readSliced? readBounded? read?
  rw [boundaryAt_pos, sliceFrom?_pos, Option.bind_some]
  cases here.atBoundary with
  | false => rfl
  | true =>
    rw [if_pos rfl, if_pos rfl]
    rcases pattern.extent here.ahead with _ | extent
    · rfl
    · dsimp only [Option.map_some]
      rcases hread : here.ahead.take extent.length with _ | ⟨c, read⟩
      · rfl
      · have hthere : (here.forward extent.length).pos = here.pos + byteLength (c :: read) := by
          rw [Cursor.pos_forward, hread]
        dsimp only
        rw [← hthere, ← Cursor.text_forward extent.length here, admitsFrom?_pos, boundaryAt_pos]
        cases pattern.admits (here.forward extent.length).ahead <;>
          cases hboundary : (here.forward extent.length).atBoundary <;>
          simp [Option.filter, hboundary]

/-- A reading that goes on with an element. -/
def Reading.goOn (found : List Numeral) (element : Element) (reading : Reading) : List Reading :=
  (readElement found reading.last.skipBlank element).map fun r =>
    ⟨reading.first, r.2, reading.window ++ [r.1]⟩

/-- A reading that goes on with the rest of a rule. -/
def Reading.finish (found : List Numeral) (elements : List Element) (reading : Reading) :
    List Reading :=
  (readElements found elements reading.last).map fun r =>
    ⟨reading.first, r.2, reading.window ++ r.1⟩

section Run

variable {text : Text} {found : List Numeral} (hfound : ∀ n ∈ found, n.StandsIn text)

include hfound

/-- The first elements of a rule read the same in positions. -/
theorem begin?_eq (element : Element) :
    Span.begin? text found element = some ((readFirst text found element).map fun r =>
      (Reading.mk r.1 r.2.2 [r.2.1]).span) := by
  cases element with
  | text pattern =>
    have hread : ∀ here ∈ segments text,
        ((pattern.readSliced? text here.pos).map fun read => read.toList.map fun r =>
          (⟨here.pos, r.2, [.capture r.1]⟩ : Span)) =
        some ((pattern.readBounded? here).toList.map fun r =>
          (Reading.mk here r.2 [.capture r.1]).span) := by
      intro here hhere
      rw [← text_of_mem_segments hhere, Pattern.readSliced?_pos]
      cases pattern.readBounded? here <;> rfl
    simp only [Span.begin?, readFirst, segmentStarts, List.mapM_map, Function.comp_def]
    rw [mapM_eq_some_map hread, Option.map_some, ← List.flatMap_def,
      List.filterMap_eq_flatMap_toList, List.map_flatMap]
    refine congrArg some (List.flatMap_congr fun here _ => ?_)
    cases pattern.readBounded? here <;> rfl
  | number condition =>
    simp only [Span.begin?, readFirst, List.map_filterMap]
    rw [← List.filterMap_eq_map]
    refine congrArg some (List.filterMap_congr fun n hn => ?_)
    have hstands := hfound n (List.mem_filter.mp hn).1
    obtain ⟨first, hfirst, _⟩ := hstands.cursor
    obtain ⟨rfl, hpos⟩ := cursorAt?_eq_some.mp hfirst
    have hstop := (reaches_of_standsIn hstands hpos.symm).2
    simp only [hfirst, Option.map_some, Reading.span, hpos, hstop, Function.comp_apply]

/-- A rule goes on alike in positions. -/
theorem extend?_eq (element : Element) {reading : Reading} (hlast : reading.last.text = text) :
    reading.span.extend? text found element =
      some ((reading.goOn found element).map Reading.span) := by
  have htext : reading.last.skipBlank.text = text := (Cursor.text_skipBlank _).trans hlast
  have hskip : skipBlankAt text reading.span.stop = reading.last.skipBlank.pos := by
    rw [← hlast]
    exact skipBlankAt_pos reading.last
  unfold Span.extend? Reading.goOn readElement
  rw [hskip]
  cases element with
  | text pattern =>
    dsimp only
    rw [← htext, Pattern.readSliced?_pos]
    cases pattern.readBounded? reading.last.skipBlank <;> rfl
  | number condition =>
    dsimp only
    rw [List.map_map, List.map_map]
    refine congrArg some (List.map_congr_left fun n hn => ?_)
    obtain ⟨hn, htest⟩ := List.mem_filter.mp hn
    have hpos : n.start = reading.last.skipBlank.pos :=
      of_decide_eq_true (Bool.and_eq_true_iff.mp htest).1
    have hstop := (reaches_of_standsIn (htext ▸ hfound n hn) hpos).2
    simp only [Function.comp_apply, Reading.span, hstop]

/-- What goes on ends at a place of the text again. -/
theorem text_of_mem_goOn {element : Element} {reading further : Reading}
    (hlast : reading.last.text = text) (h : further ∈ reading.goOn found element) :
    further.last.text = text := by
  obtain ⟨r, hr, rfl⟩ := List.mem_map.mp h
  have htext : reading.last.skipBlank.text = text := (Cursor.text_skipBlank _).trans hlast
  obtain ⟨_, _, hreach⟩ := reaches_of_mem_readElement (htext ▸ hfound) hr
  exact hreach.text_eq.trans htext

/-- Level by level the same is read as one reading after the other. -/
theorem foldlM_extendAll?_eq (elements : List Element) {readings : List Reading}
    (hlast : ∀ reading ∈ readings, reading.last.text = text) :
    elements.foldlM (Span.extendAll? text found) (readings.map Reading.span) =
      some ((readings.flatMap (Reading.finish found elements)).map Reading.span) := by
  induction elements generalizing readings with
  | nil =>
    have hfinish : Reading.finish found [] = fun reading => [reading] := by
      funext reading
      simp [Reading.finish, readElements]
    rw [hfinish, List.flatMap_singleton']
    rfl
  | cons element elements ih =>
    have hstep : Span.extendAll? text found (readings.map Reading.span) element =
        some ((readings.flatMap (Reading.goOn found element)).map Reading.span) := by
      have heach : ∀ reading ∈ readings,
          (Span.extend? text found element ∘ Reading.span) reading =
            some ((reading.goOn found element).map Reading.span) :=
        fun reading hreading => extend?_eq hfound element (hlast reading hreading)
      rw [Span.extendAll?, List.mapM_map, mapM_eq_some_map heach, Option.map_some,
        ← List.flatMap_def, List.map_flatMap]
    have hfurther : ∀ reading ∈ readings.flatMap (Reading.goOn found element),
        reading.last.text = text := by
      intro further hmem
      obtain ⟨reading, hreading, hmem⟩ := List.mem_flatMap.mp hmem
      exact text_of_mem_goOn hfound (hlast reading hreading) hmem
    have hfinish : ∀ reading : Reading, reading.finish found (element :: elements) =
        (reading.goOn found element).flatMap (Reading.finish found elements) := by
      intro reading
      simp only [Reading.finish, Reading.goOn, readElements, List.map_flatMap, List.flatMap_map,
        List.map_map, Function.comp_def, List.append_assoc, List.singleton_append]
    rw [List.foldlM_cons, hstep]
    show elements.foldlM _ _ = _
    rw [ih hfurther, List.flatMap_assoc, funext hfinish]

theorem ofRule?_eq (rule : Rule) :
    Span.ofRule? text found rule = some ((readRule text found rule).map Reading.span) := by
  unfold Span.ofRule? readRule
  cases rule.elements with
  | nil => rfl
  | cons element elements =>
    have hlast : ∀ reading ∈ (readFirst text found element).map fun r =>
        Reading.mk r.1 r.2.2 [r.2.1], reading.last.text = text := by
      intro reading hreading
      obtain ⟨r, hr, rfl⟩ := List.mem_map.mp hreading
      obtain ⟨rfl, hnode, _⟩ := mem_readFirst.mp hr
      obtain ⟨_, _, hreach⟩ := reaches_of_mem_readElement hfound hnode
      exact hreach.text_eq
    dsimp only
    rw [begin?_eq hfound, Option.bind_some, ← Function.comp_def Reading.span, ← List.map_map,
      foldlM_extendAll?_eq hfound elements hlast, List.flatMap_map]
    rfl

/-- What a rule gives is a slice of the text from its first place to its last. -/
theorem slicedNumerals?_eq (rule : Rule) :
    slicedNumerals? text found rule =
      some ((readRule text found rule).filterMap fun reading => reading.numeral? rule) := by
  have hnumeral : ∀ reading ∈ readRule text found rule,
      (Span.numeral? text rule ∘ Reading.span) reading = some (reading.numeral? rule) := by
    intro reading hreading
    obtain ⟨rfl, passed, _, hreach⟩ := reaches_of_mem_readRule hfound hreading
    unfold Function.comp Span.numeral? Reading.numeral? Reading.span
    dsimp only
    rw [slice?_of_reaches hreach, Reading.text_eq hreach]
    cases rule.apply reading.window <;> rfl
  rw [slicedNumerals?, ofRule?_eq hfound, Option.bind_some, List.mapM_map,
    mapM_eq_some_map hnumeral, Option.map_some, List.filterMap_map]
  rfl

theorem slicedProposals?_eq (rules : Registry) :
    slicedProposals? rules text found = some (proposals rules text found) := by
  rw [slicedProposals?, mapM_eq_some_map fun rule _ => slicedNumerals?_eq hfound rule,
    Option.map_some, ← List.flatMap_def]
  rfl

end Run

/-- No slice fails in a pass, and what the pass finds stands in the text, so none fails in the
next. -/
theorem slicedSaturate?_eq (rules : Registry) {text : Text} (passes : Nat) {found : List Numeral}
    (hfound : ∀ n ∈ found, n.StandsIn text) :
    slicedSaturate? rules text passes found = some (saturate rules text passes found) := by
  induction passes generalizing found with
  | zero => rfl
  | succ passes ih =>
    have hgrow := @standsIn_grow rules text found hfound
    unfold grow at hgrow
    simp only [slicedSaturate?, slicedProposals?_eq hfound, Option.bind_some, saturate]
    generalize keepNew found (proposals rules text found) = fresh at hgrow ⊢
    cases fresh with
    | nil => rfl
    | cons n fresh => exact ih hgrow

/-- Each number that is found, and so each that is kept, covers a stretch of the text from one
place of it to a later one: its text is the slice there, it begins with no blank, a stretch may
begin and end where it does, and its value is finite. No slice that is taken on the way fails,
neither for the text of a number nor for a condition on what follows: told in byte positions,
with each slice a step that may fail, the saturation finds the same. -/
theorem every_number_found_stands_well_and_no_slice_fails (rules : Registry) (text : Text)
    (passes : Nat) :
    (∀ n ∈ candidates rules text passes, n.WellFormed text) ∧
    (∀ n ∈ analyze rules text passes, n.WellFormed text) ∧
    slicedCandidates? rules text passes = some (candidates rules text passes) := by
  refine ⟨wellFormed_of_mem_candidates, ?_, ?_⟩
  · exact fun n hn => wellFormed_of_mem_candidates n (mem_of_mem_select hn)
  · have hfirst : ∀ n ∈ keepNew [] (proposals rules text []), n.StandsIn text :=
      fun n hn => standsIn_of_mem_proposals (by simp) n (mem_of_mem_keepNew hn)
    rw [slicedCandidates?, slicedProposals?_eq (by simp), Option.bind_some,
      slicedSaturate?_eq _ _ hfirst]
    rfl

end SpanishNumerals
