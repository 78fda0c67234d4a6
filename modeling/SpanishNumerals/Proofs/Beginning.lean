-- What a text finds in its beginning. When more text is put behind a beginning, the numerals
-- that end before the cut are those of the beginning by itself, pass by pass and in the same
-- order, as long as each pattern reads before the cut what it reads there by itself.
import SpanishNumerals.Proofs.Captures
import SpanishNumerals.Proofs.Ending

namespace SpanishNumerals

/-! ## Places of the beginning -/

namespace Cursor

/-- The same place when `rest` comes behind the text. -/
def before (rest : Text) (here : Cursor) : Cursor := ⟨here.behind, here.ahead ++ rest⟩

variable (rest : Text) (here : Cursor)

@[simp]
theorem pos_before : (here.before rest).pos = here.pos := rfl

theorem text_before : (here.before rest).text = here.text ++ rest := by
  simp [text, before]

theorem pos_le_byteLength : here.pos ≤ byteLength here.text := by
  simp [pos, text]

theorem reaches_before_iff {here there : Cursor} {passed : Text} :
    (here.before rest).Reaches passed (there.before rest) ↔ here.Reaches passed there := by
  unfold Reaches before
  dsimp only
  rw [← List.append_assoc, List.append_cancel_right_eq]

theorem forward_before {n : Nat} (h : n ≤ here.ahead.length) :
    (here.before rest).forward n = (here.forward n).before rest := by
  induction n generalizing here with
  | zero => rfl
  | succ n ih =>
    obtain ⟨behind, ahead⟩ := here
    cases ahead with
    | nil => simp at h
    | cons c ahead => exact ih ⟨c :: behind, ahead⟩ (Nat.le_of_succ_le_succ h)

/-- A place before the cut is a place of the beginning. -/
theorem exists_before {a : Text} {there : Cursor} (htext : there.text = a ++ rest)
    (hpos : there.pos ≤ byteLength a) : ∃ here : Cursor, here.text = a ∧ there = here.before rest := by
  have hcut : there.text = (Cursor.mk a.reverse rest).text := by
    rw [htext, text, List.reverse_reverse]
  obtain ⟨left, hahead, hbehind⟩ := reaches_of_pos_le hcut (by simpa [pos] using hpos)
  refine ⟨⟨there.behind, left⟩, ?_, ?_⟩
  · have ha := congrArg List.reverse hbehind
    rw [List.reverse_reverse, List.reverse_append, List.reverse_reverse] at ha
    exact ha.symm
  · rw [before, ← hahead]

/-- A boundary at the cut makes the boundaries of the beginning those of the whole text. -/
theorem atBoundary_before (hcut : isBoundary here.text.reverse.head? rest.head? = true) :
    (here.before rest).atBoundary = here.atBoundary := by
  obtain ⟨behind, ahead⟩ := here
  cases ahead with
  | nil => simpa [atBoundary, before, text] using hcut
  | cons c ahead => rfl

/-- The skipping of blanks ends in the beginning or goes on past the cut. -/
theorem skipBlankFrom_append (behind ahead rest : Text) :
    skipBlankFrom behind (ahead ++ rest) =
      if (skipBlankFrom behind ahead).ahead = [] then
        skipBlankFrom (ahead.reverse ++ behind) rest
      else (skipBlankFrom behind ahead).before rest := by
  induction ahead generalizing behind with
  | nil => simp [skipBlankFrom]
  | cons c ahead ih =>
    simp only [List.cons_append, skipBlankFrom]
    split
    · rw [ih]
      simp
    · simp [before]

theorem skipBlank_before (h : here.skipBlank.ahead ≠ []) :
    (here.before rest).skipBlank = here.skipBlank.before rest := by
  unfold skipBlank before
  dsimp only
  rw [skipBlankFrom_append]
  exact if_neg h

theorem le_pos_skipBlank_before (h : here.skipBlank.ahead = []) :
    byteLength here.text ≤ (here.before rest).skipBlank.pos := by
  have hskip : (here.before rest).skipBlank =
      (Cursor.mk (here.ahead.reverse ++ here.behind) rest).skipBlank := by
    unfold skipBlank before
    dsimp only
    rw [skipBlankFrom_append]
    exact if_pos h
  obtain ⟨blanks, _, hreach⟩ :=
    reaches_skipBlank (Cursor.mk (here.ahead.reverse ++ here.behind) rest)
  rw [hskip, hreach.pos_eq]
  simp [pos, text]
  omega

/-- The places of the beginning come first. -/
theorem segmentsFrom_append (behind a rest : Text) :
    segmentsFrom behind (a ++ rest) =
      (segmentsFrom behind a).map (before rest) ++ segmentsFrom (a.reverse ++ behind) rest := by
  induction a generalizing behind with
  | nil => rfl
  | cons c a ih =>
    simp only [List.cons_append, segmentsFrom, ih, List.reverse_cons, List.append_assoc,
      List.nil_append]
    split
    · rw [List.map_cons, List.cons_append]
      rfl
    · rfl

theorem le_pos_of_mem_segmentsFrom {behind ahead : Text} {here : Cursor}
    (h : here ∈ segmentsFrom behind ahead) : byteLength behind ≤ here.pos := by
  obtain ⟨_, _, _, hreach, _⟩ := mem_segmentsFrom.mp h
  rw [hreach.pos_eq]
  exact Nat.le_add_right _ _

end Cursor

/-! ## Tests that can be made earlier -/

section Filter

variable {α β : Type _} {p : β → Bool} {q : α → Bool}

theorem filter_append_of_neg {front back : List β} (h : ∀ y ∈ back, p y = false) :
    (front ++ back).filter p = front.filter p := by
  have hnil : back.filter p = [] := by
    rw [List.filter_eq_nil_iff]
    exact fun y hy => by simp [h y hy]
  rw [List.filter_append, hnil, List.append_nil]

/-- As `filter_filterMap_of_eq`, for the members of the list. -/
theorem filter_filterMap_of_mem {f : α → Option β} {list : List α}
    (h : ∀ x ∈ list, ∀ y, f x = some y → p y = q x) :
    (list.filterMap f).filter p = (list.filter q).filterMap f := by
  rw [List.filter_filterMap, List.filterMap_filter]
  apply List.filterMap_congr
  intro x hx
  cases hfx : f x with
  | none => simp
  | some y => simp only [Option.filter_some, h x hx y hfx]

/-- What is made of what fails a test fails another: then the first test can be made before. -/
theorem filter_flatMap_of_mem {g : α → List β} {list : List α}
    (h : ∀ x ∈ list, q x = false → ∀ y ∈ g x, p y = false) :
    (list.flatMap g).filter p = (list.filter q).flatMap fun x => (g x).filter p := by
  induction list with
  | nil => rfl
  | cons x list ih =>
    have hrest := ih fun y hy => h y (List.mem_cons_of_mem x hy)
    rw [List.flatMap_cons, List.filter_append, hrest]
    by_cases hx : q x = true
    · rw [List.filter_cons_of_pos hx, List.flatMap_cons]
    · rw [List.filter_cons_of_neg hx]
      have hnil : (g x).filter p = [] := by
        rw [List.filter_eq_nil_iff]
        intro y hy
        rw [h x List.mem_cons_self (Bool.eq_false_iff.mpr hx) y hy]
        decide
      rw [hnil, List.nil_append]

end Filter

/-! ## Readings of the beginning -/

/-- Before the cut between `a` and `rest` the pattern reads what it reads in `a` by itself. -/
def Pattern.Steady (pattern : Pattern) (a rest : Text) : Prop :=
  ∀ front capture back, a = front ++ capture.text ++ back →
    isBoundary front.reverse.head? capture.text.head? = true →
    (pattern.Reads capture (back ++ rest) ↔ pattern.Reads capture back)

/-- A reading ends behind the place where it begins. -/
theorem Pattern.pos_lt_of_readBounded? {pattern : Pattern} {here there : Cursor}
    {capture : Capture} (h : pattern.readBounded? here = some (capture, there)) :
    here.pos < there.pos := by
  obtain ⟨_, hread, _⟩ := Pattern.readBounded?_eq_some.mp h
  have := byteLength_pos (Pattern.read?_eq_some hread).1
  rw [(Cursor.reaches_of_read? hread).pos_eq]
  omega

/-- The same reading when `rest` comes behind the text. -/
def Reading.before (rest : Text) (reading : Reading) : Reading :=
  ⟨reading.first.before rest, reading.last.before rest, reading.window⟩

theorem numeral?_before (rest : Text) {reading : Reading} {passed : Text}
    (h : reading.first.Reaches passed reading.last) (rule : Rule) :
    (reading.before rest).numeral? rule = reading.numeral? rule := by
  have hbefore : (reading.before rest).first.Reaches passed (reading.before rest).last :=
    (Cursor.reaches_before_iff rest).mpr h
  unfold Reading.numeral?
  rw [Reading.text_eq h, Reading.text_eq hbefore]
  rfl

section Cut

variable {a rest : Text} (hcut : isBoundary a.reverse.head? rest.head? = true)

include hcut

theorem readBounded?_before {pattern : Pattern} (hsteady : pattern.Steady a rest) {here : Cursor}
    (hhere : here.text = a) :
    (pattern.readBounded? (here.before rest)).filter
        (fun r => decide (r.2.pos ≤ byteLength a)) =
      (pattern.readBounded? here).map fun r => (r.1, r.2.before rest) := by
  have hboundary : ∀ place : Cursor, place.text = a →
      (place.before rest).atBoundary = place.atBoundary := by
    rintro place rfl
    exact Cursor.atBoundary_before rest place hcut
  -- A bounded reading of the beginning is one of the whole text, and the other way round.
  have hiff : ∀ capture (there : Cursor), there.text = a →
      (pattern.readBounded? (here.before rest) = some (capture, there.before rest) ↔
        pattern.readBounded? here = some (capture, there)) := by
    intro capture there hthere
    rw [Pattern.readBounded?_eq_some, Pattern.readBounded?_eq_some, hboundary here hhere,
      hboundary there hthere, Pattern.read?_eq_some_iff, Pattern.read?_eq_some_iff,
      Cursor.reaches_before_iff]
    apply and_congr_right
    intro hstart
    apply and_congr_left
    intro _
    apply and_congr_right
    intro hreach
    apply hsteady here.behind.reverse capture there.ahead
    · rw [← hhere, Cursor.text, hreach.1, List.append_assoc]
    · rw [List.reverse_reverse]
      unfold Cursor.atBoundary at hstart
      rw [hreach.1] at hstart
      cases htext : capture.text with
      | nil => exact isBoundary_none_right _
      | cons c text =>
        rw [htext] at hstart
        exact hstart
  apply Option.ext
  rintro ⟨capture, last⟩
  simp only [Option.filter_eq_some_iff, decide_eq_true_eq, Option.map_eq_some_iff, Prod.exists,
    Prod.mk.injEq]
  constructor
  · rintro ⟨hread, hpos⟩
    have htext : last.text = a ++ rest := by
      obtain ⟨_, hread, _⟩ := Pattern.readBounded?_eq_some.mp hread
      rw [(Cursor.reaches_of_read? hread).text_eq, Cursor.text_before, hhere]
    obtain ⟨there, hthere, rfl⟩ := Cursor.exists_before rest htext hpos
    exact ⟨capture, there, (hiff capture there hthere).mp hread, rfl, rfl⟩
  · rintro ⟨_, there, hread, rfl, rfl⟩
    have hthere : there.text = a := by
      obtain ⟨_, hread, _⟩ := Pattern.readBounded?_eq_some.mp hread
      rw [(Cursor.reaches_of_read? hread).text_eq, hhere]
    refine ⟨(hiff _ there hthere).mpr hread, ?_⟩
    rw [Cursor.pos_before, ← hthere]
    exact there.pos_le_byteLength

/-- The numerals of `found` that end in the beginning are those of `beginning`. -/
def BeginsWith (bytes : Nat) (found beginning : List Numeral) : Prop :=
  found.filter (fun n => decide (n.stop ≤ bytes)) = beginning

variable {found beginning : List Numeral} (hfound : BeginsWith (byteLength a) found beginning)
  (hwhole : ∀ n ∈ found, n.StandsIn (a ++ rest)) (hstands : ∀ n ∈ beginning, n.StandsIn a)

omit hcut in
/-- From a place of the beginning a numeral of the beginning leads to the same place. -/
theorem forward_of_standsIn {here : Cursor} (hhere : here.text = a) {n : Numeral}
    (hn : n.StandsIn a) (hstart : n.start = here.pos) :
    (here.before rest).forward n.text.length = (here.forward n.text.length).before rest := by
  obtain ⟨⟨hahead, _⟩, _⟩ := reaches_of_standsIn (hhere ▸ hn) hstart
  apply Cursor.forward_before
  rw [hahead, List.length_append]
  omega

include hfound hwhole hstands

theorem readElement_before {here : Cursor} (hhere : here.text = a) {element : Element}
    (hsteady : ∀ pattern, element = .text pattern → pattern.Steady a rest) :
    (readElement found (here.before rest) element).filter
        (fun r => decide (r.2.pos ≤ byteLength a)) =
      (readElement beginning here element).map fun r => (r.1, r.2.before rest) := by
  cases element with
  | text pattern =>
    have hread := readBounded?_before hcut (hsteady pattern rfl) hhere
    simp only [readElement]
    cases hjoint : pattern.readBounded? (here.before rest) with
    | none =>
      rw [hjoint, Option.filter_none, eq_comm, Option.map_eq_none_iff] at hread
      rw [hread]
      rfl
    | some pair =>
      obtain ⟨capture, there⟩ := pair
      rw [hjoint, Option.filter_some] at hread
      by_cases hpos : there.pos ≤ byteLength a
      · simp only [hpos, decide_true, if_true] at hread
        obtain ⟨⟨_, last⟩, hlast, heq⟩ := Option.map_eq_some_iff.mp hread.symm
        obtain ⟨rfl, rfl⟩ := Prod.mk.inj heq
        simp only [hlast, Option.toList_some, List.map_cons, List.map_nil]
        exact List.filter_cons_of_pos (decide_eq_true hpos)
      · simp only [hpos, decide_false] at hread
        have hnone := Option.map_eq_none_iff.mp hread.symm
        simp only [hnone, Option.toList_some, Option.toList_none, List.map_cons, List.map_nil]
        rw [List.filter_cons_of_neg (by simpa using hpos), List.filter_nil]
  | number condition =>
    have htest : ∀ n ∈ found.filter fun n => n.start = here.pos && condition.accepts n.token,
        decide (((here.before rest).forward n.text.length).pos ≤ byteLength a) =
          decide (n.stop ≤ byteLength a) := by
      intro n hn
      obtain ⟨hn, htaken⟩ := List.mem_filter.mp hn
      simp only [Bool.and_eq_true, decide_eq_true_eq] at htaken
      have hn' : n.StandsIn (here.before rest).text := by
        rw [Cursor.text_before, hhere]
        exact hwhole n hn
      rw [(reaches_of_standsIn hn' htaken.1).2]
    -- The test of the end can be made before the tests of the element.
    have hfilter := (List.filter_congr htest).trans
      ((List.filter_comm _ _ _).trans (congrArg (List.filter fun n =>
        n.start = here.pos && condition.accepts n.token) hfound))
    simp only [readElement]
    rw [List.filter_map, List.map_map]
    refine (congrArg (List.map _) hfilter).trans ?_
    apply List.map_congr_left
    intro n hn
    obtain ⟨hn, htaken⟩ := List.mem_filter.mp hn
    simp only [Bool.and_eq_true, decide_eq_true_eq] at htaken
    exact congrArg _ (forward_of_standsIn hhere (hstands n hn) htaken.1)

theorem readElements_before {elements : List Element} {here : Cursor} (hhere : here.text = a)
    (hsteady : ∀ pattern, Element.text pattern ∈ elements → pattern.Steady a rest) :
    (readElements found elements (here.before rest)).filter
        (fun r => decide (r.2.pos ≤ byteLength a)) =
      (readElements beginning elements here).map fun r => (r.1, r.2.before rest) := by
  induction elements generalizing here with
  | nil =>
    have hpos : here.pos ≤ byteLength a := hhere ▸ here.pos_le_byteLength
    simp [readElements, hpos]
  | cons element elements ih =>
    have hjoint : (here.before rest).skipBlank.text = a ++ rest := by
      rw [Cursor.text_skipBlank, Cursor.text_before, hhere]
    have hskip : here.skipBlank.text = a := (Cursor.text_skipBlank here).trans hhere
    -- A reading ends no earlier than its first element.
    have hlater : ∀ place : Cursor, place.text = a ++ rest →
        ∀ node there, (node, there) ∈ readElement found place element →
        ∀ window last, (window, last) ∈ readElements found elements there →
          place.pos < there.pos ∧ there.pos ≤ last.pos := by
      rintro place hplace node there hnode window last hrest
      rw [← hplace] at hwhole
      obtain ⟨passed, hne, hthere⟩ := reaches_of_mem_readElement hwhole hnode
      obtain ⟨more, hlast⟩ :=
        reaches_of_mem_readElements (by rw [hthere.text_eq]; exact hwhole) hrest
      have := byteLength_pos hne
      rw [hlast.pos_eq, hthere.pos_eq]
      omega
    simp only [readElements]
    by_cases hend : here.skipBlank.ahead = []
    · -- Nothing but blanks is left in the beginning.
      have hpast := Cursor.le_pos_skipBlank_before rest here hend
      have hnone : readElement beginning here.skipBlank element = [] := by
        rw [List.eq_nil_iff_forall_not_mem]
        rintro ⟨node, there⟩ hnode
        obtain ⟨passed, hne, hthere⟩ :=
          reaches_of_mem_readElement (by rw [hskip]; exact hstands) hnode
        exact hne (List.append_eq_nil_iff.mp (hthere.1.symm.trans hend)).1
      rw [hnone, List.flatMap_nil, List.map_nil, List.filter_eq_nil_iff]
      rintro ⟨window, last⟩ h
      simp only [List.mem_flatMap, List.mem_map, Prod.mk.injEq, Prod.exists] at h
      obtain ⟨node, there, hnode, nodes, end', hrest, _, rfl⟩ := h
      have := hlater _ hjoint node there hnode nodes end' hrest
      rw [hhere] at hpast
      simp only [decide_eq_true_eq]
      omega
    · rw [Cursor.skipBlank_before rest here hend] at hjoint ⊢
      rw [@filter_flatMap_of_mem _ _ _ fun r => decide (r.2.pos ≤ byteLength a)]
      · rw [readElement_before hcut hfound hwhole hstands hskip
            fun pattern h => hsteady pattern (h ▸ List.mem_cons_self),
          List.flatMap_map, List.map_flatMap]
        apply List.flatMap_congr
        rintro ⟨node, there⟩ hnode
        have hthere : there.text = a := (text_of_mem_readElement hnode).trans hskip
        have hrest := ih hthere fun pattern h => hsteady pattern (List.mem_cons_of_mem _ h)
        dsimp only
        rw [List.filter_map, List.map_map]
        refine (congrArg (List.map _) hrest).trans ?_
        rw [List.map_map]
        rfl
      · rintro ⟨node, there⟩ hnode hpast ⟨window, last⟩ h
        simp only [List.mem_map, Prod.mk.injEq, Prod.exists] at h
        obtain ⟨nodes, end', hrest, _, rfl⟩ := h
        have := hlater _ hjoint node there hnode nodes end' hrest
        simp only [decide_eq_false_iff_not] at hpast ⊢
        omega

theorem readFirst_before {element : Element}
    (hsteady : ∀ pattern, element = .text pattern → pattern.Steady a rest) :
    (readFirst (a ++ rest) found element).filter (fun r => decide (r.2.2.pos ≤ byteLength a)) =
      (readFirst a beginning element).map fun r => (r.1.before rest, r.2.1, r.2.2.before rest) := by
  cases element with
  | text pattern =>
    simp only [readFirst]
    rw [segments, Cursor.segmentsFrom_append, List.filterMap_append, filter_append_of_neg]
    · rw [List.filterMap_map, List.filter_filterMap, List.map_filterMap]
      apply List.filterMap_congr
      intro here hhere
      have hread := readBounded?_before hcut (hsteady pattern rfl) (text_of_mem_segments hhere)
      simp only [Function.comp_apply, Option.filter_map]
      refine (congrArg (Option.map _) hread).trans ?_
      rw [Option.map_map, Option.map_map]
      rfl
    · -- What is read from a place past the cut ends past the cut.
      intro r hr
      obtain ⟨here, hhere, hmap⟩ := List.mem_filterMap.mp hr
      obtain ⟨⟨capture, there⟩, hread, rfl⟩ := Option.map_eq_some_iff.mp hmap
      have hpos := Cursor.le_pos_of_mem_segmentsFrom hhere
      have hlt := Pattern.pos_lt_of_readBounded? hread
      simp only [List.append_nil, byteLength_reverse] at hpos
      simp only [decide_eq_false_iff_not]
      omega
  | number condition =>
    simp only [readFirst]
    rw [@filter_filterMap_of_mem _ _ _ fun n => decide (n.stop ≤ byteLength a)]
    · rw [List.filter_comm, hfound, List.map_filterMap]
      apply List.filterMap_congr
      intro n hn
      have hstandsn := hstands n (List.mem_filter.mp hn).1
      obtain ⟨here, hhere, _⟩ := hstandsn.cursor
      obtain ⟨htext, hpos⟩ := cursorAt?_eq_some.mp hhere
      have hjoint : cursorAt? (a ++ rest) n.start = some (here.before rest) :=
        cursorAt?_eq_some.mpr ⟨by rw [Cursor.text_before, htext], hpos⟩
      rw [hhere, hjoint]
      simp only [Option.map_some, forward_of_standsIn htext hstandsn hpos.symm]
    · intro n hn r hr
      obtain ⟨here, hhere, rfl⟩ := Option.map_eq_some_iff.mp hr
      obtain ⟨htext, hpos⟩ := cursorAt?_eq_some.mp hhere
      have hn' := hwhole n (List.mem_filter.mp hn).1
      rw [(reaches_of_standsIn (htext ▸ hn') hpos.symm).2]

theorem readRule_before {rule : Rule}
    (hsteady : ∀ pattern, Element.text pattern ∈ rule.elements → pattern.Steady a rest) :
    (readRule (a ++ rest) found rule).filter (fun r => decide (r.last.pos ≤ byteLength a)) =
      (readRule a beginning rule).map (Reading.before rest) := by
  unfold readRule
  cases helements : rule.elements with
  | nil => rfl
  | cons element elements =>
    rw [helements] at hsteady
    dsimp only
    rw [@filter_flatMap_of_mem _ _ _ fun r => decide (r.2.2.pos ≤ byteLength a)]
    · rw [readFirst_before hcut hfound hwhole hstands
          fun pattern h => hsteady pattern (h ▸ List.mem_cons_self),
        List.flatMap_map, List.map_flatMap]
      apply List.flatMap_congr
      rintro ⟨first, node, there⟩ hmem
      obtain ⟨htext, hnode, _⟩ := mem_readFirst.mp hmem
      have hthere : there.text = a := (text_of_mem_readElement hnode).trans htext
      have hrest := readElements_before hcut hfound hwhole hstands hthere
        fun pattern h => hsteady pattern (List.mem_cons_of_mem _ h)
      dsimp only
      rw [List.filter_map, List.map_map]
      refine (congrArg (List.map _) hrest).trans ?_
      rw [List.map_map]
      rfl
    · rintro ⟨first, node, there⟩ hmem hpast reading h
      obtain ⟨htext, hnode, _⟩ := mem_readFirst.mp hmem
      obtain ⟨⟨window, last⟩, hrest, rfl⟩ := List.mem_map.mp h
      obtain ⟨more, hlast⟩ := reaches_of_mem_readElements
        (by rw [text_of_mem_readElement hnode, htext]; exact hwhole) hrest
      have hpos : last.pos = there.pos + byteLength more := hlast.pos_eq
      simp only [decide_eq_false_iff_not] at hpast ⊢
      omega

variable {rules : Registry} (hsteady : ∀ pattern ∈ patternsOf rules, pattern.Steady a rest)

include hsteady

theorem proposals_before :
    BeginsWith (byteLength a) (proposals rules (a ++ rest) found) (proposals rules a beginning) := by
  unfold BeginsWith proposals
  rw [List.filter_flatMap]
  apply List.flatMap_congr
  intro rule hrule
  rw [@filter_filterMap_of_mem _ _ _ fun r => decide (r.last.pos ≤ byteLength a)]
  · rw [readRule_before hcut hfound hwhole hstands fun pattern h =>
        hsteady pattern (mem_patternsOf.mpr ⟨rule, hrule, h⟩), List.filterMap_map]
    apply List.filterMap_congr
    intro reading hreading
    obtain ⟨_, passed, _, hreach⟩ := reaches_of_mem_readRule hstands hreading
    exact numeral?_before rest hreach rule
  · intro reading hreading n hn
    obtain ⟨_, hkey, _⟩ := numeral?_eq_some hwhole hreading hn
    rw [(Numeral.key_eq_iff.mp hkey).2.1]

theorem keepNew_before :
    BeginsWith (byteLength a) (keepNew found (proposals rules (a ++ rest) found))
      (keepNew beginning (proposals rules a beginning)) := by
  have hproposals := proposals_before hcut hfound hwhole hstands hsteady
  unfold BeginsWith at hfound hproposals ⊢
  rw [filter_keepNew, hfound, hproposals]
  intro m n hkey
  rw [(Prod.mk.inj (Prod.mk.inj hkey).2).1]

theorem grow_before :
    BeginsWith (byteLength a) (grow rules (a ++ rest) found) (grow rules a beginning) := by
  have hnew := keepNew_before hcut hfound hwhole hstands hsteady
  unfold BeginsWith at hfound hnew ⊢
  rw [grow, List.filter_append, hnew, hfound]
  rfl

end Cut

theorem patternsOf_subset {taking rules : Registry} (h : taking ⊆ rules) :
    patternsOf taking ⊆ patternsOf rules := by
  intro pattern hpattern
  obtain ⟨rule, hrule, helement⟩ := mem_patternsOf.mp hpattern
  exact mem_patternsOf.mpr ⟨rule, h hrule, helement⟩

/-- Within any number of passes, what ends before the cut is what the beginning finds by
itself, in the same order. -/
theorem candidates_within {a rest : Text}
    (hcut : isBoundary a.reverse.head? rest.head? = true) {rules : Registry}
    (hsteady : ∀ pattern ∈ patternsOf rules, pattern.Steady a rest) (passes : Nat) :
    BeginsWith (byteLength a) (candidates rules (a ++ rest) passes) (candidates rules a passes) := by
  suffices hall : (∀ n ∈ candidates rules (a ++ rest) passes, n.StandsIn (a ++ rest)) ∧
      (∀ n ∈ candidates rules a passes, n.StandsIn a) ∧
        BeginsWith (byteLength a) (candidates rules (a ++ rest) passes) (candidates rules a passes)
    from hall.2.2
  refine @candidates_side_by_side rules (a ++ rest) a (fun found beginning =>
    (∀ n ∈ found, n.StandsIn (a ++ rest)) ∧ (∀ n ∈ beginning, n.StandsIn a) ∧
      BeginsWith (byteLength a) found beginning) ⟨by simp, by simp, rfl⟩ ?_ passes
  rintro taking htaking found beginning ⟨hwhole, hstands, hfound⟩
  exact ⟨standsIn_grow hwhole, standsIn_grow hstands, grow_before hcut hfound hwhole hstands
    fun pattern hpattern => hsteady pattern (patternsOf_subset htaking hpattern)⟩

end SpanishNumerals
