-- How the words are spaced. Two texts with the same blocks are run side by side. Each pass finds
-- twins in the same order, so both runs find the same numbers, in corresponding positions of the
-- blocks.
import Mathlib.Data.Option.Basic
import SpanishNumerals.Proofs.Beginning
import SpanishNumerals.Proofs.TwinPlaces

namespace SpanishNumerals

/-- A pattern that reads no blank, and to which a row of blanks behind what it reads is as good
as one space. -/
structure Pattern.BlindToSpacing (pattern : Pattern) : Prop where
  reads : ∀ {capture : Capture} {rest : Text}, pattern.Reads capture rest →
    ∀ c ∈ capture.text, isBlank c = false
  follows : ∀ {capture : Capture} {rest : Text},
    pattern.Reads capture (squeeze rest) ↔ pattern.Reads capture rest

theorem blindToSpacing_spanishRules :
    ∀ pattern ∈ patternsOf spanishRules, pattern.BlindToSpacing := fun _ hpattern =>
  ⟨not_blank_of_reads hpattern, reads_squeeze_iff hpattern⟩

section Twins

variable {text text' : Text}

/-! ## Twin numerals -/

/-- The stretch from `first` to `last` in one text and the one from `first'` to `last'` in the
other are twins. They begin and end with no blank. -/
structure AlikeSpan (text text' : Text) (first last first' last' : Cursor) : Prop where
  starts : Alike text text' first first'
  stops : Alike text text' last last'
  begins : first.ahead.head?.all isBlank = false
  ends : last.behind.head?.all isBlank = false

theorem AlikeSpan.symm {first last first' last' : Cursor}
    (h : AlikeSpan text text' first last first' last') :
    AlikeSpan text' text first' last' first last :=
  ⟨h.starts.symm, h.stops.symm, h.starts.blank_ahead ▸ h.begins, h.stops.blank_behind ▸ h.ends⟩

/-- The same number, given by the same rule, at twin places. -/
structure Numeral.Twin (text text' : Text) (n n' : Numeral) : Prop where
  stands_left : n.StandsIn text
  stands_right : n'.StandsIn text'
  token : n.token = n'.token
  rule : n.rule = n'.rule
  places : ∃ first last first' last', AlikeSpan text text' first last first' last' ∧
    first.pos = n.start ∧ last.pos = n.stop ∧ first'.pos = n'.start ∧ last'.pos = n'.stop

namespace Numeral.Twin

variable {n n' m m' : Numeral}

theorem symm (h : n.Twin text text' n') : n'.Twin text' text n := by
  obtain ⟨first, last, first', last', hspan, hstart, hstop, hstart', hstop'⟩ := h.places
  exact ⟨h.stands_right, h.stands_left, h.token.symm, h.rule.symm,
    first', last', first, last, hspan.symm, hstart', hstop', hstart, hstop⟩

/-- Where a numeral starts, its twin starts at the twin place. -/
theorem start_eq (h : n.Twin text text' n') {here there : Cursor}
    (halike : Alike text text' here there) (hstart : n.start = here.pos) :
    n'.start = there.pos := by
  obtain ⟨first, last, first', last', hspan, hfirst, _, hfirst', _⟩ := h.places
  obtain rfl : first = here := Cursor.eq_of_pos
    (hspan.starts.text_left.trans halike.text_left.symm) (hfirst.trans hstart)
  have hplace : first' = there := eq_of_squeeze_ahead
    (hspan.starts.text_right.trans halike.text_right.symm) hspan.symm.begins
    (hspan.starts.ahead.symm.trans halike.ahead)
  rw [← hfirst', hplace]

theorem start_eq_iff (h : n.Twin text text' n') {here there : Cursor}
    (halike : Alike text text' here there) : n.start = here.pos ↔ n'.start = there.pos :=
  ⟨h.start_eq halike, h.symm.start_eq halike.symm⟩

/-- From twin places where two twins start one comes to the twin places where they stop. -/
theorem last_alike (h : n.Twin text text' n') {here there : Cursor}
    (halike : Alike text text' here there) (hstart : n.start = here.pos) :
    Alike text text' (here.forward n.text.length) (there.forward n'.text.length) ∧
      (here.forward n.text.length).behind.head?.all isBlank = false := by
  obtain ⟨first, last, first', last', hspan, _, hlast, _, hlast'⟩ := h.places
  obtain ⟨hreach, hstop⟩ := reaches_of_standsIn (halike.text_left ▸ h.stands_left) hstart
  obtain ⟨hreach', hstop'⟩ := reaches_of_standsIn (halike.text_right ▸ h.stands_right)
    (h.start_eq halike hstart)
  obtain rfl : last = here.forward n.text.length := Cursor.eq_of_pos
    (hspan.stops.text_left.trans (hreach.text_eq.trans halike.text_left).symm)
    (hlast.trans hstop.symm)
  obtain rfl : last' = there.forward n'.text.length := Cursor.eq_of_pos
    (hspan.stops.text_right.trans (hreach'.text_eq.trans halike.text_right).symm)
    (hlast'.trans hstop'.symm)
  exact ⟨hspan.stops, hspan.ends⟩

/-- Twins of one number at one place are one number at one place. -/
theorem key_eq (hn : n.Twin text text' n') (hm : m.Twin text text' m') (h : n.key = m.key) :
    n'.key = m'.key := by
  obtain ⟨first, last, first', last', hspan, hfirst, hlast, hfirst', hlast'⟩ := hn.places
  obtain ⟨front, back, front', back', hspan', hfront, hback, hfront', hback'⟩ := hm.places
  obtain ⟨hstart, hrest⟩ := Prod.mk.inj h
  obtain ⟨hstop, htoken⟩ := Prod.mk.inj hrest
  have hstart' : n'.start = m'.start := by
    rw [hn.start_eq hspan'.starts (hstart.trans hfront.symm), hfront']
  obtain rfl : last = back := Cursor.eq_of_pos
    (hspan.stops.text_left.trans hspan'.stops.text_left.symm) (by rw [hlast, hback, hstop])
  have hplace : last' = back' := eq_of_squeeze_behind
    (hspan.stops.text_right.trans hspan'.stops.text_right.symm) hspan.symm.ends
    (hspan.stops.behind.symm.trans hspan'.stops.behind)
  have hstop' : n'.stop = m'.stop := by rw [← hlast', hplace, hback']
  rw [Numeral.key, Numeral.key, hstart', hstop', ← hn.token, htoken, hm.token]

theorem sameAs_eq (hn : n.Twin text text' n') (hm : m.Twin text text' m') :
    n.sameAs m = n'.sameAs m' := by
  rw [Bool.eq_iff_iff, Numeral.sameAs_iff, Numeral.sameAs_iff]
  exact ⟨key_eq hn hm, key_eq hn.symm hm.symm⟩

end Numeral.Twin

/-! ## Twin readings -/

/-- Members of related lists stand beside each other. -/
theorem forall₂_with_mem {α β : Type} {R : α → β → Prop} {list : List α} {list' : List β}
    (h : List.Forall₂ R list list') :
    List.Forall₂ (fun a b => a ∈ list ∧ b ∈ list' ∧ R a b) list list' := by
  induction h with
  | nil => exact List.Forall₂.nil
  | cons hab _ ih =>
    refine List.Forall₂.cons ⟨List.mem_cons_self, List.mem_cons_self, hab⟩ (ih.imp ?_)
    rintro a b ⟨ha, hb, h⟩
    exact ⟨List.mem_cons_of_mem _ ha, List.mem_cons_of_mem _ hb, h⟩

theorem forall₂_flatMap {α β γ : Type} {R : β → γ → Prop} {f : α → List β} {g : α → List γ}
    {list : List α} (h : ∀ a ∈ list, List.Forall₂ R (f a) (g a)) :
    List.Forall₂ R (list.flatMap f) (list.flatMap g) := by
  induction list with
  | nil => exact List.Forall₂.nil
  | cons a list ih =>
    exact List.rel_append (h a List.mem_cons_self)
      (ih fun b hb => h b (List.mem_cons_of_mem a hb))

/-- The same node, and twin places behind it that no blank comes before. -/
def AlikeNodes {α : Type} (text text' : Text) (r r' : α × Cursor) : Prop :=
  r.1 = r'.1 ∧ Alike text text' r.2 r'.2 ∧ r.2.behind.head?.all isBlank = false

theorem Pattern.BlindToSpacing.alike_of_readBounded? {pattern : Pattern}
    (hblind : pattern.BlindToSpacing) {here there last : Cursor} {capture : Capture}
    (h : Alike text text' here there) (hread : pattern.readBounded? here = some (capture, last)) :
    ∃ last', pattern.readBounded? there = some (capture, last') ∧
      Alike text text' last last' ∧ last.behind.head?.all isBlank = false := by
  obtain ⟨hopens, hread, hcloses⟩ := Pattern.readBounded?_eq_some.mp hread
  obtain ⟨hreach, hreads⟩ := Pattern.read?_eq_some_iff.mp hread
  have hunblank := hblind.reads hreads
  obtain ⟨last', hreach', hlast⟩ := h.past hunblank hreach
  have hreads' : pattern.Reads capture last'.ahead := by
    rw [← hblind.follows, ← hlast.ahead, hblind.follows]
    exact hreads
  refine ⟨last', Pattern.readBounded?_eq_some.mpr ⟨h.atBoundary_eq ▸ hopens,
    Pattern.read?_eq_some_iff.mpr ⟨hreach', hreads'⟩, hlast.atBoundary_eq ▸ hcloses⟩, hlast, ?_⟩
  obtain ⟨c, row, hrow⟩ := List.exists_cons_of_ne_nil (List.reverse_ne_nil_iff.mpr hreads.1)
  have hc : isBlank c = false :=
    hunblank c (List.mem_reverse.mp (hrow ▸ List.mem_cons_self))
  simpa [hreach.2, hrow] using hc

theorem Pattern.BlindToSpacing.rel_readBounded? {pattern : Pattern}
    (hblind : pattern.BlindToSpacing) {here there : Cursor}
    (h : Alike text text' here there) :
    Option.Rel (AlikeNodes text text') (pattern.readBounded? here) (pattern.readBounded? there) := by
  rcases hread : pattern.readBounded? here with _ | ⟨capture, last⟩
  · rcases hread' : pattern.readBounded? there with _ | ⟨capture, last⟩
    · exact Option.Rel.none
    · obtain ⟨_, hsome, _⟩ := hblind.alike_of_readBounded? h.symm hread'
      rw [hread] at hsome
      exact absurd hsome (by simp)
  · obtain ⟨last', hread', hlast⟩ := hblind.alike_of_readBounded? h hread
    rw [hread']
    exact Option.Rel.some ⟨rfl, hlast⟩

section Readings

variable {found found' : List Numeral}
  (htwins : List.Forall₂ (Numeral.Twin text text') found found')

include htwins

theorem stands_of_twins :
    (∀ n ∈ found, n.StandsIn text) ∧ ∀ n ∈ found', n.StandsIn text' := by
  induction htwins with
  | nil => simp
  | cons h _ ih =>
    simp only [List.forall_mem_cons]
    exact ⟨⟨h.stands_left, ih.1⟩, ⟨h.stands_right, ih.2⟩⟩

theorem alike_readElement {element : Element} {here there : Cursor}
    (hblind : ∀ pattern, element = .text pattern → pattern.BlindToSpacing)
    (h : Alike text text' here there) :
    List.Forall₂ (AlikeNodes text text') (readElement found here element)
      (readElement found' there element) := by
  cases element with
  | text pattern =>
    have hrel := (hblind pattern rfl).rel_readBounded? h
    unfold readElement
    dsimp only
    generalize pattern.readBounded? here = read at hrel ⊢
    generalize pattern.readBounded? there = read' at hrel ⊢
    cases hrel with
    | none => exact List.Forall₂.nil
    | some hread =>
      obtain ⟨hcapture, hlast⟩ := hread
      exact List.Forall₂.cons ⟨congrArg Node.capture hcapture, hlast⟩ List.Forall₂.nil
  | number condition =>
    have htest : ∀ n n', Numeral.Twin text text' n n' →
        ((decide (n.start = here.pos) && condition.accepts n.token) = true ↔
          (decide (n'.start = there.pos) && condition.accepts n'.token) = true) := by
      intro n n' htwin
      rw [htwin.token, Bool.and_eq_true, Bool.and_eq_true, decide_eq_true_iff, decide_eq_true_iff,
        htwin.start_eq_iff h]
    have hkept := forall₂_with_mem (List.rel_filter (fun n n' => htest n n') htwins)
    refine List.rel_map ?_ hkept
    rintro n n' ⟨hn, _, htwin⟩
    have hstart : n.start = here.pos :=
      of_decide_eq_true (Bool.and_eq_true_iff.mp (List.mem_filter.mp hn).2).1
    exact ⟨congrArg Node.number htwin.token, htwin.last_alike h hstart⟩

/-- At the end of a text nothing is read. -/
theorem readElement_at_end {element : Element} {here : Cursor} (htext : here.text = text)
    (hend : here.ahead = []) : readElement found here element = [] := by
  rw [List.eq_nil_iff_forall_not_mem]
  rintro ⟨node, there⟩ hmem
  obtain ⟨passed, hne, hreach⟩ :=
    reaches_of_mem_readElement (htext ▸ (stands_of_twins htwins).1) hmem
  have hahead := hreach.1
  rw [hend] at hahead
  exact hne (List.append_eq_nil_iff.mp hahead.symm).1

theorem twins_symm : List.Forall₂ (Numeral.Twin text' text) found' found :=
  List.Forall₂.flip (htwins.imp fun _ _ h => h.symm)

theorem alike_readElements {elements : List Element} {here there : Cursor}
    (hblind : ∀ pattern, Element.text pattern ∈ elements → pattern.BlindToSpacing)
    (h : Alike text text' here there) (hends : here.behind.head?.all isBlank = false) :
    List.Forall₂ (AlikeNodes text text') (readElements found elements here)
      (readElements found' elements there) := by
  induction elements generalizing here there with
  | nil => exact List.Forall₂.cons ⟨rfl, h, hends⟩ List.Forall₂.nil
  | cons element elements ih =>
    unfold readElements
    rcases h.skipBlank with ⟨hend, hend'⟩ | ⟨hskip, _⟩
    · rw [readElement_at_end htwins ((Cursor.text_skipBlank _).trans h.text_left) hend,
        readElement_at_end (twins_symm htwins) ((Cursor.text_skipBlank _).trans h.text_right) hend']
      exact List.Forall₂.nil
    · have hfirst := alike_readElement htwins
        (fun pattern helement => hblind pattern (helement ▸ List.mem_cons_self)) hskip
      refine List.rel_flatMap hfirst ?_
      rintro r r' ⟨hnode, hlast, hlastends⟩
      have hrest := ih (fun pattern helement => hblind pattern (List.mem_cons_of_mem _ helement))
        hlast hlastends
      refine List.rel_map ?_ hrest
      rintro w w' ⟨hwindow, hplace⟩
      exact ⟨congrArg₂ _ hnode hwindow, hplace⟩

/-- Twin readings of a rule: the same window over twin stretches. -/
structure Reading.Twin (text text' : Text) (reading reading' : Reading) : Prop where
  window : reading.window = reading'.window
  span : AlikeSpan text text' reading.first reading.last reading'.first reading'.last

/-- Twin places for the first element of a rule, the same node, and twin places behind it. -/
def AlikeFirst (text text' : Text) (r r' : Cursor × Node × Cursor) : Prop :=
  Alike text text' r.1 r'.1 ∧ r.1.ahead.head?.all isBlank = false ∧
    AlikeNodes text text' r.2 r'.2

theorem alike_readFirst {element : Element}
    (hbegin : AlikePastBlanks text text' (Cursor.start text) (Cursor.start text'))
    (hblind : ∀ pattern, element = .text pattern → pattern.BlindToSpacing) :
    List.Forall₂ (AlikeFirst text text') (readFirst text found element)
      (readFirst text' found' element) := by
  cases element with
  | text pattern =>
    have hsegments : List.Forall₂ (Alike text text') (segments text) (segments text') :=
      alike_segmentsFrom hbegin
    refine List.rel_filterMap ?_ (forall₂_with_mem hsegments)
    rintro here there ⟨hhere, _, h⟩
    obtain ⟨_, c, rest, hahead, hc, _⟩ := mem_segments.mp hhere
    have hnext : here.ahead.head?.all isBlank = false := by
      rw [hahead]
      exact isBlank_eq_false hc
    have hrel := (hblind pattern rfl).rel_readBounded? h
    dsimp only
    generalize pattern.readBounded? here = read at hrel ⊢
    generalize pattern.readBounded? there = read' at hrel ⊢
    cases hrel with
    | none => exact Option.Rel.none
    | some hread =>
      obtain ⟨hcapture, hlast⟩ := hread
      exact Option.Rel.some ⟨h, hnext, congrArg Node.capture hcapture, hlast⟩
  | number condition =>
    have htest : ∀ n n', Numeral.Twin text text' n n' →
        (condition.accepts n.token = true ↔ condition.accepts n'.token = true) := by
      intro n n' htwin
      rw [htwin.token]
    have hkept := List.rel_filter (fun n n' => htest n n') htwins
    refine List.rel_filterMap ?_ hkept
    intro n n' htwin
    obtain ⟨first, _, first', _, hspan, hstart, _, hstart', _⟩ := htwin.places
    dsimp only
    rw [cursorAt?_eq_some.mpr ⟨hspan.starts.text_left, hstart⟩,
      cursorAt?_eq_some.mpr ⟨hspan.starts.text_right, hstart'⟩]
    exact Option.Rel.some ⟨hspan.starts, hspan.begins, congrArg Node.number htwin.token,
      htwin.last_alike hspan.starts hstart.symm⟩

theorem twin_readRule {rule : Rule}
    (hbegin : AlikePastBlanks text text' (Cursor.start text) (Cursor.start text'))
    (hblind : ∀ pattern, Element.text pattern ∈ rule.elements → pattern.BlindToSpacing) :
    List.Forall₂ (Reading.Twin text text') (readRule text found rule)
      (readRule text' found' rule) := by
  unfold readRule
  cases helements : rule.elements with
  | nil => exact List.Forall₂.nil
  | cons element elements =>
    rw [helements] at hblind
    have hfirst := alike_readFirst htwins hbegin
      fun pattern helement => hblind pattern (helement ▸ List.mem_cons_self)
    refine List.rel_flatMap hfirst ?_
    rintro r r' ⟨hplace, hbegins, hnode, hthere, hends⟩
    have hrest := alike_readElements htwins
      (fun pattern helement => hblind pattern (List.mem_cons_of_mem _ helement)) hthere hends
    refine List.rel_map ?_ hrest
    rintro w w' ⟨hwindow, hlast, hlastends⟩
    exact ⟨congrArg₂ _ hnode hwindow, hplace, hlast, hbegins, hlastends⟩

/-! ## Twin runs -/

/-- Twin readings give twin numerals, or none. -/
theorem twin_numerals {rule : Rule}
    (hbegin : AlikePastBlanks text text' (Cursor.start text) (Cursor.start text'))
    (hblind : ∀ pattern, Element.text pattern ∈ rule.elements → pattern.BlindToSpacing) :
    List.Forall₂ (Numeral.Twin text text')
      ((readRule text found rule).filterMap fun reading => reading.numeral? rule)
      ((readRule text' found' rule).filterMap fun reading => reading.numeral? rule) := by
  obtain ⟨hstands, hstands'⟩ := stands_of_twins htwins
  refine List.rel_filterMap ?_ (forall₂_with_mem (twin_readRule htwins hbegin hblind))
  rintro reading reading' ⟨hreading, hreading', htwin⟩
  rcases htoken : rule.apply reading.window with _ | token
  · have htoken' : rule.apply reading'.window = none := htwin.window ▸ htoken
    simp only [Reading.numeral?, htoken, htoken', Option.map_none]
    exact Option.Rel.none
  · have htoken' : rule.apply reading'.window = some token := htwin.window ▸ htoken
    have hn : reading.numeral? rule = some ⟨reading.first.pos, reading.text, token, rule.name⟩ := by
      rw [Reading.numeral?, htoken]
      rfl
    have hn' : reading'.numeral? rule =
        some ⟨reading'.first.pos, reading'.text, token, rule.name⟩ := by
      rw [Reading.numeral?, htoken']
      rfl
    obtain ⟨hstand, hkey, _, _⟩ := numeral?_eq_some hstands hreading hn
    obtain ⟨hstand', hkey', _, _⟩ := numeral?_eq_some hstands' hreading' hn'
    have hstop := (Prod.mk.inj (Prod.mk.inj hkey).2).1
    have hstop' := (Prod.mk.inj (Prod.mk.inj hkey').2).1
    dsimp only
    rw [hn, hn']
    exact Option.Rel.some ⟨hstand, hstand', rfl, rfl, reading.first, reading.last, reading'.first,
      reading'.last, htwin.span, rfl, hstop.symm, rfl, hstop'.symm⟩

theorem twin_proposals {rules : Registry}
    (hbegin : AlikePastBlanks text text' (Cursor.start text) (Cursor.start text'))
    (hblind : ∀ pattern ∈ patternsOf rules, pattern.BlindToSpacing) :
    List.Forall₂ (Numeral.Twin text text') (proposals rules text found)
      (proposals rules text' found') :=
  forall₂_flatMap fun rule hrule => twin_numerals htwins hbegin
    fun pattern hpattern => hblind pattern (mem_patternsOf.mpr ⟨rule, hrule, hpattern⟩)

end Readings

theorem twin_any {n n' : Numeral} {known known' : List Numeral}
    (hn : n.Twin text text' n') (hknown : List.Forall₂ (Numeral.Twin text text') known known') :
    known.any n.sameAs = known'.any n'.sameAs := by
  induction hknown with
  | nil => rfl
  | cons h _ ih => rw [List.any_cons, List.any_cons, hn.sameAs_eq h, ih]

/-- What is new in one run is new in the other. -/
theorem twin_keepNew {known known' proposed proposed' : List Numeral}
    (hknown : List.Forall₂ (Numeral.Twin text text') known known')
    (hproposed : List.Forall₂ (Numeral.Twin text text') proposed proposed') :
    List.Forall₂ (Numeral.Twin text text') (keepNew known proposed)
      (keepNew known' proposed') := by
  induction hproposed generalizing known known' with
  | nil => exact List.Forall₂.nil
  | cons h _ ih =>
    unfold keepNew
    rw [twin_any h hknown]
    split
    · exact ih hknown
    · exact List.Forall₂.cons h (ih (List.Forall₂.cons h hknown))

theorem twin_candidates {rules : Registry}
    (hbegin : AlikePastBlanks text text' (Cursor.start text) (Cursor.start text'))
    (hblind : ∀ pattern ∈ patternsOf rules, pattern.BlindToSpacing) (passes : Nat) :
    List.Forall₂ (Numeral.Twin text text') (candidates rules text passes)
      (candidates rules text' passes) := by
  refine candidates_side_by_side List.Forall₂.nil (fun taking htaking found found' hfound => ?_) passes
  exact List.rel_append hfound (twin_keepNew hfound (twin_proposals hfound hbegin
    fun pattern hpattern => hblind pattern (patternsOf_subset htaking hpattern)))

end Twins

/-! ## Texts with the same blocks -/

section SameBlocks

variable {text text' : Text} (h : (blocks text).map Block.text = (blocks text').map Block.text)

include h

/-- But for blanks at the front the squeezed texts are the same. -/
theorem dropWhile_squeeze_eq :
    (squeeze text).dropWhile isBlank = (squeeze text').dropWhile isBlank := by
  have hdrop : ∀ t : Text, (squeeze t).dropWhile isBlank =
      (((blocks t).map Block.text).flatMap fun row => ' ' :: row).dropWhile isBlank := by
    intro t
    rw [List.flatMap_map, ← squeezeCons_squeeze, squeezeCons, if_pos isBlank_space]
    split
    · rfl
    · rw [List.dropWhile_cons_of_pos isBlank_space]
  rw [hdrop text, hdrop text', h]

theorem alike_begin : AlikePastBlanks text text' (Cursor.start text) (Cursor.start text') := by
  refine alikePastBlanks rfl rfl (dropWhile_squeeze_eq h) ?_
  simp [Cursor.start, squeeze, squeezeCons, isBlank_space]

end SameBlocks

/-- The positions lie equally far in blocks of the same number. -/
def Corresponds (text text' : Text) (pos pos' : Nat) : Prop :=
  ∃ (i : Nat) (block block' : Block) (offset : Nat), (blocks text)[i]? = some block ∧
    (blocks text')[i]? = some block' ∧ offset ≤ byteLength block.text ∧
    pos = block.start + offset ∧ pos' = block'.start + offset

theorem corresponds_of_alike {text text' : Text} {here there : Cursor}
    (h : Alike text text' here there)
    (htouch : here.ahead.head?.all isBlank = false ∨ here.behind.head?.all isBlank = false) :
    Corresponds text text' here.pos there.pos := by
  have htouch' : there.ahead.head?.all isBlank = false ∨
      there.behind.head?.all isBlank = false := by
    rwa [← h.blank_ahead, ← h.blank_behind]
  obtain ⟨hblock, hpos⟩ := block_around htouch
  obtain ⟨hblock', hpos'⟩ := block_around htouch'
  have hindex : blocksBegun (fromBlank there.behind) = blocksBegun (fromBlank here.behind) := by
    rw [← blocksBegun_squeeze, ← fromBlank_squeeze, ← h.behind, fromBlank_squeeze,
      blocksBegun_squeeze]
  have hoffset : untilBlank there.behind = untilBlank here.behind := by
    rw [← untilBlank_squeeze, ← h.behind, untilBlank_squeeze]
  rw [h.text_left] at hblock
  rw [h.text_right, hindex] at hblock'
  rw [hoffset] at hpos'
  refine ⟨_, _, _, byteLength (untilBlank here.behind), hblock, hblock', ?_, hpos, hpos'⟩
  dsimp only
  rw [byteLength_append, byteLength_reverse]
  exact Nat.le_add_right _ _

/-- When two texts have the same blocks between their blanks, whatever the blanks are and
however many stand between two blocks and at both ends, the Spanish rules find as many numbers
in one as in the other within any number of passes. In the order of finding they have the same
value, the same scale and the same rule, and they start and stop at corresponding positions. -/
theorem the_spacing_of_the_blocks_changes_no_candidate (text text' : Text)
    (h : (blocks text).map Block.text = (blocks text').map Block.text) (passes : Nat) :
    List.Forall₂ (fun n n' => n.token = n'.token ∧ n.rule = n'.rule ∧
        Corresponds text text' n.start n'.start ∧ Corresponds text text' n.stop n'.stop)
      (candidates spanishRules text passes) (candidates spanishRules text' passes) := by
  refine (twin_candidates (alike_begin h) blindToSpacing_spanishRules passes).imp ?_
  intro n n' htwin
  obtain ⟨first, last, first', last', hspan, hstart, hstop, hstart', hstop'⟩ := htwin.places
  rw [← hstart, ← hstop, ← hstart', ← hstop']
  exact ⟨htwin.token, htwin.rule, corresponds_of_alike hspan.starts (Or.inl hspan.begins),
    corresponds_of_alike hspan.stops (Or.inr hspan.ends)⟩

/-- "dos mil" is read alike with one space between the words and with blanks everywhere, and 2000
is found in both. -/
theorem two_thousand_is_found_however_it_is_spaced :
    (blocks "dos mil".toList).map Block.text = (blocks "  dos\n\t mil\u00A0".toList).map Block.text ∧
      ⟨0, "dos mil".toList, ⟨.ofNat 2000, some 3⟩, "thousands"⟩ ∈
        candidates spanishRules "dos mil".toList defaultPasses ∧
      ⟨2, "dos\n\t mil".toList, ⟨.ofNat 2000, some 3⟩, "thousands"⟩ ∈
        candidates spanishRules "  dos\n\t mil\u00A0".toList defaultPasses ∧
      List.Forall₂ (fun n n' => n.token = n'.token ∧ n.rule = n'.rule ∧
          Corresponds "dos mil".toList "  dos\n\t mil\u00A0".toList n.start n'.start ∧
          Corresponds "dos mil".toList "  dos\n\t mil\u00A0".toList n.stop n'.stop)
        (candidates spanishRules "dos mil".toList defaultPasses)
        (candidates spanishRules "  dos\n\t mil\u00A0".toList defaultPasses) :=
  have hblocks : (blocks "dos mil".toList).map Block.text =
      (blocks "  dos\n\t mil\u00A0".toList).map Block.text := by decide
  ⟨hblocks, by decide +kernel, by decide +kernel,
    the_spacing_of_the_blocks_changes_no_candidate _ _ hblocks defaultPasses⟩

end SpanishNumerals
