-- Numbers cut out of a longer row of figures and separators. No pattern looks back, and a whole
-- number or a number with a comma may be followed by a separator: so of "1.2.3" the beginning
-- and the ending are recognized. But a row that is a number by itself is cut only for a compound
-- that takes a part of it and is as long, and nothing ends with a number written with points
-- while the row goes on.
import SpanishNumerals.Proofs.Leaves
import SpanishNumerals.Proofs.LongestFirst

namespace SpanishNumerals

/-! ## Cuts -/

namespace Cursor

/-- A figure and a separator stand before the place and a figure behind it. -/
def afterSeparator (here : Cursor) : Bool :=
  match here.behind, here.ahead with
  | s :: c :: _, d :: _ => c.isDigit && (s = '.' || s = ',') && d.isDigit
  | _, _ => false

/-- A figure stands before the place and a separator and a figure behind it. -/
def beforeSeparator (here : Cursor) : Bool :=
  match here.behind, here.ahead with
  | c :: _, s :: d :: _ => c.isDigit && (s = '.' || s = ',') && d.isDigit
  | _, _ => false

/-- At such places there are figures or separators on both sides. -/
theorem signs_beside {here : Cursor}
    (h : here.afterSeparator = true ∨ here.beforeSeparator = true) :
    ∃ c d, here.behind.head? = some c ∧ here.ahead.head? = some d ∧
      isFigureSign c = true ∧ isFigureSign d = true := by
  have hseparator : ∀ s : Char, s = '.' ∨ s = ',' → isFigureSign s = true := by
    rintro s (rfl | rfl) <;> rfl
  rcases h with h | h
  · unfold afterSeparator at h
    split at h
    · rename_i s c behind d ahead hbehind hahead
      simp only [Bool.and_eq_true, Bool.or_eq_true, decide_eq_true_eq] at h
      exact ⟨s, d, by rw [hbehind]; rfl, by rw [hahead]; rfl, hseparator s h.1.2,
        isFigureSign_of_isDigit h.2⟩
    · simp at h
  · unfold beforeSeparator at h
    split at h
    · rename_i c behind s d ahead hbehind hahead
      simp only [Bool.and_eq_true, Bool.or_eq_true, decide_eq_true_eq] at h
      exact ⟨c, s, by rw [hbehind]; rfl, by rw [hahead]; rfl, isFigureSign_of_isDigit h.1.1,
        hseparator s h.1.2⟩
    · simp at h

theorem beforeSeparator_eq_false {here : Cursor} (h : noNumberFollows here.ahead = true) :
    here.beforeSeparator = false := by
  unfold beforeSeparator
  split
  · rename_i c behind s d ahead hbehind hahead
    rw [hahead] at h
    simp only [noNumberFollows, Bool.and_eq_true, Bool.not_eq_true'] at h
    rw [Bool.and_assoc, h.2, Bool.and_false]
  · rfl

end Cursor

/-- The numeral begins or ends at a place where a number written with figures goes on. -/
def Numeral.IsCutAt (n : Numeral) (here : Cursor) : Prop :=
  here.pos = n.start ∧ (here.afterSeparator = true ∨ here.beforeSeparator = true) ∨
    here.pos = n.stop ∧ here.beforeSeparator = true

/-- No figure and no separator stands before the numeral or behind it. -/
def Numeral.IsWholeRow (n : Numeral) (text : Text) : Prop :=
  ∀ c, charBefore text n.start = some c ∨ charAt text n.stop = some c → isFigureSign c = false

/-- "1" and "2.3" are recognized in "1.2.3". -/
theorem one_is_cut_out_of_one_point_two_point_three :
    ¬ ∀ text : Text, ∀ n ∈ parseNumerals text, ∀ here : Cursor, here.text = text →
      ¬ n.IsCutAt here := by
  intro h
  exact h "1.2.3".toList ⟨0, ['1'], ⟨.ofNat 1, none⟩, "integer (numeric)"⟩ (by decide +kernel)
    ⟨['1'], ".2.3".toList⟩ (by decide) (Or.inr ⟨by decide, by decide⟩)

/-! ## Which rule gave a numeral -/

section Origin

variable {rules : Registry} {text : Text} {passes : Nat} {n : Numeral}

/-- What was found is what a rule makes of a reading, in some pass. -/
theorem exists_reading_of_mem_candidates (h : n ∈ candidates rules text passes) :
    ∃ found : List Numeral, (∀ m ∈ found, m.StandsIn text) ∧ ∃ rule ∈ rules,
      ∃ reading ∈ readRule text found rule, reading.numeral? rule = some n := by
  refine @forall_mem_candidates rules text (fun n => ∃ found : List Numeral,
    (∀ m ∈ found, m.StandsIn text) ∧ ∃ rule ∈ rules, ∃ reading ∈ readRule text found rule,
      reading.numeral? rule = some n) (fun taking htaking found hfound _ n hn => ?_) passes n h
  simp only [proposals, List.mem_flatMap, List.mem_filterMap] at hn
  obtain ⟨rule, hrule, hreading⟩ := hn
  exact ⟨found, hfound, rule, htaking hrule, hreading⟩

/-- A rule of one pattern gives just what the pattern reads. -/
theorem exists_rule_of_mem_candidates (h : n ∈ candidates rules text passes) :
    ∃ rule ∈ rules, n.rule = rule.name ∧ ∀ pattern, rule.elements = [.text pattern] →
      ∃ first last : Cursor, ∃ capture : Capture, first.text = text ∧ first.pos = n.start ∧
        first.Reaches n.text last ∧ capture.text = n.text ∧ pattern.Reads capture last.ahead := by
  obtain ⟨found, hfound, rule, hrule, reading, hreading, hn⟩ := exists_reading_of_mem_candidates h
  obtain ⟨_, _, _, hname⟩ := numeral?_eq_some hfound hreading hn
  refine ⟨rule, hrule, hname, ?_⟩
  intro pattern helements
  obtain ⟨element, elements, node, there, window, hrow, hfirst, hrest, _⟩ := mem_readRule.mp hreading
  rw [helements] at hrow
  obtain ⟨rfl, rfl⟩ := List.cons.inj hrow
  obtain ⟨htext, hnode, _⟩ := mem_readFirst.mp hfirst
  obtain ⟨_, hlast⟩ : window = [] ∧ reading.last = there := by simpa [readElements] using hrest
  simp only [readElement, List.mem_map, Option.mem_toList, Prod.mk.injEq, Prod.exists] at hnode
  obtain ⟨capture, _, hread, _, rfl⟩ := hnode
  obtain ⟨_, hread, _⟩ := Pattern.readBounded?_eq_some.mp hread
  obtain ⟨hreach, hreads⟩ := Pattern.read?_eq_some_iff.mp hread
  rw [← hlast] at hreach hreads
  obtain ⟨token, _, rfl⟩ := Option.map_eq_some_iff.mp hn
  have hcovers := Reading.text_eq hreach
  exact ⟨reading.first, reading.last, capture, htext, rfl, by rw [hcovers]; exact hreach,
    hcovers.symm, hreads⟩

end Origin

/-! ## Numerals of one pattern -/

/-- The names of the rules whose patterns look for a separator and a figure behind them. -/
def pointedNames : List String :=
  ["integer with thousands separator .", "decimal number with point"]

theorem elements_of_figureRules {rule : Rule} (h : rule ∈ figureRules) :
    ∃ pattern, rule.elements = [.text pattern] ∧
      (pattern ∈ plainPatterns ∨ pattern ∈ pointedPatterns) ∧
      (rule.name ∈ pointedNames → pattern ∈ pointedPatterns) := by
  simp only [figureRules, List.mem_cons, List.not_mem_nil, or_false] at h
  rcases h with rfl | rfl | rfl | rfl | rfl <;>
    exact ⟨_, rfl, by simp [plainPatterns, pointedPatterns], by
      simp [pointedNames, pointedPatterns]⟩

theorem elements_of_wordRules {rule : Rule} (h : rule ∈ wordRules) :
    ∃ pattern, rule.elements = [.text pattern] := by
  simp only [wordRules, List.mem_cons, List.not_mem_nil, or_false] at h
  rcases h with rfl | rfl | rfl | rfl <;> exact ⟨_, rfl⟩

/-- A rule with the name of a rule on figures is one. -/
theorem mem_figureRules_of_name {rule : Rule} (hrule : rule ∈ spanishRules)
    (hname : rule.name ∈ figureRules.map Rule.name) : rule ∈ figureRules := by
  have hothers : ∀ rule ∈ wordRules ++ compoundRules, rule.name ∉ figureRules.map Rule.name := by
    decide
  rw [spanishRules, List.append_assoc, List.mem_append] at hrule
  exact hrule.resolve_right fun h => hothers rule h hname

section Single

variable {text : Text} {passes : Nat} {n : Numeral}
  (hn : n ∈ candidates spanishRules text passes)

include hn

/-- A number written with figures is made of figures and separators. -/
theorem signs_of_figureRule (hrule : n.rule ∈ figureRules.map Rule.name) :
    ∀ c ∈ n.text, isFigureSign c = true := by
  obtain ⟨rule, hmem, hname, hreads⟩ := exists_rule_of_mem_candidates hn
  obtain ⟨pattern, helements, hpattern, _⟩ :=
    elements_of_figureRules (mem_figureRules_of_name hmem (hname ▸ hrule))
  obtain ⟨first, last, capture, _, _, _, hcapture, hread⟩ := hreads pattern helements
  rw [← hcapture]
  rcases hpattern with hplain | hpointed
  · exact plain_signs (plain_of_reads hplain hread).1
  · exact pointed_signs (pointed_of_reads hpointed hread).1

/-- A number that is no compound is made of figures and separators, or has none of them. -/
theorem signs_or_none (hrule : n.rule ∉ compoundRules.map Rule.name) :
    (∀ c ∈ n.text, isFigureSign c = true) ∨ ∀ c ∈ n.text, isFigureSign c = false := by
  obtain ⟨rule, hmem, hname, hreads⟩ := exists_rule_of_mem_candidates hn
  have hsingle : ∃ pattern, rule.elements = [.text pattern] := by
    have hmem' := hmem
    simp only [spanishRules, List.mem_append] at hmem'
    rcases hmem' with (hfigure | hword) | hcompound
    · obtain ⟨pattern, helements, _⟩ := elements_of_figureRules hfigure
      exact ⟨pattern, helements⟩
    · exact elements_of_wordRules hword
    · exact absurd (hname ▸ List.mem_map_of_mem hcompound) hrule
  obtain ⟨pattern, helements⟩ := hsingle
  obtain ⟨first, last, capture, _, _, _, hcapture, hread⟩ := hreads pattern helements
  have hpattern : pattern ∈ patternsOf spanishRules :=
    mem_patternsOf.mpr ⟨rule, hmem, helements ▸ List.mem_cons_self⟩
  rw [← hcapture]
  rcases (spanishRead_of_reads hpattern hread).signs_or_letters with hsigns | hhyphen | hletters
  · exact Or.inl hsigns
  · rw [hhyphen]
    exact Or.inr (by decide)
  · exact Or.inr fun c hc => letter_not_isFigureSign (hletters c hc)

/-- Behind a number written with points no separator with a figure follows. -/
theorem beforeSeparator_of_pointed (hrule : n.rule ∈ pointedNames) {here : Cursor}
    (htext : here.text = text) (hpos : here.pos = n.stop) : here.beforeSeparator = false := by
  obtain ⟨rule, hmem, hname, hreads⟩ := exists_rule_of_mem_candidates hn
  have hfigure : ∀ name ∈ pointedNames, name ∈ figureRules.map Rule.name := by decide
  obtain ⟨pattern, helements, _, hpointed⟩ :=
    elements_of_figureRules (mem_figureRules_of_name hmem (hfigure _ (hname ▸ hrule)))
  obtain ⟨first, last, capture, hfirst, hstart, hreach, hcapture, hread⟩ := hreads pattern helements
  have hlast : last.pos = n.stop := by
    rw [hreach.pos_eq, hstart, Numeral.stop, Numeral.size]
  obtain rfl : last = here :=
    Cursor.eq_of_pos (hreach.text_eq.trans (hfirst.trans htext.symm)) (hlast.trans hpos.symm)
  exact Cursor.beforeSeparator_eq_false (pointed_of_reads (hpointed (hname ▸ hrule)) hread).2

end Single

/-! ## A whole row of figures and separators -/

section Row

variable {text : Text} {k row : Numeral} (hk : k.StandsIn text) (hrow : row.StandsIn text)

include hk hrow

theorem exists_shared_char (hover : k.overlaps row = true) : ∃ c ∈ k.text, c ∈ row.text := by
  simp only [Numeral.overlaps, Bool.and_eq_true, decide_eq_true_eq] at hover
  -- The one that begins later begins in the other.
  rcases Nat.le_total k.start row.start with hle | hle
  · obtain ⟨here, hhere, _⟩ := hrow.cursor
    obtain ⟨htext, hpos⟩ := cursorAt?_eq_some.mp hhere
    have hlt := hrow.start_lt_stop
    obtain ⟨c, hc, hnext⟩ := hk.mem_ahead htext (by omega) (by omega)
    obtain ⟨d, hd, hnext'⟩ := hrow.mem_ahead htext (by omega) (by omega)
    obtain rfl := Option.some.inj (hnext.symm.trans hnext')
    exact ⟨c, hc, hd⟩
  · obtain ⟨here, hhere, _⟩ := hk.cursor
    obtain ⟨htext, hpos⟩ := cursorAt?_eq_some.mp hhere
    have hlt := hk.start_lt_stop
    obtain ⟨c, hc, hnext⟩ := hk.mem_ahead htext (by omega) (by omega)
    obtain ⟨d, hd, hnext'⟩ := hrow.mem_ahead htext (by omega) (by omega)
    obtain rfl := Option.some.inj (hnext.symm.trans hnext')
    exact ⟨c, hc, hd⟩

/-- A numeral of figures and separators does not reach out of a whole row of them. -/
theorem within_of_signs (hwhole : row.IsWholeRow text) (hover : k.overlaps row = true)
    (hsigns : ∀ c ∈ k.text, isFigureSign c = true) : row.start ≤ k.start ∧ k.stop ≤ row.stop := by
  simp only [Numeral.overlaps, Bool.and_eq_true, decide_eq_true_eq] at hover
  constructor
  · by_contra hout
    obtain ⟨here, hhere, _⟩ := hrow.cursor
    obtain ⟨htext, hpos⟩ := cursorAt?_eq_some.mp hhere
    obtain ⟨c, hc, hbehind⟩ := hk.mem_behind htext (by omega) (by omega)
    have hsign := hwhole c (Or.inl (by rw [charBefore, hhere]; exact hbehind))
    rw [hsigns c hc] at hsign
    exact absurd hsign (by decide)
  · by_contra hout
    obtain ⟨here, hhere⟩ := hrow.last_cursor
    obtain ⟨htext, hpos⟩ := cursorAt?_eq_some.mp hhere
    obtain ⟨c, hc, hahead⟩ := hk.mem_ahead htext (by omega) (by omega)
    have hsign := hwhole c (Or.inr (by rw [charAt, hhere]; exact hahead))
    rw [hsigns c hc] at hsign
    exact absurd hsign (by decide)

end Row

/-- A place where a number goes on, at a whole row, lies inside the row. -/
theorem inside_of_wholeRow {text : Text} {row : Numeral} (hwhole : row.IsWholeRow text)
    {here : Cursor} (htext : here.text = text)
    (hplace : here.afterSeparator = true ∨ here.beforeSeparator = true)
    (hfrom : row.start ≤ here.pos) (hto : here.pos ≤ row.stop) :
    row.start < here.pos ∧ here.pos < row.stop := by
  obtain ⟨c, d, hbehind, hahead, hc, hd⟩ := Cursor.signs_beside hplace
  have hhere : cursorAt? text here.pos = some here := cursorAt?_eq_some.mpr ⟨htext, rfl⟩
  constructor
  · refine Nat.lt_of_le_of_ne hfrom fun heq => ?_
    have hsign := hwhole c (Or.inl (by rw [charBefore, heq, hhere]; exact hbehind))
    rw [hc] at hsign
    exact absurd hsign (by decide)
  · refine Nat.lt_of_le_of_ne hto fun heq => ?_
    have hsign := hwhole d (Or.inr (by rw [charAt, ← heq, hhere]; exact hahead))
    rw [hd] at hsign
    exact absurd hsign (by decide)

/-! ## The law -/

/-- When a chosen numeral begins or ends inside another that was found, something chosen that is
as long as the other takes a part of it and not the whole. -/
theorem exists_rival {found kept : List Numeral} {places : List Nat}
    (h : Chosen found kept places) {m row : Numeral} (hm : m ∈ kept) (hrow : row ∈ found)
    (hsize : 0 < m.size) {pos : Nat} (hcut : pos = m.start ∨ pos = m.stop)
    (hfrom : row.start < pos) (hto : pos < row.stop) :
    ∃ k ∈ kept, k.overlaps row = true ∧ row.size ≤ k.size ∧
      ¬ (k.start ≤ row.start ∧ row.stop ≤ k.stop) := by
  have hmstop : m.stop = m.start + m.size := rfl
  -- What contains the row shares text with `m`, which does not contain it.
  have hcontains : ∀ k ∈ kept, ¬ (k.start ≤ row.start ∧ row.stop ≤ k.stop) := by
    rintro k hk ⟨hstart, hstop⟩
    have hover : k.overlaps m = true := by
      simp only [Numeral.overlaps, Bool.and_eq_true, decide_eq_true_eq]
      omega
    obtain rfl := h.eq_of_overlaps hk hm hover
    omega
  obtain ⟨i, hi⟩ := List.mem_iff_getElem?.mp hrow
  by_cases hplace : i ∈ places
  · exact absurd ⟨Nat.le_refl _, Nat.le_refl _⟩ (hcontains row (h.mem_of_place hplace hi))
  · obtain ⟨j, hj, k, hk, hover, hbefore⟩ := h.beaten i row hi hplace
    have hkept := h.mem_of_place hj hk
    refine ⟨k, hkept, by rw [overlaps_comm]; exact hover, ?_, hcontains k hkept⟩
    rcases hbefore with hlonger | ⟨heq, _⟩ <;> omega

/-- Behind a number written with points no separator with a figure follows. And where something
recognized begins or ends at such a place within a whole row of figures and separators that is a
number written with figures, a compound as long as the row is recognized that takes a part of the
row and not the whole. -/
theorem a_whole_number_is_cut_only_for_a_compound_as_long (text : Text) (passes : Nat) :
    (∀ n ∈ candidates spanishRules text passes, n.rule ∈ pointedNames →
      ∀ here : Cursor, here.text = text → here.pos = n.stop → here.beforeSeparator = false) ∧
    ∀ m ∈ analyze spanishRules text passes, ∀ here : Cursor, here.text = text → m.IsCutAt here →
      ∀ row ∈ candidates spanishRules text passes, row.rule ∈ figureRules.map Rule.name →
        row.IsWholeRow text → row.start ≤ here.pos → here.pos ≤ row.stop →
        ∃ k ∈ analyze spanishRules text passes, k.rule ∈ compoundRules.map Rule.name ∧
          k.overlaps row = true ∧ row.size ≤ k.size ∧
          ¬ (k.start ≤ row.start ∧ row.stop ≤ k.stop) := by
  constructor
  · intro n hn hrule here htext hpos
    exact beforeSeparator_of_pointed hn hrule htext hpos
  · intro m hm here htext hcut row hrow hrule hwhole hfrom hto
    have hstands := @standsIn_of_mem_candidates spanishRules text passes
    have hchosen := chosen_select (fun n hn => (hstands n hn).size_pos) (nodup_candidates ..)
    have hplace : here.afterSeparator = true ∨ here.beforeSeparator = true := by
      rcases hcut with ⟨_, hplace⟩ | ⟨_, hplace⟩
      · exact hplace
      · exact Or.inr hplace
    obtain ⟨hinside, hinside'⟩ := inside_of_wholeRow hwhole htext hplace hfrom hto
    obtain ⟨k, hk, hover, hsize, hpart⟩ := exists_rival hchosen hm hrow
      (hstands m (mem_of_mem_select hm)).size_pos (hcut.imp And.left And.left) hinside hinside'
    have hkfound : k ∈ candidates spanishRules text passes := mem_of_mem_select hk
    refine ⟨k, hk, ?_, hover, hsize, hpart⟩
    by_contra hsimple
    -- No compound: it lies within the row, or has no character in common with it.
    rcases signs_or_none hkfound hsimple with hsigns | hnone
    · obtain ⟨hstart, hstop⟩ :=
        within_of_signs (hstands k hkfound) (hstands row hrow) hwhole hover hsigns
      unfold Numeral.stop at hstop hpart
      omega
    · obtain ⟨c, hc, hc'⟩ := exists_shared_char (hstands k hkfound) (hstands row hrow) hover
      have hsign := signs_of_figureRule hrow hrule c hc'
      rw [hnone c hc] at hsign
      exact absurd hsign (by decide)

/-- In "treinta y 1.234" the compound "treinta y 1" is recognized, which takes a part of a whole
number; behind "1.234" by itself nothing goes on. -/
theorem thirty_one_takes_a_part_of_a_whole_number :
    let n : Numeral := ⟨0, "1.234".toList, ⟨.ofNat 1234, none⟩, "integer with thousands separator ."⟩
    let m : Numeral :=
      ⟨0, "treinta y 1".toList, ⟨.ofNat 31, none⟩, "number (21..29 31..39 .. 91..99)"⟩
    let row : Numeral := { n with start := 10 }
    (n ∈ analyze spanishRules n.text 32 ∧
      (Cursor.mk "432.1".toList []).beforeSeparator = false) ∧
    (m ∈ analyze spanishRules "treinta y 1.234".toList 32 ∧
      row ∈ candidates spanishRules "treinta y 1.234".toList 32 ∧
      m.IsCutAt ⟨"1 y atniert".toList, ".234".toList⟩ ∧ row.IsWholeRow "treinta y 1.234".toList ∧
      ∃ k ∈ analyze spanishRules "treinta y 1.234".toList 32,
        k.rule ∈ compoundRules.map Rule.name ∧ k.overlaps row = true ∧ row.size ≤ k.size ∧
        ¬ (k.start ≤ row.start ∧ row.stop ≤ k.stop)) := by
  intro n m row
  have hn : n ∈ analyze spanishRules n.text 32 := by decide +kernel
  have hm : m ∈ analyze spanishRules "treinta y 1.234".toList 32 := by decide +kernel
  have hrow : row ∈ candidates spanishRules "treinta y 1.234".toList 32 := by decide +kernel
  have hcut : m.IsCutAt ⟨"1 y atniert".toList, ".234".toList⟩ :=
    Or.inr ⟨by decide, by decide⟩
  have hwhole : row.IsWholeRow "treinta y 1.234".toList := by
    have hbefore : charBefore "treinta y 1.234".toList 10 = some ' ' := by decide
    have hafter : charAt "treinta y 1.234".toList 15 = none := by decide
    rintro c (hc | hc)
    · obtain rfl := Option.some.inj (hbefore.symm.trans hc)
      decide
    · exact absurd (hafter.symm.trans hc) (by simp)
  refine ⟨⟨hn, ?_⟩, hm, hrow, hcut, hwhole, ?_⟩
  · exact (a_whole_number_is_cut_only_for_a_compound_as_long n.text 32).1 n
      (mem_of_mem_select hn) (by decide) ⟨"432.1".toList, []⟩ rfl rfl
  · exact (a_whole_number_is_cut_only_for_a_compound_as_long "treinta y 1.234".toList 32).2 m hm
      ⟨"1 y atniert".toList, ".234".toList⟩ (by decide) hcut row hrow (by decide) hwhole
      (by decide) (by decide)

end SpanishNumerals
