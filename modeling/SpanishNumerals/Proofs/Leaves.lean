-- What a derived number rests on: the stretches of text that patterns read between boundaries.
-- Each character of a number that is no blank lies in such a stretch, and one of them ends where
-- the number ends. So whoever knows what the patterns read knows what numbers may lie across.
import SpanishNumerals.Proofs.Captures
import SpanishNumerals.Proofs.Heights

namespace SpanishNumerals

/-- A pattern of the rules reads `read` in the text, behind `front` and before `back`, with a
boundary on both sides. -/
structure Leaf (rules : Registry) (text front read back : Text) : Prop where
  split : text = front ++ read ++ back
  reads : ∃ pattern ∈ patternsOf rules, ∃ capture : Capture, capture.text = read ∧
    pattern.Reads capture back
  opens : isBoundary front.reverse.head? read.head? = true
  closes : isBoundary read.reverse.head? back.head? = true

theorem Leaf.ne_nil {rules : Registry} {text front read back : Text}
    (h : Leaf rules text front read back) : read ≠ [] := by
  obtain ⟨_, _, _, rfl, hreads⟩ := h.reads
  exact hreads.1

/-! ## The pieces of a number -/

/-- What a pattern reads of a text, between boundaries. -/
theorem Piece.Fits.reads {text : Text} {piece : Piece} {pattern : Pattern}
    (h : piece.Fits text (.text pattern)) : ∃ front capture back,
      text = front ++ capture.text ++ back ∧ pattern.Reads capture back ∧
      isBoundary front.reverse.head? capture.text.head? = true ∧
      isBoundary capture.text.reverse.head? back.head? = true ∧
      byteLength front = piece.start ∧ byteLength (front ++ capture.text) = piece.stop ∧
      piece.node = .capture capture := by
  obtain ⟨here, capture, there, hhere, hread, hstop, hnode, _⟩ := h
  obtain ⟨rfl, hpos⟩ := cursorAt?_eq_some.mp hhere
  obtain ⟨hopens, hread, hcloses⟩ := Pattern.readBounded?_eq_some.mp hread
  obtain ⟨hreach, hreads⟩ := Pattern.read?_eq_some_iff.mp hread
  have hne := hreads.1
  have hne' : capture.text.reverse ≠ [] := by simpa using hne
  unfold Cursor.atBoundary at hopens hcloses
  rw [hreach.1, List.head?_append_of_ne_nil _ hne] at hopens
  rw [hreach.2, List.head?_append_of_ne_nil _ hne'] at hcloses
  refine ⟨here.behind.reverse, capture, there.ahead, ?_, hreads, ?_, hcloses, ?_, ?_, hnode⟩
  · rw [Cursor.text, hreach.1, List.append_assoc]
  · rwa [List.reverse_reverse]
  · rw [byteLength_reverse, ← hpos, Cursor.pos]
  · rw [byteLength_append, byteLength_reverse, hstop, hreach.pos_eq, Cursor.pos]

/-- What a pattern of the rules reads is a leaf. -/
theorem Piece.Fits.leaf {rules : Registry} {text : Text} {piece : Piece} {pattern : Pattern}
    (hpattern : pattern ∈ patternsOf rules) (h : piece.Fits text (.text pattern)) :
    ∃ front read back, Leaf rules text front read back ∧ byteLength front = piece.start ∧
      byteLength (front ++ read) = piece.stop := by
  obtain ⟨front, capture, back, hsplit, hreads, hopens, hcloses, hstart, hstop, _⟩ := h.reads
  exact ⟨front, capture.text, back,
    ⟨hsplit, ⟨pattern, hpattern, capture, rfl, hreads⟩, hopens, hcloses⟩, hstart, hstop⟩

/-- Between the pieces of a row there is nothing but blanks. -/
theorem Row.covers {text : Text} {elements : List Element} {pieces : List Piece} {pos stop : Nat}
    (h : Row text elements pieces pos stop) {place : Cursor} (htext : place.text = text)
    (hfrom : pos ≤ place.pos) (hto : place.pos < stop)
    (hnext : ∀ c, place.ahead.head? = some c → isBlank c = false) :
    ∃ p ∈ pieces, p.start ≤ place.pos ∧ place.pos < p.stop := by
  induction h with
  | nil => omega
  | @cons element elements piece pieces pos stop hfits hstart hrow ih =>
    by_cases hpiece : piece.stop ≤ place.pos
    · obtain ⟨p, hp, hplace⟩ := ih hpiece hto
      exact ⟨p, List.mem_cons_of_mem piece hp, hplace⟩
    · refine ⟨piece, List.mem_cons_self, ?_, Nat.lt_of_not_le hpiece⟩
      by_contra hgap
      rw [hstart, skipBlankAt] at hgap
      split at hgap
      · -- A place in a gap is followed by a blank.
        rename_i here hhere
        obtain ⟨hheretext, rfl⟩ := cursorAt?_eq_some.mp hhere
        obtain ⟨blanks, hall, hreach⟩ := here.reaches_skipBlank
        have hbefore := Nat.lt_of_not_le hgap
        obtain ⟨_, right, rfl, _, hright⟩ := Cursor.exists_between hreach
          (htext.trans hheretext.symm) hfrom (Nat.le_of_lt hbefore)
        obtain ⟨c, more, rfl⟩ := List.exists_cons_of_ne_nil (hright.ne_nil hbefore)
        have hblank := hall c (List.mem_append_right _ List.mem_cons_self)
        rw [hnext c (by rw [hright.1]; rfl)] at hblank
        exact absurd hblank (by decide)
      · exact hgap hfrom

/-- The last piece of a row is taken by the last element. -/
theorem Row.last {text : Text} {elements : List Element} {pieces : List Piece} {pos stop : Nat}
    (h : Row text elements pieces pos stop) : (elements = [] ∧ pos = stop) ∨
      ∃ p ∈ pieces, ∃ element, elements.getLast? = some element ∧ p.Fits text element ∧
        p.stop = stop := by
  induction h with
  | nil => exact Or.inl ⟨rfl, rfl⟩
  | @cons element elements piece pieces pos stop hfits hstart hrow ih =>
    right
    rcases ih with ⟨rfl, hstop⟩ | ⟨p, hp, last, hlast, hpfits, hstop⟩
    · exact ⟨piece, List.mem_cons_self, element, rfl, hfits, hstop⟩
    · refine ⟨p, List.mem_cons_of_mem piece hp, last, ?_, hpfits, hstop⟩
      rw [List.getLast?_cons, hlast]
      rfl

section Assembles

variable {text : Text} {rule : Rule} {pieces : List Piece} {key : Key}
  (h : Assembles text rule pieces key)

include h

theorem Assembles.within (hpieces : ∀ p ∈ pieces, p.start < p.stop) :
    ∀ p ∈ pieces, key.1 ≤ p.start ∧ p.stop ≤ key.2.1 := by
  cases h with
  | @intro element elements piece pieces stop token hrule hfits hopens hrow htoken =>
    obtain ⟨hle, hwithin⟩ := hrow.within fun p hp => hpieces p (List.mem_cons_of_mem piece hp)
    have hpiece := hpieces piece List.mem_cons_self
    intro p hp
    rcases List.mem_cons.mp hp with rfl | hp
    · exact ⟨Nat.le_refl _, hle⟩
    · obtain ⟨hp1, hp2⟩ := hwithin p hp
      exact ⟨Nat.le_trans (Nat.le_of_lt hpiece) hp1, hp2⟩

theorem Assembles.covers {place : Cursor} (htext : place.text = text)
    (hfrom : key.1 ≤ place.pos) (hto : place.pos < key.2.1)
    (hnext : ∀ c, place.ahead.head? = some c → isBlank c = false) :
    ∃ p ∈ pieces, p.start ≤ place.pos ∧ place.pos < p.stop := by
  cases h with
  | @intro element elements piece pieces stop token hrule hfits hopens hrow htoken =>
    by_cases hpiece : piece.stop ≤ place.pos
    · obtain ⟨p, hp, hplace⟩ := hrow.covers htext hpiece hto hnext
      exact ⟨p, List.mem_cons_of_mem piece hp, hplace⟩
    · exact ⟨piece, List.mem_cons_self, hfrom, Nat.lt_of_not_le hpiece⟩

/-- The last piece of a number is taken by the last element of the rule. -/
theorem Assembles.last : ∃ p ∈ pieces, ∃ element, rule.elements.getLast? = some element ∧
    p.Fits text element ∧ p.stop = key.2.1 := by
  cases h with
  | @intro element elements piece pieces stop token hrule hfits hopens hrow htoken =>
    rw [hrule]
    rcases hrow.last with ⟨rfl, hstop⟩ | ⟨p, hp, last, hlast, hpfits, hstop⟩
    · exact ⟨piece, List.mem_cons_self, element, rfl, hfits, hstop⟩
    · refine ⟨p, List.mem_cons_of_mem piece hp, last, ?_, hpfits, hstop⟩
      rw [List.getLast?_cons, hlast]
      rfl

end Assembles

/-! ## The leaves of a number -/

section Derived

variable {rules : Registry} {text : Text} {key : Key} {h : Nat}

/-- A derived number is found when there are passes enough. -/
theorem Derived.exists_candidate (hd : Derived rules text key h) :
    ∃ n ∈ candidates rules text h, n.key = key :=
  List.mem_map.mp (mem_candidates_iff.mpr ⟨h, Nat.le_max_left _ _, hd⟩)

theorem Derived.start_lt_stop (hd : Derived rules text key h) : key.1 < key.2.1 := by
  obtain ⟨n, hn, rfl⟩ := hd.exists_candidate
  exact (standsIn_of_mem_candidates n hn).start_lt_stop

/-- The pieces of a derived number are not empty. -/
theorem Assembles.start_lt_stop {rule : Rule} {pieces : List Piece}
    (hassembles : Assembles text rule pieces key)
    (hpieces : ∀ p ∈ pieces, ∀ token, p.node = .number token →
      Derived rules text (p.start, p.stop, token) p.height) :
    ∀ p ∈ pieces, p.start < p.stop := by
  intro p hp
  obtain ⟨element, _, hfits⟩ := hassembles.fits p hp
  cases element with
  | text pattern => exact hfits.start_lt_stop
  | number condition =>
    obtain ⟨token, hnode, _⟩ := hfits
    exact (hpieces p hp token hnode).start_lt_stop

/-- A place in a number that no blank follows lies in one of its leaves. -/
theorem Derived.covered (hd : Derived rules text key h) {place : Cursor}
    (htext : place.text = text) (hfrom : key.1 ≤ place.pos)
    (hto : place.pos < key.2.1) (hnext : ∀ c, place.ahead.head? = some c → isBlank c = false) :
    ∃ front read back, Leaf rules text front read back ∧ key.1 ≤ byteLength front ∧
      byteLength (front ++ read) ≤ key.2.1 ∧ byteLength front ≤ place.pos ∧
      place.pos < byteLength (front ++ read) := by
  induction hd with
  | @intro rule pieces key hrule hassembles hpieces ih =>
    obtain ⟨p, hp, hpfrom, hpto⟩ := hassembles.covers htext hfrom hto hnext
    obtain ⟨hstart, hstop⟩ := hassembles.within (hassembles.start_lt_stop hpieces) p hp
    obtain ⟨element, helement, hfits⟩ := hassembles.fits p hp
    cases element with
    | text pattern =>
      obtain ⟨front, read, back, hleaf, hfront, hread⟩ :=
        hfits.leaf (mem_patternsOf.mpr ⟨rule, hrule, helement⟩)
      exact ⟨front, read, back, hleaf, by omega, by omega, by omega, by omega⟩
    | number condition =>
      obtain ⟨token, hnode, _⟩ := hfits
      obtain ⟨front, read, back, hleaf, hfront, hread, hplace⟩ := ih p hp token hnode hpfrom hpto
      exact ⟨front, read, back, hleaf, Nat.le_trans hstart hfront, Nat.le_trans hread hstop, hplace⟩

/-- A leaf begins where the number begins. -/
theorem Derived.begins (hd : Derived rules text key h) : ∃ front read back,
    Leaf rules text front read back ∧ byteLength front = key.1 ∧
      byteLength (front ++ read) ≤ key.2.1 := by
  obtain ⟨place, hplace, hpos⟩ := List.mem_map.mp hd.start_mem_segmentStarts
  obtain ⟨htext, c, rest, hahead, hc, _⟩ := mem_segments.mp hplace
  have hnext : ∀ d, place.ahead.head? = some d → isBlank d = false := by
    intro d hd
    rw [hahead] at hd
    exact Option.some.inj hd ▸ isBlank_eq_false hc
  obtain ⟨front, read, back, hleaf, hfront, hread, hle, _⟩ :=
    hd.covered htext (Nat.le_of_eq hpos.symm) (hpos ▸ hd.start_lt_stop) hnext
  exact ⟨front, read, back, hleaf, by omega, hread⟩

/-- A leaf ends where the number ends. -/
theorem Derived.ends (hd : Derived rules text key h) : ∃ front read back,
    Leaf rules text front read back ∧ key.1 ≤ byteLength front ∧
      byteLength (front ++ read) = key.2.1 := by
  induction hd with
  | @intro rule pieces key hrule hassembles hpieces ih =>
    obtain ⟨p, hp, element, hlast, hfits, hstop⟩ := hassembles.last
    obtain ⟨hstart, _⟩ := hassembles.within (hassembles.start_lt_stop hpieces) p hp
    have helement := List.mem_of_getLast? hlast
    cases element with
    | text pattern =>
      obtain ⟨front, read, back, hleaf, hfront, hread⟩ :=
        hfits.leaf (mem_patternsOf.mpr ⟨rule, hrule, helement⟩)
      exact ⟨front, read, back, hleaf, by omega, by omega⟩
    | number condition =>
      obtain ⟨token, hnode, _⟩ := hfits
      obtain ⟨front, read, back, hleaf, hfront, hread⟩ := ih p hp token hnode
      exact ⟨front, read, back, hleaf, Nat.le_trans hstart hfront, hread.trans hstop⟩

/-- A character of a number that is no blank is read in one of its leaves. -/
theorem Derived.covered_char (hd : Derived rules text key h) {before after : Text} {c : Char}
    (htext : text = before ++ c :: after) (hc : isBlank c = false)
    (hfrom : key.1 ≤ byteLength before) (hto : byteLength before < key.2.1) :
    ∃ front left right back, Leaf rules text front (left ++ c :: right) back ∧
      before = front ++ left ∧ after = right ++ back ∧ key.1 ≤ byteLength front ∧
      byteLength (front ++ (left ++ c :: right)) ≤ key.2.1 := by
  have hplace : (Cursor.mk before.reverse (c :: after)).text = text := by
    rw [htext, Cursor.text, List.reverse_reverse]
  have hpos : (Cursor.mk before.reverse (c :: after)).pos = byteLength before :=
    byteLength_reverse before
  obtain ⟨front, read, back, hleaf, hfront, hread, hle, hlt⟩ :=
    hd.covered hplace (by omega) (by omega) fun d hd => Option.some.inj hd ▸ hc
  have hreach : (Cursor.mk front.reverse (read ++ back)).Reaches read
      ⟨(front ++ read).reverse, back⟩ := ⟨rfl, List.reverse_append⟩
  have hbefore : (Cursor.mk before.reverse (c :: after)).pos <
      (Cursor.mk (front ++ read).reverse back).pos :=
    Nat.lt_of_lt_of_eq hlt (byteLength_reverse (front ++ read)).symm
  obtain ⟨left, right, rfl, hleft, hright⟩ := Cursor.exists_between hreach
    (by rw [hplace, hleaf.split, Cursor.text, List.reverse_reverse, List.append_assoc])
    (by rw [hpos]; simpa [Cursor.pos] using hle) (Nat.le_of_lt hbefore)
  obtain ⟨d, right, rfl⟩ := List.exists_cons_of_ne_nil (hright.ne_nil hbefore)
  obtain ⟨rfl, hafter⟩ := List.cons.inj hright.1
  have hbefore := congrArg List.reverse hleft.2
  simp only [List.reverse_reverse, List.reverse_append] at hbefore
  exact ⟨front, left, right, back, hleaf, hbefore, hafter, hfront, hread⟩

end Derived

/-- What the Spanish patterns read in a text. -/
theorem Leaf.spanishRead {text front read back : Text} (h : Leaf spanishRules text front read back) :
    SpanishRead read back := by
  obtain ⟨_, hpattern, _, rfl, hreads⟩ := h.reads
  exact spanishRead_of_reads hpattern hreads

end SpanishNumerals
