-- What a saturation finds, told without passes. A number is derived at a place when a rule
-- makes it of pieces that lie one behind the other, and each number among the pieces is
-- derived at its own place. The numbers found within some passes are the numbers with a
-- derivation that is no higher, each of them found once.
import Mathlib.Tactic.Choose
import SpanishNumerals.Proofs.Passes
import SpanishNumerals.Proofs.Places

namespace SpanishNumerals

/-! ## Derivations -/

/-- A number at a place: where it begins, where it ends, and its token. -/
abbrev Key := Nat × Nat × Token

/-- What one element of a rule covers. -/
structure Piece where
  /-- The byte position where it begins. -/
  start : Nat
  /-- The byte position where it ends. -/
  stop : Nat
  /-- What is read there. -/
  node : Node
  /-- The height of the derivation of a number. It is zero for a piece of text. -/
  height : Nat

namespace Piece

/-- The element takes the piece: its pattern reads that stretch of the text, between
boundaries, or its condition accepts the number. -/
def Fits (piece : Piece) (text : Text) : Element → Prop
  | .text pattern => ∃ here capture there, cursorAt? text piece.start = some here ∧
      pattern.readBounded? here = some (capture, there) ∧ piece.stop = there.pos ∧
      piece.node = .capture capture ∧ piece.height = 0
  | .number condition => ∃ token, piece.node = .number token ∧ condition.accepts token = true

/-- The greatest height among some pieces. -/
def highest (pieces : List Piece) : Nat := pieces.foldr (fun piece h => max piece.height h) 0

end Piece

/-- The pieces are taken by the elements in order. Before each of them blanks are skipped, the
first time from `pos`, and the last piece ends at `stop`. -/
inductive Row (text : Text) : List Element → List Piece → (pos stop : Nat) → Prop
  | nil {pos : Nat} : Row text [] [] pos pos
  | cons {element : Element} {elements : List Element} {piece : Piece} {pieces : List Piece}
      {pos stop : Nat} :
      piece.Fits text element → piece.start = skipBlankAt text pos →
      Row text elements pieces piece.stop stop →
      Row text (element :: elements) (piece :: pieces) pos stop

/-- The rule makes a number of the pieces. The first of them, when it is a piece of text,
begins where a stretch may begin. -/
inductive Assembles (text : Text) (rule : Rule) : List Piece → Key → Prop
  | intro {element : Element} {elements : List Element} {piece : Piece} {pieces : List Piece}
      {stop : Nat} {token : Token} :
      rule.elements = element :: elements → piece.Fits text element →
      (element.isNumber = false → piece.start ∈ segmentStarts text) →
      Row text elements pieces piece.stop stop →
      rule.apply ((piece :: pieces).map Piece.node) = some token →
      Assembles text rule (piece :: pieces) (piece.start, stop, token)

/-- A derivation of a number at a place, and its height. -/
inductive Derived (rules : Registry) (text : Text) : Key → Nat → Prop
  | intro {rule : Rule} {pieces : List Piece} {key : Key} :
      rule ∈ rules → Assembles text rule pieces key →
      (∀ piece ∈ pieces, ∀ token, piece.node = .number token →
        Derived rules text (piece.start, piece.stop, token) piece.height) →
      Derived rules text key (1 + Piece.highest pieces)

theorem Piece.height_le_highest {pieces : List Piece} {piece : Piece} (h : piece ∈ pieces) :
    piece.height ≤ Piece.highest pieces := by
  induction pieces with
  | nil => simp at h
  | cons p pieces ih =>
    simp only [highest, List.foldr_cons] at ih ⊢
    rcases List.mem_cons.mp h with rfl | h
    · exact Nat.le_max_left _ _
    · exact Nat.le_trans (ih h) (Nat.le_max_right _ _)

theorem Piece.highest_le {pieces : List Piece} {n : Nat}
    (h : ∀ piece ∈ pieces, piece.height ≤ n) : Piece.highest pieces ≤ n := by
  induction pieces with
  | nil => exact Nat.zero_le n
  | cons p pieces ih =>
    simp only [highest, List.foldr_cons] at ih ⊢
    have hp := h p List.mem_cons_self
    have hrest := ih fun q hq => h q (List.mem_cons_of_mem p hq)
    omega

theorem Derived.height_pos {rules : Registry} {text : Text} {key : Key} {h : Nat}
    (hd : Derived rules text key h) : 0 < h := by
  cases hd
  omega

/-- A piece that is no number has no height. -/
theorem Piece.Fits.height_eq_zero {piece : Piece} {text : Text} {element : Element}
    (h : piece.Fits text element) (hnode : ∀ token, piece.node ≠ .number token) :
    piece.height = 0 := by
  cases element with
  | text pattern =>
    obtain ⟨_, _, _, _, _, _, _, hheight⟩ := h
    exact hheight
  | number condition =>
    obtain ⟨token, htoken, _⟩ := h
    exact absurd htoken (hnode token)

theorem Row.fits {text : Text} {elements : List Element} {pieces : List Piece} {pos stop : Nat}
    (h : Row text elements pieces pos stop) :
    ∀ piece ∈ pieces, ∃ element ∈ elements, piece.Fits text element := by
  induction h with
  | nil => simp
  | cons hfits _ _ ih =>
    intro p hp
    rcases List.mem_cons.mp hp with rfl | hp
    · exact ⟨_, List.mem_cons_self, hfits⟩
    · obtain ⟨e, he, hpe⟩ := ih p hp
      exact ⟨e, List.mem_cons_of_mem _ he, hpe⟩

theorem Assembles.fits {text : Text} {rule : Rule} {pieces : List Piece} {key : Key}
    (h : Assembles text rule pieces key) :
    ∀ piece ∈ pieces, ∃ element ∈ rule.elements, piece.Fits text element := by
  cases h with
  | intro hrule hfits _ hrow _ =>
    rw [hrule]
    intro p hp
    rcases List.mem_cons.mp hp with rfl | hp
    · exact ⟨_, List.mem_cons_self, hfits⟩
    · obtain ⟨e, he, hpe⟩ := hrow.fits p hp
      exact ⟨e, List.mem_cons_of_mem _ he, hpe⟩

/-- The pieces of a rule of text alone are no numbers. -/
theorem Assembles.node_ne_number {text : Text} {rule : Rule} {pieces : List Piece} {key : Key}
    (h : Assembles text rule pieces key) (hrule : rule.composes = false) :
    ∀ piece ∈ pieces, ∀ token, piece.node ≠ .number token := by
  intro p hp token htoken
  obtain ⟨element, helement, hfits⟩ := h.fits p hp
  cases element with
  | text pattern =>
    obtain ⟨_, _, _, _, _, _, hnode, _⟩ := hfits
    rw [hnode] at htoken
    simp at htoken
  | number condition =>
    have : rule.composes = true := List.any_eq_true.mpr ⟨_, helement, rfl⟩
    rw [hrule] at this
    simp at this

/-! ## Readings and pieces -/

/-- The number of a piece is among those found. -/
def Piece.Known (found : List Numeral) (piece : Piece) : Prop :=
  ∀ token, piece.node = .number token →
    (piece.start, piece.stop, token) ∈ found.map Numeral.key

/-- A piece of text asks for no number. -/
theorem Piece.known_of_capture {found : List Numeral} {piece : Piece} {capture : Capture}
    (h : piece.node = .capture capture) : piece.Known found := by
  intro token htoken
  rw [h] at htoken
  simp at htoken

/-- A piece with a number that stands there asks for that one. -/
theorem Piece.known_of_mem {found : List Numeral} {piece : Piece} {n : Numeral} (hn : n ∈ found)
    (hstart : n.start = piece.start) (hstop : n.stop = piece.stop)
    (hnode : piece.node = .number n.token) : piece.Known found := by
  intro token htoken
  obtain rfl : n.token = token := by simpa [hnode] using htoken
  exact List.mem_map.mpr ⟨n, hn, by rw [Numeral.key, hstart, hstop]⟩

/-- The number of a piece is found where the piece stands. -/
theorem Piece.Known.exists_number {text : Text} {found : List Numeral} {piece : Piece}
    {condition : Condition}
    (hknown : piece.Known found) (hfits : piece.Fits text (.number condition)) :
    ∃ m ∈ found, m.start = piece.start ∧ m.stop = piece.stop ∧ piece.node = .number m.token ∧
      condition.accepts m.token = true := by
  obtain ⟨token, hnode, haccepts⟩ := hfits
  obtain ⟨m, hm, hkey⟩ := List.mem_map.mp (hknown token hnode)
  obtain ⟨hstart, hstop, rfl⟩ := Numeral.key_eq_iff.mp hkey
  exact ⟨m, hm, hstart, hstop, hnode, haccepts⟩

/-- The piece for a node, with the height that `rank` gives to a number. -/
def Piece.ranked (rank : Key → Nat) (start stop : Nat) (node : Node) : Piece where
  start := start
  stop := stop
  node := node
  height :=
    match node with
    | .number token => rank (start, stop, token)
    | .capture _ => 0

/-- The height of the number of a piece is the one that `rank` gives. -/
def Piece.RankedBy (rank : Key → Nat) (piece : Piece) : Prop :=
  ∀ token, piece.node = .number token → piece.height = rank (piece.start, piece.stop, token)

theorem Piece.rankedBy_ranked (rank : Key → Nat) (start stop : Nat) (node : Node) :
    (Piece.ranked rank start stop node).RankedBy rank := by
  rintro token rfl
  rfl

section Readings

variable {text : Text} {found : List Numeral}

/-- From a place on, a numeral found there is passed and its end is reached. -/
theorem reaches_of_standsIn {n : Numeral} {here : Cursor} (hn : n.StandsIn here.text)
    (hpos : n.start = here.pos) :
    here.Reaches n.text (here.forward n.text.length) ∧
      (here.forward n.text.length).pos = n.stop := by
  obtain ⟨first, hfirst, hreach⟩ := hn.cursor
  obtain ⟨htext, hfirstpos⟩ := cursorAt?_eq_some.mp hfirst
  obtain rfl : first = here := Cursor.eq_of_pos htext (hfirstpos.trans hpos)
  exact ⟨hreach, by rw [hreach.pos_eq, ← hpos, Numeral.stop, Numeral.size]⟩

theorem reaches_of_mem_readElement {here there : Cursor} {element : Element} {node : Node}
    (hfound : ∀ n ∈ found, n.StandsIn here.text) (h : (node, there) ∈ readElement found here element) :
    ∃ passed, passed ≠ [] ∧ here.Reaches passed there := by
  cases element with
  | text pattern =>
    simp only [readElement, List.mem_map, Option.mem_toList, Prod.mk.injEq, Prod.exists] at h
    obtain ⟨capture, _, hread, _, rfl⟩ := h
    obtain ⟨_, hread, _⟩ := Pattern.readBounded?_eq_some.mp hread
    exact ⟨capture.text, (Pattern.read?_eq_some hread).1, Cursor.reaches_of_read? hread⟩
  | number condition =>
    simp only [readElement, List.mem_map, List.mem_filter, Bool.and_eq_true, decide_eq_true_eq,
      Prod.mk.injEq] at h
    obtain ⟨n, ⟨hn, hpos, _⟩, _, rfl⟩ := h
    exact ⟨n.text, (hfound n hn).1, (reaches_of_standsIn (hfound n hn) hpos).1⟩

theorem piece_of_mem_readElement (rank : Key → Nat) {here there : Cursor} {element : Element}
    {node : Node} (hfound : ∀ n ∈ found, n.StandsIn here.text)
    (h : (node, there) ∈ readElement found here element) :
    (Piece.ranked rank here.pos there.pos node).Fits here.text element ∧
      (Piece.ranked rank here.pos there.pos node).Known found := by
  cases element with
  | text pattern =>
    simp only [readElement, List.mem_map, Option.mem_toList, Prod.mk.injEq, Prod.exists] at h
    obtain ⟨capture, _, hread, rfl, rfl⟩ := h
    exact ⟨⟨here, capture, _, cursorAt?_eq_some.mpr ⟨rfl, rfl⟩, hread, rfl, rfl, rfl⟩,
      Piece.known_of_capture rfl⟩
  | number condition =>
    simp only [readElement, List.mem_map, List.mem_filter, Bool.and_eq_true, decide_eq_true_eq,
      Prod.mk.injEq] at h
    obtain ⟨n, ⟨hn, hpos, haccepts⟩, rfl, rfl⟩ := h
    have hstop := (reaches_of_standsIn (hfound n hn) hpos).2
    exact ⟨⟨n.token, rfl, haccepts⟩, Piece.known_of_mem hn hpos hstop.symm rfl⟩

theorem mem_readElement_of_fits {here : Cursor} {element : Element} {piece : Piece}
    (hfound : ∀ n ∈ found, n.StandsIn here.text) (hfits : piece.Fits here.text element)
    (hknown : piece.Known found) (hstart : piece.start = here.pos) :
    ∃ there, (piece.node, there) ∈ readElement found here element ∧ there.pos = piece.stop := by
  cases element with
  | text pattern =>
    obtain ⟨first, capture, there, hfirst, hread, hstop, hnode, _⟩ := hfits
    obtain ⟨htext, hpos⟩ := cursorAt?_eq_some.mp hfirst
    obtain rfl : first = here := Cursor.eq_of_pos htext (hpos.trans hstart)
    refine ⟨there, ?_, hstop.symm⟩
    simp only [readElement, hread, hnode]
    simp
  | number condition =>
    obtain ⟨token, hnode, haccepts⟩ := hfits
    obtain ⟨n, hn, hkey⟩ := List.mem_map.mp (hknown token hnode)
    obtain ⟨hnstart, hnstop, rfl⟩ := Numeral.key_eq_iff.mp hkey
    have hpos : n.start = here.pos := hnstart.trans hstart
    refine ⟨here.forward n.text.length, ?_, ?_⟩
    · simp only [readElement, List.mem_map, List.mem_filter, Bool.and_eq_true,
        decide_eq_true_eq]
      exact ⟨n, ⟨hn, hpos, haccepts⟩, by rw [hnode]⟩
    · rw [(reaches_of_standsIn (hfound n hn) hpos).2, hnstop]

theorem reaches_of_mem_readElements {elements : List Element} {here last : Cursor}
    {window : Window} (hfound : ∀ n ∈ found, n.StandsIn here.text)
    (h : (window, last) ∈ readElements found elements here) :
    ∃ passed, here.Reaches passed last := by
  induction elements generalizing here window with
  | nil =>
    obtain ⟨rfl, rfl⟩ : window = [] ∧ last = here := by simpa [readElements] using h
    exact ⟨[], Cursor.Reaches.refl _⟩
  | cons element elements ih =>
    simp only [readElements, List.mem_flatMap, List.mem_map, Prod.mk.injEq, Prod.exists] at h
    obtain ⟨node, there, hnode, nodes, _, hrest, _, rfl⟩ := h
    obtain ⟨blanks, _, hskip⟩ := Cursor.reaches_skipBlank here
    obtain ⟨passed, _, hthere⟩ :=
      reaches_of_mem_readElement (by rw [hskip.text_eq]; exact hfound) hnode
    have htext : there.text = here.text := hthere.text_eq.trans hskip.text_eq
    obtain ⟨more, hmore⟩ := ih (by rw [htext]; exact hfound) hrest
    exact ⟨_, (hskip.trans hthere).trans hmore⟩

theorem row_of_mem_readElements (rank : Key → Nat) {elements : List Element}
    {here last : Cursor} {window : Window} (hfound : ∀ n ∈ found, n.StandsIn here.text)
    (h : (window, last) ∈ readElements found elements here) :
    ∃ pieces, Row here.text elements pieces here.pos last.pos ∧
      pieces.map Piece.node = window ∧
      ∀ piece ∈ pieces, piece.Known found ∧ piece.RankedBy rank := by
  induction elements generalizing here window with
  | nil =>
    obtain ⟨rfl, rfl⟩ : window = [] ∧ last = here := by simpa [readElements] using h
    exact ⟨[], Row.nil, rfl, by simp⟩
  | cons element elements ih =>
    simp only [readElements, List.mem_flatMap, List.mem_map, Prod.mk.injEq, Prod.exists] at h
    obtain ⟨node, there, hnode, nodes, _, hrest, rfl, rfl⟩ := h
    have hskip : here.skipBlank.text = here.text := Cursor.text_skipBlank here
    rw [← hskip] at hfound
    obtain ⟨hfits, hknown⟩ := piece_of_mem_readElement rank hfound hnode
    obtain ⟨_, _, hthere⟩ := reaches_of_mem_readElement hfound hnode
    have htext : there.text = here.text := hthere.text_eq.trans hskip
    obtain ⟨pieces, hrow, hnodes, hpieces⟩ := ih (by rw [htext, ← hskip]; exact hfound) hrest
    rw [htext] at hrow
    rw [hskip] at hfits
    refine ⟨Piece.ranked rank here.skipBlank.pos there.pos node :: pieces,
      Row.cons hfits (skipBlankAt_pos here).symm hrow, by rw [List.map_cons, hnodes]; rfl, ?_⟩
    intro p hp
    rcases List.mem_cons.mp hp with rfl | hp
    · exact ⟨hknown, Piece.rankedBy_ranked _ _ _ _⟩
    · exact hpieces p hp

theorem mem_readElements_of_row {elements : List Element} {pieces : List Piece} {stop : Nat}
    {here : Cursor} (hfound : ∀ n ∈ found, n.StandsIn here.text)
    (hrow : Row here.text elements pieces here.pos stop)
    (hknown : ∀ piece ∈ pieces, piece.Known found) :
    ∃ last, (pieces.map Piece.node, last) ∈ readElements found elements here ∧
      last.pos = stop := by
  induction elements generalizing here pieces with
  | nil =>
    cases hrow
    exact ⟨here, by simp [readElements], rfl⟩
  | cons element elements ih =>
    cases hrow with
    | @cons _ _ piece pieces _ _ hfits hstart hrest =>
      have hskip : here.skipBlank.text = here.text := Cursor.text_skipBlank here
      rw [skipBlankAt_pos] at hstart
      rw [← hskip] at hfound hfits
      obtain ⟨there, hmem, hstop⟩ :=
        mem_readElement_of_fits hfound hfits (hknown piece List.mem_cons_self) hstart
      obtain ⟨_, _, hthere⟩ := reaches_of_mem_readElement hfound hmem
      have htext : there.text = here.text := hthere.text_eq.trans hskip
      rw [hthere.text_eq.symm] at hfound
      rw [← hstop, ← htext] at hrest
      obtain ⟨last, hlast, hlaststop⟩ :=
        ih hfound hrest fun p hp => hknown p (List.mem_cons_of_mem piece hp)
      refine ⟨last, ?_, hlaststop⟩
      simp only [readElements, List.mem_flatMap, List.mem_map, Prod.mk.injEq, Prod.exists]
      exact ⟨piece.node, there, hmem, pieces.map Piece.node, last, hlast, rfl, rfl⟩

/-! ## The first element -/

/-- The ways to read the first element are the ways to read it where a reading may begin. -/
theorem mem_readFirst {first there : Cursor} {element : Element} {node : Node} :
    (first, node, there) ∈ readFirst text found element ↔
      first.text = text ∧ (node, there) ∈ readElement found first element ∧
        (element.isNumber = false → first ∈ segments text) := by
  cases element with
  | text pattern =>
    simp only [readFirst, readElement, List.mem_filterMap, List.mem_map, Option.mem_toList,
      Option.map_eq_some_iff, Prod.mk.injEq, Prod.exists, Element.isNumber, forall_const]
    constructor
    · rintro ⟨here, hhere, capture, end', hread, rfl, rfl, rfl⟩
      exact ⟨text_of_mem_segments hhere, ⟨capture, end', hread, rfl, rfl⟩, hhere⟩
    · rintro ⟨_, ⟨capture, end', hread, rfl, rfl⟩, hhere⟩
      exact ⟨first, hhere, capture, end', hread, rfl, rfl, rfl⟩
  | number condition =>
    simp only [readFirst, readElement, List.mem_filterMap, List.mem_filter, List.mem_map,
      Option.map_eq_some_iff, Prod.mk.injEq, Element.isNumber, Bool.and_eq_true,
      decide_eq_true_eq]
    constructor
    · rintro ⟨n, ⟨hn, haccepts⟩, here, hhere, rfl, rfl, rfl⟩
      obtain ⟨htext, hpos⟩ := cursorAt?_eq_some.mp hhere
      exact ⟨htext, ⟨n, ⟨hn, hpos.symm, haccepts⟩, rfl, rfl⟩, by simp⟩
    · rintro ⟨htext, ⟨n, ⟨hn, hpos, haccepts⟩, rfl, rfl⟩, _⟩
      exact ⟨n, ⟨hn, haccepts⟩, first, cursorAt?_eq_some.mpr ⟨htext, hpos.symm⟩, rfl, rfl, rfl⟩

theorem mem_segmentStarts {here : Cursor} (htext : here.text = text) :
    here.pos ∈ segmentStarts text ↔ here ∈ segments text := by
  constructor
  · intro h
    obtain ⟨other, hother, hpos⟩ := List.mem_map.mp h
    obtain rfl : other = here :=
      Cursor.eq_of_pos ((text_of_mem_segments hother).trans htext.symm) hpos
    exact hother
  · exact fun h => List.mem_map.mpr ⟨here, h, rfl⟩

/-- The readings of a rule. -/
theorem mem_readRule {rule : Rule} {reading : Reading} :
    reading ∈ readRule text found rule ↔ ∃ element elements node there window,
      rule.elements = element :: elements ∧
      (reading.first, node, there) ∈ readFirst text found element ∧
      (window, reading.last) ∈ readElements found elements there ∧
      reading.window = node :: window := by
  unfold readRule
  cases rule.elements with
  | nil => simp
  | cons element elements =>
    simp only [List.mem_flatMap, List.mem_map, Prod.exists, List.cons.injEq]
    constructor
    · rintro ⟨first, node, there, hfirst, window, last, hrest, rfl⟩
      exact ⟨element, elements, node, there, window, ⟨rfl, rfl⟩, hfirst, hrest, rfl⟩
    · rintro ⟨_, _, node, there, window, ⟨rfl, rfl⟩, hfirst, hrest, hwindow⟩
      refine ⟨reading.first, node, there, hfirst, window, reading.last, hrest, ?_⟩
      rw [← hwindow]

theorem reaches_of_mem_readRule {rule : Rule} {reading : Reading}
    (hfound : ∀ n ∈ found, n.StandsIn text) (h : reading ∈ readRule text found rule) :
    reading.first.text = text ∧ ∃ passed, passed ≠ [] ∧
      reading.first.Reaches passed reading.last := by
  obtain ⟨element, elements, node, there, window, _, hfirst, hrest, _⟩ := mem_readRule.mp h
  obtain ⟨rfl, hnode, _⟩ := mem_readFirst.mp hfirst
  obtain ⟨passed, hne, hthere⟩ := reaches_of_mem_readElement hfound hnode
  obtain ⟨more, hlast⟩ :=
    reaches_of_mem_readElements (by rw [hthere.text_eq]; exact hfound) hrest
  exact ⟨rfl, passed ++ more, by simp [hne], hthere.trans hlast⟩

theorem Reading.text_eq {reading : Reading} {passed : Text}
    (h : reading.first.Reaches passed reading.last) : reading.text = passed := by
  simp [Reading.text, h.1]

/-- A numeral of a reading covers what the reading covers. -/
theorem numeral?_eq_some {rule : Rule} {reading : Reading} {n : Numeral}
    (hfound : ∀ n ∈ found, n.StandsIn text) (h : reading ∈ readRule text found rule)
    (hn : reading.numeral? rule = some n) :
    n.StandsIn text ∧ n.key = (reading.first.pos, reading.last.pos, n.token) ∧
      rule.apply reading.window = some n.token ∧ n.rule = rule.name := by
  obtain ⟨htext, passed, hne, hreach⟩ := reaches_of_mem_readRule hfound h
  obtain ⟨token, htoken, rfl⟩ := Option.map_eq_some_iff.mp hn
  have hpassed := Reading.text_eq hreach
  refine ⟨⟨?_, reading.first, reading.last, htext, rfl, ?_⟩, ?_, htoken, rfl⟩
  · simpa [hpassed] using hne
  · simpa [hpassed] using hreach
  · simp [Numeral.key, Numeral.stop, Numeral.size, hpassed, hreach.pos_eq]

theorem assembles_of_mem_readRule (rank : Key → Nat) {rule : Rule} {reading : Reading}
    {token : Token} (hfound : ∀ n ∈ found, n.StandsIn text)
    (h : reading ∈ readRule text found rule) (htoken : rule.apply reading.window = some token) :
    ∃ pieces, Assembles text rule pieces (reading.first.pos, reading.last.pos, token) ∧
      ∀ piece ∈ pieces, piece.Known found ∧ piece.RankedBy rank := by
  obtain ⟨element, elements, node, there, window, hrule, hfirst, hrest, hwindow⟩ :=
    mem_readRule.mp h
  obtain ⟨rfl, hnode, hopens⟩ := mem_readFirst.mp hfirst
  obtain ⟨hfits, hknown⟩ := piece_of_mem_readElement rank hfound hnode
  obtain ⟨_, _, hthere⟩ := reaches_of_mem_readElement hfound hnode
  obtain ⟨pieces, hrow, hnodes, hpieces⟩ :=
    row_of_mem_readElements rank (by rw [hthere.text_eq]; exact hfound) hrest
  rw [hthere.text_eq] at hrow
  refine ⟨Piece.ranked rank reading.first.pos there.pos node :: pieces, ?_, ?_⟩
  · refine Assembles.intro hrule hfits (fun he => ?_) hrow ?_
    · exact (mem_segmentStarts rfl).mpr (hopens he)
    · rw [List.map_cons, hnodes, ← htoken, hwindow]
      rfl
  · intro p hp
    rcases List.mem_cons.mp hp with rfl | hp
    · exact ⟨hknown, Piece.rankedBy_ranked _ _ _ _⟩
    · exact hpieces p hp

/-- The place where a piece begins. -/
theorem cursor_of_fits {element : Element} {piece : Piece}
    (hfound : ∀ n ∈ found, n.StandsIn text) (hfits : piece.Fits text element)
    (hknown : piece.Known found) : ∃ here : Cursor, here.text = text ∧ here.pos = piece.start := by
  cases element with
  | text pattern =>
    obtain ⟨here, _, _, hhere, _⟩ := hfits
    exact ⟨here, cursorAt?_eq_some.mp hhere⟩
  | number condition =>
    obtain ⟨token, hnode, _⟩ := hfits
    obtain ⟨n, hn, hkey⟩ := List.mem_map.mp (hknown token hnode)
    obtain ⟨here, hhere, _⟩ := (hfound n hn).cursor
    obtain ⟨htext, hpos⟩ := cursorAt?_eq_some.mp hhere
    exact ⟨here, htext, hpos.trans (Prod.mk.inj hkey).1⟩

theorem mem_readRule_of_assembles {rule : Rule} {pieces : List Piece} {key : Key}
    (hfound : ∀ n ∈ found, n.StandsIn text) (h : Assembles text rule pieces key)
    (hknown : ∀ piece ∈ pieces, piece.Known found) :
    ∃ reading ∈ readRule text found rule, ∃ token, rule.apply reading.window = some token ∧
      key = (reading.first.pos, reading.last.pos, token) := by
  cases h with
  | @intro element elements piece pieces stop token hrule hfits hopens hrow htoken =>
    obtain ⟨first, rfl, hpos⟩ := cursor_of_fits hfound hfits (hknown piece List.mem_cons_self)
    obtain ⟨there, hnode, hstop⟩ :=
      mem_readElement_of_fits hfound hfits (hknown piece List.mem_cons_self) hpos.symm
    obtain ⟨_, _, hthere⟩ := reaches_of_mem_readElement hfound hnode
    have hfound' : ∀ n ∈ found, n.StandsIn there.text := by rw [hthere.text_eq]; exact hfound
    rw [← hthere.text_eq, ← hstop] at hrow
    obtain ⟨last, hlast, hlaststop⟩ := mem_readElements_of_row hfound' hrow
      fun p hp => hknown p (List.mem_cons_of_mem piece hp)
    refine ⟨⟨first, last, piece.node :: pieces.map Piece.node⟩, ?_, token, htoken, ?_⟩
    · refine mem_readRule.mpr ⟨element, elements, piece.node, there, pieces.map Piece.node,
        hrule, mem_readFirst.mpr ⟨rfl, hnode, fun he => ?_⟩, hlast, rfl⟩
      rw [← mem_segmentStarts rfl, hpos]
      exact hopens he
    · rw [hpos, hlaststop]

end Readings

/-! ## One pass -/

section Pass

variable {rules : Registry} {text : Text} {found : List Numeral}

theorem standsIn_of_mem_proposals (hfound : ∀ n ∈ found, n.StandsIn text) :
    ∀ n ∈ proposals rules text found, n.StandsIn text := by
  intro n hn
  simp only [proposals, List.mem_flatMap, List.mem_filterMap] at hn
  obtain ⟨rule, _, reading, hreading, hnumeral⟩ := hn
  exact (numeral?_eq_some hfound hreading hnumeral).1

theorem standsIn_grow (hfound : ∀ n ∈ found, n.StandsIn text) :
    ∀ n ∈ grow rules text found, n.StandsIn text := by
  intro n hn
  rcases List.mem_append.mp hn with hn | hn
  · exact hfound n hn
  · exact standsIn_of_mem_proposals hfound n (mem_of_mem_keepNew hn)

theorem mem_map_key_keepNew {known proposed : List Numeral} {key : Key} :
    key ∈ (known ++ keepNew known proposed).map Numeral.key ↔
      key ∈ known.map Numeral.key ∨ key ∈ proposed.map Numeral.key := by
  rw [List.map_append, List.mem_append]
  constructor
  · rintro (h | h)
    · exact Or.inl h
    · obtain ⟨n, hn, rfl⟩ := List.mem_map.mp h
      exact Or.inr (List.mem_map.mpr ⟨n, mem_of_mem_keepNew hn, rfl⟩)
  · rintro (h | h)
    · exact Or.inl h
    · obtain ⟨n, hn, rfl⟩ := List.mem_map.mp h
      obtain ⟨m, hm | hm, hkey⟩ := @key_mem_of_proposed known _ _ hn
      · exact Or.inl (List.mem_map.mpr ⟨m, hm, hkey⟩)
      · exact Or.inr (List.mem_map.mpr ⟨m, hm, hkey⟩)

/-- What is proposed is assembled by a rule, of numbers already found. -/
theorem assembles_of_mem_proposals (rank : Key → Nat) (hfound : ∀ n ∈ found, n.StandsIn text)
    {n : Numeral} (hn : n ∈ proposals rules text found) :
    ∃ rule ∈ rules, n.rule = rule.name ∧ ∃ pieces, Assembles text rule pieces n.key ∧
      ∀ piece ∈ pieces, piece.Known found ∧ piece.RankedBy rank := by
  simp only [proposals, List.mem_flatMap, List.mem_filterMap] at hn
  obtain ⟨rule, hrule, reading, hreading, hnumeral⟩ := hn
  obtain ⟨_, hkey, htoken, hname⟩ := numeral?_eq_some hfound hreading hnumeral
  refine ⟨rule, hrule, hname, ?_⟩
  rw [hkey]
  exact assembles_of_mem_readRule rank hfound hreading htoken

/-- When the numbers found have derivations of no more than some height, and `rank` tells them, the
pieces of a rule have derivations too, and none of them is higher. -/
theorem derived_pieces {rank : Key → Nat} {h : Nat}
    (hrank : ∀ key ∈ found.map Numeral.key, rank key ≤ h ∧ Derived rules text key (rank key))
    {rule : Rule} {pieces : List Piece} {key : Key} (hassembles : Assembles text rule pieces key)
    (hpieces : ∀ piece ∈ pieces, piece.Known found ∧ piece.RankedBy rank) :
    Piece.highest pieces ≤ h ∧ ∀ piece ∈ pieces, ∀ token, piece.node = .number token →
      Derived rules text (piece.start, piece.stop, token) piece.height := by
  constructor
  · apply Piece.highest_le
    intro p hp
    by_cases hnode : ∃ token, p.node = .number token
    · obtain ⟨token, hnode⟩ := hnode
      rw [(hpieces p hp).2 token hnode]
      exact (hrank _ ((hpieces p hp).1 token hnode)).1
    · obtain ⟨element, _, hfits⟩ := hassembles.fits p hp
      rw [hfits.height_eq_zero (fun token htoken => hnode ⟨token, htoken⟩)]
      exact Nat.zero_le h
  · intro p hp token hnode
    rw [(hpieces p hp).2 token hnode]
    exact (hrank _ ((hpieces p hp).1 token hnode)).2

/-- A number proposed in a pass has a derivation one step higher than those it rests on. -/
theorem derived_of_mem_proposals {taking : Registry} {h : Nat} (htaking : taking ⊆ rules)
    (hfound : ∀ n ∈ found, n.StandsIn text)
    (hderived : ∀ key ∈ found.map Numeral.key, ∃ k ≤ h, Derived rules text key k)
    {key : Key} (hkey : key ∈ (proposals taking text found).map Numeral.key) :
    ∃ k ≤ h + 1, Derived rules text key k := by
  obtain ⟨n, hn, rfl⟩ := List.mem_map.mp hkey
  choose! rank hrank using hderived
  obtain ⟨rule, hrule, _, pieces, hassembles, hpieces⟩ := assembles_of_mem_proposals rank hfound hn
  obtain ⟨hle, hderived⟩ := derived_pieces hrank hassembles hpieces
  exact ⟨1 + Piece.highest pieces, by omega,
    Derived.intro (htaking hrule) hassembles hderived⟩

/-- What a rule makes of numbers already found is proposed in the next pass. -/
theorem mem_proposals_of_assembles {rule : Rule} {pieces : List Piece} {key : Key}
    (hfound : ∀ n ∈ found, n.StandsIn text) (hrule : rule ∈ rules)
    (hassembles : Assembles text rule pieces key)
    (hknown : ∀ piece ∈ pieces, piece.Known found) :
    key ∈ (proposals rules text found).map Numeral.key := by
  obtain ⟨reading, hreading, token, htoken, rfl⟩ :=
    mem_readRule_of_assembles hfound hassembles hknown
  have hnumeral : reading.numeral? rule =
      some ⟨reading.first.pos, reading.text, token, rule.name⟩ := by
    rw [Reading.numeral?, htoken]
    rfl
  refine List.mem_map.mpr ⟨_, ?_, (numeral?_eq_some hfound hreading hnumeral).2.1⟩
  simp only [proposals, List.mem_flatMap, List.mem_filterMap]
  exact ⟨rule, hrule, reading, hreading, hnumeral⟩

/-- What some numbers give, more of them give too. -/
theorem proposals_mono {more : List Numeral}
    (hfound : ∀ n ∈ found, n.StandsIn text) (hmore : ∀ n ∈ more, n.StandsIn text)
    (hsub : found ⊆ more) {n : Numeral} (hn : n ∈ proposals rules text found) :
    ∃ m ∈ proposals rules text more, m.key = n.key := by
  obtain ⟨rule, hrule, _, pieces, hassembles, hpieces⟩ :=
    assembles_of_mem_proposals (fun _ => 0) hfound hn
  refine List.mem_map.mp (mem_proposals_of_assembles hmore hrule hassembles ?_)
  intro piece hpiece token hnode
  exact List.map_subset _ hsub ((hpieces piece hpiece).1 token hnode)

end Pass

/-! ## All passes -/

theorem standsIn_of_mem_candidates {rules : Registry} {text : Text} {passes : Nat} :
    ∀ n ∈ candidates rules text passes, n.StandsIn text :=
  @candidates_induction rules text (fun found => ∀ n ∈ found, n.StandsIn text) (by simp)
    (fun _ _ _ => standsIn_grow) passes

/-- What each pass keeps true of the numerals that it adds is true of all that is found. -/
theorem forall_mem_candidates {rules : Registry} {text : Text} {P : Numeral → Prop}
    (h : ∀ taking ⊆ rules, ∀ found : List Numeral, (∀ n ∈ found, n.StandsIn text) →
      (∀ n ∈ found, P n) → ∀ n ∈ proposals taking text found, P n) (passes : Nat) :
    ∀ n ∈ candidates rules text passes, P n := by
  suffices hboth : (∀ n ∈ candidates rules text passes, n.StandsIn text) ∧
      ∀ n ∈ candidates rules text passes, P n from hboth.2
  refine @candidates_induction rules text
    (fun found => (∀ n ∈ found, n.StandsIn text) ∧ ∀ n ∈ found, P n) (by simp) ?_ passes
  rintro taking htaking found ⟨hstands, hfound⟩
  refine ⟨standsIn_grow hstands, fun n hn => ?_⟩
  rcases List.mem_append.mp hn with hn | hn
  · exact hfound n hn
  · exact h taking htaking found hstands hfound n (mem_of_mem_keepNew hn)

theorem pairwise_key_candidates (rules : Registry) (text : Text) (passes : Nat) :
    (candidates rules text passes).Pairwise fun a b => a.key ≠ b.key := by
  refine @candidates_induction rules text (fun found => found.Pairwise fun a b => a.key ≠ b.key)
    List.Pairwise.nil ?_ passes
  intro taking _ found hfound
  refine List.pairwise_append.mpr ⟨hfound, pairwise_keepNew _ _, ?_⟩
  intro a ha b hb hkey
  exact key_ne_of_mem_keepNew hb a ha hkey.symm

/-- What a rule of text alone makes has the height of the first pass. -/
theorem Assembles.highest_eq_zero {text : Text} {rule : Rule} {pieces : List Piece} {key : Key}
    (h : Assembles text rule pieces key) (hrule : rule.composes = false) :
    Piece.highest pieces = 0 := by
  apply Nat.eq_zero_of_le_zero
  apply Piece.highest_le
  intro p hp
  obtain ⟨_, _, hfits⟩ := h.fits p hp
  exact Nat.le_of_eq (hfits.height_eq_zero (h.node_ne_number hrule p hp))

theorem mem_candidates_one_iff (rules : Registry) (text : Text) (key : Key) :
    key ∈ (candidates rules text 1).map Numeral.key ↔ ∃ h ≤ 1, Derived rules text key h := by
  have hone : key ∈ (candidates rules text 1).map Numeral.key ↔
      key ∈ (proposals rules text []).map Numeral.key := by
    have := @mem_map_key_keepNew [] (proposals rules text []) key
    simpa [candidates_one] using this
  rw [hone]
  constructor
  · intro hkey
    exact derived_of_mem_proposals (h := 0) (fun _ h => h) (by simp) (by simp) hkey
  · rintro ⟨h, hle, hderived⟩
    cases hderived with
    | @intro rule pieces _ hrule hassembles hpieces =>
      refine mem_proposals_of_assembles (by simp) hrule hassembles ?_
      -- A number among the pieces would have a height of its own.
      intro p hp token hnode
      have hpos := (hpieces p hp token hnode).height_pos
      have := Piece.height_le_highest hp
      omega

/-- The invariant of the passes: after the first ones, the numbers found are those with a
derivation that is no higher than their number. -/
theorem mem_candidates_succ_iff (rules : Registry) (text : Text) (passes : Nat) (key : Key) :
    key ∈ (candidates rules text (passes + 1)).map Numeral.key ↔
      ∃ h ≤ passes + 1, Derived rules text key h := by
  induction passes generalizing key with
  | zero => exact mem_candidates_one_iff rules text key
  | succ passes ih =>
    have hstands := @standsIn_of_mem_candidates rules text (passes + 1)
    rw [candidates_succ, grow, mem_map_key_keepNew]
    constructor
    · rintro (hkey | hkey)
      · obtain ⟨h, hle, hderived⟩ := (ih key).mp hkey
        exact ⟨h, Nat.le_succ_of_le hle, hderived⟩
      · exact derived_of_mem_proposals (fun _ h => (mem_composing.mp h).1) hstands
          (fun key hkey => (ih key).mp hkey) hkey
    · rintro ⟨h, hle, hderived⟩
      cases hderived with
      | @intro rule pieces _ hrule hassembles hpieces =>
        by_cases hcomposes : rule.composes = true
        · right
          refine mem_proposals_of_assembles hstands (mem_composing.mpr ⟨hrule, hcomposes⟩)
            hassembles ?_
          intro p hp token hnode
          have := Piece.height_le_highest hp
          exact (ih _).mpr ⟨p.height, by omega, hpieces p hp token hnode⟩
        · -- A rule of text alone has given the number in the first pass.
          left
          have hzero := hassembles.highest_eq_zero (Bool.eq_false_iff.mpr hcomposes)
          exact (ih key).mpr ⟨_, by omega, Derived.intro hrule hassembles hpieces⟩

theorem mem_candidates_iff {rules : Registry} {text : Text} {passes : Nat} {key : Key} :
    key ∈ (candidates rules text passes).map Numeral.key ↔
      ∃ h ≤ max passes 1, Derived rules text key h := by
  cases passes with
  | zero => exact mem_candidates_succ_iff rules text 0 key
  | succ passes =>
    rw [Nat.max_eq_left (Nat.le_add_left 1 passes)]
    exact mem_candidates_succ_iff rules text passes key

/-- The numbers found within some passes, at least one, are the numbers with a derivation that
is no higher, and each of them is found once. -/
theorem the_candidates_are_the_derived_numbers (rules : Registry) (text : Text) (passes : Nat) :
    (∀ key, key ∈ (candidates rules text passes).map Numeral.key ↔
      ∃ h ≤ max passes 1, Derived rules text key h) ∧
    ((candidates rules text passes).map Numeral.key).Nodup :=
  ⟨fun _ => mem_candidates_iff, List.pairwise_map.mpr (pairwise_key_candidates rules text passes)⟩

end SpanishNumerals
