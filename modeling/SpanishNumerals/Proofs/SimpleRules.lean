-- Rules of one pattern. Such a rule gives a number for each stretch of a text that its pattern
-- reads between boundaries and that its production makes a number of. It gives them in the first
-- pass, and what it gives is found unless another rule gives a number at the same place.
import Mathlib.Data.List.Nodup
import SpanishNumerals.Proofs.LiteralCuts
import SpanishNumerals.Proofs.WholeText

namespace SpanishNumerals

/-! ## Stretches -/

/-- The text is `front`, `read` and `back`, and `read` begins and ends at a boundary. -/
structure Stretch (text front read back : Text) : Prop where
  splits : text = front ++ read ++ back
  opens : isBoundary front.getLast? (read ++ back).head? = true
  closes : isBoundary (front ++ read).getLast? back.head? = true

namespace Stretch

variable {text front read back front' read' back' : Text}

/-- At one place of a text there is one stretch of a length. -/
theorem unique (h : Stretch text front read back) (h' : Stretch text front' read' back')
    (hfront : byteLength front = byteLength front') (hread : byteLength read = byteLength read') :
    front = front' ∧ read = read' ∧ back = back' := by
  have hsplits := h.splits.symm.trans h'.splits
  rw [List.append_assoc, List.append_assoc] at hsplits
  obtain ⟨rfl, hrest⟩ := append_inj_of_byteLength_eq hsplits hfront
  obtain ⟨rfl, rfl⟩ := append_inj_of_byteLength_eq hrest hread
  exact ⟨rfl, rfl, rfl⟩

/-- Two numerals at one place of a text cover one stretch. -/
theorem unique_of_span {m n : Numeral} (hm : Stretch text front m.text back)
    (hn : Stretch text front' n.text back') (hmfront : m.start = byteLength front)
    (hnfront : n.start = byteLength front') (hstart : m.start = n.start)
    (hstop : m.stop = n.stop) : front = front' ∧ m.text = n.text ∧ back = back' := by
  simp only [Numeral.stop, Numeral.size] at hstop
  exact hm.unique hn (by omega) (by omega)

/-- The whole text is a stretch. -/
theorem whole (text : Text) : Stretch text [] text [] := ⟨by simp, by simp, by simp⟩

end Stretch

/-! ## What a pattern reads -/

theorem Pattern.Reads.unique {pattern : Pattern} {a b : Capture} {rest : Text}
    (ha : pattern.Reads a rest) (hb : pattern.Reads b rest) (htext : a.text = b.text) : a = b := by
  obtain ⟨_, _, extent, hextent, _, hgroups⟩ := ha
  obtain ⟨_, _, extent', hextent', _, hgroups'⟩ := hb
  rw [htext, hextent'] at hextent
  obtain rfl := Option.some.inj hextent
  cases a
  cases b
  simp only at htext hgroups hgroups'
  rw [htext, ← hgroups, ← hgroups']

/-- The pattern reads nothing that begins with a blank. -/
def Pattern.BeginsUnblank (pattern : Pattern) : Prop :=
  ∀ capture rest, pattern.Reads capture rest →
    ∀ c, capture.text.head? = some c → classify c ≠ .blank

/-- No figure and no separator is a blank. -/
theorem not_blank_of_isFigureSign {c : Char} (h : isFigureSign c = true) :
    classify c ≠ .blank := by
  simp only [isFigureSign, Bool.or_eq_true, decide_eq_true_eq] at h
  rcases h with (hdigit | rfl) | rfl
  · simp [classify_of_isDigit hdigit]
  · decide
  · decide

theorem beginsUnblank_of_mem {pattern : Pattern} (h : pattern ∈ patternsOf spanishRules) :
    pattern.BeginsUnblank := by
  intro capture rest hreads c hc
  have hmem := List.mem_of_mem_head? hc
  rcases (spanishRead_of_reads h hreads).signs_or_letters with hsigns | hhyphen | hletters
  · exact not_blank_of_isFigureSign (hsigns c hmem)
  · rw [hhyphen, List.mem_singleton] at hmem
    rw [hmem]
    decide
  · rw [hletters c hmem]
    decide

/-! ## Readings between boundaries -/

section Readings

variable {text front back : Text} {pattern : Pattern} {capture : Capture}

/-- What a pattern reads of a segment between boundaries is a stretch of the text. -/
theorem stretch_of_reading {reading : Reading} (hsegment : reading.first ∈ segments text)
    (hread : pattern.readBounded? reading.first = some (capture, reading.last)) :
    Stretch text reading.first.behind.reverse reading.text reading.last.ahead ∧
      capture.text = reading.text ∧ pattern.Reads capture reading.last.ahead := by
  obtain ⟨hopens, hread, hcloses⟩ := Pattern.readBounded?_eq_some.mp hread
  obtain ⟨hreach, hreads⟩ := Pattern.read?_eq_some_iff.mp hread
  have htext := Reading.text_eq hreach
  unfold Cursor.atBoundary at hopens hcloses
  refine ⟨⟨?_, ?_, ?_⟩, htext.symm, hreads⟩
  · rw [htext, ← text_of_mem_segments hsegment, List.append_assoc, ← hreach.1, Cursor.text]
  · rwa [htext, ← hreach.1, List.getLast?_reverse]
  · rwa [htext, ← List.head?_reverse, List.reverse_append, List.reverse_reverse, ← hreach.2]

/-- A stretch that a pattern reads is read of the segment where it begins. -/
theorem exists_reading_of_stretch (hunblank : pattern.BeginsUnblank)
    (hstretch : Stretch text front capture.text back) (hreads : pattern.Reads capture back) :
    ∃ reading : Reading, reading.window = [.capture capture] ∧ reading.first ∈ segments text ∧
      pattern.readBounded? reading.first = some (capture, reading.last) ∧
        reading.first.pos = byteLength front ∧ reading.text = capture.text := by
  obtain ⟨hsplits, hopens, hcloses⟩ := hstretch
  obtain ⟨c, more, hcons⟩ := List.exists_cons_of_ne_nil hreads.1
  have hreach : (Cursor.mk front.reverse (capture.text ++ back)).Reaches capture.text
      ⟨(front ++ capture.text).reverse, back⟩ := ⟨rfl, List.reverse_append⟩
  refine ⟨⟨⟨front.reverse, capture.text ++ back⟩, ⟨(front ++ capture.text).reverse, back⟩,
    [.capture capture]⟩, rfl, ?_, ?_, by rw [Cursor.pos, byteLength_reverse],
    Reading.text_eq hreach⟩
  · refine mem_segments.mpr ⟨?_, c, more ++ back, ?_, hunblank _ _ hreads c ?_, ?_⟩
    · rw [hsplits, Cursor.text, List.reverse_reverse, List.append_assoc]
    · rw [hcons]
      rfl
    · rw [hcons]
      rfl
    · rw [hcons] at hopens
      rwa [List.head?_reverse]
  · refine Pattern.readBounded?_eq_some.mpr
      ⟨?_, Pattern.read?_eq_some_iff.mpr ⟨hreach, hreads⟩, ?_⟩
    · unfold Cursor.atBoundary
      rwa [List.head?_reverse]
    · unfold Cursor.atBoundary
      rwa [List.head?_reverse]

end Readings

/-! ## What a rule gives -/

/-- The numerals that a rule gives when no number was found before. -/
def given (text : Text) (rule : Rule) : List Numeral :=
  (readRule text [] rule).filterMap fun reading => reading.numeral? rule

theorem mem_given {text : Text} {rule : Rule} {n : Numeral} :
    n ∈ given text rule ↔ ∃ reading ∈ readRule text [] rule, reading.numeral? rule = some n :=
  List.mem_filterMap

theorem mem_proposals_first {rules : Registry} {text : Text} {n : Numeral} :
    n ∈ proposals rules text [] ↔ ∃ rule ∈ rules, n ∈ given text rule := by
  simp only [proposals, List.mem_flatMap, given]

section Composing

variable {elements : List Element}

theorem readElements_of_number (h : elements.any Element.isNumber = true) (here : Cursor) :
    readElements [] elements here = [] := by
  induction elements generalizing here with
  | nil => simp at h
  | cons element elements ih =>
    cases element with
    | number condition => simp [readElements, readElement]
    | text pattern =>
      have hrest : elements.any Element.isNumber = true := by simpa [Element.isNumber] using h
      simp [readElements, ih hrest]

/-- A rule that builds on numbers gives nothing before one was found. -/
theorem given_of_composes {rule : Rule} (h : rule.composes = true) (text : Text) :
    given text rule = [] := by
  unfold Rule.composes at h
  unfold given readRule
  cases helements : rule.elements with
  | nil => rfl
  | cons element elements =>
    rw [helements] at h
    cases element with
    | number condition => simp [readFirst]
    | text pattern =>
      have hrest : elements.any Element.isNumber = true := by simpa [Element.isNumber] using h
      simp [readElements_of_number hrest]

end Composing

section Single

variable {rule : Rule} {pattern : Pattern} (helements : rule.elements = [.text pattern])

include helements

theorem apply_single (capture : Capture) :
    rule.apply [.capture capture] = rule.produce [.capture capture] := by
  simp [Rule.apply, helements, Element.accepts]

theorem readRule_single (text : Text) (found : List Numeral) :
    readRule text found rule = readRule text [] rule := by
  simp [readRule, helements, readFirst, readElements]

theorem mem_readRule_single {text : Text} {reading : Reading} :
    reading ∈ readRule text [] rule ↔ ∃ capture, reading.window = [.capture capture] ∧
      reading.first ∈ segments text ∧
        pattern.readBounded? reading.first = some (capture, reading.last) := by
  rw [mem_readRule]
  constructor
  · rintro ⟨element, elements, node, there, window, hrow, hfirst, hrest, hwindow⟩
    rw [helements] at hrow
    obtain ⟨rfl, rfl⟩ := List.cons.inj hrow
    obtain ⟨_, hnode, hsegment⟩ := mem_readFirst.mp hfirst
    obtain ⟨rfl, rfl⟩ : window = [] ∧ reading.last = there := by simpa [readElements] using hrest
    simp only [readElement, List.mem_map, Option.mem_toList, Prod.mk.injEq, Prod.exists] at hnode
    obtain ⟨capture, _, hread, rfl, rfl⟩ := hnode
    exact ⟨capture, hwindow, hsegment rfl, hread⟩
  · rintro ⟨capture, hwindow, hsegment, hread⟩
    refine ⟨_, _, .capture capture, reading.last, [], helements, ?_, by simp [readElements], hwindow⟩
    refine mem_readFirst.mpr ⟨text_of_mem_segments hsegment, ?_, fun _ => hsegment⟩
    simp [readElement, hread]

/-- A rule of one pattern gives a numeral for each stretch that the pattern reads, when the
production makes a token of it. -/
theorem mem_given_single (hunblank : pattern.BeginsUnblank) {text : Text} {n : Numeral} :
    n ∈ given text rule ↔ n.rule = rule.name ∧ ∃ front back capture,
      Stretch text front n.text back ∧ n.start = byteLength front ∧ capture.text = n.text ∧
        pattern.Reads capture back ∧ rule.produce [.capture capture] = some n.token := by
  rw [mem_given]
  constructor
  · rintro ⟨reading, hreading, hn⟩
    obtain ⟨capture, hwindow, hsegment, hread⟩ := (mem_readRule_single helements).mp hreading
    obtain ⟨hstretch, htext, hreads⟩ := stretch_of_reading hsegment hread
    obtain ⟨token, htoken, rfl⟩ := Option.map_eq_some_iff.mp hn
    rw [hwindow, apply_single helements] at htoken
    refine ⟨rfl, _, _, capture, hstretch, ?_, htext, hreads, htoken⟩
    rw [byteLength_reverse, Cursor.pos]
  · rintro ⟨hname, front, back, capture, hstretch, hstart, htext, hreads, htoken⟩
    rw [← htext] at hstretch
    obtain ⟨reading, hwindow, hsegment, hread, hpos, hcovers⟩ :=
      exists_reading_of_stretch hunblank hstretch hreads
    refine ⟨reading, (mem_readRule_single helements).mpr ⟨capture, hwindow, hsegment, hread⟩, ?_⟩
    rw [Reading.numeral?, hwindow, apply_single helements, htoken, Option.map_some, hpos, hcovers,
      htext, ← hstart, ← hname]

/-- At one place a rule of one pattern gives one numeral. -/
theorem given_single_unique (hunblank : pattern.BeginsUnblank) {text : Text} {m n : Numeral}
    (hm : m ∈ given text rule) (hn : n ∈ given text rule) (hstart : m.start = n.start)
    (hstop : m.stop = n.stop) : m = n := by
  obtain ⟨hmname, front, back, a, hmstretch, hmstart, hmtext, hmreads, hmtoken⟩ :=
    (mem_given_single helements hunblank).mp hm
  obtain ⟨hnname, front', back', b, hnstretch, hnstart, hntext, hnreads, hntoken⟩ :=
    (mem_given_single helements hunblank).mp hn
  obtain ⟨rfl, htext, rfl⟩ :=
    hmstretch.unique_of_span hnstretch hmstart hnstart hstart hstop
  obtain rfl : a = b := hmreads.unique hnreads (by rw [hmtext, hntext, htext])
  rw [hmtoken] at hntoken
  cases m
  cases n
  simp only at hstart htext hmname hnname hntoken
  rw [hstart, htext, Option.some.inj hntoken, hmname, ← hnname]

end Single

/-! ## What is found -/

/-- No two numerals that the rules give in the first pass are at one place. -/
def Unambiguous (rules : Registry) (text : Text) : Prop :=
  ∀ m ∈ proposals rules text [], ∀ n ∈ proposals rules text [],
    m.start = n.start → m.stop = n.stop → m = n

section Found

variable {rules : Registry} {text : Text} {rule : Rule} {n : Numeral}

/-- What a simple rule is named for among the candidates is what it gives. -/
theorem mem_given_of_mem_candidates {pattern : Pattern} {passes : Nat}
    (hnames : (rules.map Rule.name).Nodup) (hrule : rule ∈ rules)
    (helements : rule.elements = [.text pattern]) (hn : n ∈ candidates rules text passes)
    (hname : n.rule = rule.name) : n ∈ given text rule := by
  obtain ⟨found, hfound, other, hother, reading, hreading, hmakes⟩ :=
    exists_reading_of_mem_candidates hn
  obtain ⟨_, _, _, hnamed⟩ := numeral?_eq_some hfound hreading hmakes
  obtain rfl : other = rule :=
    List.inj_on_of_nodup_map hnames hother hrule (hnamed.symm.trans hname)
  rw [readRule_single helements] at hreading
  exact mem_given.mpr ⟨reading, hreading, hmakes⟩

variable (hunambiguous : Unambiguous rules text) (hrule : rule ∈ rules) (hn : n ∈ given text rule)

include hunambiguous hrule hn

theorem mem_candidates_of_mem_given (passes : Nat) : n ∈ candidates rules text passes := by
  have hproposed := mem_proposals_first.mpr ⟨rule, hrule, hn⟩
  obtain ⟨m, hm, hkey⟩ := @key_mem_of_proposed [] _ _ hproposed
  have hkept := hm.resolve_left List.not_mem_nil
  obtain ⟨hstart, hstop, -⟩ := Numeral.key_eq_iff.mp hkey
  obtain rfl := hunambiguous m (mem_of_mem_keepNew hkept) n hproposed hstart hstop
  have hbegin := candidates_beginning rules text (Nat.zero_le passes)
  exact hbegin.subset hkept

/-- A numeral of the whole text that a rule gives is the analysis. -/
theorem analyze_of_mem_given (hcovers : n.covers text = true) (passes : Nat) :
    analyze rules text passes = [n] := by
  have hfirst : (candidates rules text 0).find? (·.covers text) = some n := by
    cases hfind : (candidates rules text 0).find? (·.covers text) with
    | none =>
      have hmem := mem_candidates_of_mem_given hunambiguous hrule hn 0
      exact absurd hcovers (List.find?_eq_none.mp hfind n hmem)
    | some m =>
      have hm := mem_of_mem_keepNew (List.mem_of_find?_eq_some hfind)
      have hmcovers := List.find?_some hfind
      obtain ⟨hstart, hstop⟩ := Numeral.covers_iff.mp hmcovers
      obtain ⟨hstart', hstop'⟩ := Numeral.covers_iff.mp hcovers
      rw [hunambiguous m hm n (mem_proposals_first.mpr ⟨rule, hrule, hn⟩)
        (hstart.trans hstart'.symm) (hstop.trans hstop'.symm)]
  obtain ⟨rest, hrest⟩ := candidates_beginning rules text (Nat.zero_le passes)
  apply analyze_of_find?
  rw [← hrest, List.find?_append, hfirst, Option.some_or]

end Found

end SpanishNumerals
