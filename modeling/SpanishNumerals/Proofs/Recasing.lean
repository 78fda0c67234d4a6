-- Texts in whatever case. When the capitals of a text are made small its places, its boundaries
-- and what is read at each place stay as they were. So each pass finds the same numbers, by the
-- same rules and in the same order, and the selection keeps the same of them.
import SpanishNumerals.Proofs.LetterCase
import SpanishNumerals.Proofs.Parting
import SpanishNumerals.Proofs.Passes

namespace SpanishNumerals

/-! ## Places -/

/-- The same place in the text with the case changed. -/
def Cursor.recase (f : Char → Char) (here : Cursor) : Cursor :=
  ⟨here.behind.map f, here.ahead.map f⟩

section Places

variable {f : Char → Char} (hf : IsChangeOfCase f)

theorem forward_recase (n : Nat) (here : Cursor) :
    (here.recase f).forward n = (here.forward n).recase f := by
  induction n generalizing here with
  | zero => rfl
  | succ n ih =>
    obtain ⟨behind, ahead⟩ := here
    cases ahead with
    | nil => rfl
    | cons c ahead => exact ih ⟨c :: behind, ahead⟩

include hf

theorem pos_recase (here : Cursor) : (here.recase f).pos = here.pos := hf.byteLength_map here.behind

theorem skipBlank_recase (here : Cursor) :
    (here.recase f).skipBlank = here.skipBlank.recase f := by
  obtain ⟨behind, ahead⟩ := here
  unfold Cursor.skipBlank Cursor.recase
  dsimp only
  induction ahead generalizing behind with
  | nil => rfl
  | cons c ahead ih =>
    simp only [List.map_cons, Cursor.skipBlankFrom, hf.isBlank_eq]
    split
    · exact ih (c :: behind)
    · rfl

theorem atBoundary_recase (here : Cursor) : (here.recase f).atBoundary = here.atBoundary := by
  simp only [Cursor.atBoundary, Cursor.recase, List.head?_map, hf.isBoundary_map]

theorem seekFrom_recase (behind ahead : Text) (bytes : Nat) :
    Cursor.seekFrom (behind.map f) (ahead.map f) bytes =
      (Cursor.seekFrom behind ahead bytes).map (Cursor.recase f) := by
  induction ahead generalizing behind bytes with
  | nil => cases bytes <;> rfl
  | cons c ahead ih =>
    cases bytes with
    | zero => rfl
    | succ bytes =>
      simp only [List.map_cons, Cursor.seekFrom, hf.size_eq]
      split
      · exact ih (c :: behind) _
      · rfl

theorem cursorAt?_recase (text : Text) (pos : Nat) :
    cursorAt? (text.map f) pos = (cursorAt? text pos).map (Cursor.recase f) :=
  seekFrom_recase hf [] text pos

theorem segmentsFrom_recase (behind ahead : Text) :
    Cursor.segmentsFrom (behind.map f) (ahead.map f) =
      (Cursor.segmentsFrom behind ahead).map (Cursor.recase f) := by
  induction ahead generalizing behind with
  | nil => rfl
  | cons c ahead ih =>
    have hrest := ih (c :: behind)
    have hboundary : isBoundary (behind.map f).head? (some (f c)) =
        isBoundary behind.head? (some c) := by
      rw [List.head?_map]
      exact hf.isBoundary_map _ (some c)
    simp only [List.map_cons] at hrest
    simp only [List.map_cons, Cursor.segmentsFrom, hf.class_eq, hboundary, hrest]
    split <;> rfl

theorem segments_recase (text : Text) :
    segments (text.map f) = (segments text).map (Cursor.recase f) :=
  segmentsFrom_recase hf [] text

end Places

/-! ## Numerals -/

/-- The numerals stand at the same place, and are the same number by the same rule. -/
structure Numeral.Agrees (n n' : Numeral) : Prop where
  start : n.start = n'.start
  stop : n.stop = n'.stop
  token : n.token = n'.token
  rule : n.rule = n'.rule

/-- The same numeral in the text with the case changed. -/
def Numeral.recase (f : Char → Char) (n : Numeral) : Numeral := { n with text := n.text.map f }

section Numerals

variable {f : Char → Char} (hf : IsChangeOfCase f)

include hf

theorem size_recase (n : Numeral) : (n.recase f).size = n.size := hf.byteLength_map n.text

theorem stop_recase (n : Numeral) : (n.recase f).stop = n.stop := by
  rw [Numeral.stop, size_recase hf]
  rfl

theorem key_recase (n : Numeral) : (n.recase f).key = n.key := by
  rw [Numeral.key, stop_recase hf]
  rfl

/-- Of numerals in another case the same ones are kept. -/
theorem select_recase (found : List Numeral) :
    select (found.map (Numeral.recase f)) = (select found).map (Numeral.recase f) := by
  have hsize : ∀ a b : Numeral, decide ((b.recase f).size ≤ (a.recase f).size) =
      decide (b.size ≤ a.size) := by
    intro a b
    rw [size_recase hf, size_recase hf]
  have hover : ∀ a b : Numeral, (a.recase f).overlaps (b.recase f) = a.overlaps b := by
    intro a b
    simp only [Numeral.overlaps, stop_recase hf]
    rfl
  have hbySize : bySize (found.map (Numeral.recase f)) = (bySize found).map (Numeral.recase f) :=
    map_sortBy hsize found
  have hkeep := map_keepApart hover [] (bySize found)
  rw [List.map_nil] at hkeep
  rw [select, hbySize, hkeep, map_sortBy fun _ _ => rfl]
  rfl

end Numerals

/-! ## Readings -/

/-- The same reading in the text with the case changed. -/
def Reading.recase (f : Char → Char) (reading : Reading) : Reading :=
  ⟨reading.first.recase f, reading.last.recase f, reading.window.map (Node.recase f)⟩

section Readings

variable {f : Char → Char} (hf : IsChangeOfCase f) {pattern : Pattern} {found : List Numeral}

theorem read?_recase (hpattern : pattern.IgnoresCase f) (here : Cursor) :
    pattern.read? (here.recase f) =
      (pattern.read? here).map fun (capture, there) => (capture.recase f, there.recase f) := by
  have hahead : ∀ place : Cursor, (place.recase f).ahead = place.ahead.map f := fun _ => rfl
  unfold Pattern.read?
  rw [hahead, hpattern.extent]
  cases pattern.extent here.ahead with
  | none => rfl
  | some extent =>
    simp only [Option.map_some, forward_recase, hahead, hpattern.admits, ← List.map_take]
    cases here.ahead.take extent.length with
    | nil => rfl
    | cons c text =>
      simp only [List.map_cons]
      split <;> rfl

include hf

theorem readBounded?_recase (hpattern : pattern.IgnoresCase f) (here : Cursor) :
    pattern.readBounded? (here.recase f) =
      (pattern.readBounded? here).map fun (capture, there) =>
        (capture.recase f, there.recase f) := by
  unfold Pattern.readBounded?
  rw [atBoundary_recase hf, read?_recase hpattern]
  split
  · cases pattern.read? here with
    | none => rfl
    | some pair =>
      simp only [Option.map_some, Option.filter_some, atBoundary_recase hf]
      split <;> rfl
  · rfl

theorem readElement_recase {element : Element}
    (helement : ∀ pattern, element = .text pattern → pattern.IgnoresCase f) (here : Cursor) :
    readElement (found.map (Numeral.recase f)) (here.recase f) element =
      (readElement found here element).map fun (node, there) =>
        (node.recase f, there.recase f) := by
  cases element with
  | text pattern =>
    simp only [readElement, readBounded?_recase hf (helement pattern rfl)]
    cases pattern.readBounded? here <;> rfl
  | number condition =>
    simp only [readElement, List.filter_map, List.map_map, pos_recase hf]
    apply List.map_congr_left
    intro n _
    simp only [Function.comp_apply, Numeral.recase, List.length_map, forward_recase]
    rfl

theorem readElements_recase {elements : List Element}
    (helements : ∀ pattern, .text pattern ∈ elements → pattern.IgnoresCase f) (here : Cursor) :
    readElements (found.map (Numeral.recase f)) elements (here.recase f) =
      (readElements found elements here).map fun (window, last) =>
        (window.map (Node.recase f), last.recase f) := by
  induction elements generalizing here with
  | nil => rfl
  | cons element elements ih =>
    have hfirst : ∀ pattern, element = .text pattern → pattern.IgnoresCase f :=
      fun pattern h => helements pattern (h ▸ List.mem_cons_self)
    have hrest := ih fun pattern h => helements pattern (List.mem_cons_of_mem _ h)
    simp only [readElements, skipBlank_recase hf, readElement_recase hf hfirst, List.flatMap_map,
      List.map_flatMap]
    apply List.flatMap_congr
    rintro ⟨node, there⟩ _
    rw [hrest, List.map_map, List.map_map]
    rfl

theorem readFirst_recase (text : Text) {element : Element}
    (helement : ∀ pattern, element = .text pattern → pattern.IgnoresCase f) :
    readFirst (text.map f) (found.map (Numeral.recase f)) element =
      (readFirst text found element).map fun (first, node, there) =>
        (first.recase f, node.recase f, there.recase f) := by
  cases element with
  | text pattern =>
    simp only [readFirst, segments_recase hf, List.filterMap_map, List.map_filterMap]
    apply List.filterMap_congr
    intro here _
    simp only [Function.comp_apply, readBounded?_recase hf (helement pattern rfl), Option.map_map]
    rfl
  | number condition =>
    simp only [readFirst, List.filter_map, List.filterMap_map, List.map_filterMap]
    apply List.filterMap_congr
    intro n _
    simp only [Function.comp_apply, Numeral.recase, cursorAt?_recase hf, Option.map_map,
      List.length_map]
    congr 1
    funext here
    simp only [Function.comp_apply, forward_recase]
    rfl

theorem readRule_recase (text : Text) {rule : Rule}
    (hrule : ∀ pattern, .text pattern ∈ rule.elements → pattern.IgnoresCase f) :
    readRule (text.map f) (found.map (Numeral.recase f)) rule =
      (readRule text found rule).map (Reading.recase f) := by
  unfold readRule
  cases helements : rule.elements with
  | nil => rfl
  | cons element elements =>
    rw [helements] at hrule
    have hfirst : ∀ pattern, element = .text pattern → pattern.IgnoresCase f :=
      fun pattern h => hrule pattern (h ▸ List.mem_cons_self)
    have hrest : ∀ pattern, .text pattern ∈ elements → pattern.IgnoresCase f :=
      fun pattern h => hrule pattern (List.mem_cons_of_mem _ h)
    simp only [readFirst_recase hf text hfirst, List.flatMap_map, List.map_flatMap]
    apply List.flatMap_congr
    rintro ⟨first, node, there⟩ _
    rw [readElements_recase hf hrest, List.map_map, List.map_map]
    rfl

theorem numeral?_recase {reading : Reading} {rule : Rule}
    (happly : rule.apply (reading.window.map (Node.recase f)) = rule.apply reading.window) :
    (reading.recase f).numeral? rule = (reading.numeral? rule).map (Numeral.recase f) := by
  have htext : (reading.recase f).text = reading.text.map f := by
    simp only [Reading.text, Reading.recase, Cursor.recase, List.length_map, List.map_take]
  have hpos : (reading.recase f).first.pos = reading.first.pos := pos_recase hf reading.first
  have hwindow : (reading.recase f).window = reading.window.map (Node.recase f) := rfl
  rw [Reading.numeral?, htext, hpos, hwindow, happly, Reading.numeral?, Option.map_map]
  rfl

end Readings

/-! ## Passes -/

/-- The patterns and the productions of the rules ignore the case. -/
structure IgnoreCase (f : Char → Char) (rules : Registry) : Prop where
  patterns : ∀ pattern ∈ patternsOf rules, pattern.IgnoresCase f
  rules : ∀ rule ∈ rules, rule.IgnoresCase f

section Passes

variable {f : Char → Char} (hf : IsChangeOfCase f) {rules : Registry}
  (hrules : IgnoreCase f rules)

include hf hrules

theorem proposals_recase {taking : Registry} (htaking : taking ⊆ rules) (text : Text)
    (found : List Numeral) :
    proposals taking (text.map f) (found.map (Numeral.recase f)) =
      (proposals taking text found).map (Numeral.recase f) := by
  unfold proposals
  rw [List.map_flatMap]
  apply List.flatMap_congr
  intro rule hrule
  have hmem := htaking hrule
  rw [readRule_recase hf text fun pattern hpattern =>
      hrules.patterns pattern (mem_patternsOf.mpr ⟨rule, hmem, hpattern⟩),
    List.filterMap_map, List.map_filterMap]
  apply List.filterMap_congr
  intro reading hreading
  exact numeral?_recase hf (hrules.rules rule hmem text found reading hreading)

theorem grow_recase {taking : Registry} (htaking : taking ⊆ rules) (text : Text)
    (found : List Numeral) :
    grow taking (text.map f) (found.map (Numeral.recase f)) =
      (grow taking text found).map (Numeral.recase f) := by
  have hkeys : ∀ a b : Numeral, (a.recase f).key = (b.recase f).key ↔ a.key = b.key := by
    intro a b
    rw [key_recase hf, key_recase hf]
  rw [grow, proposals_recase hf hrules htaking, map_keepNew hkeys, grow, List.map_append]

/-- Within any number of passes the same numerals are found, in the same order. -/
theorem candidates_recase (text : Text) (passes : Nat) :
    candidates rules (text.map f) passes =
      (candidates rules text passes).map (Numeral.recase f) :=
  candidates_side_by_side (R := fun found found' => found' = found.map (Numeral.recase f)) rfl
    (fun taking htaking found found' h => by rw [h, grow_recase hf hrules htaking]) passes

theorem analyze_recase (text : Text) (passes : Nat) :
    analyze rules (text.map f) passes = (analyze rules text passes).map (Numeral.recase f) := by
  rw [analyze, candidates_recase hf hrules, select_recase hf, analyze]

end Passes

/-- Numerals that are the same in one case agree in any. -/
theorem agrees_of_map_recase {f : Char → Char} (hf : IsChangeOfCase f) {found found' : List Numeral}
    (h : found.map (Numeral.recase f) = found'.map (Numeral.recase f)) :
    List.Forall₂ Numeral.Agrees found found' := by
  have heq : List.Forall₂ (· = ·) (found.map (Numeral.recase f)) (found'.map (Numeral.recase f)) :=
    List.forall₂_eq_eq_eq ▸ h
  rw [List.forall₂_map_left_iff, List.forall₂_map_right_iff] at heq
  refine heq.imp fun n n' hsame => ?_
  have hstart : (n.recase f).start = (n'.recase f).start := by rw [hsame]
  have hstop : n.stop = n'.stop := by rw [← stop_recase hf n, hsame, stop_recase hf]
  have htoken : (n.recase f).token = (n'.recase f).token := by rw [hsame]
  have hrule : (n.recase f).rule = (n'.recase f).rule := by rw [hsame]
  exact ⟨hstart, hstop, htoken, hrule⟩

theorem ignoreCase_spanishRules {f : Char → Char} (hf : IsChangeOfCase f) :
    IgnoreCase f spanishRules :=
  ⟨fun _ => ignoresCase_spanishRules hf, fun _ => rule_ignoresCase hf⟩

/-- Two texts that are the same when their capitals from A to Z, É, Ó and Ú are made small hold the
same numbers. Within any number of passes the numerals found in the one and in the other agree one
by one in place, number and rule, and so do those that the analysis keeps. -/
theorem texts_are_read_whatever_their_case {text text' : Text}
    (h : text.map smallLetter = text'.map smallLetter) (passes : Nat) :
    List.Forall₂ Numeral.Agrees (candidates spanishRules text passes)
      (candidates spanishRules text' passes) ∧
    List.Forall₂ Numeral.Agrees (analyze spanishRules text passes)
      (analyze spanishRules text' passes) := by
  have hf := isChangeOfCase_smallLetter
  have hrules := ignoreCase_spanishRules hf
  constructor
  · apply agrees_of_map_recase hf
    rw [← candidates_recase hf hrules, h, candidates_recase hf hrules]
  · apply agrees_of_map_recase hf
    rw [← analyze_recase hf hrules, h, analyze_recase hf hrules]

/-- A text in mixed case, with an accented capital, and the same text in small letters: both are
103. -/
theorem one_hundred_and_three_is_read_whatever_its_case :
    ("CIENTO tRÉs".toList).map smallLetter = ("ciento trés".toList).map smallLetter ∧
      analyze spanishRules "CIENTO tRÉs".toList defaultPasses =
        [⟨0, "CIENTO tRÉs".toList, ⟨.ofNat 103, none⟩, "hundreds plus remainder"⟩] ∧
      analyze spanishRules "ciento trés".toList defaultPasses =
        [⟨0, "ciento trés".toList, ⟨.ofNat 103, none⟩, "hundreds plus remainder"⟩] ∧
      List.Forall₂ Numeral.Agrees (candidates spanishRules "CIENTO tRÉs".toList defaultPasses)
        (candidates spanishRules "ciento trés".toList defaultPasses) ∧
      List.Forall₂ Numeral.Agrees (analyze spanishRules "CIENTO tRÉs".toList defaultPasses)
        (analyze spanishRules "ciento trés".toList defaultPasses) :=
  have hsmall : ("CIENTO tRÉs".toList).map smallLetter = ("ciento trés".toList).map smallLetter := by
    decide
  ⟨hsmall, by decide +kernel, by decide +kernel,
    texts_are_read_whatever_their_case hsmall defaultPasses⟩

end SpanishNumerals
