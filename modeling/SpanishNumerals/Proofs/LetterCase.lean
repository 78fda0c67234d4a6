-- Letters in whatever case. A capital letter that is made small takes as many bytes as before, is
-- a letter as before, and folds and lowers as before. So patterns read as far in it, tables find
-- the same number, and figures are never touched.
import SpanishNumerals.Proofs.Captures
import SpanishNumerals.Proofs.LiteralCuts
import SpanishNumerals.Proofs.SimpleRules
import SpanishNumerals.Proofs.Windows

namespace SpanishNumerals

/-! ## Changes of case -/

/-- The capital letters of Spanish words, each with its small letter. -/
def capitals : List (Char × Char) :=
  "ABCDEFGHIJKLMNOPQRSTUVWXYZÉÓÚ".toList.zip "abcdefghijklmnopqrstuvwxyzéóú".toList

/-- A capital letter made small. Any other character stays. -/
def smallLetter (c : Char) : Char := (capitals.lookup c).getD c

/-- Two letters that differ in case only: they have the same size in bytes, the same forms in small
and folded, and tell the same of a sigma beside them. -/
structure SameButForCase (c d : Char) : Prop where
  letter : classify c = .letter
  letter' : classify d = .letter
  size : d.utf8Size = c.utf8Size
  folded : foldChar d = foldChar c
  lowered : lowercaseChar d = lowercaseChar c
  sigma : d = 'Σ' ↔ c = 'Σ'
  cased : isCased d = isCased c
  ignorable : isCaseIgnorable d = isCaseIgnorable c

/-- The function changes nothing but the case of letters. -/
def IsChangeOfCase (f : Char → Char) : Prop := ∀ c, f c = c ∨ SameButForCase c (f c)

theorem sameButForCase_of_mem {c d : Char} (h : (c, d) ∈ capitals) : SameButForCase c d := by
  have hcapitals : ∀ pair ∈ capitals, classify pair.1 = .letter ∧ classify pair.2 = .letter ∧
      pair.2.utf8Size = pair.1.utf8Size ∧ foldChar pair.2 = foldChar pair.1 ∧
      lowercaseChar pair.2 = lowercaseChar pair.1 ∧ (pair.2 = 'Σ' ↔ pair.1 = 'Σ') ∧
      isCased pair.2 = isCased pair.1 ∧ isCaseIgnorable pair.2 = isCaseIgnorable pair.1 := by
    decide +kernel
  obtain ⟨hletter, hletter', hsize, hfolded, hlowered, hsigma, hcased, hignorable⟩ := hcapitals _ h
  exact ⟨hletter, hletter', hsize, hfolded, hlowered, hsigma, hcased, hignorable⟩

theorem isChangeOfCase_smallLetter : IsChangeOfCase smallLetter := by
  intro c
  unfold smallLetter
  cases h : capitals.lookup c with
  | none => exact Or.inl rfl
  | some d =>
    obtain ⟨before, after, hsplit, _⟩ := List.lookup_eq_some_iff.mp h
    exact Or.inr (sameButForCase_of_mem (by simp [hsplit]))

/-! ## Characters and texts -/

namespace IsChangeOfCase

variable {f : Char → Char} (hf : IsChangeOfCase f)

include hf

/-- What letters that differ in case have in common is kept. -/
theorem keeps {α : Type} {p : Char → α} (hp : ∀ c d, SameButForCase c d → p d = p c) (c : Char) :
    p (f c) = p c := by
  rcases hf c with hstays | hcase
  · rw [hstays]
  · exact hp c _ hcase

theorem size_eq (c : Char) : (f c).utf8Size = c.utf8Size := hf.keeps (fun _ _ h => h.size) c

theorem class_eq (c : Char) : classify (f c) = classify c :=
  hf.keeps (fun _ _ h => h.letter'.trans h.letter.symm) c

theorem fold_eq (c : Char) : foldChar (f c) = foldChar c := hf.keeps (fun _ _ h => h.folded) c

/-- A test that comes out alike for all letters comes out as before. -/
theorem test_eq {α : Type} {p : Char → α} {v : α} (hp : ∀ c, classify c = .letter → p c = v)
    (c : Char) : p (f c) = p c :=
  hf.keeps (fun c d h => (hp d h.letter').trans (hp c h.letter).symm) c

theorem isBlank_eq (c : Char) : isBlank (f c) = isBlank c :=
  hf.test_eq (fun c hc => isBlank_eq_false (by rw [hc]; decide)) c

theorem isFigureSign_eq (c : Char) : isFigureSign (f c) = isFigureSign c :=
  hf.test_eq (fun _ => letter_not_isFigureSign) c

theorem isDigit_eq (c : Char) : (f c).isDigit = c.isDigit := by
  refine hf.test_eq (v := false) (fun c hc => ?_) c
  rw [Bool.eq_false_iff]
  intro hdigit
  rw [classify_of_isDigit hdigit] at hc
  exact absurd hc (by decide)

/-- A character that is no letter comes from itself only. -/
theorem eq_iff {d : Char} (hd : classify d ≠ .letter) (c : Char) : f c = d ↔ c = d := by
  have htest := hf.test_eq (p := fun c => decide (c = d)) (v := false)
    (fun c hc => decide_eq_false fun heq => hd (heq ▸ hc)) c
  rw [← decide_eq_true_iff (p := f c = d), htest, decide_eq_true_iff]

theorem point_iff (c : Char) : f c = '.' ↔ c = '.' := hf.eq_iff (by decide) c

theorem comma_iff (c : Char) : f c = ',' ↔ c = ',' := hf.eq_iff (by decide) c

/-- Figures and separators stay. -/
theorem map_signs {text : Text} (h : ∀ c ∈ text, isFigureSign c = true) : text.map f = text := by
  refine (List.map_congr_left fun c hc => ?_).trans (List.map_id text)
  have hsign := h c hc
  refine (hf c).resolve_right fun hcase => ?_
  rw [letter_not_isFigureSign hcase.letter] at hsign
  exact Bool.false_ne_true hsign

theorem byteLength_map (text : Text) : byteLength (text.map f) = byteLength text := by
  induction text with
  | nil => rfl
  | cons c text ih => rw [List.map_cons, byteLength, byteLength, ih, hf.size_eq]

theorem isBoundary_map (before after : Option Char) :
    isBoundary (before.map f) (after.map f) = isBoundary before after := by
  cases before with
  | none => simp
  | some a =>
    cases after with
    | none => simp
    | some b => simp only [Option.map_some, isBoundary, separates, hf.class_eq]

theorem leadsToCased_map (text : Text) : leadsToCased (text.map f) = leadsToCased text := by
  have hdrop : (text.map f).dropWhile isCaseIgnorable =
      (text.dropWhile isCaseIgnorable).map f := by
    rw [List.dropWhile_map]
    congr 2
    exact funext (hf.keeps fun _ _ h => h.ignorable)
  unfold leadsToCased
  rw [hdrop]
  cases text.dropWhile isCaseIgnorable with
  | nil => rfl
  | cons c rest => exact hf.keeps (fun _ _ h => h.cased) c

theorem lowercaseAfter_map (behind text : Text) :
    lowercaseAfter (behind.map f) (text.map f) = lowercaseAfter behind text := by
  induction text generalizing behind with
  | nil => rfl
  | cons c text ih =>
    have hrest := ih (c :: behind)
    rw [List.map_cons] at hrest
    have hsigma : (f c = 'Σ') = (c = 'Σ') := hf.keeps (fun _ _ h => propext h.sigma) c
    have hlowered : lowercaseChar (f c) = lowercaseChar c := hf.keeps (fun _ _ h => h.lowered) c
    simp only [List.map_cons, lowercaseAfter, hsigma, hlowered, hf.leadsToCased_map, hrest]

/-- The form in small is the same. -/
theorem lowercase_map (text : Text) : lowercase (text.map f) = lowercase text :=
  hf.lowercaseAfter_map [] text

end IsChangeOfCase

/-! ## Figures -/

section Figures

variable {f : Char → Char} (hf : IsChangeOfCase f)

include hf

theorem noFigureFollows_map (rest : Text) : noFigureFollows (rest.map f) = noFigureFollows rest := by
  cases rest with
  | nil => rfl
  | cons c rest => simp only [List.map_cons, noFigureFollows, hf.isDigit_eq]

theorem noNumberFollows_map (rest : Text) : noNumberFollows (rest.map f) = noNumberFollows rest := by
  match rest with
  | [] => rfl
  | [c] => simp only [List.map_cons, List.map_nil, noNumberFollows, hf.isDigit_eq]
  | c :: d :: rest =>
    simp only [List.map_cons, noNumberFollows, hf.isDigit_eq, hf.point_iff, hf.comma_iff]

theorem beginsWithGroup_map (rest : Text) :
    beginsWithGroup (rest.map f) = beginsWithGroup rest := by
  rcases rest with _ | ⟨d, _ | ⟨a, _ | ⟨b, _ | ⟨c, rest⟩⟩⟩⟩
  · rfl
  · simp [beginsWithGroup]
  · simp [beginsWithGroup]
  · simp [beginsWithGroup]
  · by_cases hd : d = '.'
    · subst hd
      simp only [List.map_cons, (hf.point_iff '.').mpr rfl, beginsWithGroup, hf.isDigit_eq]
    · have hfd : f d ≠ '.' := fun h => hd ((hf.point_iff d).mp h)
      simp [beginsWithGroup, hd, hfd]

/-- A form reads as before, if it reads figures and separators only and what follows them is told
alike in whatever case. -/
theorem form_map {α : Type} {form : Text → Option α} {written : α → Text} {P : α → Text → Prop}
    (hform : ∀ text read, form text = some read ↔
      ∃ rest, text = written read ++ rest ∧ P read rest)
    (hsigns : ∀ read rest, P read rest → ∀ c ∈ written read, isFigureSign c = true)
    (hrest : ∀ read rest, P read (rest.map f) ↔ P read rest) (text : Text) :
    form (text.map f) = form text := by
  apply Option.ext
  intro read
  rw [hform, hform]
  constructor
  · rintro ⟨rest', htext, hread⟩
    obtain ⟨front, rest, rfl, hfront, rfl⟩ := List.map_eq_append_iff.mp htext
    have hsame : front.map f = front := by
      refine hf.map_signs fun c hc => ?_
      rw [← hf.isFigureSign_eq]
      exact hsigns read _ hread (f c) (hfront ▸ List.mem_map_of_mem hc)
    exact ⟨rest, by rw [← hfront, hsame], (hrest read rest).mp hread⟩
  · rintro ⟨rest, rfl, hread⟩
    refine ⟨rest.map f, ?_, (hrest read rest).mpr hread⟩
    rw [List.map_append, hf.map_signs (hsigns read rest hread)]

theorem integerForm_map (text : Text) : integerForm (text.map f) = integerForm text := by
  have hform : ∀ text figures, integerForm text = some figures ↔
      ∃ rest, text = figures ++ rest ∧ IsInteger figures ∧
        (noFigureFollows rest = true ∨ figures.length = maxIntegerFigures) := by
    intro text figures
    rw [integerForm_eq_some_iff, ← exists_and_left]
    refine exists_congr fun rest => ?_
    rw [IsInteger]
    tauto
  refine form_map hf hform (fun _ _ h => h.1.2.1.signs) (fun _ rest => ?_) text
  rw [noFigureFollows_map hf]

theorem decimalForm_map (text : Text) : decimalForm (text.map f) = decimalForm text := by
  refine form_map hf (fun _ _ => decimalForm_eq_some_iff) (fun _ _ h => h.1.signs)
    (fun _ rest => ?_) text
  rw [noFigureFollows_map hf]

theorem pointDecimalForm_map (text : Text) :
    pointDecimalForm (text.map f) = pointDecimalForm text := by
  have hform : ∀ text (read : Text × Text), pointDecimalForm text = some read ↔
      ∃ rest, text = read.1 ++ '.' :: read.2 ++ rest ∧ AllFigures read.1 ∧ read.2 ≠ [] ∧
        AllFigures read.2 ∧ noFigureFollows rest = true :=
    fun _ _ => pointDecimalForm_eq_some_iff
  refine form_map hf hform (fun read _ h => ?_) (fun _ rest => ?_) text
  · exact IsPointDecimal.signs ⟨read.1, read.2, rfl, h.1, h.2.1, h.2.2.1⟩
  · rw [noFigureFollows_map hf]

theorem groupedDecimalForm_map (text : Text) :
    groupedDecimalForm (text.map f) = groupedDecimalForm text := by
  refine form_map hf (fun _ _ => groupedDecimalForm_eq_some_iff) (fun _ _ h => h.1.signs)
    (fun _ rest => ?_) text
  rw [noFigureFollows_map hf]

theorem groupedIntegerForm_map (text : Text) :
    groupedIntegerForm (text.map f) = groupedIntegerForm text := by
  have hform : ∀ text figures, groupedIntegerForm text = some figures ↔
      ∃ rest, text = figures ++ rest ∧ ∃ n, IsGroupedInteger n figures ∧
        (beginsWithGroup rest = false ∨ n = 5) := by
    intro text figures
    simp only [groupedIntegerForm_eq_some_iff, exists_and_left]
  refine form_map hf hform (fun _ _ ⟨_, h, _⟩ => h.signs) (fun _ rest => ?_) text
  rw [beginsWithGroup_map hf]

end Figures

/-! ## Words and suffixes -/

section Words

variable {f : Char → Char} (hf : IsChangeOfCase f)

include hf

theorem sameFold_map (letter c : Char) : sameFold letter (f c) = sameFold letter c := by
  rw [sameFold, hf.fold_eq, sameFold]

theorem beginsWith_map (key text : Text) :
    beginsWith sameFold key (text.map f) = beginsWith sameFold key text := by
  induction key generalizing text with
  | nil => simp [beginsWith]
  | cons k key ih =>
    cases text with
    | nil => rfl
    | cons c text => simp only [List.map_cons, beginsWith, sameFold_map hf, ih]

theorem noWordFollows_map (rest : Text) : noWordFollows (rest.map f) = noWordFollows rest := by
  cases rest with
  | nil => rfl
  | cons c rest =>
    have hletter : ∀ c, classify c = .letter → isAlphabetic c = true := fun _ => isAlphabetic_of_classify
    exact hf.test_eq (p := fun c => !(isAlphabetic c || isNumeric c || c = '_')) (v := false)
      (fun c hc => by simp [hletter c hc]) c

theorem lookup_map (table : WordTable) (spelling : Text) :
    table.lookup (spelling.map f) = table.lookup spelling := by
  simp only [WordTable.lookup, hf.lowercase_map]

theorem suffixScale_map (suffix : Text) : suffixScale (suffix.map f) = suffixScale suffix := by
  simp only [suffixScale, hf.lowercase_map]

end Words

/-! ## Patterns -/

/-- The same groups with the case changed. -/
def recaseGroups (f : Char → Char) (groups : List (Option Text)) : List (Option Text) :=
  groups.map (Option.map (List.map f))

/-- The pattern reads as far whatever the case, and puts the same condition on what follows. -/
structure Pattern.IgnoresCase (f : Char → Char) (pattern : Pattern) : Prop where
  extent : ∀ text, pattern.extent (text.map f) =
    (pattern.extent text).map fun extent => ⟨extent.length, recaseGroups f extent.groups⟩
  admits : ∀ rest, pattern.admits (rest.map f) = pattern.admits rest

section Patterns

variable {f : Char → Char} (hf : IsChangeOfCase f)

theorem ignoresCase_ofForm {source : String} {form : Text → Option Text} {follow : Text → Bool}
    (hform : ∀ text, form (text.map f) = form text)
    (hfollow : ∀ rest, follow (rest.map f) = follow rest) :
    ((Pattern.ofForm source form).followedBy follow).IgnoresCase f where
  extent text := by
    simp only [Pattern.followedBy, Pattern.ofForm, hform, Option.map_map]
    rfl
  admits := hfollow

include hf

theorem ignoresCase_pointDecimal :
    (Pattern.pointDecimal.followedBy noNumberFollows).IgnoresCase f where
  extent text := by
    simp only [Pattern.followedBy, Pattern.pointDecimal, pointDecimalForm_map hf, Option.map_map]
    refine Option.map_congr ?_
    rintro ⟨whole, fraction⟩ hform
    obtain ⟨_, _, hwhole, _, hfraction, _⟩ := pointDecimalForm_eq_some_iff.mp hform
    simp only [Function.comp_apply, recaseGroups, List.map_cons, List.map_nil, Option.map_some,
      hf.map_signs hwhole.signs, hf.map_signs hfraction.signs]
  admits := noNumberFollows_map hf

theorem ignoresCase_figures {pattern : Pattern}
    (hpattern : pattern ∈ plainPatterns ∨ pattern ∈ pointedPatterns) : pattern.IgnoresCase f := by
  simp only [plainPatterns, pointedPatterns, List.mem_cons, List.not_mem_nil, or_false] at hpattern
  rcases hpattern with (rfl | rfl | rfl) | rfl | rfl
  · exact ignoresCase_ofForm (integerForm_map hf) (noFigureFollows_map hf)
  · exact ignoresCase_ofForm (groupedDecimalForm_map hf) (noFigureFollows_map hf)
  · exact ignoresCase_ofForm (decimalForm_map hf) (noFigureFollows_map hf)
  · exact ignoresCase_ofForm (groupedIntegerForm_map hf) (noNumberFollows_map hf)
  · exact ignoresCase_pointDecimal hf

theorem ignoresCase_spoken {pattern : Pattern} (hpattern : pattern.IsSpoken) :
    pattern.IgnoresCase f := by
  obtain ⟨keys, _, hextent, hfollow⟩ := hpattern
  refine ⟨fun text => ?_, fun rest => by rw [Pattern.admits, Pattern.admits, hfollow]⟩
  simp only [hextent, Pattern.caseless, beginsWith_map hf, Option.map_map]
  rfl

theorem ignoresCase_suffix : suffixPattern.IgnoresCase f where
  extent text := by
    cases text with
    | nil => rfl
    | cons c text =>
      simp only [List.map_cons, suffixPattern, Pattern.followedBy, Pattern.caselessLetter,
        sameFold_map hf]
      split <;> rfl
  admits := noWordFollows_map hf

theorem ignoresCase_spanishRules {pattern : Pattern} (h : pattern ∈ patternsOf spanishRules) :
    pattern.IgnoresCase f := by
  rcases patternsOf_spanishRules h with hplain | hpointed | hspoken | rfl
  · exact ignoresCase_figures hf (Or.inl hplain)
  · exact ignoresCase_figures hf (Or.inr hpointed)
  · exact ignoresCase_spoken hf hspoken
  · exact ignoresCase_suffix hf

end Patterns

/-! ## Productions -/

/-- The same piece of text with the case changed. -/
def Capture.recase (f : Char → Char) (capture : Capture) : Capture :=
  ⟨capture.text.map f, recaseGroups f capture.groups⟩

/-- The same node with the case of its text changed. -/
def Node.recase (f : Char → Char) : Node → Node
  | .number token => .number token
  | .capture read => .capture (read.recase f)

/-- The rule makes the same token of what it reads, whatever the case. -/
def Rule.IgnoresCase (f : Char → Char) (rule : Rule) : Prop :=
  ∀ text found, ∀ reading ∈ readRule text found rule,
    rule.apply (reading.window.map (Node.recase f)) = rule.apply reading.window

section Productions

variable {f : Char → Char} (hf : IsChangeOfCase f) {rule : Rule} {window : Window}

theorem takenBy_map {elements : List Element} :
    Window.TakenBy (window.map (Node.recase f)) elements ↔ window.TakenBy elements := by
  have haccepts : ∀ (element : Element) (node : Node),
      element.accepts (node.recase f) = element.accepts node := by
    intro element node
    cases element <;> cases node <;> rfl
  simp only [Window.TakenBy, List.forall₂_map_right_iff, haccepts]

theorem apply_map (h : window.TakenBy rule.elements →
    rule.produce (window.map (Node.recase f)) = rule.produce window) :
    rule.apply (window.map (Node.recase f)) = rule.apply window := by
  apply Option.ext
  intro token
  rw [apply_eq_some_iff, apply_eq_some_iff, takenBy_map]
  exact and_congr_right fun htaken => by rw [h htaken]

include hf

theorem produce_word_map (table : WordTable) :
    table.produce (window.map (Node.recase f)) = table.produce window := by
  cases window with
  | nil => rfl
  | cons node window =>
    cases node with
    | number token => rfl
    | capture capture =>
      show ((table.lookup (capture.text.map f)).toOption.bind fun n =>
        Token.plain? (Value.ofNat? n)) = _
      rw [lookup_map hf]
      rfl

theorem suffixed_map (token : Token) (suffix : Capture) :
    Compound.suffixed [.number token, .capture (suffix.recase f)] =
      Compound.suffixed [.number token, .capture suffix] := by
  have hletter : ((suffix.recase f).group 1).getD (suffix.recase f).text =
      ((suffix.group 1).getD suffix.text).map f := by
    obtain ⟨text, groups⟩ := suffix
    simp only [Capture.recase, recaseGroups, Capture.group, List.getElem?_map]
    rcases groups[0]? with _ | _ | group <;> rfl
  simp only [Compound.suffixed, hletter, suffixScale_map hf]

theorem hundredsAnd_map (word : Capture) (token : Token) :
    Compound.hundredsAnd [.capture (word.recase f), .number token] =
      Compound.hundredsAnd [.capture word, .number token] := by
  simp only [Compound.hundredsAnd, Capture.recase, lookup_map hf]

/-- The productions for words and compounds look at no more of a text than its form in small. -/
theorem produce_map (hrule : rule ∈ wordRules ++ compoundRules)
    (htaken : window.TakenBy rule.elements) :
    rule.produce (window.map (Node.recase f)) = rule.produce window := by
  rcases List.mem_append.mp hrule with hword | hcompound
  · simp only [wordRules, List.mem_cons, List.not_mem_nil, or_false] at hword
    rcases hword with rfl | rfl | rfl | rfl <;> exact produce_word_map hf _
  simp only [compoundRules, List.mem_cons, List.not_mem_nil, or_false] at hcompound
  rcases hcompound with rfl | rfl | rfl | rfl | rfl | rfl | rfl | rfl | rfl | rfl <;>
    simp only [wordElement, Window.takenBy_text, Window.takenBy_number, Window.takenBy_nil]
      at htaken
  · obtain ⟨_, _, _, ⟨_, _, ⟨_, _, _, rfl, rfl⟩, rfl⟩, rfl⟩ := htaken
    rfl
  · obtain ⟨_, _, _, ⟨_, _, ⟨_, _, _, rfl, rfl⟩, rfl⟩, rfl⟩ := htaken
    rfl
  · obtain ⟨_, _, _, ⟨_, _, _, ⟨_, _, _, rfl, rfl⟩, rfl⟩, rfl⟩ := htaken
    rfl
  · obtain ⟨_, _, ⟨_, _, _, rfl, rfl⟩, rfl⟩ := htaken
    rfl
  · obtain ⟨_, _, _, ⟨_, _, ⟨_, _, _, rfl, rfl⟩, rfl⟩, rfl⟩ := htaken
    rfl
  · obtain ⟨token, _, _, ⟨suffix, _, rfl, rfl⟩, rfl⟩ := htaken
    exact suffixed_map hf token suffix
  · obtain ⟨word, _, ⟨token, _, _, rfl, rfl⟩, rfl⟩ := htaken
    exact hundredsAnd_map hf word token
  · obtain ⟨_, _, _, ⟨_, _, rfl, rfl⟩, rfl⟩ := htaken
    rfl
  · obtain ⟨_, _, _, ⟨_, _, ⟨_, _, _, rfl, rfl⟩, rfl⟩, rfl⟩ := htaken
    rfl
  · obtain ⟨_, _, ⟨_, _, _, rfl, rfl⟩, rfl⟩ := htaken
    rfl

/-- What is read with figures stays as it is. -/
theorem recase_of_figures {pattern : Pattern} {capture : Capture} {rest : Text}
    (hpattern : pattern ∈ plainPatterns ∨ pattern ∈ pointedPatterns)
    (hreads : pattern.Reads capture rest) : capture.recase f = capture := by
  have htext : capture.text.map f = capture.text := by
    rcases hpattern with hplain | hpointed
    · exact hf.map_signs (plain_signs (plain_of_reads hplain hreads).1)
    · exact hf.map_signs (pointed_signs (pointed_of_reads hpointed hreads).1)
  have hgroups : recaseGroups f capture.groups = capture.groups := by
    simp only [plainPatterns, pointedPatterns, List.mem_cons, List.not_mem_nil, or_false] at hpattern
    rcases hpattern with (rfl | rfl | rfl) | rfl | rfl
    · rw [(reads_integer_iff.mp hreads).1]
      rfl
    · rw [(reads_groupedDecimal_iff.mp hreads).1]
      rfl
    · rw [(reads_decimal_iff.mp hreads).1]
      rfl
    · rw [(reads_groupedInteger_iff.mp hreads).1]
      rfl
    · obtain ⟨⟨whole, fraction, rfl, hwhole, _, hfraction⟩, _⟩ := reads_pointDecimal_iff.mp hreads
      simp only [recaseGroups, List.map_cons, List.map_nil, Option.map_some,
        hf.map_signs hwhole.signs, hf.map_signs hfraction.signs]
  rw [Capture.recase, htext, hgroups]

theorem rule_ignoresCase (hrule : rule ∈ spanishRules) : rule.IgnoresCase f := by
  intro text found reading hreading
  rw [spanishRules, List.append_assoc, List.mem_append] at hrule
  rcases hrule with hfigures | hothers
  · obtain ⟨pattern, helements, hpattern, _⟩ := elements_of_figureRules hfigures
    rw [readRule_single helements] at hreading
    obtain ⟨capture, hwindow, _, hread⟩ := (mem_readRule_single helements).mp hreading
    obtain ⟨_, hread, _⟩ := Pattern.readBounded?_eq_some.mp hread
    have hreads := (Pattern.read?_eq_some_iff.mp hread).2
    rw [hwindow, List.map_singleton, Node.recase, recase_of_figures hf hpattern hreads]
  · exact apply_map (produce_map hf hothers)

end Productions

end SpanishNumerals
