-- "punto" between two rows of figures. No pattern but its own reads the word, and no rule but the
-- one of the decimals reads figures on both sides of it. The figures behind it write a number
-- below the power of ten of their length and not below the power before, so that they are divided
-- by the power of ten of their length.
import SpanishNumerals.Proofs.DecimalParts
import SpanishNumerals.Proofs.FigureWords

namespace SpanishNumerals

/-! ## The word in whatever case -/

/-- The word between a number and its decimals. -/
def pointWord : Text := "punto".toList

theorem lowercase_pointWord : lowercase pointWord = pointWord := by decide

section Case

variable {word : Text} (hword : lowercase word = pointWord)

include hword

theorem letters_of_pointWord :
    word.map foldChar = pointWord ∧ ∀ c ∈ word, classify c = .letter := by
  have hletters : ∀ c ∈ pointWord, c ∈ spellingLetters := by decide
  rw [← hword] at hletters ⊢
  exact letters_of_lowercase hletters

theorem joined_of_pointWord : ∀ c ∈ word, ∀ d ∈ word, separates c d = false := by
  intro c hc d hd
  have hletters := (letters_of_pointWord hword).2
  simp [separates, hletters c hc, hletters d hd]

theorem length_of_pointWord : word.length = 5 := by
  rw [← List.length_map foldChar, (letters_of_pointWord hword).1]
  rfl

end Case

section Patterns

variable {pattern : Pattern}

/-- A pattern that reads a word of letters looks for words. -/
theorem isSpoken_of_reads (hpattern : pattern ∈ patternsOf spanishRules) {capture : Capture}
    {rest : Text} (h : pattern.Reads capture rest)
    (hletters : ∀ c ∈ capture.text, classify c = .letter) (hlong : 1 < capture.text.length) :
    pattern.IsSpoken := by
  obtain ⟨c, hc⟩ := List.exists_mem_of_ne_nil _ h.1
  have hsign := letter_not_isFigureSign (hletters c hc)
  rcases patternsOf_spanishRules hpattern with hplain | hpointed | hspoken | rfl
  · have hfigures := plain_signs (plain_of_reads hplain h).1 c hc
    exact absurd (hsign.symm.trans hfigures) Bool.false_ne_true
  · have hfigures := pointed_signs (pointed_of_reads hpointed h).1 c hc
    exact absurd (hsign.symm.trans hfigures) Bool.false_ne_true
  · exact hspoken
  · obtain ⟨⟨d, hd, _⟩, _⟩ := reads_suffix_iff.mp h
    simp [hd] at hlong

/-- A pattern that looks for words reads a text of letters whatever their case. -/
theorem reads_of_same_fold (hspoken : pattern.IsSpoken) {capture : Capture} {text rest rest' : Text}
    (hfold : capture.text.map foldChar = text.map foldChar)
    (hrest : ∀ c, rest.head? = some c → isBlank c = true)
    (hrest' : ∀ c, rest'.head? = some c → isBlank c = true)
    (h : pattern.Reads capture rest) : capture.groups = [] ∧ pattern.Reads ⟨text, []⟩ rest' := by
  obtain ⟨keys, hkeys, hextent, hfollow⟩ := hspoken
  obtain ⟨hne, hgroups, key, hfind, hlength⟩ := (reads_caseless_iff hextent hfollow).mp h
  have hsame : text.length = capture.text.length := by
    rw [← List.length_map foldChar, ← hfold, List.length_map]
  refine ⟨hgroups, (reads_caseless_iff hextent hfollow).mpr
    ⟨?_, rfl, key, ?_, hlength.trans hsame.symm⟩⟩
  · exact List.ne_nil_of_length_pos (hsame ▸ List.length_pos_of_ne_nil hne)
  · rw [← hfind]
    apply List.find?_congr
    intro other hother
    have hletters : ∀ k ∈ other, k ∈ '-' :: spellingLetters := by
      rcases (spoken_letters other (hkeys hother)).2.2 with rfl | hletters
      · simp
      · exact fun k hk => List.mem_cons_of_mem _ (hletters k hk)
    rw [beginsWith_of_spelled hletters hfold hrest, beginsWith_of_spelled hletters rfl hrest']

section Word

variable (hpattern : pattern ∈ patternsOf spanishRules)

include hpattern

theorem reads_pointWord {capture : Capture} {text rest rest' : Text}
    (hcapture : lowercase capture.text = pointWord) (htext : lowercase text = pointWord)
    (hrest : ∀ c, rest.head? = some c → isBlank c = true)
    (hrest' : ∀ c, rest'.head? = some c → isBlank c = true)
    (h : pattern.Reads capture rest) : capture.groups = [] ∧ pattern.Reads ⟨text, []⟩ rest' := by
  obtain ⟨hfold, hletters⟩ := letters_of_pointWord hcapture
  have hlong : 1 < capture.text.length := by
    rw [length_of_pointWord hcapture]
    decide
  have hspoken := isSpoken_of_reads hpattern h hletters hlong
  exact reads_of_same_fold hspoken (hfold.trans (letters_of_pointWord htext).1.symm) hrest hrest' h

/-- The patterns read the word as a whole, or do not read it. -/
theorem readsWords_pointWord : pattern.ReadsWords [pointWord] := by
  intro word rest hmem hrest
  have hword := List.mem_singleton.mp hmem
  have hread := @readBounded?_word pattern hpattern word rest (joined_of_pointWord hword) hrest
  have htakes := takes_iff_reads hpattern (joined_of_pointWord lowercase_pointWord)
  rw [hword]
  split
  · rename_i h
    exact hread.mpr ⟨rfl, rfl, (reads_pointWord hpattern lowercase_pointWord hword
      (by simp) hrest (htakes.mp h)).2⟩
  · rename_i h
    cases hbounded : pattern.readBounded? (Cursor.start (word ++ rest)) with
    | none => rfl
    | some result =>
      obtain ⟨htext, _, hreads⟩ := hread.mp hbounded
      exact absurd (htakes.mpr (reads_pointWord hpattern (htext ▸ hword) lowercase_pointWord hrest
        (by simp) hreads).2) h

end Word

end Patterns

/-! ## The decimals -/

section Decimals

variable {c : Char} {row : Text} (hall : AllFigures (c :: row)) (hne : c ≠ '0')
  (hlength : (c :: row).length ≤ 9)

include hall hne hlength

/-- Figures that do not begin with a zero are divided by the power of ten of their length. -/
theorem asDecimals_figures :
    (Value.ofNat (figuresValue (c :: row))).asDecimals =
      (Value.ofNat (figuresValue (c :: row))).divNat (tenPow (c :: row).length) (tenPow_pos _) := by
  have hlt := figuresValue_lt hall
  have hge := @tenPow_le_figuresValue c row (hall c List.mem_cons_self) hne
  have hpow : tenPow (c :: row).length ≤ twoPow 53 :=
    Nat.le_trans (tenPow_le hlength) (by decide)
  have hsigned := Value.signed_ofNat (Nat.le_of_lt (Nat.lt_of_lt_of_le hlt hpow))
  apply Value.asDecimals_eq_divNat
  · exact Nat.lt_succ_of_le hlength
  · rw [hsigned]
    exact_mod_cast Nat.mul_lt_mul_of_pos_right hlt quantaPerUnit_pos
  · intro j hj
    have hle : tenPow j ≤ figuresValue (c :: row) :=
      Nat.le_trans (tenPow_le (Nat.le_of_lt_succ hj)) hge
    rw [hsigned]
    exact_mod_cast Nat.mul_le_mul_right quantaPerUnit hle

/-- The quotient is the value nearest to what the figures write behind the point. -/
theorem isWrittenBy_asDecimals :
    (Value.ofNat (figuresValue (c :: row))).asDecimals.IsWrittenBy [] (c :: row) := by
  have hlt := figuresValue_lt hall
  have hpow : tenPow (c :: row).length ≤ twoPow 53 :=
    Nat.le_trans (tenPow_le hlength) (by decide)
  rw [asDecimals_figures hall hne hlength]
  refine ⟨rfl, ?_⟩
  rw [List.nil_append, ← Value.quanta_ofNat (Nat.le_of_lt (Nat.lt_of_lt_of_le hlt hpow))]
  exact isNearest_nearest _ (tenPow_pos _)

end Decimals

/-! ## Three words -/

/-- A row as long as the words it stands in is all of them. -/
theorem eq_of_prefix {words before taken : List Word} (h : before ++ taken <+: words)
    (hle : words.length ≤ taken.length) : before = [] ∧ taken = words := by
  have hlength := h.length_le
  rw [List.length_append] at hlength
  obtain rfl : before = [] := List.eq_nil_of_length_eq_zero (by omega)
  exact ⟨rfl, h.eq_of_length_le hle⟩

/-- Figures for a whole number, "punto" in whatever case, and one to nine figures for decimals that
do not begin with a zero, with blanks between them. -/
structure PointedWords (whole point fraction : Word) : Prop where
  spaced : Spaced [whole, point, fraction]
  whole_figures : IsInteger whole.text
  point_key : point.key = pointWord
  fraction_figures : AllFigures fraction.text
  fraction_length : fraction.text.length ≤ 9
  fraction_begins : ∃ c row, fraction.text = c :: row ∧ c ≠ '0'

/-- What the words of the three are read as: one of the two numbers, or the sum of the first and
the second as decimals. -/
inductive PointRead (whole point fraction : Word) : List Word → Token → Prop
  | number {word : Word} {value : Value} : word = whole ∨ word = fraction →
      value.IsWrittenBy word.text [] → PointRead whole point fraction [word] ⟨value, none⟩
  | joined {value sum : Value} : value.IsWrittenBy whole.text [] →
      value.add? (Value.ofNat (figuresValue fraction.text)).asDecimals = some sum →
      PointRead whole point fraction [whole, point, fraction] ⟨sum, none⟩

namespace PointedWords

variable {whole point fraction : Word} (h : PointedWords whole point fraction)

include h

theorem fraction_integer : IsInteger fraction.text := by
  obtain ⟨c, row, hrow, _⟩ := h.fraction_begins
  exact ⟨by simp [hrow], h.fraction_figures, Nat.le_trans h.fraction_length (by decide)⟩

theorem fraction_le : figuresValue fraction.text ≤ twoPow 53 :=
  Nat.le_trans (Nat.le_of_lt (figuresValue_lt h.fraction_figures))
    (Nat.le_trans (tenPow_le h.fraction_length) (by decide))

theorem integer_of_ne {word : Word} (hword : word = whole ∨ word = fraction) :
    IsInteger word.text := by
  rcases hword with rfl | rfl
  · exact h.whole_figures
  · exact h.fraction_integer

theorem key_eq {word : Word} (hword : word = whole ∨ word = fraction) : word.key = word.text :=
  lowercaseAfter_figures (h.integer_of_ne hword).2.1 []

theorem point_ne {word : Word} (hword : word = whole ∨ word = fraction) : point ≠ word := by
  rintro rfl
  have hfigure := (h.integer_of_ne hword).2.1 'p' (by rw [← h.key_eq hword, h.point_key]; decide)
  exact absurd hfigure (by decide)

theorem legible : Legible [pointWord, whole.text, fraction.text] [whole, point, fraction] := by
  have hwhole := h.whole_figures
  have hfraction := h.fraction_integer
  have hpoint : point.text ≠ [] := by
    rw [← List.length_pos_iff, length_of_pointWord h.point_key]
    decide
  constructor
  · refine ⟨h.spaced, ?_, ?_⟩
    · simp [hwhole.1, hpoint, hfraction.1]
    · simp only [List.forall_mem_cons, List.not_mem_nil, false_implies, implies_true, and_true]
      exact ⟨joined_of_figures hwhole.2.1, joined_of_pointWord h.point_key,
        joined_of_figures hfraction.2.1⟩
  · simp [h.key_eq (Or.inl rfl), h.point_key, h.key_eq (Or.inr rfl)]

theorem readsWords : ∀ rule ∈ spanishRules,
    rule.ReadsWords [pointWord, whole.text, fraction.text] := by
  intro rule hrule pattern hmem
  have hpattern : pattern ∈ patternsOf spanishRules := mem_patternsOf.mpr ⟨rule, hrule, hmem⟩
  have hfigures : pattern.ReadsWords [whole.text, fraction.text] :=
    readsWords_of_figures (by simp [h.whole_figures, h.fraction_integer]) hpattern
  exact (readsWords_pointWord hpattern).append hfigures

end PointedWords

/-! ## What the rules read of them -/

/-- The rules that read figures or "punto", and nothing else. -/
def figureOrPointRules : Registry := [FigureForm.integer.rule, hundredsRule, pointRule]

theorem pointRule_mem : pointRule ∈ spanishRules :=
  mem_spanishRules_iff.mpr (Or.inr (Or.inr (Or.inl rfl)))

/-- Each of the other rules has a pattern that takes neither a figure nor "punto". -/
theorem other_pattern_of_name : ∀ rule ∈ spanishRules,
    rule.name ∈ figureOrPointRules.map Rule.name ∨
      ∃ pattern ∈ rule.elements.filterMap Element.pattern?,
        pattern.takes ['0'] = false ∧ pattern.takes pointWord = false := by
  decide +kernel

section Step

variable {whole point fraction : Word}

/-- Two words at most are one number. -/
theorem PointRead.number_of_length {taken : List Word} {token : Token}
    (h : PointRead whole point fraction taken token) (hlength : taken.length < 3) :
    ∃ word value, taken = [word] ∧ (word = whole ∨ word = fraction) ∧
      value.IsWrittenBy word.text [] ∧ token = ⟨value, none⟩ := by
  cases h with
  | number hword hvalue => exact ⟨_, _, rfl, hword, hvalue, rfl⟩
  | joined => simp at hlength

theorem PointRead.length_pos {taken : List Word} {token : Token}
    (h : PointRead whole point fraction taken token) : 0 < taken.length := by
  cases h <;> simp

variable (h : PointedWords whole point fraction) {rule : Rule} (hrule : rule ∈ spanishRules)
  {before taken : List Word} {window : Window}
  (hsplits : before ++ taken <+: [whole, point, fraction])

include h hrule hsplits

theorem mem_figureOrPointRules_of_takes {known : List Word → List Word → Token → Prop}
    (htakes : Takes known before rule.elements taken window) : rule ∈ figureOrPointRules := by
  rcases other_pattern_of_name rule hrule with hname | ⟨pattern, hmem, hzero, hpoint⟩
  · obtain ⟨other, hother, hname⟩ := List.mem_map.mp hname
    have hspanish : other ∈ spanishRules := by
      simp only [figureOrPointRules, List.mem_cons, List.not_mem_nil, or_false] at hother
      rcases hother with rfl | rfl | rfl
      · exact integerRule_mem
      · exact hundredsRule_mem
      · exact pointRule_mem
    exact rule_eq_of_name hspanish hrule hname ▸ hother
  · have hpattern : pattern ∈ patternsOf spanishRules := List.mem_flatMap.mpr ⟨rule, hrule, hmem⟩
    obtain ⟨element, helement, hsome⟩ := List.mem_filterMap.mp hmem
    cases element with
    | text other =>
      obtain rfl := Option.some.inj hsome
      obtain ⟨word, hword, hread⟩ := htakes.exists_word helement
      have hone := hsplits.subset (List.mem_append_right before hword)
      simp only [List.mem_cons, List.not_mem_nil, or_false] at hone
      rcases hone with hwhole | rfl | hfraction
      · rw [h.key_eq (Or.inl hwhole),
          not_takes_figures hpattern hzero (h.integer_of_ne (Or.inl hwhole))] at hread
        exact absurd hread Bool.false_ne_true
      · rw [h.point_key, hpoint] at hread
        exact absurd hread Bool.false_ne_true
      · rw [h.key_eq (Or.inr hfraction),
          not_takes_figures hpattern hzero (h.integer_of_ne (Or.inr hfraction))] at hread
        exact absurd hread Bool.false_ne_true
    | number condition => simp [Element.pattern?] at hsome

/-- The rules keep it up that the words are read as one of the two numbers or as the sum. -/
theorem pointRead_of_takes {token : Token}
    (htakes : Takes (fun _ => PointRead whole point fraction) before rule.elements taken window)
    (htoken : rule.produce window = some token) : PointRead whole point fraction taken token := by
  have hlength := hsplits.length_le
  simp only [List.length_append, List.length_cons, List.length_nil] at hlength
  have hthree := mem_figureOrPointRules_of_takes h hrule hsplits htakes
  simp only [figureOrPointRules, List.mem_cons, List.not_mem_nil, or_false] at hthree
  rcases hthree with rfl | rfl | rfl
  · obtain ⟨word, rfl, hread, rfl⟩ := exists_word_of_takes htakes
    have hone := hsplits.subset (List.mem_append_right before List.mem_cons_self)
    have hword : word = whole ∨ word = fraction := by
      simp only [List.mem_cons, List.not_mem_nil, or_false] at hone
      rcases hone with hwhole | rfl | hfraction
      · exact Or.inl hwhole
      · rw [h.point_key] at hread
        exact absurd hread (by decide)
      · exact Or.inr hfraction
    obtain ⟨value, hvalue, rfl⟩ := written_of_produce (h.integer_of_ne hword) htoken
    exact .number hword hvalue
  · -- Three numbers would leave no word for "punto".
    rw [elements_hundredsRule] at htakes
    cases htakes with
    | number _ ha _ hrest =>
      cases hrest with
      | number _ hb _ hrest =>
        cases hrest with
        | number _ hc _ hrest =>
          cases hrest
          have hapos := ha.length_pos
          have hbpos := hb.length_pos
          have hcpos := hc.length_pos
          simp only [List.length_append, List.length_nil] at hlength
          obtain ⟨a, _, rfl, _⟩ := ha.number_of_length (by omega)
          obtain ⟨b, _, rfl, hb, _⟩ := hb.number_of_length (by omega)
          obtain ⟨c, _, rfl, _⟩ := hc.number_of_length (by omega)
          obtain ⟨rfl, heq⟩ := eq_of_prefix hsplits (by simp)
          simp only [List.append_nil, List.cons_append, List.nil_append, List.cons.injEq] at heq
          exact absurd heq.2.1.symm (h.point_ne hb)
  · have helements : pointRule.elements =
        [.number .any, wordElement "punto", .number .unscaled] := rfl
    rw [helements] at htakes
    cases htakes with
    | number _ ha _ hrest =>
      cases hrest with
      | text _ hrest =>
        cases hrest with
        | number _ hb _ hrest =>
          cases hrest
          have hapos := ha.length_pos
          have hbpos := hb.length_pos
          simp only [List.length_append, List.length_cons, List.length_nil] at hlength
          obtain ⟨a, value, rfl, _, hvalue, rfl⟩ := ha.number_of_length (by omega)
          obtain ⟨b, part, rfl, _, hpart, rfl⟩ := hb.number_of_length (by omega)
          obtain ⟨rfl, heq⟩ := eq_of_prefix hsplits (by simp)
          simp only [List.append_nil, List.cons_append, List.nil_append, List.cons.injEq,
            and_true] at heq
          obtain ⟨rfl, rfl, rfl⟩ := heq
          have hjoin : Token.plain? (value.add? part.asDecimals) = some token := htoken
          rw [hpart.eq_ofNat h.fraction_le] at hjoin
          obtain ⟨sum, hsum, rfl⟩ := plain?_eq_some hjoin
          exact .joined hvalue hsum

end Step

/-! ## The sum -/

section Sum

variable {whole point fraction : Word} (h : PointedWords whole point fraction)

include h

theorem exists_whole : ∃ value : Value, value.IsWrittenBy whole.text [] :=
  Value.exists_isWrittenBy h.whole_figures.2.1 (fun _ hc => absurd hc List.not_mem_nil)
    (Nat.le_trans h.whole_figures.2.2 (by decide))

omit h in
theorem exists_sum {value : Value} (hvalue : value.IsWrittenBy whole.text []) :
    ∃ sum, value.add? (Value.ofNat (figuresValue fraction.text)).asDecimals = some sum := by
  refine Value.exists_add_of_lt_unit ?_ (Value.asDecimals_lt_one _)
  rw [Value.signed, hvalue.positive, if_neg Bool.false_ne_true]
  exact Int.natCast_nonneg _

/-- The sum is found in the second pass. -/
theorem derivedWithin_sum {value sum : Value} (hvalue : value.IsWrittenBy whole.text [])
    (hsum : value.add? (Value.ofNat (figuresValue fraction.text)).asDecimals = some sum) :
    DerivedWithin spanishRules [whole, point, fraction] 2 [] [whole, point, fraction]
      ⟨sum, none⟩ := by
  have hinteger := h.readsWords _ integerRule_mem
  obtain ⟨part, hpart⟩ := Value.exists_isWrittenBy h.fraction_figures
    (fun _ hc => absurd hc List.not_mem_nil) (Nat.le_trans h.fraction_length (by decide))
  have hfirst := derivedWithin_figures h.legible hinteger h.whole_figures
    (⟨_, rfl⟩ : [] ++ [whole] <+: [whole, point, fraction]) hvalue
  have hlast := derivedWithin_figures h.legible hinteger h.fraction_integer
    (⟨_, rfl⟩ : [whole, point] ++ [fraction] <+: [whole, point, fraction]) hpart
  have hword : (Pattern.caseless ["punto".toList]).takes point.key = true := by
    rw [h.point_key]
    decide
  have htakes : Takes (DerivedWithin spanishRules [whole, point, fraction] 1) []
      pointRule.elements ([whole] ++ [point, fraction])
      [.number ⟨value, none⟩, .capture ⟨point.text, []⟩, .number ⟨part, none⟩] :=
    Takes.number (List.cons_ne_nil _ _) hfirst rfl
      (Takes.text hword (Takes.last (List.cons_ne_nil _ _) hlast rfl))
  refine derivedWithin_of_takes h.legible pointRule_mem (h.readsWords _ pointRule_mem)
    List.prefix_rfl htakes (List.cons_ne_nil _ _) ?_
  show Token.plain? (value.add? part.asDecimals) = _
  rw [hpart.eq_ofNat h.fraction_le, hsum]
  rfl

theorem token_of_pointed {value sum : Value} (hvalue : value.IsWrittenBy whole.text [])
    (hsum : value.add? (Value.ofNat (figuresValue fraction.text)).asDecimals = some sum)
    {token : Token} {k : Nat}
    (hderived : Derived spanishRules (written [whole, point, fraction])
      (0, byteLength (written [whole, point, fraction]), token) k) : token = ⟨sum, none⟩ := by
  obtain ⟨before, taken, hstands, hread⟩ := located_of_derived h.legible h.readsWords
    (fun rule hrule before taken window token hsplits htakes htoken =>
      pointRead_of_takes h hrule hsplits htakes htoken) hderived
  obtain ⟨rfl, rfl⟩ := hstands.whole h.legible.unbroken
  cases hread with
  | joined hvalue' hsum' =>
    rw [hvalue'.unique hvalue, hsum] at hsum'
    rw [Option.some.inj hsum']

end Sum

/-- Figures, "punto" and figures are read as one number, the sum of the first number and of the
second divided by the power of ten of its length. -/
theorem figures_behind_punto_are_read_as_decimals {whole point fraction : Word} {passes : Nat}
    (h : PointedWords whole point fraction) (hpasses : 2 ≤ passes) :
    ∃ value part sum : Value, ∃ e, value.IsWrittenBy whole.text [] ∧
      part = (Value.ofNat (figuresValue fraction.text)).divNat (tenPow fraction.text.length)
        (tenPow_pos _) ∧
      part.IsWrittenBy [] fraction.text ∧ value.add? part = some sum ∧
      analyze spanishRules (written [whole, point, fraction]) passes = [e] ∧ e.start = 0 ∧
      e.stop = byteLength (written [whole, point, fraction]) ∧
      e.text = written [whole, point, fraction] ∧ e.token = ⟨sum, none⟩ := by
  obtain ⟨c, row, hrow, hne⟩ := h.fraction_begins
  have hall := hrow ▸ h.fraction_figures
  have hlength := hrow ▸ h.fraction_length
  obtain ⟨value, hvalue⟩ := exists_whole h
  obtain ⟨sum, hsum⟩ := exists_sum hvalue
  obtain ⟨k, hk, hderived⟩ := derivedWithin_sum h hvalue hsum
  rw [show skipBlankAt _ (byteLength (written [])) = 0 from
    skipBlankAt_begin h.legible.unbroken] at hderived
  obtain ⟨e, hanalyze, hcovers, htext, htoken⟩ := analyze_of_derived (Nat.le_trans hk hpasses)
    hderived fun other k hother => token_of_pointed h hvalue hsum hother
  obtain ⟨hstart, hstop⟩ := Numeral.covers_iff.mp hcovers
  have hdecimals := asDecimals_figures hall hne hlength
  have hwritten := isWrittenBy_asDecimals hall hne hlength
  rw [← hrow] at hdecimals hwritten
  exact ⟨value, _, sum, e, hvalue, hdecimals, hwritten, hsum, hanalyze, hstart, hstop, htext,
    htoken⟩

/-- The first of three words. -/
def three : Word := ⟨[], "3".toList, blank_nothing⟩

/-- The word between them, behind two blanks and with a capital. -/
def punto : Word := ⟨[' ', ' '], "Punto".toList, blank_two_spaces⟩

/-- The last of them, behind a tab. -/
def fourteen : Word := ⟨['\t'], "14".toList, blank_tab⟩

theorem three_point_fourteen_is_read :
    PointedWords three punto fourteen ∧ 2 ≤ defaultPasses ∧
      ∃ value part sum : Value, ∃ e, value.IsWrittenBy "3".toList [] ∧
        part = (Value.ofNat 14).divNat (tenPow 2) (tenPow_pos _) ∧
        part.IsWrittenBy [] "14".toList ∧ value.add? part = some sum ∧
        analyze spanishRules "3  Punto\t14".toList defaultPasses = [e] ∧ e.start = 0 ∧
        e.stop = 11 ∧ e.text = "3  Punto\t14".toList ∧ e.token = ⟨sum, none⟩ := by
  have hwords : PointedWords three punto fourteen :=
    { spaced := by simp [Spaced, three, punto, fourteen]
      whole_figures := by decide
      point_key := by decide
      fraction_figures := by decide
      fraction_length := by decide
      fraction_begins := ⟨'1', ['4'], rfl, by decide⟩ }
  exact ⟨hwords, by decide, figures_behind_punto_are_read_as_decimals hwords (by decide)⟩

end SpanishNumerals
