-- Words of figures. Of all the patterns one alone reads a word of figures, the one for whole
-- numbers, and it reads the whole word. So two rules are left for a text of such words: the one
-- for whole numbers, and the one for hundreds, which asks its numbers for nothing but their
-- values and joins three words when these fit.
import SpanishNumerals.Proofs.Blocks
import SpanishNumerals.Proofs.FirstPass
import SpanishNumerals.Proofs.SpelledNumbers

namespace SpanishNumerals

/-! ## Figures in small letters -/

theorem originsOf_figure : ∀ n ∈ pointsOf figureRanges, originsOf n lowercaseRuns = [n] := by
  decide +kernel

theorem lowercaseChar_figure {c : Char} (h : c.isDigit = true) :
    c ≠ 'Σ' ∧ lowercaseChar c = [c] :=
  forall_inRanges (P := fun c => c ≠ 'Σ' ∧ lowercaseChar c = [c]) (by decide +kernel)
    (inRanges_of_isDigit h)

theorem lowercaseAfter_figures {text : Text} (h : AllFigures text) (behind : Text) :
    lowercaseAfter behind text = text :=
  lowercaseAfter_eq_self (fun c hc => lowercaseChar_figure (h c hc)) behind

/-- Nothing else becomes a figure in small letters. -/
theorem eq_of_lowercaseChar_figure {c d : Char} (hd : d.isDigit = true)
    (h : Char.ofNat (alongRuns c.toNat lowercaseRuns) = d) : c = d := by
  have hne : d.toNat ≠ 0 := by
    obtain ⟨hle, _⟩ := Char.isDigit_iff_toNat.mp hd
    exact Nat.ne_of_gt (Nat.lt_of_lt_of_le (by decide) hle)
  have hn : alongRuns c.toNat lowercaseRuns = d.toNat := toNat_of_ofNat_eq hne h
  have horigin := mem_originsOf c.toNat lowercaseRuns
  rw [hn, originsOf_figure _ (mem_pointsOf (inRanges_of_isDigit hd)), List.mem_singleton]
    at horigin
  rw [← Char.ofNat_toNat c, horigin, Char.ofNat_toNat]

/-- A text that is figures in small letters is these figures. -/
theorem eq_of_lowercaseAfter_figures {behind text : Text}
    (h : AllFigures (lowercaseAfter behind text)) : lowercaseAfter behind text = text := by
  induction text generalizing behind with
  | nil => rfl
  | cons c text ih =>
    unfold lowercaseAfter at h ⊢
    obtain ⟨hchar, htext⟩ := allFigures_append.mp h
    rw [ih htext]
    by_cases hsigma : c = 'Σ'
    · rw [if_pos hsigma] at hchar
      have hfigure := hchar _ List.mem_cons_self
      split at hfigure <;> exact absurd hfigure (by decide)
    · rw [if_neg hsigma] at hchar ⊢
      by_cases hdot : c = '\u0130'
      · have hfigure := hchar 'i' (by simp [lowercaseChar, hdot])
        exact absurd hfigure (by decide)
      · have hone : lowercaseChar c = [Char.ofNat (alongRuns c.toNat lowercaseRuns)] := by
          rw [lowercaseChar, if_neg hdot]
        rw [hone] at hchar ⊢
        rw [← eq_of_lowercaseChar_figure (hchar _ List.mem_cons_self) rfl]
        rfl

/-- Figures cannot be cut through. -/
theorem joined_of_figures {word : Text} (h : AllFigures word) :
    ∀ c ∈ word, ∀ d ∈ word, separates c d = false := by
  intro c hc d hd
  simp [separates, classify_of_isDigit (h c hc), classify_of_isDigit (h d hd)]

/-! ## Patterns on words -/

section Patterns

variable {pattern : Pattern} (hpattern : pattern ∈ patternsOf spanishRules)

include hpattern

/-- What is read of a word that cannot be cut through is the whole word. -/
theorem readBounded?_word {word rest : Text}
    (hjoined : ∀ c ∈ word, ∀ d ∈ word, separates c d = false)
    (hrest : ∀ c, rest.head? = some c → isBlank c = true) {capture : Capture} {last : Cursor} :
    pattern.readBounded? (Cursor.start (word ++ rest)) = some (capture, last) ↔
      capture.text = word ∧ last = ⟨word.reverse, rest⟩ ∧ pattern.Reads capture rest := by
  constructor
  · intro hread
    obtain ⟨_, hread, hcloses⟩ := Pattern.readBounded?_eq_some.mp hread
    obtain ⟨⟨hahead, hbehind⟩, hreads⟩ := Pattern.read?_eq_some_iff.mp hread
    have hspan : capture.text = word ∧ last.ahead = rest := by
      rcases List.append_eq_append_iff.mp hahead with ⟨more, hmore, hrest'⟩ | ⟨tail, htail, hlast⟩
      · -- A reading past the word would go over a blank.
        cases more with
        | nil => exact ⟨by simpa using hmore, by simpa using hrest'.symm⟩
        | cons c more =>
          have hblank := hrest c (by rw [hrest']; rfl)
          rw [not_blank_of_reads hpattern hreads c (by rw [hmore]; simp)] at hblank
          exact absurd hblank (by decide)
      · -- A reading of a part would end inside the word.
        cases tail with
        | nil => exact ⟨by simpa using htail.symm, by simpa using hlast⟩
        | cons d tail =>
          obtain ⟨front, e, hfront⟩ := (List.eq_nil_or_concat' capture.text).resolve_left hreads.1
          have hinside := hjoined e (by rw [htail, hfront]; simp) d (by rw [htail]; simp)
          rw [Cursor.atBoundary, hbehind, hlast, hfront] at hcloses
          simp [Cursor.start, isBoundary, hinside] at hcloses
    obtain ⟨htext, hlast⟩ := hspan
    rw [hlast] at hreads
    refine ⟨htext, Cursor.eq_of_behind_ahead ?_ hlast, hreads⟩
    rw [hbehind, htext]
    exact List.append_nil _
  · rintro ⟨rfl, rfl, hreads⟩
    refine Pattern.readBounded?_eq_some.mpr ⟨isBoundary_none_left _, ?_, atBoundary_after_word hrest⟩
    exact Pattern.read?_eq_some_iff.mpr ⟨⟨rfl, (List.append_nil _).symm⟩, hreads⟩

theorem takes_iff_reads {word : Text} (hjoined : ∀ c ∈ word, ∀ d ∈ word, separates c d = false) :
    pattern.takes word = true ↔ pattern.Reads ⟨word, []⟩ [] := by
  have hread := @readBounded?_word pattern hpattern word [] hjoined (by simp) ⟨word, []⟩
    ⟨word.reverse, []⟩
  rw [List.append_nil] at hread
  rw [Pattern.takes, decide_eq_true_iff, hread]
  simp

/-- A pattern that reads figures is the one for whole numbers. -/
theorem eq_integer_of_reads {capture : Capture} {rest : Text}
    (h : pattern.Reads capture rest) (hall : AllFigures capture.text) :
    pattern = FigureForm.integer.pattern ∧ capture.groups = [] := by
  have hne := h.1
  have hcomma : ',' ∉ capture.text := hall.not_mem rfl
  have hpoint : '.' ∉ capture.text := hall.not_mem rfl
  have hhyphen : '-' ∉ capture.text := hall.not_mem rfl
  -- No figure is a letter.
  have hletters : ¬ ∀ c ∈ capture.text, classify c = .letter := by
    intro hletters
    obtain ⟨c, row, hrow⟩ := List.exists_cons_of_ne_nil hne
    have hc : c ∈ capture.text := hrow ▸ List.mem_cons_self
    have hclass := hletters c hc
    rw [classify_of_isDigit (hall c hc)] at hclass
    exact absurd hclass (by decide)
  rcases patternsOf_spanishRules hpattern with hplain | hpointed | hspoken | rfl
  · simp only [plainPatterns, List.mem_cons, List.not_mem_nil, or_false] at hplain
    rcases hplain with rfl | rfl | rfl
    · exact ⟨rfl, (reads_integer_iff.mp h).1⟩
    · obtain ⟨_, ⟨_, _, _, _, htext, _⟩, _⟩ := reads_groupedDecimal_iff.mp h
      exact absurd (by simp [htext]) hcomma
    · obtain ⟨_, ⟨_, _, htext, _⟩, _⟩ := reads_decimal_iff.mp h
      exact absurd (by simp [htext]) hcomma
  · simp only [pointedPatterns, List.mem_cons, List.not_mem_nil, or_false] at hpointed
    rcases hpointed with rfl | rfl
    · obtain ⟨_, ⟨_, _, groups, htext, _, _, _, hgroups, hn, _⟩, _⟩ :=
        reads_groupedInteger_iff.mp h
      obtain ⟨_, _, _, _, rfl, _⟩ := hgroups.exists_cons hn
      exact absurd (by simp [htext]) hpoint
    · obtain ⟨⟨_, _, rfl, _⟩, _⟩ := reads_pointDecimal_iff.mp h
      exact absurd (by simp) hpoint
  · obtain ⟨keys, hkeys, hextent, hfollow⟩ := hspoken
    obtain ⟨key, hkey, hfold⟩ := exists_key_of_reads hextent hfollow h
    rcases (letters_of_spoken (hkeys hkey) hfold).2 with htext | hspelled
    · exact absurd (by simp [htext]) hhyphen
    · exact absurd hspelled hletters
  · obtain ⟨⟨c, rfl, hc⟩, _⟩ := reads_suffix_iff.mp h
    refine absurd ?_ hletters
    simp [letter_of_suffix hc]

variable {word : Text} (hword : IsInteger word)

include hword

/-- The pattern for whole numbers alone reads a word of figures. -/
theorem readBounded?_figures {rest : Text} (hrest : ∀ c, rest.head? = some c → isBlank c = true)
    {capture : Capture} {last : Cursor} :
    pattern.readBounded? (Cursor.start (word ++ rest)) = some (capture, last) ↔
      pattern = FigureForm.integer.pattern ∧ capture = ⟨word, []⟩ ∧
        last = ⟨word.reverse, rest⟩ := by
  rw [readBounded?_word hpattern (joined_of_figures hword.2.1) hrest]
  constructor
  · rintro ⟨rfl, hlast, hreads⟩
    obtain ⟨hinteger, hgroups⟩ := eq_integer_of_reads hpattern hreads hword.2.1
    exact ⟨hinteger, by rw [← hgroups], hlast⟩
  · rintro ⟨rfl, rfl, hlast⟩
    have hfollow : noFigureFollows rest = true := by
      apply noFigureFollows_of_blank
      cases hhead : rest.head? with
      | none => rfl
      | some c => exact hrest c hhead
    exact ⟨rfl, hlast, reads_integer_iff.mpr ⟨rfl, hword, hfollow⟩⟩

theorem takes_figures_iff : pattern.takes word = true ↔ pattern = FigureForm.integer.pattern := by
  have hread := @readBounded?_figures pattern hpattern word hword [] (by simp) ⟨word, []⟩
    ⟨word.reverse, []⟩
  rw [List.append_nil] at hread
  rw [Pattern.takes, decide_eq_true_iff, hread]
  simp

end Patterns

/-- The patterns read words of figures as wholes. -/
theorem readsWords_of_figures {keys : List Text} (hkeys : ∀ key ∈ keys, IsInteger key)
    {pattern : Pattern} (hpattern : pattern ∈ patternsOf spanishRules) :
    pattern.ReadsWords keys := by
  intro word rest hmem hrest
  have hlower : lowercase word = word := eq_of_lowercaseAfter_figures (hkeys _ hmem).2.1
  rw [hlower] at hmem ⊢
  have hword := hkeys word hmem
  have htakes := takes_figures_iff hpattern hword
  split
  · rename_i h
    exact (readBounded?_figures hpattern hword hrest).mpr ⟨htakes.mp h, rfl, rfl⟩
  · rename_i h
    cases hread : pattern.readBounded? (Cursor.start (word ++ rest)) with
    | none => rfl
    | some result =>
      exact absurd (htakes.mpr ((readBounded?_figures hpattern hword hrest).mp hread).1) h

/-- Words of one to eighteen figures, with blanks between them. -/
structure Figured (words : List Word) : Prop where
  spaced : Spaced words
  integers : ∀ word ∈ words, IsInteger word.text

instance (row : Text) : Decidable (AllFigures row) :=
  inferInstanceAs (Decidable (∀ c ∈ row, c.isDigit = true))

instance (figures : Text) : Decidable (IsInteger figures) :=
  inferInstanceAs (Decidable (_ ∧ _ ∧ _))

instance (words : List Word) : Decidable (Spaced words) :=
  match words with
  | [] => isTrue trivial
  | word :: words => inferInstanceAs (Decidable (word.gap = [] ∧ ∀ other ∈ words, other.gap ≠ []))

instance (words : List Word) : Decidable (Figured words) :=
  decidable_of_iff (Spaced words ∧ ∀ word ∈ words, IsInteger word.text)
    ⟨fun h => ⟨h.1, h.2⟩, fun h => ⟨h.spaced, h.integers⟩⟩

namespace Figured

variable {words : List Word} (h : Figured words)

include h

theorem key_eq {word : Word} (hword : word ∈ words) : word.key = word.text :=
  lowercaseAfter_figures (h.integers word hword).2.1 []

theorem legible : Legible (words.map Word.text) words := by
  refine ⟨⟨h.spaced, fun word hword => (h.integers word hword).1,
    fun word hword => joined_of_figures (h.integers word hword).2.1⟩, ?_⟩
  intro word hword
  rw [h.key_eq hword]
  exact List.mem_map_of_mem hword

theorem readsWords : ∀ rule ∈ spanishRules, rule.ReadsWords (words.map Word.text) := by
  intro rule hrule pattern hpattern
  refine readsWords_of_figures ?_ (mem_patternsOf.mpr ⟨rule, hrule, hpattern⟩)
  intro key hkey
  obtain ⟨word, hword, rfl⟩ := List.mem_map.mp hkey
  exact h.integers word hword

end Figured

/-! ## The values of figures -/

namespace Value.IsWrittenBy

variable {v : Value} {figures : Text} (h : v.IsWrittenBy figures [])

include h

theorem isNearest : IsNearest (figuresValue figures * quantaPerUnit) 1 v.quanta := by
  have hnearest := h.nearest
  rwa [List.append_nil] at hnearest

theorem eq_ofNat (hle : figuresValue figures ≤ twoPow 53) : v = .ofNat (figuresValue figures) := by
  have hexact : (ofNat (figuresValue figures)).IsWrittenBy figures [] := by
    refine written?_eq_some_iff.mp ?_
    unfold written?
    apply round?_exact (ofNat (figuresValue figures))
    rw [List.append_nil, quanta_ofNat hle]
    exact (Nat.one_mul _).symm
  exact h.unique hexact

/-- A number past those that are exact is read as one that is no smaller than they are. -/
theorem signed_of_lt (hlt : twoPow 53 < figuresValue figures) {n : Nat} (hn : n < twoPow 53) :
    (ofNat n).signed < v.signed := by
  have hgrid : OnGrid (twoPow 53 * quantaPerUnit) := onGrid_mul_quantaPerUnit (Nat.le_refl _)
  have hnear := h.isNearest.near _ hgrid
  have hpos := quantaPerUnit_pos
  have hwritten := Nat.mul_lt_mul_of_pos_right hlt hpos
  have hbound := Nat.mul_lt_mul_of_pos_right hn hpos
  rw [signed_ofNat (Nat.le_of_lt hn), signed, h.positive]
  simp only [Nat.dist, Nat.one_mul] at hnear
  simp only [Bool.false_eq_true, if_false]
  omega

theorem accepts_between {a b : Nat} (ha : a < twoPow 53) (hb : b < twoPow 53)
    {grain : Option Nat} : (Condition.between (bound a) (bound b)).accepts ⟨v, grain⟩ = true ↔
      a ≤ figuresValue figures ∧ figuresValue figures < b := by
  rcases Nat.lt_or_ge (twoPow 53) (figuresValue figures) with hlt | hle
  · have hsigned := h.signed_of_lt hlt hb
    simp only [Condition.accepts, bound, Binary64.less, Bool.and_eq_true, decide_eq_true_eq]
    omega
  · rw [h.eq_ofNat hle,
      SpanishNumerals.accepts_between hle (Nat.le_of_lt ha) (Nat.le_of_lt hb)]

theorem accepts_equals {a : Nat} (ha : a < twoPow 53) {grain : Option Nat} :
    (Condition.equals (bound a)).accepts ⟨v, grain⟩ = true ↔ figuresValue figures = a := by
  rcases Nat.lt_or_ge (twoPow 53) (figuresValue figures) with hlt | hle
  · have hsigned := h.signed_of_lt hlt ha
    simp only [Condition.accepts, bound, Binary64.equals, decide_eq_true_eq]
    omega
  · rw [h.eq_ofNat hle, SpanishNumerals.accepts_equals hle (Nat.le_of_lt ha)]

end Value.IsWrittenBy

/-! ## The two rules that are left -/

/-- The three words are so many hundreds and a remainder: two to nine, a hundred, and less than
a hundred. -/
def Joins (a b c : Word) : Prop :=
  2 ≤ figuresValue a.text ∧ figuresValue a.text < 10 ∧ figuresValue b.text = 100 ∧
    figuresValue c.text < 100

instance (a b c : Word) : Decidable (Joins a b c) :=
  inferInstanceAs (Decidable (_ ∧ _ ∧ _ ∧ _))

/-- What a rule makes of words of figures. The rule for whole numbers makes the value nearest
to what one word writes, the rule for hundreds the sum of three words that join. -/
inductive ReadBy : (name : String) → List Word → Token → Prop
  | alone {word : Word} {value : Value} : value.IsWrittenBy word.text [] →
      ReadBy "integer (numeric)" [word] ⟨value, none⟩
  | joined {a b c : Word} : Joins a b c →
      ReadBy "numbers 200..999" [a, b, c]
        ⟨.ofNat (100 * figuresValue a.text + figuresValue c.text), none⟩

theorem ReadBy.alone_or_joined {name : String} {taken : List Word} {token : Token}
    (h : ReadBy name taken token) :
    (name = "integer (numeric)" ∧ ∃ word value, taken = [word] ∧
      value.IsWrittenBy word.text [] ∧ token = ⟨value, none⟩) ∨
    (name = "numbers 200..999" ∧ ∃ a b c, taken = [a, b, c] ∧ Joins a b c ∧
      token = ⟨.ofNat (100 * figuresValue a.text + figuresValue c.text), none⟩) := by
  cases h with
  | alone hvalue => exact Or.inl ⟨rfl, _, _, rfl, hvalue, rfl⟩
  | joined hjoins => exact Or.inr ⟨rfl, _, _, _, rfl, hjoins, rfl⟩

/-- The words are read as the token, by one rule or the other. -/
def ReadAs (_before taken : List Word) (token : Token) : Prop := ∃ name, ReadBy name taken token

/-- A number below two hundred is one word. -/
theorem ReadAs.alone_of_between {before taken : List Word} {token : Token}
    (h : ReadAs before taken token) {a b : Nat} (ha : a < twoPow 53) (hb : b ≤ 200)
    (haccepts : (Condition.between (bound a) (bound b)).accepts token = true) :
    ∃ word value, taken = [word] ∧ value.IsWrittenBy word.text [] ∧ token = ⟨value, none⟩ ∧
      a ≤ figuresValue word.text ∧ figuresValue word.text < b := by
  obtain ⟨name, h⟩ := h
  have hsmall : b < twoPow 53 := Nat.lt_of_le_of_lt hb (by decide)
  rcases h.alone_or_joined with ⟨_, word, value, rfl, hvalue, rfl⟩ |
    ⟨_, _, _, _, _, ⟨hlow, hhigh, _, hrest⟩, rfl⟩
  · exact ⟨word, value, rfl, hvalue, rfl, (hvalue.accepts_between ha hsmall).mp haccepts⟩
  · rw [accepts_between (le_twoPow_53 (by omega)) (Nat.le_of_lt ha) (Nat.le_of_lt hsmall)]
      at haccepts
    omega

theorem ReadAs.alone_of_equals {before taken : List Word} {token : Token}
    (h : ReadAs before taken token) {a : Nat} (ha : a < 200)
    (haccepts : (Condition.equals (bound a)).accepts token = true) :
    ∃ word value, taken = [word] ∧ value.IsWrittenBy word.text [] ∧ token = ⟨value, none⟩ ∧
      figuresValue word.text = a := by
  obtain ⟨name, h⟩ := h
  have hsmall : a < twoPow 53 := Nat.lt_trans ha (by decide)
  rcases h.alone_or_joined with ⟨_, word, value, rfl, hvalue, rfl⟩ |
    ⟨_, _, _, _, _, ⟨hlow, hhigh, _, hrest⟩, rfl⟩
  · exact ⟨word, value, rfl, hvalue, rfl, (hvalue.accepts_equals hsmall).mp haccepts⟩
  · rw [accepts_equals (le_twoPow_53 (by omega)) (Nat.le_of_lt hsmall)] at haccepts
    omega

/-- What the rule for hundreds makes of three values. -/
theorem hundredsOf_ofNat {a c : Nat} {b : Token} (ha : a < 10) (hc : c < 100)
    {grain grain' : Option Nat} :
    Compound.hundredsOf [.number ⟨.ofNat a, grain⟩, .number b, .number ⟨.ofNat c, grain'⟩] =
      some ⟨.ofNat (100 * a + c), none⟩ := by
  show Token.plain? (((Value.ofNat 100).mul? (.ofNat a)).bind _) = _
  rw [Value.mul?_ofNat (by decide) (le_twoPow_53 (by omega)) (le_twoPow_53 (by omega)),
    Option.bind_some]
  exact plain?_sum rfl (by omega)

/-- The rule for hundreds. -/
def hundredsRule : Rule := compoundRules.get ⟨2, by decide⟩

theorem elements_hundredsRule : hundredsRule.elements =
    [.number (.between (bound 2) (bound 10)), .number (.equals (bound 100)),
      .number (.between (bound 0) (bound 100))] := rfl

theorem produce_hundredsRule : hundredsRule.produce = Compound.hundredsOf := rfl

theorem hundredsRule_mem : hundredsRule ∈ spanishRules :=
  List.mem_append_right _ (List.get_mem _ _)

theorem integerRule_mem : FigureForm.integer.rule ∈ spanishRules :=
  List.mem_append_left _ (List.mem_append_left _ (List.get_mem _ _))

/-- The rules besides the one for whole numbers and the one for hundreds. -/
def otherRules : Registry := figureRules.tail ++ wordRules ++ compoundRules.eraseIdx 2

theorem mem_spanishRules_cases {rule : Rule} (h : rule ∈ spanishRules) :
    rule = FigureForm.integer.rule ∨ rule = hundredsRule ∨ rule ∈ otherRules := by
  have hfigures : figureRules = FigureForm.integer.rule :: figureRules.tail := rfl
  have hcompounds : compoundRules =
      compoundRules.take 2 ++ hundredsRule :: compoundRules.drop 3 := rfl
  have hothers : compoundRules.eraseIdx 2 = compoundRules.take 2 ++ compoundRules.drop 3 := rfl
  rw [spanishRules, hfigures, hcompounds] at h
  rw [otherRules, hothers]
  simp only [List.mem_append, List.mem_cons] at h ⊢
  tauto

/-- Each of the others has a pattern that takes no figure. -/
theorem other_pattern_of_rule : ∀ rule ∈ otherRules,
    ∃ pattern ∈ rule.elements.filterMap Element.pattern?, pattern.takes ['0'] = false := by
  decide +kernel

/-- A pattern that takes no figure takes no word of figures. -/
theorem not_takes_figures {pattern : Pattern} (hpattern : pattern ∈ patternsOf spanishRules)
    (hzero : pattern.takes ['0'] = false) {word : Text} (hword : IsInteger word) :
    pattern.takes word = false := by
  have hfigure : IsInteger ['0'] := ⟨by simp, by simp [AllFigures], by decide⟩
  rw [Bool.eq_false_iff, Ne, takes_figures_iff hpattern hword,
    ← takes_figures_iff hpattern hfigure, hzero]
  exact Bool.false_ne_true

/-- A rule that takes figures is one of the two. -/
theorem rule_of_takes {rule : Rule} (hrule : rule ∈ spanishRules) {before taken : List Word}
    {window : Window} (hfigures : ∀ word ∈ taken, IsInteger word.text)
    (htakes : Takes ReadAs before rule.elements taken window) :
    rule = FigureForm.integer.rule ∨ rule = hundredsRule := by
  rcases mem_spanishRules_cases hrule with hinteger | hhundreds | hother
  · exact Or.inl hinteger
  · exact Or.inr hhundreds
  · obtain ⟨pattern, hmem, hzero⟩ := other_pattern_of_rule rule hother
    have hpattern : pattern ∈ patternsOf spanishRules := List.mem_flatMap.mpr ⟨rule, hrule, hmem⟩
    obtain ⟨element, helement, hsome⟩ := List.mem_filterMap.mp hmem
    cases element with
    | text other =>
      obtain rfl := Option.some.inj hsome
      obtain ⟨word, hword, hread⟩ := htakes.exists_word helement
      rw [Word.key, lowercase, lowercaseAfter_figures (hfigures word hword).2.1,
        not_takes_figures hpattern hzero (hfigures word hword)] at hread
      exact absurd hread Bool.false_ne_true
    | number condition => simp [Element.pattern?] at hsome

/-- The rule for whole numbers takes one word. -/
theorem exists_word_of_takes {known : List Word → List Word → Token → Prop}
    {before taken : List Word} {window : Window}
    (htakes : Takes known before FigureForm.integer.rule.elements taken window) :
    ∃ word, taken = [word] ∧ FigureForm.integer.pattern.takes word.key = true ∧
      window = [.capture ⟨word.text, []⟩] := by
  rw [FigureForm.elements_rule] at htakes
  cases htakes with
  | text htaken hrest =>
    cases hrest
    exact ⟨_, rfl, htaken, rfl⟩

/-- It makes of figures the value nearest to what they write. -/
theorem written_of_produce {word : Text} (hword : IsInteger word) {token : Token}
    (htoken : FigureForm.integer.rule.produce [.capture ⟨word, []⟩] = some token) :
    ∃ value : Value, value.IsWrittenBy word [] ∧ token = ⟨value, none⟩ := by
  have hwhole : Token.plain? (readWhole word).toOption = some token := htoken
  rw [readWhole_eq hword.1 hword.2.1 hword.2.2] at hwhole
  exact plain?_written?_iff.mp hwhole

/-- The rules keep it up that words of figures are read by one rule or the other. -/
theorem readBy_of_takes {rule : Rule} (hrule : rule ∈ spanishRules) {before taken : List Word}
    {window : Window} {token : Token} (hfigures : ∀ word ∈ taken, IsInteger word.text)
    (htakes : Takes ReadAs before rule.elements taken window)
    (htoken : rule.produce window = some token) : ReadBy rule.name taken token := by
  rcases rule_of_takes hrule hfigures htakes with rfl | rfl
  · obtain ⟨word, rfl, _, rfl⟩ := exists_word_of_takes htakes
    obtain ⟨value, hvalue, rfl⟩ := written_of_produce (hfigures word List.mem_cons_self) htoken
    exact ReadBy.alone hvalue
  · rw [elements_hundredsRule] at htakes
    cases htakes with
    | number _ ha haccepts hrest =>
      cases hrest with
      | number _ hb haccepts' hrest =>
        cases hrest with
        | number _ hc haccepts'' hrest =>
          cases hrest
          obtain ⟨a, u, rfl, hu, rfl, hlow, hhigh⟩ := ha.alone_of_between (by decide) (by decide)
            haccepts
          obtain ⟨b, _, rfl, _, rfl, hhundred⟩ := hb.alone_of_equals (by decide) haccepts'
          obtain ⟨c, w, rfl, hw, rfl, _, hrest⟩ := hc.alone_of_between (by decide) (by decide)
            haccepts''
          obtain rfl := hu.eq_ofNat (le_twoPow_53 (by omega))
          obtain rfl := hw.eq_ofNat (le_twoPow_53 (by omega))
          rw [produce_hundredsRule, hundredsOf_ofNat hhigh hrest] at htoken
          obtain rfl := Option.some.inj htoken
          exact ReadBy.joined ⟨hlow, hhigh, hhundred, hrest⟩

/-! ## What is found in words of figures -/

/-- A word of figures among whatever words. -/
theorem derivedWithin_figures {keys : List Text} {words before : List Word} {word : Word}
    {value : Value} (h : Legible keys words) (hreads : FigureForm.integer.rule.ReadsWords keys)
    (hword : IsInteger word.text) (htaken : before ++ [word] <+: words)
    (hvalue : value.IsWrittenBy word.text []) :
    DerivedWithin spanishRules words 1 before [word] ⟨value, none⟩ := by
  have hpattern : FigureForm.integer.pattern ∈ patternsOf spanishRules :=
    mem_patternsOf.mpr ⟨_, integerRule_mem, List.mem_cons_self⟩
  have hkey : word.key = word.text := lowercaseAfter_figures hword.2.1 []
  have hread : FigureForm.integer.pattern.takes word.key = true := by
    rw [hkey, takes_figures_iff hpattern hword]
  have htakes : Takes (DerivedWithin spanishRules words 0) before
      FigureForm.integer.rule.elements [word] [.capture ⟨word.text, []⟩] :=
    Takes.text hread Takes.nil
  refine derivedWithin_of_takes h integerRule_mem hreads htaken htakes (List.cons_ne_nil word []) ?_
  show Token.plain? (readWhole word.text).toOption = _
  rw [readWhole_eq hword.1 hword.2.1 hword.2.2]
  exact plain?_written?_iff.mpr ⟨value, hvalue, rfl⟩

section Found

variable {words : List Word} (h : Figured words)

include h

theorem derivedWithin_alone {before : List Word} {word : Word} {value : Value}
    (htaken : before ++ [word] <+: words) (hvalue : value.IsWrittenBy word.text []) :
    DerivedWithin spanishRules words 1 before [word] ⟨value, none⟩ :=
  derivedWithin_figures h.legible (h.readsWords _ integerRule_mem)
    (h.integers word (htaken.subset (by simp))) htaken hvalue

theorem derivedWithin_exact {before : List Word} {word : Word}
    (htaken : before ++ [word] <+: words) (hle : figuresValue word.text ≤ 1000) :
    DerivedWithin spanishRules words 1 before [word] ⟨.ofNat (figuresValue word.text), none⟩ := by
  obtain ⟨_, hall, hlength⟩ := h.integers word (htaken.subset (by simp))
  have hnone : AllFigures [] := fun _ hc => absurd hc List.not_mem_nil
  obtain ⟨value, hvalue⟩ :=
    Value.exists_isWrittenBy hall hnone (Nat.le_trans hlength (by decide))
  rw [← hvalue.eq_ofNat (le_twoPow_53 (by omega))]
  exact derivedWithin_alone h htaken hvalue

theorem derivedWithin_joined {before : List Word} {a b c : Word}
    (htaken : before ++ [a, b, c] <+: words) (hjoins : Joins a b c) :
    DerivedWithin spanishRules words 2 before [a, b, c]
      ⟨.ofNat (100 * figuresValue a.text + figuresValue c.text), none⟩ := by
  obtain ⟨hlow, hhigh, hhundred, hrest⟩ := hjoins
  have hbc : before ++ [a] ++ ([b] ++ [c]) <+: words := by simpa using htaken
  have hc : before ++ [a] ++ [b] ++ [c] <+: words := by simpa using htaken
  have hb : before ++ [a] ++ [b] <+: words := (List.prefix_append _ [c]).trans hc
  have ha : before ++ [a] <+: words := (List.prefix_append _ [b]).trans hb
  have hfirst := derivedWithin_exact h ha (by omega)
  have hmiddle := derivedWithin_exact h hb (by omega)
  have hlast := derivedWithin_exact h hc (by omega)
  have hfirst_accepted : (Condition.between (bound 2) (bound 10)).accepts
      ⟨.ofNat (figuresValue a.text), none⟩ = true :=
    (accepts_between (le_twoPow_53 (by omega)) (by decide) (by decide)).mpr ⟨hlow, hhigh⟩
  have hmiddle_accepted : (Condition.equals (bound 100)).accepts
      ⟨.ofNat (figuresValue b.text), none⟩ = true :=
    (accepts_equals (le_twoPow_53 (by omega)) (by decide)).mpr hhundred
  have hlast_accepted : (Condition.between (bound 0) (bound 100)).accepts
      ⟨.ofNat (figuresValue c.text), none⟩ = true :=
    (accepts_between (le_twoPow_53 (by omega)) (by decide) (by decide)).mpr
      ⟨Nat.zero_le _, hrest⟩
  have htakes := Takes.number (List.cons_ne_nil a []) hfirst hfirst_accepted
    (Takes.number (List.cons_ne_nil b []) hmiddle hmiddle_accepted
      (Takes.last (List.cons_ne_nil c []) hlast hlast_accepted))
  rw [← elements_hundredsRule] at htakes
  refine derivedWithin_of_takes h.legible hundredsRule_mem (h.readsWords _ hundredsRule_mem) htaken
    htakes (List.cons_ne_nil _ _) ?_
  rw [produce_hundredsRule]
  exact hundredsOf_ofNat hhigh hrest

end Found

end SpanishNumerals
