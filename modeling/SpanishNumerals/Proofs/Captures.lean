-- What the patterns read, told without places: a text that is read and the text that is left.
-- Each Spanish pattern reads the texts of its grammar, or its words, and looks at what is left
-- only to see that nothing goes on.
import SpanishNumerals.Proofs.FigureForms
import SpanishNumerals.Proofs.WordPatterns

namespace SpanishNumerals

/-! ## Reading a text and leaving a text -/

/-- The pattern reads the capture and leaves `rest`. -/
def Pattern.Reads (pattern : Pattern) (capture : Capture) (rest : Text) : Prop :=
  capture.text ≠ [] ∧ pattern.admits rest = true ∧
    ∃ extent, pattern.extent (capture.text ++ rest) = some extent ∧
      (capture.text ++ rest).take extent.length = capture.text ∧ extent.groups = capture.groups

theorem Pattern.read?_eq_some_iff {pattern : Pattern} {here there : Cursor} {capture : Capture} :
    pattern.read? here = some (capture, there) ↔
      here.Reaches capture.text there ∧ pattern.Reads capture there.ahead := by
  constructor
  · intro h
    have hreach := Cursor.reaches_of_read? h
    obtain ⟨hne, hahead, _, hadmits⟩ := Pattern.read?_eq_some h
    refine ⟨hreach, hne, hadmits, ?_⟩
    unfold read? at h
    split at h
    · simp at h
    · rename_i extent hextent
      dsimp only at h
      split at h
      · simp at h
      · split at h
        · simp only [Option.some.injEq, Prod.mk.injEq] at h
          obtain ⟨rfl, rfl⟩ := h
          exact ⟨extent, by rw [hahead]; exact hextent, by rw [hahead], rfl⟩
        · simp at h
  · rintro ⟨⟨hahead, hbehind⟩, hne, hadmits, extent, hextent, htake, hgroups⟩
    rw [← hahead] at hextent htake
    have hdrop : here.ahead.drop extent.length = there.ahead := by
      have hsplit := List.take_append_drop extent.length here.ahead
      rw [htake] at hsplit
      conv_rhs at hsplit => rw [hahead]
      exact List.append_cancel_left hsplit
    have hthere : here.forward extent.length = there := by
      apply Cursor.eq_of_behind_ahead
      · rw [Cursor.behind_forward, htake, hbehind]
      · rw [Cursor.ahead_forward, hdrop]
    obtain ⟨c, text, htext⟩ := List.exists_cons_of_ne_nil hne
    unfold read?
    rw [hextent]
    dsimp only
    rw [htake, hthere, hadmits, htext]
    simp only [if_true, hgroups, ← htext]

/-! ## Figures -/

/-- A form without groups and with a condition on what follows reads a text of the form that
meets the condition. -/
theorem reads_ofForm_iff {source : String} {form : Text → Option Text} {follow : Text → Bool}
    (hform : ∀ text figures, form text = some figures → ∃ rest, text = figures ++ rest)
    {capture : Capture} {rest : Text} :
    ((Pattern.ofForm source form).followedBy follow).Reads capture rest ↔
      capture.text ≠ [] ∧ capture.groups = [] ∧ form (capture.text ++ rest) = some capture.text ∧
        follow rest = true := by
  constructor
  · rintro ⟨hne, hfollow, extent, hextent, htake, hgroups⟩
    obtain ⟨figures, hfigures, rfl⟩ := Option.map_eq_some_iff.mp hextent
    obtain ⟨left, hleft⟩ := hform _ _ hfigures
    rw [hleft, List.take_left] at htake
    exact ⟨hne, hgroups.symm, htake ▸ hfigures, hfollow⟩
  · rintro ⟨hne, hgroups, hfigures, hfollow⟩
    exact ⟨hne, hfollow, _, congrArg (Option.map _) hfigures, List.take_left, hgroups.symm⟩

theorem reads_integer_iff {capture : Capture} {rest : Text} :
    (Pattern.integer.followedBy noFigureFollows).Reads capture rest ↔
      capture.groups = [] ∧ IsInteger capture.text ∧ noFigureFollows rest = true := by
  rw [Pattern.integer, reads_ofForm_iff fun _ _ => integerForm_append, integerForm_eq_some_iff]
  constructor
  · rintro ⟨hne, hgroups, ⟨_, left, _, hall, hle, _⟩, hfollow⟩
    exact ⟨hgroups, ⟨hne, hall, hle⟩, hfollow⟩
  · rintro ⟨hgroups, ⟨hne, hall, hle⟩, hfollow⟩
    exact ⟨hne, hgroups, ⟨hne, rest, rfl, hall, hle, Or.inl hfollow⟩, hfollow⟩

theorem IsDecimal.ne_nil {figures : Text} (h : IsDecimal figures) : figures ≠ [] := by
  obtain ⟨whole, fraction, rfl, _⟩ := h
  simp

theorem IsGroupedDecimal.ne_nil {figures : Text} (h : IsGroupedDecimal figures) :
    figures ≠ [] := by
  obtain ⟨whole, n, groups, fraction, rfl, _⟩ := h
  simp

theorem IsGroupedInteger.ne_nil {n : Nat} {figures : Text} (h : IsGroupedInteger n figures) :
    figures ≠ [] := by
  obtain ⟨whole, groups, rfl, hne, _⟩ := h
  simp [hne]

theorem reads_decimal_iff {capture : Capture} {rest : Text} :
    (Pattern.decimal.followedBy noFigureFollows).Reads capture rest ↔
      capture.groups = [] ∧ IsDecimal capture.text ∧ noFigureFollows rest = true := by
  rw [Pattern.decimal, reads_ofForm_iff fun _ _ => decimalForm_append, decimalForm_eq_some_iff]
  constructor
  · rintro ⟨_, hgroups, ⟨_, _, hdecimal, _⟩, hfollow⟩
    exact ⟨hgroups, hdecimal, hfollow⟩
  · rintro ⟨hgroups, hdecimal, hfollow⟩
    exact ⟨hdecimal.ne_nil, hgroups, ⟨rest, rfl, hdecimal, hfollow⟩, hfollow⟩

theorem reads_groupedDecimal_iff {capture : Capture} {rest : Text} :
    (Pattern.groupedDecimal.followedBy noFigureFollows).Reads capture rest ↔
      capture.groups = [] ∧ IsGroupedDecimal capture.text ∧ noFigureFollows rest = true := by
  rw [Pattern.groupedDecimal, reads_ofForm_iff fun _ _ => groupedDecimalForm_append,
    groupedDecimalForm_eq_some_iff]
  constructor
  · rintro ⟨_, hgroups, ⟨_, _, hdecimal, _⟩, hfollow⟩
    exact ⟨hgroups, hdecimal, hfollow⟩
  · rintro ⟨hgroups, hdecimal, hfollow⟩
    exact ⟨hdecimal.ne_nil, hgroups, ⟨rest, rfl, hdecimal, hfollow⟩, hfollow⟩

/-- Where no number follows no group of thousands does. -/
theorem beginsWithGroup_of_noNumberFollows {rest : Text} (h : noNumberFollows rest = true) :
    beginsWithGroup rest = false := by
  apply beginsWithGroup_eq_false
  rintro a b c rest rfl
  have ha : a.isDigit = false := by simpa [noNumberFollows] using h
  rw [ha, Bool.false_and, Bool.false_and]

theorem reads_groupedInteger_iff {capture : Capture} {rest : Text} :
    (Pattern.groupedInteger.followedBy noNumberFollows).Reads capture rest ↔
      capture.groups = [] ∧ (∃ n, IsGroupedInteger n capture.text) ∧
        noNumberFollows rest = true := by
  rw [Pattern.groupedInteger, reads_ofForm_iff fun _ _ => groupedIntegerForm_append,
    groupedIntegerForm_eq_some_iff]
  constructor
  · rintro ⟨_, hgroups, ⟨_, n, _, hinteger, _⟩, hfollow⟩
    exact ⟨hgroups, ⟨n, hinteger⟩, hfollow⟩
  · rintro ⟨hgroups, ⟨n, hinteger⟩, hfollow⟩
    exact ⟨hinteger.ne_nil, hgroups,
      ⟨rest, n, rfl, hinteger, Or.inl (beginsWithGroup_of_noNumberFollows hfollow)⟩, hfollow⟩

theorem reads_pointDecimal_iff {capture : Capture} {rest : Text} :
    (Pattern.pointDecimal.followedBy noNumberFollows).Reads capture rest ↔
      (∃ whole fraction, capture = ⟨whole ++ '.' :: fraction, [some whole, some fraction]⟩ ∧
        AllFigures whole ∧ fraction ≠ [] ∧ AllFigures fraction) ∧
      noNumberFollows rest = true := by
  have hlength : ∀ whole fraction : Text,
      whole.length + 1 + fraction.length = (whole ++ '.' :: fraction).length := by
    intro whole fraction
    simp only [List.length_append, List.length_cons]
    omega
  constructor
  · rintro ⟨hne, hfollow, extent, hextent, htake, hgroups⟩
    obtain ⟨⟨whole, fraction⟩, hform, rfl⟩ := Option.map_eq_some_iff.mp hextent
    obtain ⟨left, hleft, hwhole, hfne, hfraction, _⟩ := pointDecimalForm_eq_some_iff.mp hform
    dsimp only at htake hgroups
    rw [hlength, hleft, List.take_left] at htake
    refine ⟨⟨whole, fraction, ?_, hwhole, hfne, hfraction⟩, hfollow⟩
    rw [htake, hgroups]
  · rintro ⟨⟨whole, fraction, rfl, hwhole, hne, hfraction⟩, hfollow⟩
    have hform : pointDecimalForm (whole ++ '.' :: fraction ++ rest) = some (whole, fraction) :=
      pointDecimalForm_eq_some_iff.mpr ⟨rest, rfl, hwhole, hne, hfraction,
        noFigureFollows_of_noNumberFollows hfollow⟩
    refine ⟨by simp, hfollow, _, congrArg (Option.map _) hform, ?_, rfl⟩
    dsimp only
    rw [hlength, List.take_left]

/-! ## Words without regard to case -/

theorem beginsWith_sameFold_iff {key text : Text} :
    beginsWith sameFold key text = true ↔
      (text.take key.length).map foldChar = key.map foldChar := by
  induction key generalizing text with
  | nil => simp [beginsWith]
  | cons k key ih =>
    cases text with
    | nil => simp [beginsWith]
    | cons c text =>
      simp only [beginsWith, Bool.and_eq_true, ih, List.length_cons, List.take_succ_cons,
        List.map_cons, List.cons.injEq, sameFold, decide_eq_true_eq]
      rw [eq_comm (a := foldChar k)]

section Words

variable {pattern : Pattern} {keys : List Text}
  (hextent : pattern.extent = (Pattern.caseless keys).extent) (hfollow : pattern.follow = none)

include hextent hfollow

/-- A pattern of words reads the first of them that is there. -/
theorem reads_caseless_iff {capture : Capture} {rest : Text} :
    pattern.Reads capture rest ↔ capture.text ≠ [] ∧ capture.groups = [] ∧
      ∃ key, keys.find? (fun key => beginsWith sameFold key (capture.text ++ rest)) = some key ∧
        key.length = capture.text.length := by
  have hadmits : pattern.admits rest = true := by
    rw [Pattern.admits, hfollow]
  unfold Pattern.Reads
  rw [hextent]
  constructor
  · rintro ⟨hne, _, extent, hfind, htake, hgroups⟩
    obtain ⟨key, hkey, rfl⟩ := Option.map_eq_some_iff.mp hfind
    refine ⟨hne, hgroups.symm, key, hkey, ?_⟩
    have hbegins := List.find?_some hkey
    have hle := length_le_of_beginsWith hbegins
    have hlength := congrArg List.length htake
    dsimp only at hlength
    rwa [List.length_take, Nat.min_eq_left hle] at hlength
  · rintro ⟨hne, hgroups, key, hkey, hlength⟩
    refine ⟨hne, hadmits, _, congrArg (Option.map _) hkey, ?_, hgroups.symm⟩
    dsimp only
    rw [hlength, List.take_left]

/-- What is read is one of the words, but for case. -/
theorem exists_key_of_reads {capture : Capture} {rest : Text} (h : pattern.Reads capture rest) :
    ∃ key ∈ keys, capture.text.map foldChar = key.map foldChar := by
  obtain ⟨_, _, key, hkey, hlength⟩ := (reads_caseless_iff hextent hfollow).mp h
  have hbegins := List.find?_some hkey
  rw [beginsWith_sameFold_iff, hlength, List.take_left] at hbegins
  exact ⟨key, List.mem_of_find?_eq_some hkey, hbegins⟩

end Words

/-! ## Suffixes -/

/-- The letters for a scale, in whatever case. -/
def isSuffixLetter (c : Char) : Bool := ['k', 'm', 'g'].any fun letter => sameFold letter c

/-- The pattern of the suffixes. -/
def suffixPattern : Pattern :=
  (Pattern.caselessLetter ['k', 'm', 'g']).followedBy noWordFollows

theorem reads_suffix_iff {capture : Capture} {rest : Text} :
    suffixPattern.Reads capture rest ↔
      (∃ c, capture = ⟨[c], [some [c]]⟩ ∧ isSuffixLetter c = true) ∧
        noWordFollows rest = true := by
  obtain ⟨text, groups⟩ := capture
  constructor
  · rintro ⟨hne, hfollow, extent, hextent, htake, hgroups⟩
    obtain ⟨c, letters, rfl⟩ := List.exists_cons_of_ne_nil hne
    have hif : (if isSuffixLetter c = true then some (Extent.mk 1 [some [c]]) else none) =
        some extent := hextent
    split at hif
    · rename_i hc
      obtain rfl := Option.some.inj hif
      dsimp only at htake hgroups
      rw [List.cons_append, List.take_succ_cons, List.take_zero] at htake
      obtain ⟨_, rfl⟩ := List.cons.inj htake
      exact ⟨⟨c, by rw [← hgroups], hc⟩, hfollow⟩
    · simp at hif
  · rintro ⟨⟨c, hcapture, hc⟩, hfollow⟩
    obtain ⟨rfl, rfl⟩ := Capture.mk.inj hcapture
    have hif : (if isSuffixLetter c = true then some (Extent.mk 1 [some [c]]) else none) =
        some (Extent.mk 1 [some [c]]) := if_pos hc
    exact ⟨by simp, hfollow, _, hif, rfl, rfl⟩

/-! ## The Spanish patterns -/

/-- The patterns of the rules. -/
def patternsOf (rules : Registry) : List Pattern :=
  rules.flatMap fun rule => rule.elements.filterMap Element.pattern?

theorem mem_patternsOf {rules : Registry} {pattern : Pattern} :
    pattern ∈ patternsOf rules ↔ ∃ rule ∈ rules, Element.text pattern ∈ rule.elements := by
  simp only [patternsOf, List.mem_flatMap, List.mem_filterMap]
  constructor
  · rintro ⟨rule, hrule, element, helement, hpattern⟩
    cases element with
    | text p =>
      obtain rfl := Option.some.inj hpattern
      exact ⟨rule, hrule, helement⟩
    | number condition => simp [Element.pattern?] at hpattern
  · rintro ⟨rule, hrule, hpattern⟩
    exact ⟨rule, hrule, _, hpattern, rfl⟩

/-- The patterns of numbers written with figures that look for a figure behind them only. -/
def plainPatterns : List Pattern :=
  [Pattern.integer.followedBy noFigureFollows, Pattern.groupedDecimal.followedBy noFigureFollows,
   Pattern.decimal.followedBy noFigureFollows]

/-- Those that look for a separator and a figure too. -/
def pointedPatterns : List Pattern :=
  [Pattern.groupedInteger.followedBy noNumberFollows,
   Pattern.pointDecimal.followedBy noNumberFollows]

/-- The words that the rules look for, in the tables and between numbers. -/
def spokenWords : List Text := "-".toList :: "menos".toList :: "punto".toList :: vocabulary

/-- The pattern looks for some of these words without regard to case. -/
def Pattern.IsSpoken (pattern : Pattern) : Prop :=
  ∃ keys, keys ⊆ spokenWords ∧ pattern.extent = (Pattern.caseless keys).extent ∧
    pattern.follow = none

theorem isSpoken_caseless {keys : List Text} (h : keys ⊆ spokenWords) :
    (Pattern.caseless keys).IsSpoken := ⟨keys, h, rfl, rfl⟩

theorem isSpoken_table {table : WordTable} (htable : table ∈ wordTables) :
    table.pattern.IsSpoken := by
  refine ⟨table.words, ?_, rfl, rfl⟩
  intro key hkey
  obtain ⟨⟨word, n⟩, hentry, rfl⟩ := List.mem_map.mp (mem_sortBy.mp hkey)
  have := mem_vocabulary_of_entry htable hentry
  simp only [spokenWords, List.mem_cons]
  exact Or.inr (Or.inr (Or.inr this))

theorem patternsOf_spanishRules {pattern : Pattern} (h : pattern ∈ patternsOf spanishRules) :
    pattern ∈ plainPatterns ∨ pattern ∈ pointedPatterns ∨ pattern.IsSpoken ∨
      pattern = suffixPattern := by
  have hsplit : patternsOf spanishRules =
      patternsOf figureRules ++ patternsOf wordRules ++ patternsOf compoundRules := by
    simp only [patternsOf, spanishRules, List.flatMap_append]
  rw [hsplit, List.mem_append, List.mem_append] at h
  rcases h with (h | h) | h
  · rw [patternsOf, patterns_figureRules] at h
    simp only [plainPatterns, pointedPatterns, List.mem_cons, List.not_mem_nil, or_false] at h ⊢
    tauto
  · rw [patternsOf, patterns_wordRules] at h
    obtain ⟨table, htable, rfl⟩ := List.mem_map.mp h
    exact Or.inr (Or.inr (Or.inl (isSpoken_table htable)))
  · rw [patternsOf, patterns_compoundRules] at h
    have hspoken : ∀ keys ∈ [["y".toList], ["-".toList, "menos".toList], ["punto".toList],
        ["mil".toList]], keys ⊆ spokenWords := by
      have hy : "y".toList ∈ vocabulary := List.mem_cons_self
      have hmil : "mil".toList ∈ vocabulary := mem_vocabulary_of_entry
        (show hundreds ∈ wordTables by simp [wordTables])
        (show ("mil", 1000) ∈ hundreds.entries by decide)
      simp only [List.forall_mem_cons, List.not_mem_nil, false_implies, implies_true, and_true]
      simp only [List.cons_subset, List.nil_subset, spokenWords, List.mem_cons, hy, hmil, true_or,
        or_true, and_self]
    have hhundreds := isSpoken_table (show hundreds ∈ wordTables by simp [wordTables])
    have hwords : ∀ keys ∈ [["y".toList], ["-".toList, "menos".toList], ["punto".toList],
        ["mil".toList]], (Pattern.caseless keys).IsSpoken :=
      fun keys hkeys => isSpoken_caseless (hspoken keys hkeys)
    simp only [List.forall_mem_cons, List.not_mem_nil, false_implies, implies_true, and_true]
      at hwords
    obtain ⟨hy, hminus, hpoint, hmil⟩ := hwords
    simp only [List.mem_cons, List.not_mem_nil, or_false] at h
    right
    right
    rcases h with rfl | rfl | rfl | rfl | rfl | rfl | rfl | rfl | rfl
    · exact Or.inl hy
    · exact Or.inl hy
    · exact Or.inl hminus
    · exact Or.inl hpoint
    · exact Or.inr rfl
    · exact Or.inl hhundreds
    · exact Or.inl hmil
    · exact Or.inl hmil
    · exact Or.inl hmil

/-! ## The words are letters -/

/-- A character that folds to one of the letters is a letter. -/
theorem letter_of_fold_origin : ∀ k ∈ spellingLetters, ∀ n ∈ originsOf k.toNat foldingRuns,
    classify (Char.ofNat n) = .letter := by
  decide +kernel

theorem mem_originsOf_of_foldChar {c k : Char} (hk : k.toNat ≠ 0) (h : foldChar c = k) :
    c.toNat ∈ originsOf k.toNat foldingRuns := by
  rw [← toNat_of_ofNat_eq hk h]
  exact mem_originsOf c.toNat foldingRuns

theorem letter_of_foldChar {c k : Char} (hk : k ∈ spellingLetters) (h : foldChar c = k) :
    classify c = .letter := by
  have hne : k.toNat ≠ 0 := (by decide : ∀ k ∈ spellingLetters, k.toNat ≠ 0) k hk
  have hc := letter_of_fold_origin k hk c.toNat (mem_originsOf_of_foldChar hne h)
  rwa [Char.ofNat_toNat] at hc

/-- Nothing but the hyphen folds to the hyphen. -/
theorem eq_hyphen_of_foldChar {c : Char} (h : foldChar c = '-') : c = '-' := by
  have horigins : originsOf '-'.toNat foldingRuns = ['-'.toNat] := by decide
  have hc := mem_originsOf_of_foldChar (by decide) h
  rw [horigins, List.mem_singleton] at hc
  rw [← Char.ofNat_toNat c, hc]
  rfl

theorem spoken_letters : ∀ key ∈ spokenWords, key.map foldChar = key ∧ key ≠ [] ∧
    (key = ['-'] ∨ ∀ k ∈ key, k ∈ spellingLetters) := by
  have hothers : ∀ key ∈ ["-".toList, "menos".toList, "punto".toList], key.map foldChar = key ∧
      key ≠ [] ∧ (key = ['-'] ∨ ∀ k ∈ key, k ∈ spellingLetters) := by decide
  intro key hkey
  rcases List.mem_append.mp (show key ∈ ["-".toList, "menos".toList, "punto".toList] ++ vocabulary
    from hkey) with hkey | hkey
  · exact hothers key hkey
  · obtain ⟨hne, hletters⟩ := spelled_of_mem_vocabulary key hkey
    exact ⟨map_foldChar_of_mem_vocabulary hkey, hne, Or.inr hletters⟩

/-- A text that is one of the words but for case is a hyphen or made of letters. -/
theorem letters_of_spoken {text key : Text} (hkey : key ∈ spokenWords)
    (h : text.map foldChar = key.map foldChar) :
    text ≠ [] ∧ (text = ['-'] ∨ ∀ c ∈ text, classify c = .letter) := by
  obtain ⟨hfold, hne, hletters⟩ := spoken_letters key hkey
  rw [hfold] at h
  refine ⟨?_, ?_⟩
  · rintro rfl
    exact hne h.symm
  · rcases hletters with rfl | hletters
    · left
      obtain ⟨c, rest, rfl, hc, hrest⟩ := List.map_eq_cons_iff.mp h
      rw [eq_hyphen_of_foldChar hc, List.map_eq_nil_iff.mp hrest]
    · right
      intro c hc
      exact letter_of_foldChar (hletters _ (h ▸ List.mem_map_of_mem hc)) rfl

theorem letter_of_suffix {c : Char} (h : isSuffixLetter c = true) : classify c = .letter := by
  obtain ⟨letter, hletter, hsame⟩ := List.any_eq_true.mp h
  have hspelled : ∀ k ∈ ['k', 'm', 'g'], k ∈ spellingLetters ∧ foldChar k = k := by
    decide
  obtain ⟨hmem, hfold⟩ := hspelled letter hletter
  rw [sameFold, decide_eq_true_eq, hfold] at hsame
  exact letter_of_foldChar hmem hsame.symm

/-! ## What the Spanish patterns read -/

/-- A text that a Spanish pattern reads when it leaves `rest`. -/
inductive SpanishRead (text rest : Text) : Prop
  | plain : IsInteger text ∨ IsGroupedDecimal text ∨ IsDecimal text →
      noFigureFollows rest = true → SpanishRead text rest
  | pointed : (∃ n, IsGroupedInteger n text) ∨ IsPointDecimal text →
      noNumberFollows rest = true → SpanishRead text rest
  | word {key : Text} : key ∈ spokenWords → text.map foldChar = key.map foldChar →
      SpanishRead text rest
  | suffix {c : Char} : text = [c] → isSuffixLetter c = true → noWordFollows rest = true →
      SpanishRead text rest

theorem plain_of_reads {pattern : Pattern} {capture : Capture} {rest : Text}
    (hpattern : pattern ∈ plainPatterns) (h : pattern.Reads capture rest) :
    (IsInteger capture.text ∨ IsGroupedDecimal capture.text ∨ IsDecimal capture.text) ∧
      noFigureFollows rest = true := by
  simp only [plainPatterns, List.mem_cons, List.not_mem_nil, or_false] at hpattern
  rcases hpattern with rfl | rfl | rfl
  · obtain ⟨_, hinteger, hrest⟩ := reads_integer_iff.mp h
    exact ⟨Or.inl hinteger, hrest⟩
  · obtain ⟨_, hdecimal, hrest⟩ := reads_groupedDecimal_iff.mp h
    exact ⟨Or.inr (Or.inl hdecimal), hrest⟩
  · obtain ⟨_, hdecimal, hrest⟩ := reads_decimal_iff.mp h
    exact ⟨Or.inr (Or.inr hdecimal), hrest⟩

theorem pointed_of_reads {pattern : Pattern} {capture : Capture} {rest : Text}
    (hpattern : pattern ∈ pointedPatterns) (h : pattern.Reads capture rest) :
    ((∃ n, IsGroupedInteger n capture.text) ∨ IsPointDecimal capture.text) ∧
      noNumberFollows rest = true := by
  simp only [pointedPatterns, List.mem_cons, List.not_mem_nil, or_false] at hpattern
  rcases hpattern with rfl | rfl
  · obtain ⟨_, hinteger, hrest⟩ := reads_groupedInteger_iff.mp h
    exact ⟨Or.inl hinteger, hrest⟩
  · obtain ⟨⟨whole, fraction, rfl, hdecimal⟩, hrest⟩ := reads_pointDecimal_iff.mp h
    exact ⟨Or.inr ⟨whole, fraction, rfl, hdecimal⟩, hrest⟩

theorem spanishRead_of_reads {pattern : Pattern} {capture : Capture} {rest : Text}
    (hpattern : pattern ∈ patternsOf spanishRules) (h : pattern.Reads capture rest) :
    SpanishRead capture.text rest := by
  rcases patternsOf_spanishRules hpattern with hplain | hpointed | ⟨keys, hkeys, hextent, hfollow⟩ | rfl
  · obtain ⟨hform, hrest⟩ := plain_of_reads hplain h
    exact .plain hform hrest
  · obtain ⟨hform, hrest⟩ := pointed_of_reads hpointed h
    exact .pointed hform hrest
  · obtain ⟨key, hkey, hfold⟩ := exists_key_of_reads hextent hfollow h
    exact .word (hkeys hkey) hfold
  · obtain ⟨⟨c, rfl, hc⟩, hrest⟩ := reads_suffix_iff.mp h
    exact .suffix rfl hc hrest

/-! ## The characters of what is read -/

theorem letter_not_isFigureSign {c : Char} (h : classify c = .letter) : isFigureSign c = false := by
  rw [Bool.eq_false_iff]
  intro hsign
  simp only [isFigureSign, Bool.or_eq_true, decide_eq_true_eq] at hsign
  rcases hsign with (hdigit | rfl) | rfl
  · rw [classify_of_isDigit hdigit] at h
    exact absurd h (by decide)
  · exact absurd h (by decide)
  · exact absurd h (by decide)

namespace SpanishRead

variable {read rest : Text} (h : SpanishRead read rest)

include h

/-- A Spanish pattern reads figures with separators, or one hyphen, or letters. -/
theorem signs_or_letters : (∀ c ∈ read, isFigureSign c = true) ∨ read = ['-'] ∨
    ∀ c ∈ read, classify c = .letter := by
  cases h with
  | plain hform _ => exact Or.inl (plain_signs hform)
  | pointed hform _ => exact Or.inl (pointed_signs hform)
  | word hkey hfold => exact Or.inr (letters_of_spoken hkey hfold).2
  | suffix hread hc =>
    right
    right
    rw [hread]
    simpa using letter_of_suffix hc

/-- When a letter is read, it is in a word or is a suffix. -/
theorem word_or_suffix {c : Char} (hc : c ∈ read) (hletter : classify c = .letter) :
    (∃ key ∈ spokenWords, read.map foldChar = key.map foldChar) ∨
      ∃ d, read = [d] ∧ isSuffixLetter d = true ∧ noWordFollows rest = true := by
  have hsign := letter_not_isFigureSign hletter
  cases h with
  | plain hform _ => exact absurd (plain_signs hform c hc) (by rw [hsign]; decide)
  | pointed hform _ => exact absurd (pointed_signs hform c hc) (by rw [hsign]; decide)
  | word hkey hfold => exact Or.inl ⟨_, hkey, hfold⟩
  | suffix hread hd hrest => exact Or.inr ⟨_, hread, hd, hrest⟩

/-- A point with nothing but figures behind it is read when no number follows. -/
theorem noNumberFollows_of_point {left right : Text} (hread : read = left ++ '.' :: right)
    (hall : AllFigures right) : noNumberFollows rest = true := by
  have hpoint : '.' ∈ read := hread ▸ List.mem_append_right left List.mem_cons_self
  have hfigures : ∀ {row : Text}, AllFigures row → '.' ∉ row :=
    fun hrow hmem => absurd (hrow '.' hmem) (by decide)
  have hcomma : ∀ {row : Text}, AllFigures row → ',' ∉ row :=
    fun hrow hmem => absurd (hrow ',' hmem) (by decide)
  cases h with
  | plain hform _ =>
    exfalso
    rcases hform with ⟨_, hrow, _⟩ | ⟨whole, n, groups, fraction, hsplit, _, _, _, _, _, hrow⟩ |
      ⟨whole, fraction, hsplit, hwhole, _, hrow⟩
    · exact hfigures hrow hpoint
    · -- The comma would be among the figures behind the point.
      have hunread : '.' ∉ ',' :: fraction := by simpa using hfigures hrow
      have hboth : whole ++ groups ++ ',' :: fraction ++ [] = left ++ '.' :: right := by
        rw [List.append_nil, ← hsplit, hread]
      rcases split_at_unread hboth hunread with ⟨between, _, hnil⟩ | ⟨between, _, hright⟩
      · simp at hnil
      · exact hcomma hall (by simp [hright])
    · rw [hsplit] at hpoint
      simp [hfigures hwhole, hfigures hrow] at hpoint
  | pointed _ hrest => exact hrest
  | word hkey hfold =>
    exfalso
    rcases (letters_of_spoken hkey hfold).2 with hhyphen | hletters
    · rw [hhyphen] at hpoint
      exact absurd hpoint (by decide)
    · exact absurd (hletters '.' hpoint) (by decide)
  | suffix hsuffix hc _ =>
    exfalso
    rw [hsuffix, List.mem_singleton] at hpoint
    have hletter := letter_of_suffix hc
    rw [← hpoint] at hletter
    exact absurd hletter (by decide)

end SpanishRead

/-- No Spanish pattern ends with a separator. -/
theorem SpanishRead.ends {front rest : Text} {c : Char} (h : SpanishRead (front ++ [c]) rest) :
    c ≠ '.' ∧ c ≠ ',' := by
  have hfigure : ∀ {before : Text} {d : Char}, front ++ [c] = before ++ [d] → d.isDigit = true →
      c ≠ '.' ∧ c ≠ ',' := by
    intro before d heq hd
    obtain ⟨_, hcd⟩ := List.append_inj' heq rfl
    obtain rfl := List.singleton_inj.mp hcd
    constructor <;> rintro rfl <;> exact absurd hd (by decide)
  have hletter : classify c = .letter → c ≠ '.' ∧ c ≠ ',' := by
    intro hc
    constructor <;> rintro rfl <;> exact absurd hc (by decide)
  cases h with
  | plain hform _ =>
    obtain ⟨before, d, heq, hd⟩ := ends_in_figure hform
    exact hfigure heq hd
  | pointed hform _ =>
    obtain ⟨before, figures, heq, hne, hall⟩ := ends_in_point hform
    obtain ⟨whole, d, hwhole, hd⟩ := exists_last_figure (before ++ ['.']) hne hall
    rw [List.append_assoc _ ['.'] _] at hwhole
    exact hfigure (heq.trans hwhole) hd
  | word hkey hfold =>
    rcases (letters_of_spoken hkey hfold).2 with hhyphen | hletters
    · have hc : c ∈ ['-'] := hhyphen ▸ List.mem_append_right front List.mem_cons_self
      obtain rfl := List.mem_singleton.mp hc
      decide
    · exact hletter (hletters c (List.mem_append_right front List.mem_cons_self))
  | suffix hread hc _ =>
    have hmem : c ∈ front ++ [c] := List.mem_append_right front List.mem_cons_self
    rw [hread, List.mem_singleton] at hmem
    exact hletter (hmem ▸ letter_of_suffix hc)

end SpanishNumerals
