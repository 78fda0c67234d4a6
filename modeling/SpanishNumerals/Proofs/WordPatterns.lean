-- The patterns of the Spanish rules on words of the tables. Each of them reads such a word as
-- a whole, in whatever case it is written, or does not read it at all.
import Mathlib.Data.List.Find
import SpanishNumerals.Proofs.WordReadings

namespace SpanishNumerals

/-- The word for a thousand. -/
def mil : Text := "mil".toList

/-- The word between tens and units. -/
def andWord : Text := "y".toList

/-- The words of the tables, and the word between tens and units. -/
def vocabulary : List Text :=
  andWord :: wordTables.flatMap fun table => table.entries.map fun (word, _) => word.toList

/-! ## The letters of the words -/

theorem spelled_of_mem_vocabulary : ∀ key ∈ vocabulary,
    key ≠ [] ∧ ∀ c ∈ key, c ∈ spellingLetters := by
  decide +kernel

theorem spelling_letters : ∀ c ∈ spellingLetters,
    foldChar c = c ∧ c ≠ 'Σ' ∧ lowercaseChar c = [c] := by
  decide +kernel

theorem lowercase_of_mem_vocabulary {key : Text} (h : key ∈ vocabulary) : lowercase key = key :=
  lowercaseAfter_eq_self
    (fun c hc => (spelling_letters c ((spelled_of_mem_vocabulary key h).2 c hc)).2) []

theorem map_foldChar_of_mem_vocabulary {key : Text} (h : key ∈ vocabulary) :
    key.map foldChar = key := by
  have hletters := (spelled_of_mem_vocabulary key h).2
  calc key.map foldChar
      _ = key.map id := List.map_congr_left fun c hc => (spelling_letters c (hletters c hc)).1
      _ = key := List.map_id key

section Spelled

variable {word : Text} (h : lowercase word ∈ vocabulary)

include h

theorem map_foldChar_eq_lowercase : word.map foldChar = lowercase word :=
  (letters_of_lowercase (spelled_of_mem_vocabulary _ h).2).1

theorem letters_of_spelled : ∀ c ∈ word, classify c = .letter :=
  (letters_of_lowercase (spelled_of_mem_vocabulary _ h).2).2

theorem length_lowercase : (lowercase word).length = word.length := by
  rw [← map_foldChar_eq_lowercase h, List.length_map]

theorem ne_nil_of_spelled : word ≠ [] := by
  rintro rfl
  exact (spelled_of_mem_vocabulary _ h).1 rfl

end Spelled

/-! ## Reading the whole word or nothing -/

section Reading

variable {pattern : Pattern} {word rest : Text}

theorem readBounded?_eq_none (h : pattern.extent (word ++ rest) = none) :
    pattern.readBounded? (Cursor.start (word ++ rest)) = none := by
  have hread : pattern.read? (Cursor.start (word ++ rest)) = none := by
    simp only [Pattern.read?, Cursor.start, h]
  rw [Pattern.readBounded?, hread]
  split <;> rfl

theorem forward_word (word rest : Text) :
    (Cursor.start (word ++ rest)).forward word.length = ⟨word.reverse, rest⟩ := by
  apply Cursor.eq_of_pos
  · rw [Cursor.text_forward]
    simp [Cursor.text, Cursor.start]
  · rw [Cursor.pos_forward]
    simp [Cursor.pos, Cursor.start, byteLength]

/-- Inside a word there is no boundary. -/
theorem atBoundary_inside (hletters : ∀ c ∈ word, classify c = .letter) {length : Nat}
    (hpos : 0 < length) (hlt : length < word.length) :
    ((Cursor.start (word ++ rest)).forward length).atBoundary = false := by
  have hsplit : word = word.take length ++ word.drop length := (List.take_append_drop _ _).symm
  have htake : word.take length ≠ [] := by
    apply List.ne_nil_of_length_pos
    rw [List.length_take]
    omega
  have hdrop : word.drop length ≠ [] := by
    apply List.ne_nil_of_length_pos
    rw [List.length_drop]
    omega
  obtain ⟨front, d, hfront⟩ := (List.eq_nil_or_concat' (word.take length)).resolve_left htake
  obtain ⟨e, back, hback⟩ := List.exists_cons_of_ne_nil hdrop
  rw [hfront, hback] at hsplit
  have hd : classify d = .letter := hletters d (by rw [hsplit]; simp)
  have he : classify e = .letter := hletters e (by rw [hsplit]; simp)
  have hplace : (Cursor.start (word ++ rest)).forward length =
      ⟨(front ++ [d]).reverse, e :: back ++ rest⟩ := by
    have hlength : (front ++ [d]).length = length := by
      rw [← hfront, List.length_take, Nat.min_eq_left (Nat.le_of_lt hlt)]
    rw [hsplit, List.append_assoc, ← hlength]
    exact forward_word _ _
  rw [hplace]
  simp [Cursor.atBoundary, isBoundary, separates, hd, he]

theorem atBoundary_after_word (hrest : ∀ c, rest.head? = some c → isBlank c = true) :
    (Cursor.mk word.reverse rest).atBoundary = true := by
  unfold Cursor.atBoundary
  dsimp only
  cases hhead : rest.head? with
  | none => exact isBoundary_none_right _
  | some c =>
    cases word.reverse.head? with
    | none => rfl
    | some d => exact separates_of_isBlank_right d (hrest c hhead)

/-- A reading that is bounded goes to the end of the word. -/
theorem readBounded?_of_extent {length : Nat} (hletters : ∀ c ∈ word, classify c = .letter)
    (hrest : ∀ c, rest.head? = some c → isBlank c = true)
    (hextent : pattern.extent (word ++ rest) = some ⟨length, []⟩) (hfollow : pattern.follow = none)
    (hpos : 0 < length) (hle : length ≤ word.length) :
    pattern.readBounded? (Cursor.start (word ++ rest)) =
      if length = word.length then some (⟨word, []⟩, ⟨word.reverse, rest⟩) else none := by
  have hread : pattern.read? (Cursor.start (word ++ rest)) =
      some (⟨word.take length, []⟩, (Cursor.start (word ++ rest)).forward length) := by
    have hadmits : ∀ there, pattern.admits there = true := by
      intro there
      rw [Pattern.admits, hfollow]
    have htake : (word ++ rest).take length = word.take length :=
      List.take_append_of_le_length hle
    simp only [Pattern.read?, Cursor.start, hextent, htake, hadmits, if_true]
    cases hword : word.take length with
    | nil =>
      have hlength := congrArg List.length hword
      rw [List.length_take, Nat.min_eq_left hle] at hlength
      exact absurd hlength (Nat.ne_of_gt hpos)
    | cons c text => rfl
  have hstart : (Cursor.start (word ++ rest)).atBoundary = true := isBoundary_none_left _
  rw [Pattern.readBounded?, if_pos hstart, hread, Option.filter_some]
  dsimp only
  by_cases hlength : length = word.length
  · simp only [hlength, forward_word, List.take_length, atBoundary_after_word hrest, if_true]
  · simp only [hlength, atBoundary_inside hletters hpos (Nat.lt_of_le_of_ne hle hlength),
      if_false, Bool.false_eq_true]

/-- A pattern that looks at the case of no letter, nor at what follows a word, reads words. -/
theorem readsWords_of_extent (hfollow : pattern.follow = none)
    (hsame : ∀ word rest, lowercase word ∈ vocabulary →
      (∀ c, rest.head? = some c → isBlank c = true) →
        pattern.extent (word ++ rest) = pattern.extent (lowercase word))
    (hform : ∀ key ∈ vocabulary, ∀ e, pattern.extent key = some e →
      e.groups = [] ∧ 0 < e.length ∧ e.length ≤ key.length) :
    pattern.ReadsWords vocabulary := by
  intro word rest hword hrest
  have hkey : lowercase (lowercase word) ∈ vocabulary := by
    rw [lowercase_of_mem_vocabulary hword]
    exact hword
  unfold Pattern.takes
  cases hextent : pattern.extent (lowercase word) with
  | none =>
    have hkeynone : pattern.extent (lowercase word ++ []) = none := by rwa [List.append_nil]
    have hnone := readBounded?_eq_none hkeynone
    rw [List.append_nil] at hnone
    rw [readBounded?_eq_none ((hsame word rest hword hrest).trans hextent), hnone]
    rfl
  | some e =>
    obtain ⟨length, groups⟩ := e
    obtain ⟨hgroups, hpos, hle⟩ := hform _ hword _ hextent
    dsimp only at hgroups hpos hle
    subst hgroups
    have hkeyextent : pattern.extent (lowercase word ++ []) = some ⟨length, []⟩ := by
      rwa [List.append_nil]
    have hkeyread := readBounded?_of_extent (letters_of_spelled hkey) (by simp) hkeyextent
      hfollow hpos hle
    have hwordread := readBounded?_of_extent (letters_of_spelled hword) hrest
      ((hsame word rest hword hrest).trans hextent) hfollow hpos (length_lowercase hword ▸ hle)
    rw [List.append_nil, length_lowercase hword] at hkeyread
    rw [hkeyread, hwordread]
    by_cases hlength : length = word.length
    · simp [hlength]
    · simp [hlength]

/-- A pattern that reads nothing where a word begins reads words. -/
theorem readsWords_of_none
    (hnone : ∀ word rest, lowercase word ∈ vocabulary →
      (∀ c, rest.head? = some c → isBlank c = true) →
        pattern.readBounded? (Cursor.start (word ++ rest)) = none) :
    pattern.ReadsWords vocabulary := by
  intro word rest hword hrest
  have hkey : lowercase (lowercase word) ∈ vocabulary := by
    rw [lowercase_of_mem_vocabulary hword]
    exact hword
  have hkeyread := hnone (lowercase word) [] hkey (by simp)
  rw [List.append_nil] at hkeyread
  rw [hnone word rest hword hrest, Pattern.takes, hkeyread]
  rfl

end Reading

/-! ## Words without regard to case -/

theorem beginsWith_of_spelled {key word letters rest : Text}
    (hkey : ∀ k ∈ key, k ∈ '-' :: spellingLetters)
    (hfold : word.map foldChar = letters.map foldChar)
    (hrest : ∀ c, rest.head? = some c → isBlank c = true) :
    beginsWith sameFold key (word ++ rest) = beginsWith sameFold key letters := by
  induction key generalizing word letters with
  | nil => rfl
  | cons k key ih =>
    cases word with
    | nil =>
      cases letters with
      | cons d letters => simp at hfold
      | nil =>
        cases rest with
        | nil => rfl
        | cons c rest =>
          have hblank := sameFold_blank (hkey k List.mem_cons_self) (hrest c rfl)
          simp only [List.nil_append, beginsWith, hblank, Bool.false_and]
    | cons c word =>
      cases letters with
      | nil => simp at hfold
      | cons d letters =>
        obtain ⟨hcd, hfold⟩ := List.cons.inj hfold
        have hsame : sameFold k c = sameFold k d := by
          unfold sameFold
          rw [hcd]
        simp only [List.cons_append, beginsWith, hsame]
        rw [ih (fun j hj => hkey j (List.mem_cons_of_mem k hj)) hfold]

theorem length_le_of_beginsWith {same : Char → Char → Bool} {key text : Text}
    (h : beginsWith same key text = true) : key.length ≤ text.length := by
  induction key generalizing text with
  | nil => exact Nat.zero_le _
  | cons k key ih =>
    cases text with
    | nil => simp [beginsWith] at h
    | cons c text =>
      simp only [beginsWith, Bool.and_eq_true] at h
      exact Nat.succ_le_succ (ih h.2)

/-- The words are made of the letters, or of hyphens, one at least each. -/
def Spellable (keys : List Text) : Prop :=
  ∀ key ∈ keys, key ≠ [] ∧ ∀ k ∈ key, k ∈ '-' :: spellingLetters

instance (keys : List Text) : Decidable (Spellable keys) :=
  inferInstanceAs (Decidable (∀ key ∈ keys, key ≠ [] ∧ ∀ k ∈ key, k ∈ '-' :: spellingLetters))

/-- A pattern that looks for some words without regard to case reads words. -/
theorem readsWords_of_caseless {pattern : Pattern} {keys : List Text} (hkeys : Spellable keys)
    (hextent : pattern.extent = (Pattern.caseless keys).extent) (hfollow : pattern.follow = none) :
    pattern.ReadsWords vocabulary := by
  apply readsWords_of_extent hfollow
  · intro word rest hword hrest
    have hfold : word.map foldChar = (lowercase word).map foldChar := by
      rw [map_foldChar_eq_lowercase hword, map_foldChar_of_mem_vocabulary hword]
    have hfind : keys.find? (fun key => beginsWith sameFold key (word ++ rest)) =
        keys.find? (fun key => beginsWith sameFold key (lowercase word)) := by
      apply List.find?_congr
      intro key hkey
      exact beginsWith_of_spelled (hkeys key hkey).2 hfold hrest
    simp only [hextent, Pattern.caseless, hfind]
  · intro key _ e he
    simp only [hextent, Pattern.caseless] at he
    obtain ⟨found, hfound, rfl⟩ := Option.map_eq_some_iff.mp he
    have hbegins := List.find?_some hfound
    have hne := (hkeys found (List.mem_of_find?_eq_some hfound)).1
    exact ⟨rfl, List.length_pos_of_ne_nil hne, length_le_of_beginsWith hbegins⟩

theorem mem_vocabulary_of_entry {table : WordTable} {word : String} {n : Nat}
    (htable : table ∈ wordTables) (h : (word, n) ∈ table.entries) : word.toList ∈ vocabulary :=
  List.mem_cons_of_mem _
    (List.mem_flatMap.mpr ⟨table, htable, List.mem_map.mpr ⟨(word, n), h, rfl⟩⟩)

theorem spellable_words {table : WordTable} (htable : table ∈ wordTables) :
    Spellable table.words := by
  intro key hkey
  obtain ⟨⟨word, n⟩, hentry, rfl⟩ := List.mem_map.mp (mem_sortBy.mp hkey)
  obtain ⟨hne, hletters⟩ := spelled_of_mem_vocabulary _ (mem_vocabulary_of_entry htable hentry)
  exact ⟨hne, fun k hk => List.mem_cons_of_mem _ (hletters k hk)⟩

/-! ## Figures and suffixes -/

/-- Nothing with figures begins with a letter. -/
theorem figures_of_letter {c : Char} (h : classify c = .letter) (rest : Text) :
    integerForm (c :: rest) = none ∧ groupedDecimalForm (c :: rest) = none ∧
      groupedIntegerForm (c :: rest) = none ∧ decimalForm (c :: rest) = none ∧
      pointDecimalForm (c :: rest) = none := by
  have hdigit : c.isDigit = false := by
    rw [Bool.eq_false_iff]
    intro hc
    rw [classify_of_isDigit hc] at h
    exact absurd h (by decide)
  have hpoint : c ≠ '.' := by
    rintro rfl
    exact absurd h (by decide)
  have hcomma : c ≠ ',' := by
    rintro rfl
    exact absurd h (by decide)
  have hfigures : splitFigures (c :: rest) = ([], c :: rest) := by
    simp [splitFigures, hdigit]
  have hgroups : ∀ limit, splitGroups limit (c :: rest) = ([], c :: rest) := by
    intro limit
    unfold splitGroups
    split
    · rename_i heq
      exact absurd (List.cons.inj heq).1 hpoint
    · rfl
  refine ⟨?_, ?_, ?_, ?_, ?_⟩
  · simp [integerForm, maxIntegerFigures, hdigit]
  · simp [groupedDecimalForm, hfigures, hgroups, hcomma]
  · simp [groupedIntegerForm, hdigit]
  · simp [decimalForm, hfigures, hcomma]
  · simp [pointDecimalForm, hfigures, hpoint]

theorem readsWords_of_letter {pattern : Pattern}
    (h : ∀ c rest, classify c = .letter → pattern.extent (c :: rest) = none) :
    pattern.ReadsWords vocabulary := by
  apply readsWords_of_none
  intro word rest hword _
  obtain ⟨c, letters, rfl⟩ := List.exists_cons_of_ne_nil (ne_nil_of_spelled hword)
  exact readBounded?_eq_none (h c _ (letters_of_spelled hword c List.mem_cons_self))

theorem isAlphabetic_of_classify {c : Char} (h : classify c = .letter) : isAlphabetic c = true := by
  by_contra hc
  rw [classify, if_neg hc] at h
  split at h
  · exact absurd h (by decide)
  · split at h <;> exact absurd h (by decide)

/-- A letter for a scale is the whole word, and no word of the tables is such a letter. -/
theorem readsWords_suffix :
    ((Pattern.caselessLetter ['k', 'm', 'g']).followedBy noWordFollows).ReadsWords
      vocabulary := by
  apply readsWords_of_none
  intro word rest hword _
  obtain ⟨c, letters, rfl⟩ := List.exists_cons_of_ne_nil (ne_nil_of_spelled hword)
  have hfold := map_foldChar_eq_lowercase hword
  cases letters with
  | nil =>
    have hy : ∀ key ∈ vocabulary, key.length = 1 → key = ['y'] := by decide +kernel
    rw [← hfold] at hword
    have hc : foldChar c = 'y' := (List.cons.inj (hy _ hword rfl)).1
    have hnone : ['k', 'm', 'g'].any (fun letter => sameFold letter c) = false := by
      simp only [List.any_cons, List.any_nil, sameFold, hc]
      decide
    apply readBounded?_eq_none
    exact if_neg (by rw [hnone]; decide)
  | cons d letters =>
    have hd := isAlphabetic_of_classify (letters_of_spelled hword d (by simp))
    have hrefused : noWordFollows (d :: (letters ++ rest)) = false := by
      simp [noWordFollows, hd]
    have hread : ((Pattern.caselessLetter ['k', 'm', 'g']).followedBy noWordFollows).read?
        (Cursor.start (c :: d :: letters ++ rest)) = none := by
      unfold Pattern.read? Pattern.followedBy Pattern.caselessLetter Pattern.admits
      by_cases hc : (['k', 'm', 'g'].any fun letter => sameFold letter c) = true
      · simp only [Cursor.start, List.cons_append, hc, if_true, Cursor.forward,
          List.take_succ_cons, List.take_zero, hrefused, if_false, Bool.false_eq_true]
      · simp only [Cursor.start, List.cons_append, hc, if_false, Bool.false_eq_true]
    rw [Pattern.readBounded?, hread]
    split <;> rfl

/-! ## The rules -/

theorem readsWords_table {table : WordTable} (h : table ∈ wordTables) :
    table.pattern.ReadsWords vocabulary :=
  readsWords_of_caseless (spellable_words h) rfl rfl

theorem readsWords_words {keys : List Text} (h : Spellable keys) :
    (Pattern.caseless keys).ReadsWords vocabulary := readsWords_of_caseless h rfl rfl

/-- The pattern of an element of text. -/
def Element.pattern? : Element → Option Pattern
  | .text pattern => some pattern
  | .number _ => none

theorem patterns_figureRules :
    (figureRules.flatMap fun rule => rule.elements.filterMap Element.pattern?) =
      [Pattern.integer.followedBy noFigureFollows,
       Pattern.groupedDecimal.followedBy noFigureFollows,
       Pattern.groupedInteger.followedBy noNumberFollows,
       Pattern.decimal.followedBy noFigureFollows,
       Pattern.pointDecimal.followedBy noNumberFollows] := rfl

theorem patterns_wordRules :
    (wordRules.flatMap fun rule => rule.elements.filterMap Element.pattern?) =
      wordTables.map WordTable.pattern := rfl

theorem patterns_compoundRules :
    (compoundRules.flatMap fun rule => rule.elements.filterMap Element.pattern?) =
      [.caseless ["y".toList], .caseless ["y".toList],
       .caseless ["-".toList, "menos".toList], .caseless ["punto".toList],
       (Pattern.caselessLetter ['k', 'm', 'g']).followedBy noWordFollows, hundreds.pattern,
       .caseless ["mil".toList], .caseless ["mil".toList], .caseless ["mil".toList]] := rfl

theorem readsWords_figures : ∀ pattern ∈ figureRules.flatMap fun rule =>
    rule.elements.filterMap Element.pattern?, pattern.ReadsWords vocabulary := by
  rw [patterns_figureRules]
  simp only [List.forall_mem_cons, List.not_mem_nil, false_implies, implies_true, and_true]
  refine ⟨?_, ?_, ?_, ?_, ?_⟩ <;> apply readsWords_of_letter <;> intro c rest hc <;>
    obtain ⟨h1, h2, h3, h4, h5⟩ := figures_of_letter hc rest
  · exact (congrArg (Option.map _) h1 :)
  · exact (congrArg (Option.map _) h2 :)
  · exact (congrArg (Option.map _) h3 :)
  · exact (congrArg (Option.map _) h4 :)
  · exact (congrArg (Option.map _) h5 :)

theorem readsWords_compounds : ∀ pattern ∈ compoundRules.flatMap fun rule =>
    rule.elements.filterMap Element.pattern?, pattern.ReadsWords vocabulary := by
  rw [patterns_compoundRules]
  simp only [List.forall_mem_cons, List.not_mem_nil, false_implies, implies_true, and_true]
  have hy := readsWords_words (by decide : Spellable ["y".toList])
  have hmil := readsWords_words (by decide : Spellable ["mil".toList])
  have hminus := readsWords_words (by decide : Spellable ["-".toList, "menos".toList])
  have hpoint := readsWords_words (by decide : Spellable ["punto".toList])
  have hhundreds : hundreds ∈ wordTables := by simp [wordTables]
  exact ⟨hy, hy, hminus, hpoint, readsWords_suffix, readsWords_table hhundreds, hmil, hmil, hmil⟩

/-- All the rules read words of the tables as wholes, or do not read them. -/
theorem readsWords_spanishRules : ∀ rule ∈ spanishRules, rule.ReadsWords vocabulary := by
  intro rule hrule pattern hpattern
  have hmem : ∀ rules : Registry, rule ∈ rules → pattern ∈ rules.flatMap fun rule =>
      rule.elements.filterMap Element.pattern? := fun rules h =>
    List.mem_flatMap.mpr ⟨rule, h, List.mem_filterMap.mpr ⟨_, hpattern, rfl⟩⟩
  rcases List.mem_append.mp hrule with hrule | hrule
  · rcases List.mem_append.mp hrule with hrule | hrule
    · exact readsWords_figures pattern (hmem _ hrule)
    · have htables := hmem _ hrule
      rw [patterns_wordRules] at htables
      obtain ⟨table, htable, rfl⟩ := List.mem_map.mp htables
      exact readsWords_table htable
  · exact readsWords_compounds pattern (hmem _ hrule)

/-! ## Which words the patterns take -/

/-- The patterns for what is no word of the tables. -/
def strangePatterns : List Pattern :=
  (figureRules.flatMap fun rule => rule.elements.filterMap Element.pattern?) ++
    [.caseless ["-".toList, "menos".toList], .caseless ["punto".toList],
     (Pattern.caselessLetter ['k', 'm', 'g']).followedBy noWordFollows]

theorem takes_strange : ∀ pattern ∈ strangePatterns, ∀ key ∈ vocabulary,
    pattern.takes key = false := by
  decide +kernel

/-- A pattern for one word takes this word. -/
theorem takes_word_iff : ∀ word ∈ [andWord, mil], ∀ key ∈ vocabulary,
    (Pattern.caseless [word]).takes key = true ↔ key = word := by
  decide +kernel

theorem takes_entry : ∀ table ∈ wordTables, ∀ entry ∈ table.entries,
    table.pattern.takes entry.1.toList = true := by
  decide +kernel

end SpanishNumerals
