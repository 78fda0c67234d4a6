-- The four rules for numbers in one word. Each of them has its table, and gives a number for each
-- stretch that is a word of the table in whatever case. The pattern tries the longer words first;
-- a word longer than the stretch would go on in a letter, where no stretch ends.
import SpanishNumerals.Proofs.SimpleRules
import SpanishNumerals.Proofs.SpelledNumbers

namespace SpanishNumerals

/-! ## The longest word first -/

theorem WordTable.pairwise_words (table : WordTable) :
    table.words.Pairwise fun a b => b.length ≤ a.length := by
  unfold words
  refine (pairwise_sortBy ?_ ?_ _).imp ?_
  · intro a b c hab hbc
    simp only [Bool.or_eq_true, Bool.and_eq_true, decide_eq_true_eq, Bool.not_eq_true',
      decide_eq_false_iff_not] at hab hbc ⊢
    rcases hab with hab | ⟨hab, hle⟩
    · left
      omega
    · rcases hbc with hbc | ⟨hbc, hle'⟩
      · left
        omega
      · exact Or.inr ⟨hab.trans hbc, List.le_trans hle hle'⟩
  · intro a b
    simp only [Bool.or_eq_true, Bool.and_eq_true, decide_eq_true_eq, Bool.not_eq_true',
      decide_eq_false_iff_not]
    rcases Nat.lt_trichotomy a.length b.length with hlt | heq | hlt
    · exact Or.inr (Or.inl hlt)
    · exact (List.le_total a b).imp (fun hle => Or.inr ⟨heq, hle⟩)
        fun hle => Or.inr ⟨heq.symm, hle⟩
    · exact Or.inl (Or.inl hlt)
  · intro a b h
    simp at h
    omega

/-- Of words that get shorter the first that passes a test is one of the longest. -/
theorem find?_longest {keys : List Text} {p : Text → Bool} {key : Text}
    (hsorted : keys.Pairwise fun a b => b.length ≤ a.length) (hkey : key ∈ keys)
    (hp : p key = true) : ∃ longest, keys.find? p = some longest ∧ key.length ≤ longest.length := by
  induction keys with
  | nil => simp at hkey
  | cons first keys ih =>
    obtain ⟨hfirst, hrest⟩ := List.pairwise_cons.mp hsorted
    by_cases hpfirst : p first = true
    · refine ⟨first, List.find?_cons_of_pos hpfirst, ?_⟩
      rcases List.mem_cons.mp hkey with rfl | hmem
      · exact Nat.le_refl _
      · exact hfirst key hmem
    · rw [List.find?_cons_of_neg hpfirst]
      rcases List.mem_cons.mp hkey with rfl | hmem
      · exact absurd hp hpfirst
      · exact ih hrest hmem

/-! ## What a table reads -/

section Table

variable {table : WordTable} (htable : table ∈ wordTables) {read back : Text} {value : Nat}

include htable

theorem mem_vocabulary_of_mem_words {key : Text} (h : key ∈ table.words) : key ∈ vocabulary := by
  obtain ⟨⟨word, n⟩, hentry, rfl⟩ := List.mem_map.mp (mem_sortBy.mp h)
  exact mem_vocabulary_of_entry htable hentry

/-- A word longer than the stretch goes on in a letter. -/
theorem letter_of_longer {key : Text} (hkey : key ∈ table.words)
    (hbegins : beginsWith sameFold key (read ++ back) = true) (hlonger : read.length < key.length) :
    ∃ c, back.head? = some c ∧ classify c = .letter := by
  have hlength := length_le_of_beginsWith hbegins
  rw [List.length_append] at hlength
  obtain ⟨c, more, rfl⟩ := List.exists_cons_of_ne_nil
    (List.ne_nil_of_length_pos (by omega : 0 < back.length))
  have hread : c ∈ (read ++ c :: more).take key.length := by
    obtain ⟨k, hk⟩ := Nat.exists_eq_add_of_lt hlonger
    rw [hk, Nat.add_assoc, List.take_length_add_append]
    simp
  have hvocabulary := mem_vocabulary_of_mem_words htable hkey
  rw [beginsWith_sameFold_iff, map_foldChar_of_mem_vocabulary hvocabulary] at hbegins
  have hmem : foldChar c ∈ key := hbegins ▸ List.mem_map_of_mem hread
  exact ⟨c, rfl, letter_of_foldChar ((spelled_of_mem_vocabulary key hvocabulary).2 _ hmem) rfl⟩

/-- The pattern reads a word of the table that ends at a boundary to its end. -/
theorem reads_of_spells (hspells : table.Spells value (lowercase read)) {front : Text}
    (hcloses : isBoundary (front ++ read).getLast? back.head? = true) :
    table.pattern.Reads ⟨read, []⟩ back := by
  have hspelled := hspells.mem_vocabulary htable
  have hfold := map_foldChar_eq_lowercase hspelled
  have hne := ne_nil_of_spelled hspelled
  have hkey : lowercase read ∈ table.words := by
    obtain ⟨word, hentry, heq⟩ := hspells
    exact mem_sortBy.mpr (List.mem_map.mpr ⟨_, hentry, heq.symm⟩)
  have hbegins : beginsWith sameFold (lowercase read) (read ++ back) = true := by
    rw [beginsWith_sameFold_iff, length_lowercase hspelled, List.take_left, hfold,
      map_foldChar_of_mem_vocabulary hspelled]
  obtain ⟨longest, hfind, hle⟩ :=
    @find?_longest _ (fun key => beginsWith sameFold key (read ++ back)) _ table.pairwise_words
      hkey hbegins
  rw [length_lowercase hspelled] at hle
  refine (reads_caseless_iff rfl rfl).mpr ⟨hne, rfl, longest, hfind, ?_⟩
  by_contra hlength
  have hlongest := List.find?_some hfind
  obtain ⟨c, hc, hletter⟩ := letter_of_longer htable (List.mem_of_find?_eq_some hfind) hlongest
    (Nat.lt_of_le_of_ne hle (Ne.symm hlength))
  obtain ⟨before, d, rfl⟩ := (List.eq_nil_or_concat' read).resolve_left hne
  have hd := letters_of_spelled hspelled d (by simp)
  rw [← List.append_assoc, List.getLast?_concat, hc] at hcloses
  simp [isBoundary, separates, hd, hletter] at hcloses

/-- What the production makes a token of is a word of the table. -/
theorem spells_of_produce {token : Token}
    (h : table.produce [.capture ⟨read, []⟩] = some token) :
    ∃ value, table.Spells value (lowercase read) ∧ token = ⟨.ofNat value, none⟩ := by
  have hbind : ((table.lookup read).toOption.bind fun n => Token.plain? (Value.ofNat? n)) =
      some token := h
  obtain ⟨value, hvalue, _⟩ := Option.bind_eq_some_iff.mp hbind
  have hspells := spells_of_lookup hvalue
  -- A word with no gap before it.
  have hmade := @produce_of_spells table htable ⟨[], read, by simp⟩ value hspells
  rw [h] at hmade
  exact ⟨value, hspells, Option.some.inj hmade⟩

end Table

/-! ## What the rule of a table gives -/

/-- The rules for words, each with its table. -/
def tableRules : List (Rule × WordTable) := wordRules.zip wordTables

theorem mem_wordRules_iff {rule : Rule} :
    rule ∈ wordRules ↔ ∃ table, (rule, table) ∈ tableRules := by
  have hfirst : tableRules.map Prod.fst = wordRules := rfl
  rw [← hfirst, List.mem_map]
  constructor
  · rintro ⟨⟨rule, table⟩, hmem, rfl⟩
    exact ⟨table, hmem⟩
  · rintro ⟨table, hmem⟩
    exact ⟨_, hmem, rfl⟩

section Rules

variable {rule rule' : Rule} {table table' : WordTable} (h : (rule, table) ∈ tableRules)

include h

theorem mem_wordTables_of_tableRules : table ∈ wordTables := (List.of_mem_zip h).2

theorem mem_spanishRules_of_tableRules : rule ∈ spanishRules := by
  simp only [spanishRules, List.mem_append]
  exact Or.inl (Or.inr (List.of_mem_zip h).1)

theorem fields_of_tableRules :
    rule.elements = [.text table.pattern] ∧ rule.produce = table.produce := by
  simp only [tableRules, wordRules, wordTables, List.zip_cons_cons, List.zip_nil_right,
    List.mem_cons, List.not_mem_nil, or_false, Prod.mk.injEq] at h
  rcases h with ⟨rfl, rfl⟩ | ⟨rfl, rfl⟩ | ⟨rfl, rfl⟩ | ⟨rfl, rfl⟩ <;> exact ⟨rfl, rfl⟩

theorem beginsUnblank_of_tableRules : table.pattern.BeginsUnblank :=
  beginsUnblank_of_mem (mem_patternsOf.mpr ⟨_, mem_spanishRules_of_tableRules h,
    (fields_of_tableRules h).1 ▸ List.mem_cons_self⟩)

/-- The rule of a table gives a numeral for each stretch that is a word of the table. -/
theorem mem_given_table_iff {text : Text} {n : Numeral} :
    n ∈ given text rule ↔ n.rule = rule.name ∧ ∃ front back value,
      Stretch text front n.text back ∧ n.start = byteLength front ∧
        table.Spells value (lowercase n.text) ∧ n.token = ⟨.ofNat value, none⟩ := by
  have htable := mem_wordTables_of_tableRules h
  obtain ⟨helements, hproduce⟩ := fields_of_tableRules h
  rw [mem_given_single helements (beginsUnblank_of_tableRules h), hproduce]
  refine and_congr_right fun _ => ?_
  constructor
  · rintro ⟨front, back, ⟨read, groups⟩, hstretch, hstart, htext, hreads, htoken⟩
    obtain ⟨_, hgroups, _⟩ := (reads_caseless_iff rfl rfl).mp hreads
    dsimp only at htext hgroups
    subst htext hgroups
    obtain ⟨value, hspells, htoken⟩ := spells_of_produce htable htoken
    exact ⟨front, back, value, hstretch, hstart, hspells, htoken⟩
  · rintro ⟨front, back, value, hstretch, hstart, hspells, htoken⟩
    refine ⟨front, back, ⟨n.text, []⟩, hstretch, hstart, rfl,
      reads_of_spells htable hspells hstretch.closes, ?_⟩
    rw [htoken]
    exact @produce_of_spells table htable ⟨[], n.text, by simp⟩ value hspells

/-- A word has one number, in whatever table. -/
theorem value_eq_of_spells (h' : (rule', table') ∈ tableRules) {value value' : Nat} {key : Text}
    (hspells : table.Spells value key) (hspells' : table'.Spells value' key) : value = value' := by
  rw [← hspells.wordValue_eq (mem_wordTables_of_tableRules h),
    ← hspells'.wordValue_eq (mem_wordTables_of_tableRules h')]

/-- No word is in two tables. -/
theorem name_eq_of_spells (h' : (rule', table') ∈ tableRules) {value value' : Nat} {key : Text}
    (hspells : table.Spells value key) (hspells' : table'.Spells value' key) :
    rule.name = rule'.name := by
  have hnumbers : ∀ a ∈ tableRules, ∀ b ∈ tableRules, ∀ entry ∈ a.2.entries,
      ∀ entry' ∈ b.2.entries, entry.2 = entry'.2 → a.1.name = b.1.name := by decide +kernel
  have hvalue := value_eq_of_spells h h' hspells hspells'
  obtain ⟨word, hentry, _⟩ := hspells
  obtain ⟨word', hentry', _⟩ := hspells'
  exact hnumbers _ h _ h' _ hentry _ hentry' hvalue

end Rules

end SpanishNumerals
