-- What the Spanish rules find in the first pass. No two of their numbers are at one place: a text
-- of figures has one form, a word is in one table, and no text is both. So each rule for figures
-- finds the stretches of its form, and each rule for words the words of its table.
import SpanishNumerals.Proofs.FigureNumbers
import SpanishNumerals.Proofs.WordNumbers

namespace SpanishNumerals

/-! ## One number at one place -/

theorem composes_of_compoundRules : ∀ rule ∈ compoundRules, rule.composes = true := by decide

theorem nodup_names : (spanishRules.map Rule.name).Nodup := by decide

/-- In the first pass the rules for figures and for words alone give numbers. -/
theorem simple_of_mem_proposals {text : Text} {n : Numeral}
    (h : n ∈ proposals spanishRules text []) :
    (∃ form : FigureForm, n ∈ given text form.rule) ∨
      ∃ rule table, (rule, table) ∈ tableRules ∧ n ∈ given text rule := by
  obtain ⟨rule, hrule, hn⟩ := mem_proposals_first.mp h
  simp only [spanishRules, List.mem_append] at hrule
  rcases hrule with (hfigure | hword) | hcompound
  · obtain ⟨form, rfl⟩ := FigureForm.mem_figureRules_iff.mp hfigure
    exact Or.inl ⟨form, hn⟩
  · obtain ⟨table, htable⟩ := mem_wordRules_iff.mp hword
    exact Or.inr ⟨rule, table, htable, hn⟩
  · rw [given_of_composes (composes_of_compoundRules rule hcompound)] at hn
    simp at hn

/-- A rule is told by its name. -/
theorem rule_eq_of_name {rule rule' : Rule} (h : rule ∈ spanishRules) (h' : rule' ∈ spanishRules)
    (hname : rule.name = rule'.name) : rule = rule' :=
  List.inj_on_of_nodup_map nodup_names h h' hname

theorem rule_eq_of_spells {rule rule' : Rule} {table table' : WordTable}
    (h : (rule, table) ∈ tableRules) (h' : (rule', table') ∈ tableRules) {value value' : Nat}
    {key : Text} (hspells : table.Spells value key) (hspells' : table'.Spells value' key) :
    rule = rule' :=
  rule_eq_of_name (mem_spanishRules_of_tableRules h) (mem_spanishRules_of_tableRules h')
    (name_eq_of_spells h h' hspells hspells')

/-- A text of figures is no word: it ends with a figure. -/
theorem FigureForm.Writes.not_mem_vocabulary {form : FigureForm} {rest read whole fraction : Text}
    (h : form.Writes rest read whole fraction) : lowercase read ∉ vocabulary := by
  intro hspelled
  obtain ⟨before, c, rfl, hc⟩ := h.ends
  have hletter := letters_of_spelled hspelled c (by simp)
  simp [classify_of_isDigit hc] at hletter

section Places

variable {text : Text} {m n : Numeral} (hstart : m.start = n.start) (hstop : m.stop = n.stop)

include hstart hstop

/-- A text has one form. -/
theorem eq_of_figures {form form' : FigureForm} (hm : m ∈ given text form.rule)
    (hn : n ∈ given text form'.rule) : m = n := by
  obtain ⟨_, front, back, whole, fraction, value, hstretch, hfront, hwrites, _⟩ :=
    FigureForm.mem_given_iff.mp hm
  obtain ⟨_, front', back', whole', fraction', value', hstretch', hfront', hwrites', _⟩ :=
    FigureForm.mem_given_iff.mp hn
  obtain ⟨rfl, htext, rfl⟩ := hstretch.unique_of_span hstretch' hfront hfront' hstart hstop
  rw [htext] at hwrites
  obtain rfl := hwrites.form_unique hwrites'
  exact given_single_unique form.elements_rule form.beginsUnblank hm hn hstart hstop

/-- A word is in one table. -/
theorem eq_of_words {rule rule' : Rule} {table table' : WordTable}
    (h : (rule, table) ∈ tableRules) (h' : (rule', table') ∈ tableRules)
    (hm : m ∈ given text rule) (hn : n ∈ given text rule') : m = n := by
  obtain ⟨_, front, back, value, hstretch, hfront, hspells, _⟩ := (mem_given_table_iff h).mp hm
  obtain ⟨_, front', back', value', hstretch', hfront', hspells', _⟩ :=
    (mem_given_table_iff h').mp hn
  obtain ⟨rfl, htext, rfl⟩ := hstretch.unique_of_span hstretch' hfront hfront' hstart hstop
  rw [htext] at hspells
  obtain rfl := rule_eq_of_spells h h' hspells hspells'
  exact given_single_unique (fields_of_tableRules h).1 (beginsUnblank_of_tableRules h) hm hn
    hstart hstop

/-- No text is written with figures and a word. -/
theorem not_figures_and_word {form : FigureForm} {rule : Rule} {table : WordTable}
    (h : (rule, table) ∈ tableRules) (hm : m ∈ given text form.rule)
    (hn : n ∈ given text rule) : False := by
  obtain ⟨_, front, back, whole, fraction, value, hstretch, hfront, hwrites, _⟩ :=
    FigureForm.mem_given_iff.mp hm
  obtain ⟨_, front', back', value', hstretch', hfront', hspells, _⟩ :=
    (mem_given_table_iff h).mp hn
  obtain ⟨_, htext, _⟩ := hstretch.unique_of_span hstretch' hfront hfront' hstart hstop
  rw [htext] at hwrites
  exact hwrites.not_mem_vocabulary (hspells.mem_vocabulary (mem_wordTables_of_tableRules h))

end Places

theorem unambiguous_spanishRules (text : Text) : Unambiguous spanishRules text := by
  intro m hm n hn hstart hstop
  rcases simple_of_mem_proposals hm with ⟨form, hm⟩ | ⟨rule, table, h, hm⟩
  · rcases simple_of_mem_proposals hn with ⟨form', hn⟩ | ⟨rule', table', h', hn⟩
    · exact eq_of_figures hstart hstop hm hn
    · exact (not_figures_and_word hstart hstop h' hm hn).elim
  · rcases simple_of_mem_proposals hn with ⟨form', hn⟩ | ⟨rule', table', h', hn⟩
    · exact (not_figures_and_word hstart.symm hstop.symm h hn hm).elim
    · exact eq_of_words hstart hstop h h' hm hn

/-! ## What the simple rules find -/

/-- The numerals that some of the rules found. -/
def foundBy (rules : Registry) (found : List Numeral) : List Numeral :=
  found.filter fun n => n.rule ∈ rules.map Rule.name

section Found

variable {simple : Registry} {text : Text} {passes : Nat} {n : Numeral}
  (hsimple : ∀ rule ∈ simple, rule ∈ spanishRules ∧ ∃ pattern, rule.elements = [.text pattern])

include hsimple

/-- Rules of one pattern find what they give in the first pass. -/
theorem mem_foundBy_iff :
    n ∈ foundBy simple (candidates spanishRules text passes) ↔
      ∃ rule ∈ simple, n ∈ given text rule := by
  simp only [foundBy, List.mem_filter, decide_eq_true_eq, List.mem_map]
  constructor
  · rintro ⟨hn, rule, hrule, hname⟩
    obtain ⟨hspanish, pattern, helements⟩ := hsimple rule hrule
    exact ⟨rule, hrule,
      mem_given_of_mem_candidates nodup_names hspanish helements hn hname.symm⟩
  · rintro ⟨rule, hrule, hn⟩
    obtain ⟨hspanish, pattern, helements⟩ := hsimple rule hrule
    obtain ⟨reading, _, hmakes⟩ := mem_given.mp hn
    obtain ⟨token, _, rfl⟩ := Option.map_eq_some_iff.mp hmakes
    exact ⟨mem_candidates_of_mem_given (unambiguous_spanishRules text) hspanish hn passes,
      rule, hrule, rfl⟩

/-- At one place they find one number. -/
theorem nodup_spans_foundBy (text : Text) (passes : Nat) :
    ((foundBy simple (candidates spanishRules text passes)).map
      fun n => (n.start, n.stop)).Nodup := by
  refine ((nodup_candidates spanishRules text passes).filter _).map_on ?_
  intro m hm n hn hspan
  obtain ⟨rule, hrule, hm⟩ := (mem_foundBy_iff hsimple).mp hm
  obtain ⟨rule', hrule', hn⟩ := (mem_foundBy_iff hsimple).mp hn
  obtain ⟨hstart, hstop⟩ := Prod.mk.inj hspan
  exact unambiguous_spanishRules text m
    (mem_proposals_first.mpr ⟨rule, (hsimple rule hrule).1, hm⟩) n
    (mem_proposals_first.mpr ⟨rule', (hsimple rule' hrule').1, hn⟩) hstart hstop

end Found

theorem simple_figureRules : ∀ rule ∈ figureRules,
    rule ∈ spanishRules ∧ ∃ pattern, rule.elements = [.text pattern] := by
  intro rule hrule
  obtain ⟨form, rfl⟩ := FigureForm.mem_figureRules_iff.mp hrule
  exact ⟨form.mem_spanishRules, _, form.elements_rule⟩

theorem simple_wordRules : ∀ rule ∈ wordRules,
    rule ∈ spanishRules ∧ ∃ pattern, rule.elements = [.text pattern] := by
  intro rule hrule
  obtain ⟨table, h⟩ := mem_wordRules_iff.mp hrule
  exact ⟨mem_spanishRules_of_tableRules h, _, (fields_of_tableRules h).1⟩

theorem mem_foundBy_figureRules_iff {text : Text} {passes : Nat} {n : Numeral} :
    n ∈ foundBy figureRules (candidates spanishRules text passes) ↔
      ∃ form : FigureForm, ∃ front back whole fraction, ∃ value : Value,
        n.rule = form.rule.name ∧ Stretch text front n.text back ∧ n.start = byteLength front ∧
        form.Writes back n.text whole fraction ∧ value.IsWrittenBy whole fraction ∧
        n.token = ⟨value, none⟩ := by
  rw [mem_foundBy_iff simple_figureRules]
  constructor
  · rintro ⟨rule, hrule, hn⟩
    obtain ⟨form, rfl⟩ := FigureForm.mem_figureRules_iff.mp hrule
    obtain ⟨hname, front, back, whole, fraction, value, hstretch, hrest⟩ :=
      FigureForm.mem_given_iff.mp hn
    exact ⟨form, front, back, whole, fraction, value, hname, hstretch, hrest⟩
  · rintro ⟨form, front, back, whole, fraction, value, hname, hstretch, hrest⟩
    exact ⟨form.rule, FigureForm.mem_figureRules_iff.mpr ⟨form, rfl⟩, FigureForm.mem_given_iff.mpr
      ⟨hname, front, back, whole, fraction, value, hstretch, hrest⟩⟩

/-- The rules for figures find the stretches of their forms, one number for each, and the number
is the value nearest to what is written. They miss those alone that write no finite number. -/
theorem the_figure_rules_find_the_stretches_of_their_forms (text : Text) (passes : Nat) :
    (∀ n : Numeral, n ∈ foundBy figureRules (candidates spanishRules text passes) ↔
      ∃ form : FigureForm, ∃ front back whole fraction, ∃ value : Value,
        n.rule = form.rule.name ∧ Stretch text front n.text back ∧ n.start = byteLength front ∧
        form.Writes back n.text whole fraction ∧ value.IsWrittenBy whole fraction ∧
        n.token = ⟨value, none⟩) ∧
    ((foundBy figureRules (candidates spanishRules text passes)).map
      fun n => (n.start, n.stop)).Nodup ∧
    ∀ (form : FigureForm) (front read back whole fraction : Text), Stretch text front read back →
      form.Writes back read whole fraction →
        ((∃ n ∈ foundBy figureRules (candidates spanishRules text passes),
          n.start = byteLength front ∧ n.text = read) ↔ ¬ RoundsToInfinity whole fraction) := by
  refine ⟨fun _ => mem_foundBy_figureRules_iff,
    nodup_spans_foundBy simple_figureRules text passes, ?_⟩
  intro form front read back whole fraction hstretch hwrites
  rw [roundsToInfinity_iff, Classical.not_not]
  constructor
  · rintro ⟨n, hn, hfront, rfl⟩
    obtain ⟨form', front', back', whole', fraction', value, _, hstretch', hfront', hwrites',
      hvalue, _⟩ := mem_foundBy_figureRules_iff.mp hn
    obtain ⟨rfl, _, rfl⟩ := hstretch.unique hstretch' (hfront.symm.trans hfront') rfl
    obtain rfl := hwrites.form_unique hwrites'
    obtain ⟨rfl, rfl⟩ := hwrites.figures_unique hwrites'
    exact ⟨value, hvalue⟩
  · rintro ⟨value, hvalue⟩
    exact ⟨⟨byteLength front, read, ⟨value, none⟩, form.rule.name⟩,
      mem_foundBy_figureRules_iff.mpr
        ⟨form, front, back, whole, fraction, value, rfl, hstretch, rfl, hwrites, hvalue, rfl⟩,
      rfl, rfl⟩

/-- A decimal with a point between its thousands, behind a word. -/
theorem a_grouped_decimal_behind_a_word_is_found :
    Stretch "a 1.234,5".toList "a ".toList "1.234,5".toList [] ∧
    FigureForm.groupedDecimal.Writes [] "1.234,5".toList "1234".toList "5".toList ∧
    ∃ n ∈ foundBy figureRules (candidates spanishRules "a 1.234,5".toList 1),
      n.start = byteLength "a ".toList ∧ n.text = "1.234,5".toList := by
  have hstretch : Stretch "a 1.234,5".toList "a ".toList "1.234,5".toList [] :=
    ⟨rfl, by decide +kernel, by decide +kernel⟩
  have hfraction : AllFigures "5".toList := by simp [AllFigures]
  have hwhole : AllFigures "1234".toList := by simp [AllFigures]
  have hwrites : FigureForm.groupedDecimal.Writes [] "1.234,5".toList "1234".toList "5".toList :=
    @FigureForm.Writes.groupedDecimal [] "1".toList ".234".toList "5".toList 1 (by simp)
      (by simp [AllFigures]) (.cons rfl rfl rfl .nil) Nat.one_pos (by simp) hfraction
  obtain ⟨_, _, hmissed⟩ :=
    the_figure_rules_find_the_stretches_of_their_forms "a 1.234,5".toList 1
  have hfinite : ¬ RoundsToInfinity "1234".toList "5".toList := by
    rw [roundsToInfinity_iff, Classical.not_not]
    exact Value.exists_isWrittenBy hwhole hfraction (by simp)
  exact ⟨hstretch, hwrites, (hmissed _ _ _ _ _ _ hstretch hwrites).mpr hfinite⟩

/-- The rules for words find the stretches that are words of their tables in small letters, one
number for each, the number of the word. -/
theorem the_word_rules_find_the_words_of_their_tables (text : Text) (passes : Nat) :
    (∀ n : Numeral, n ∈ foundBy wordRules (candidates spanishRules text passes) ↔
      ∃ rule table front back value, (rule, table) ∈ tableRules ∧ n.rule = rule.name ∧
        Stretch text front n.text back ∧ n.start = byteLength front ∧
        table.Spells value (lowercase n.text) ∧ n.token = ⟨.ofNat value, none⟩) ∧
    ((foundBy wordRules (candidates spanishRules text passes)).map
      fun n => (n.start, n.stop)).Nodup := by
  refine ⟨fun n => ?_, nodup_spans_foundBy simple_wordRules text passes⟩
  rw [mem_foundBy_iff simple_wordRules]
  constructor
  · rintro ⟨rule, hrule, hn⟩
    obtain ⟨table, h⟩ := mem_wordRules_iff.mp hrule
    obtain ⟨hname, front, back, value, hstretch, hrest⟩ := (mem_given_table_iff h).mp hn
    exact ⟨rule, table, front, back, value, h, hname, hstretch, hrest⟩
  · rintro ⟨rule, table, front, back, value, h, hname, hstretch, hrest⟩
    exact ⟨rule, mem_wordRules_iff.mpr ⟨table, h⟩,
      (mem_given_table_iff h).mpr ⟨hname, front, back, value, hstretch, hrest⟩⟩

/-- With a long s the pattern reads a word that no table has. -/
example : candidates spanishRules "ſeis".toList 1 = [] := by decide +kernel

end SpanishNumerals
