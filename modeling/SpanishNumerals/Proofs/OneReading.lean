-- Rules of text alone never read one span twice. What one of them makes of a text, no other makes
-- a token of, wherever the text stands: a text of figures has one form, a word is in one table,
-- and no text is both. And at one place each of them reads at most once.
import SpanishNumerals.Proofs.FirstPass
import SpanishNumerals.Proofs.ReadingOrder

namespace SpanishNumerals

/-- The rules that read text alone. -/
def textRules : Registry := spanishRules.filter fun rule => !rule.composes

theorem textRules_eq : textRules = figureRules ++ wordRules := by
  have hfigures : ∀ rule ∈ figureRules, (!rule.composes) = true := by decide
  have hwords : ∀ rule ∈ wordRules, (!rule.composes) = true := by decide
  have hcompound : ∀ rule ∈ compoundRules, ¬ (!rule.composes) = true := by decide
  rw [textRules, spanishRules, List.filter_append, List.filter_append,
    List.filter_eq_self.mpr hfigures, List.filter_eq_self.mpr hwords,
    List.filter_eq_nil_iff.mpr hcompound, List.append_nil]

theorem length_textRules : textRules.length = 9 := by
  rw [textRules_eq]
  rfl

theorem mem_textRules_iff {rule : Rule} :
    rule ∈ textRules ↔
      (∃ form : FigureForm, rule = form.rule) ∨ ∃ table, (rule, table) ∈ tableRules := by
  rw [textRules_eq, List.mem_append, FigureForm.mem_figureRules_iff, mem_wordRules_iff]

theorem mem_spanishRules_of_textRules {rule : Rule} (h : rule ∈ textRules) :
    rule ∈ spanishRules := (List.mem_filter.mp h).1

theorem elements_of_textRules {rule : Rule} (h : rule ∈ textRules) :
    ∃ pattern, rule.elements = [.text pattern] := by
  rw [textRules_eq, List.mem_append] at h
  exact h.elim (fun h => (simple_figureRules rule h).2) fun h => (simple_wordRules rule h).2

theorem beginsUnblank_of_textRules {rule : Rule} {pattern : Pattern} (h : rule ∈ textRules)
    (helements : rule.elements = [.text pattern]) : pattern.BeginsUnblank :=
  beginsUnblank_of_mem (mem_patternsOf.mpr
    ⟨rule, mem_spanishRules_of_textRules h, helements ▸ List.mem_cons_self⟩)

theorem nodup_textRules : textRules.Nodup :=
  (List.filter_sublist.nodup (List.Nodup.of_map Rule.name nodup_names))

/-! ## What a rule makes of a text -/

/-- The rule is one pattern, which reads the text where `rest` follows, and the production makes
the token of it. -/
def Rule.Makes (rule : Rule) (read rest : Text) (token : Token) : Prop :=
  ∃ pattern capture, rule.elements = [.text pattern] ∧ capture.text = read ∧
    pattern.Reads capture rest ∧ rule.produce [.capture capture] = some token

section Makes

variable {read rest rest' : Text} {token token' : Token}

theorem FigureForm.written_of_makes {form : FigureForm} (h : form.rule.Makes read rest token) :
    ∃ whole fraction, ∃ value : Value, form.Writes rest read whole fraction ∧
      value.IsWrittenBy whole fraction ∧ token = ⟨value, none⟩ := by
  obtain ⟨pattern, capture, helements, rfl, hreads, htoken⟩ := h
  rw [form.elements_rule] at helements
  cases helements
  exact written_of_reads hreads htoken

theorem spells_of_makes {rule : Rule} {table : WordTable} (htable : (rule, table) ∈ tableRules)
    (h : rule.Makes read rest token) :
    ∃ value, table.Spells value (lowercase read) ∧ token = ⟨.ofNat value, none⟩ := by
  obtain ⟨pattern, ⟨_, groups⟩, helements, rfl, hreads, htoken⟩ := h
  obtain ⟨hpattern, hproduce⟩ := fields_of_tableRules htable
  rw [hpattern] at helements
  cases helements
  obtain ⟨_, rfl, _⟩ := (reads_caseless_iff rfl rfl).mp hreads
  rw [hproduce] at htoken
  exact spells_of_produce (mem_wordTables_of_tableRules htable) htoken

/-- No text is written with figures and a word. -/
theorem FigureForm.not_makes_and_spells {form : FigureForm} {rule : Rule} {table : WordTable}
    (htable : (rule, table) ∈ tableRules) (h : form.rule.Makes read rest token)
    (h' : rule.Makes read rest' token') : False := by
  obtain ⟨_, _, _, hwrites, _⟩ := form.written_of_makes h
  obtain ⟨_, hspells, _⟩ := spells_of_makes htable h'
  exact hwrites.not_mem_vocabulary (hspells.mem_vocabulary (mem_wordTables_of_tableRules htable))

/-- Of one text the rules of text alone make one token, and one of them does, whatever follows
where the text stands. -/
theorem makes_unique {rule rule' : Rule} (hrule : rule ∈ textRules) (hrule' : rule' ∈ textRules)
    (h : rule.Makes read rest token) (h' : rule'.Makes read rest' token') :
    rule = rule' ∧ token = token' := by
  rcases mem_textRules_iff.mp hrule with ⟨form, rfl⟩ | ⟨table, htable⟩
  · rcases mem_textRules_iff.mp hrule' with ⟨form', rfl⟩ | ⟨table', htable'⟩
    · obtain ⟨_, _, value, hwrites, hvalue, rfl⟩ := form.written_of_makes h
      obtain ⟨_, _, value', hwrites', hvalue', rfl⟩ := form'.written_of_makes h'
      obtain rfl := hwrites.form_unique hwrites'
      obtain ⟨rfl, rfl⟩ := hwrites.figures_unique hwrites'
      rw [hvalue.unique hvalue']
      exact ⟨rfl, rfl⟩
    · exact (form.not_makes_and_spells htable' h h').elim
  · rcases mem_textRules_iff.mp hrule' with ⟨form', rfl⟩ | ⟨table', htable'⟩
    · exact (form'.not_makes_and_spells htable h' h).elim
    · obtain ⟨value, hspells, rfl⟩ := spells_of_makes htable h
      obtain ⟨value', hspells', rfl⟩ := spells_of_makes htable' h'
      obtain rfl := value_eq_of_spells htable htable' hspells hspells'
      exact ⟨rule_eq_of_spells htable htable' hspells hspells', rfl⟩

end Makes

/-! ## One number at one place -/

section Given

variable {rule : Rule} {pattern : Pattern} (helements : rule.elements = [.text pattern])

include helements

/-- A rule of one pattern gives what it makes of the stretches of a text. -/
theorem mem_given_iff_makes (hunblank : pattern.BeginsUnblank) {text : Text} {n : Numeral} :
    n ∈ given text rule ↔ n.rule = rule.name ∧ ∃ front back, Stretch text front n.text back ∧
      n.start = byteLength front ∧ rule.Makes n.text back n.token := by
  rw [mem_given_single helements hunblank]
  refine and_congr_right fun _ => ?_
  constructor
  · rintro ⟨front, back, capture, hstretch, hstart, hmakes⟩
    exact ⟨front, back, hstretch, hstart, pattern, capture, helements, hmakes⟩
  · rintro ⟨front, back, hstretch, hstart, pattern', capture, helements', hmakes⟩
    rw [helements] at helements'
    cases helements'
    exact ⟨front, back, capture, hstretch, hstart, hmakes⟩

/-- From one place on it reads at most once. -/
theorem pairwise_readRule_single (text : Text) :
    (readRule text [] rule).Pairwise fun a b => a.first.pos < b.first.pos := by
  simp only [readRule, helements, readElements, List.map_singleton, readFirst]
  rw [← List.map_eq_flatMap, List.pairwise_map]
  apply (pairwise_segments text).filterMap
  intro a b hlt x hx y hy
  obtain ⟨_, _, rfl⟩ := Option.map_eq_some_iff.mp hx
  obtain ⟨_, _, rfl⟩ := Option.map_eq_some_iff.mp hy
  exact hlt

theorem nodup_spans_given (text : Text) :
    ((given text rule).map fun n => (n.start, n.stop)).Nodup := by
  rw [List.Nodup, List.pairwise_map]
  apply (pairwise_readRule_single helements text).filterMap
  intro a b hlt m hm n hn hspan
  obtain ⟨_, _, rfl⟩ := Option.map_eq_some_iff.mp hm
  obtain ⟨_, _, rfl⟩ := Option.map_eq_some_iff.mp hn
  exact Nat.ne_of_lt hlt (Prod.mk.inj hspan).1

end Given

/-- What was found before is nothing to the rules of text alone. -/
theorem proposals_textRules (text : Text) (found : List Numeral) :
    proposals textRules text found = textRules.flatMap (given text) := by
  unfold proposals
  apply List.flatMap_congr
  intro rule hrule
  obtain ⟨_, helements⟩ := elements_of_textRules hrule
  rw [readRule_single helements, given]

/-- Two rules of text alone give nothing at one place. -/
theorem rule_eq_of_span {rule rule' : Rule} (hrule : rule ∈ textRules) (hrule' : rule' ∈ textRules)
    {text : Text} {m n : Numeral} (hm : m ∈ given text rule) (hn : n ∈ given text rule')
    (hstart : m.start = n.start) (hstop : m.stop = n.stop) : rule = rule' := by
  obtain ⟨_, helements⟩ := elements_of_textRules hrule
  obtain ⟨_, helements'⟩ := elements_of_textRules hrule'
  obtain ⟨_, front, back, hstretch, hfront, hmakes⟩ :=
    (mem_given_iff_makes helements (beginsUnblank_of_textRules hrule helements)).mp hm
  obtain ⟨_, front', back', hstretch', hfront', hmakes'⟩ :=
    (mem_given_iff_makes helements' (beginsUnblank_of_textRules hrule' helements')).mp hn
  obtain ⟨_, htext, _⟩ := hstretch.unique_of_span hstretch' hfront hfront' hstart hstop
  rw [htext] at hmakes
  exact (makes_unique hrule hrule' hmakes hmakes').1

theorem nodup_spans_proposals (text : Text) (found : List Numeral) :
    ((proposals textRules text found).map fun n => (n.start, n.stop)).Nodup := by
  rw [proposals_textRules, List.map_flatMap, List.nodup_flatMap]
  constructor
  · intro rule hrule
    obtain ⟨_, helements⟩ := elements_of_textRules hrule
    exact nodup_spans_given helements text
  · refine nodup_textRules.imp_of_mem ?_
    intro rule rule' hrule hrule' hne span hspan hspan'
    obtain ⟨m, hm, rfl⟩ := List.mem_map.mp hspan
    obtain ⟨n, hn, heq⟩ := List.mem_map.mp hspan'
    obtain ⟨hstart, hstop⟩ := Prod.mk.inj heq
    exact hne (rule_eq_of_span hrule hrule' hm hn hstart.symm hstop.symm)

/-- The nine rules of text alone are unambiguous. In whatever text, and whatever was found before,
they give no two numbers at one place, nor one number twice. No text is read by two of them,
wherever it stands. So no text is both a whole number in groups and a decimal number with a
point. -/
theorem rules_of_text_alone_never_read_one_span_twice :
    textRules.length = 9 ∧
    (∀ (text : Text) (found : List Numeral),
      ((proposals textRules text found).map fun n => (n.start, n.stop)).Nodup) ∧
    (∀ rule ∈ textRules, ∀ rule' ∈ textRules, ∀ read rest rest' token token',
      rule.Makes read rest token → rule'.Makes read rest' token' →
        rule = rule' ∧ token = token') ∧
    ∀ read rest rest' token token', FigureForm.groupedInteger.rule.Makes read rest token →
      ¬ FigureForm.pointDecimal.rule.Makes read rest' token' := by
  refine ⟨length_textRules, nodup_spans_proposals, ?_, ?_⟩
  · intro rule hrule rule' hrule' read rest rest' token token' h h'
    exact makes_unique hrule hrule' h h'
  · intro read rest rest' token token' h h'
    obtain ⟨_, _, _, hwrites, _⟩ := FigureForm.written_of_makes h
    obtain ⟨_, _, _, hwrites', _⟩ := FigureForm.written_of_makes h'
    exact hwrites.not_grouped_and_pointed hwrites'

/-- A whole number in groups, which the pattern for decimals with a point reads as well. -/
theorem one_group_of_thousands_is_no_decimal :
    (∃ token, FigureForm.groupedInteger.rule.Makes "1.234".toList [] token) ∧
      ∀ rest token, ¬ FigureForm.pointDecimal.rule.Makes "1.234".toList rest token := by
  have hwrites : FigureForm.groupedInteger.Writes [] "1.234".toList "1234".toList [] :=
    @FigureForm.Writes.groupedInteger [] "1".toList ".234".toList 1 (by simp)
      (by simp [AllFigures]) (by simp) (.cons rfl rfl rfl .nil) Nat.one_pos (by simp) rfl
  have hwhole : AllFigures "1234".toList := by simp [AllFigures]
  have hfraction : AllFigures [] := by simp [AllFigures]
  obtain ⟨value, hvalue⟩ := Value.exists_isWrittenBy hwhole hfraction (by simp)
  obtain ⟨capture, htext, hreads, hmade⟩ := FigureForm.exists_capture hwrites rfl
  have hmakes : FigureForm.groupedInteger.rule.Makes "1.234".toList [] ⟨value, none⟩ :=
    ⟨_, capture, FigureForm.elements_rule _, htext, hreads,
      hmade.trans (plain?_written?_iff.mpr ⟨value, hvalue, rfl⟩)⟩
  exact ⟨⟨_, hmakes⟩, fun rest token =>
    rules_of_text_alone_never_read_one_span_twice.2.2.2 _ _ rest _ token hmakes⟩

end SpanishNumerals
