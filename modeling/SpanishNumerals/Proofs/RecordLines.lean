-- What the command line writes for the numbers that it finds: a line for each, with four fields
-- and tabs between them. Newlines and tabs come from nowhere but the texts of the numbers, where
-- they stand among the blanks between two parts. So the lines and their fields can be read back
-- unless such a blank stands in a number.
import SpanishNumerals.Proofs.ArgumentGroups
import SpanishNumerals.Proofs.Blocks
import SpanishNumerals.Proofs.OneReading
import SpanishNumerals.Proofs.Windows
import SpanishNumerals.CommandLine

namespace SpanishNumerals

/-! ## Parts of a text between separators -/

section Parts

variable {x c : Char} {text part : Text}

theorem mem_of_mem_splitOn (h : part ∈ text.splitOn x) (hc : c ∈ part) : c ∈ text ∧ c ≠ x := by
  induction text generalizing part with
  | nil =>
    rw [List.splitOn_nil, List.mem_singleton] at h
    simp [h] at hc
  | cons d text ih =>
    obtain ⟨first, rest, hparts⟩ := List.exists_cons_of_ne_nil (List.splitOn_ne_nil x text)
    rw [hparts] at ih
    rw [List.splitOn_cons_eq_if_modifyHead, hparts] at h
    split at h
    · rcases List.mem_cons.mp h with rfl | h
      · simp at hc
      · exact (ih h hc).imp_left (List.mem_cons_of_mem d)
    · rename_i hd
      rw [List.modifyHead_cons] at h
      rcases List.mem_cons.mp h with rfl | h
      · rcases List.mem_cons.mp hc with rfl | hc
        · exact ⟨List.mem_cons_self, by simpa using hd⟩
        · exact (ih List.mem_cons_self hc).imp_left (List.mem_cons_of_mem d)
      · exact (ih (List.mem_cons_of_mem first h) hc).imp_left (List.mem_cons_of_mem d)

/-- Texts that each end with the separator are cut one after the other. -/
theorem splitOn_flatMap_concat (x : Char) (texts : List Text) :
    (texts.flatMap fun text => text ++ [x]).splitOn x =
      (texts.flatMap fun text => text.splitOn x) ++ [[]] := by
  induction texts with
  | nil => rfl
  | cons text texts ih =>
    rw [List.flatMap_cons, List.flatMap_cons, List.append_assoc, List.append_assoc,
      List.singleton_append, List.splitOn_append_cons_self, ih]

end Parts

/-! ## Fields -/

/-- The text has no newline and no tab. -/
def IsField (text : Text) : Prop := '\n' ∉ text ∧ '\t' ∉ text

instance (text : Text) : Decidable (IsField text) := inferInstanceAs (Decidable (_ ∧ _))

theorem isField_append {a b : Text} : IsField (a ++ b) ↔ IsField a ∧ IsField b := by
  simp only [IsField, List.mem_append, not_or]
  tauto

theorem isField_of_forall {text : Text} (h : ∀ c ∈ text, c ≠ '\n' ∧ c ≠ '\t') : IsField text :=
  ⟨fun hmem => (h _ hmem).1 rfl, fun hmem => (h _ hmem).2 rfl⟩

theorem IsField.of_subset {a b : Text} (h : IsField b) (hsubset : a ⊆ b) : IsField a :=
  ⟨fun hmem => h.1 (hsubset hmem), fun hmem => h.2 (hsubset hmem)⟩

/-- The characters that numbers are written with. -/
theorem isField_of_signs {text : Text}
    (h : ∀ c ∈ text, c.isDigit = true ∨ c = '.' ∨ c = '-') : IsField text := by
  refine isField_of_forall fun c hc => ?_
  rcases h c hc with hdigit | rfl | rfl
  · exact ⟨by rintro rfl; simp at hdigit, by rintro rfl; simp at hdigit⟩
  · decide
  · decide

theorem isDigit_of_mem_toString {n : Nat} {c : Char} (h : c ∈ (toString n).toList) :
    c.isDigit = true := by
  rw [Nat.toString_eq_repr, Nat.toList_repr] at h
  exact Nat.isDigit_of_mem_toDigits (by decide) (by decide) h

theorem mem_of_mem_dropZeros {figures : Text} {c : Char} (h : c ∈ dropZeros figures) :
    c ∈ figures := by
  rw [dropZeros, List.mem_reverse] at h
  exact List.mem_reverse.mp ((List.dropWhile_sublist _).subset h)

theorem sign_of_mem_positional {coefficient : Nat} {exponent : Int} {c : Char}
    (h : c ∈ positional coefficient exponent) : c.isDigit = true ∨ c = '.' := by
  have hfigures : ∀ c ∈ Nat.toDigits 10 coefficient, c.isDigit = true := fun c hc =>
    Nat.isDigit_of_mem_toDigits (by decide) (by decide) hc
  have hzeros : ∀ n, ∀ c ∈ List.replicate n '0', c.isDigit = true := by
    intro n c hc
    rw [List.eq_of_mem_replicate hc]
    rfl
  unfold positional at h
  dsimp only at h
  split at h
  · rcases List.mem_append.mp h with h | h
    · exact .inl (hfigures c h)
    · exact .inl (hzeros _ c h)
  · generalize hpadded : List.replicate ((-exponent).toNat + 1 - (Nat.toDigits 10 coefficient).length)
      '0' ++ Nat.toDigits 10 coefficient = padded at h
    have hdigit : ∀ c ∈ padded, c.isDigit = true := by
      subst hpadded
      intro c hc
      rcases List.mem_append.mp hc with hc | hc
      · exact hzeros _ c hc
      · exact hfigures c hc
    split at h
    · exact .inl (hdigit c (List.mem_of_mem_take h))
    · rcases List.mem_append.mp h with h | h
      · exact .inl (hdigit c (List.mem_of_mem_take h))
      · rcases List.mem_cons.mp h with rfl | h
        · exact .inr rfl
        · exact .inl (hdigit c (List.mem_of_mem_drop (mem_of_mem_dropZeros h)))

theorem isField_value (v : Value) : IsField v.text := by
  refine isField_of_signs fun c hc => ?_
  rw [Value.text, Decimal.text] at hc
  split at hc
  · rcases List.mem_cons.mp hc with rfl | hc
    · exact .inr (.inr rfl)
    · exact (sign_of_mem_positional hc).imp_right .inl
  · exact (sign_of_mem_positional hc).imp_right .inl

theorem isField_token (token : Token) : IsField token.text := by
  unfold Token.text
  split
  · rename_i grain _
    have htext : s!" (grain {grain})".toList = " (grain ".toList ++
        ((toString grain).toList ++ ")".toList) := by
      simp only [String.toList_append, List.append_assoc]
      rfl
    rw [htext]
    refine isField_append.mpr ⟨isField_value _, isField_append.mpr ⟨by decide, isField_append.mpr
      ⟨isField_of_signs fun c hc => .inl (isDigit_of_mem_toString hc), by decide⟩⟩⟩
  · exact isField_value _

theorem isField_ruleName : ∀ rule ∈ spanishRules, IsField rule.name.toList := by decide +kernel

/-! ## Records -/

namespace Numeral

/-- Where a numeral stands. -/
def place (n : Numeral) : Text :=
  (toString n.start).toList ++ ['.', '.'] ++ (toString n.stop).toList

/-- The four fields of a numeral. -/
def fields (n : Numeral) : List Text := [n.place, n.text, n.token.text, n.rule.toList]

theorem line_eq (n : Numeral) : n.line = ['\t'].intercalate n.fields := by
  simp [line, fields, place, List.intercalate]

theorem isField_place (n : Numeral) : IsField n.place := by
  refine isField_of_signs fun c hc => ?_
  rw [place, List.append_assoc] at hc
  rcases List.mem_append.mp hc with hc | hc
  · exact .inl (isDigit_of_mem_toString hc)
  · rcases List.mem_append.mp hc with hc | hc
    · exact .inr (.inl (by simpa using hc))
    · exact .inl (isDigit_of_mem_toString hc)

end Numeral

/-- The lines of an output that are not empty, cut at the tabs. -/
def records (output : Text) : List (List Text) :=
  ((output.splitOn '\n').filter (· ≠ [])).map (·.splitOn '\t')

/-- The lines of the numerals, one behind the other. -/
theorem splitOn_report (numerals : List Numeral) :
    (report numerals).stdout.toList.splitOn '\n' =
      (numerals.flatMap fun n => n.line.splitOn '\n') ++ [[]] := by
  have hlines : (report numerals).stdout.toList =
      (numerals.map Numeral.line).flatMap fun line => line ++ ['\n'] := by
    rw [List.flatMap_map]
    exact String.toList_ofList
  rw [hlines, splitOn_flatMap_concat, List.flatMap_map]

section Report

variable {numerals : List Numeral} (hrules : ∀ n ∈ numerals, IsField n.rule.toList)

theorem isField_of_mem_fields {n : Numeral} (hrule : IsField n.rule.toList)
    (htext : IsField n.text) : ∀ field ∈ n.fields, IsField field := by
  simp only [Numeral.fields, List.forall_mem_cons, List.not_mem_nil, false_implies, implies_true,
    and_true]
  exact ⟨n.isField_place, htext, isField_token n.token, hrule⟩

/-- A text that is cut at newlines and then at tabs leaves fields. -/
theorem isField_of_mem_records {output field : Text} {record : List Text}
    (hrecord : record ∈ records output) (hfield : field ∈ record) : IsField field := by
  obtain ⟨line, hline, rfl⟩ := List.mem_map.mp hrecord
  refine isField_of_forall fun c hc => ?_
  obtain ⟨hmem, htab⟩ := mem_of_mem_splitOn hfield hc
  exact ⟨(mem_of_mem_splitOn (List.mem_filter.mp hline).1 hmem).2, htab⟩

/-- The line of a numeral whose text is a field is one line, and its fields are read back. -/
theorem splitOn_line {n : Numeral} (hrule : IsField n.rule.toList) (htext : IsField n.text) :
    n.line.splitOn '\n' = [n.line] ∧ n.line.splitOn '\t' = n.fields ∧ n.line ≠ [] := by
  have hfields := isField_of_mem_fields hrule htext
  refine ⟨List.splitOn_eq_singleton ?_, ?_, ?_⟩
  · have hplace := n.isField_place.1
    have htoken := (isField_token n.token).1
    have hline : n.line = n.place ++ '\t' :: n.text ++ '\t' :: n.token.text ++
      '\t' :: n.rule.toList := rfl
    simp [hline, hplace, htoken, htext.1, hrule.1]
  · rw [n.line_eq]
    exact List.splitOn_intercalate _ (fun field hfield => (hfields field hfield).2) (by simp
      [Numeral.fields])
  · simp [Numeral.line]

include hrules in
/-- The fields of the numerals are read back just when no text of a numeral has a newline or a
tab. -/
theorem records_report_iff :
    records (report numerals).stdout.toList = numerals.map Numeral.fields ↔
      ∀ n ∈ numerals, IsField n.text := by
  constructor
  · intro h n hn
    have hrecord : n.fields ∈ records (report numerals).stdout.toList :=
      h ▸ List.mem_map_of_mem hn
    exact isField_of_mem_records hrecord (by simp [Numeral.fields])
  · intro h
    have hsplit := fun n hn => splitOn_line (hrules n hn) (h n hn)
    have hlines : (numerals.flatMap fun n => n.line.splitOn '\n') = numerals.map Numeral.line := by
      rw [← List.flatMap_singleton' (numerals.map Numeral.line), List.flatMap_map]
      exact List.flatMap_congr fun n hn => (hsplit n hn).1
    have hfilter : (numerals.map Numeral.line ++ [[]]).filter (· ≠ []) =
        numerals.map Numeral.line := by
      rw [List.filter_append, List.filter_eq_self.mpr]
      · simp
      · intro line hline
        obtain ⟨n, hn, rfl⟩ := List.mem_map.mp hline
        exact decide_eq_true (hsplit n hn).2.2
    rw [records, splitOn_report, hlines, hfilter, List.map_map]
    refine List.map_congr_left fun n hn => ?_
    rw [Function.comp_apply, (hsplit n hn).2.1]

end Report

/-! ## The texts of numbers -/

section Texts

variable {text : Text} {passes : Nat} {n : Numeral}
  (hn : n ∈ candidates spanishRules text passes)

include hn

theorem isField_rule : IsField n.rule.toList := by
  obtain ⟨rule, hrule, hname, _⟩ := assembled_of_mem_candidates hn
  rw [hname]
  exact isField_ruleName rule hrule

theorem text_subset : n.text ⊆ text := by
  obtain ⟨_, first, last, rfl, _, hreaches⟩ := standsIn_of_mem_candidates n hn
  intro c hc
  rw [Cursor.text, hreaches.1]
  exact List.mem_append_right _ (List.mem_append_left _ hc)

/-- A number that is no compound has no blank. -/
theorem isField_of_not_compound (hrule : n.rule ∉ compoundRules.map Rule.name) :
    IsField n.text := by
  obtain ⟨rule, hmem, hname, hreads⟩ := exists_rule_of_mem_candidates hn
  have hsimple : rule ∈ textRules := by
    rw [spanishRules, List.mem_append] at hmem
    rw [textRules_eq]
    exact hmem.resolve_right fun hcompound => hrule (hname ▸ List.mem_map_of_mem hcompound)
  obtain ⟨pattern, helements⟩ := elements_of_textRules hsimple
  obtain ⟨_, _, capture, _, _, _, hcapture, hread⟩ := hreads pattern helements
  have hpattern : pattern ∈ patternsOf spanishRules :=
    mem_patternsOf.mpr ⟨rule, hmem, helements ▸ List.mem_cons_self⟩
  have hblank := not_blank_of_reads hpattern hread
  rw [hcapture] at hblank
  exact ⟨fun hc => absurd (hblank _ hc) (by decide), fun hc => absurd (hblank _ hc) (by decide)⟩

end Texts

/-! ## Runs -/

/-- The run analyses the text: the options ask for no help, and the text is that of the file, if
one is named, or else the one among the arguments. -/
structure Analyzes (readFile : String → Except FileProblem Text) (arguments : List String)
    (options : Options) (text : Text) : Prop where
  read : Options.ofArguments arguments = .ok options
  noHelp : options.showHelp = false
  file : ∀ name, options.inputFile = some name → readFile name = .ok text
  argument : options.inputFile = none → options.text = some (String.ofList text)

/-- The numerals that the options ask for. -/
def Options.numerals (options : Options) (text : Text) : List Numeral :=
  if options.showCandidates then candidates spanishRules text defaultPasses
  else analyze spanishRules text defaultPasses

section Runs

variable {readFile : String → Except FileProblem Text} {arguments : List String}
  {options : Options} {text : Text}

theorem Analyzes.runCommand_eq (h : Analyzes readFile arguments options text) :
    (runCommand (m := Id) readFile arguments).run = report (options.numerals text) := by
  have hread := h.read
  rw [Options.ofArguments, (cut_groupsOf arguments).readArguments_eq] at hread
  have hlanguage := find?_of_readGroups hread h.noHelp
  have hreport : options.reportOn spanish text = report (options.numerals text) := by
    unfold Options.reportOn Options.numerals
    split <;> rfl
  rw [← hreport]
  unfold runCommand
  simp only [h.read, h.noHelp, hlanguage, Bool.false_eq_true, if_false]
  cases hfile : options.inputFile with
  | some name =>
    simp only [h.file name hfile, Id.run_bind]
    rfl
  | none => simp only [h.argument hfile, String.toList_ofList, Id.run_pure]

theorem mem_candidates_of_mem_numerals {n : Numeral} (hn : n ∈ options.numerals text) :
    n ∈ candidates spanishRules text defaultPasses := by
  unfold Options.numerals at hn
  split at hn
  · exact hn
  · exact mem_of_mem_select hn

/-- The command writes the records of the numbers in their order. A number whose text has no newline
and no tab has one line of four fields: the place, the text, the number and the rule. So the
numbers are read back from the lines just when no text of a number has a newline or a tab. Only a
compound can have one, among the blanks between its parts, and only from an input that has one. -/
theorem numbers_are_read_back_unless_blanks_break_their_lines
    (h : Analyzes readFile arguments options text) :
    let stdout := (runCommand (m := Id) readFile arguments).run.stdout.toList
    stdout.splitOn '\n' =
        ((options.numerals text).flatMap fun n => n.line.splitOn '\n') ++ [[]] ∧
      (∀ n ∈ options.numerals text, IsField n.text →
        n.line.splitOn '\n' = [n.line] ∧ n.line.splitOn '\t' = n.fields) ∧
      (records stdout = (options.numerals text).map Numeral.fields ↔
        ∀ n ∈ options.numerals text, IsField n.text) ∧
      ∀ n ∈ options.numerals text, ¬IsField n.text →
        n.rule ∈ compoundRules.map Rule.name ∧ ¬IsField text := by
  have hfound : ∀ n ∈ options.numerals text, n ∈ candidates spanishRules text defaultPasses :=
    fun n hn => mem_candidates_of_mem_numerals hn
  have hrules : ∀ n ∈ options.numerals text, IsField n.rule.toList :=
    fun n hn => isField_rule (hfound n hn)
  dsimp only
  rw [h.runCommand_eq]
  refine ⟨splitOn_report _, ?_, records_report_iff hrules, ?_⟩
  · intro n hn htext
    obtain ⟨hline, hfields, _⟩ := splitOn_line (hrules n hn) htext
    exact ⟨hline, hfields⟩
  · intro n hn htext
    constructor
    · by_contra hrule
      exact htext (isField_of_not_compound (hfound n hn) hrule)
    · exact fun hinput => htext (hinput.of_subset (text_subset (hfound n hn)))

end Runs

/-- The numbers of "-c" and "dos mil", among them the whole, are read back. -/
theorem the_candidates_of_two_thousand_are_read_back :
    Analyzes (fun _ => .error .missing) ["-c", "dos mil"]
        ⟨"es", none, some "dos mil", true, false, false⟩ "dos mil".toList ∧
      records (runCommand (m := Id) (fun _ => .error .missing)
          ["-c", "dos mil"]).run.stdout.toList =
        (Options.numerals ⟨"es", none, some "dos mil", true, false, false⟩
          "dos mil".toList).map Numeral.fields := by
  have hrun : Analyzes (fun _ => .error .missing) ["-c", "dos mil"]
      ⟨"es", none, some "dos mil", true, false, false⟩ "dos mil".toList :=
    ⟨by decide, rfl, by simp, fun _ => rfl⟩
  refine ⟨hrun, ?_⟩
  obtain ⟨_, _, hrecords, _⟩ := numbers_are_read_back_unless_blanks_break_their_lines hrun
  exact hrecords.mpr (by decide +kernel)

/-- The number of "treinta", a newline and "y siete" is written on two lines. -/
theorem thirty_seven_is_written_on_two_lines :
    ¬ ∀ readFile arguments options text, Analyzes readFile arguments options text →
      records (runCommand (m := Id) readFile arguments).run.stdout.toList =
        (options.numerals text).map Numeral.fields := by
  intro h
  have hrun : Analyzes (fun _ => .error .missing) ["treinta\ny siete"]
      ⟨"es", none, some "treinta\ny siete", false, false, false⟩ "treinta\ny siete".toList :=
    ⟨by decide, rfl, by simp, fun _ => rfl⟩
  have hrecords := h _ _ _ _ hrun
  rw [hrun.runCommand_eq, records_report_iff fun n hn =>
    isField_rule (mem_candidates_of_mem_numerals hn)] at hrecords
  obtain ⟨n, hn, hnewline⟩ : ∃ n ∈ Options.numerals
      ⟨"es", none, some "treinta\ny siete", false, false, false⟩ "treinta\ny siete".toList,
      '\n' ∈ n.text := by decide +kernel
  exact (hrecords n hn).1 hnewline

end SpanishNumerals
