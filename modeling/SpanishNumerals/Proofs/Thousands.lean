-- The points between the thousands. With them the figures are a number of another form, read by
-- another rule, but what is written is the same, and a text that is one number with figures is
-- analyzed as that number.
import SpanishNumerals.Proofs.FirstPass

namespace SpanishNumerals

/-! ## Groups of three from the right -/

/-- The figures with points between the groups of three, counted from the right. -/
def groupThousands : Text → Text
  | [] => []
  | c :: figures =>
    if figures ≠ [] ∧ figures.length % 3 = 0 then c :: '.' :: groupThousands figures
    else c :: groupThousands figures

theorem filter_groupThousands {figures : Text} (h : AllFigures figures) :
    (groupThousands figures).filter (· ≠ '.') = figures := by
  induction figures with
  | nil => rfl
  | cons c figures ih =>
    have hfigures := (allFigures_cons.mp h).2
    have hpoint : c ≠ '.' := h.ne List.mem_cons_self rfl
    unfold groupThousands
    split <;> simpa [hpoint] using ih hfigures

/-- The points part one to three figures and groups of three. -/
theorem groupThousands_eq {figures : Text} (hne : figures ≠ []) (h : AllFigures figures) :
    ∃ first groups n, groupThousands figures = first ++ groups ∧ first ≠ [] ∧ AllFigures first ∧
      first.length ≤ 3 ∧ Groups n groups ∧ first.length + 3 * n = figures.length := by
  induction figures with
  | nil => exact absurd rfl hne
  | cons c figures ih =>
    obtain ⟨hc, hfigures⟩ := allFigures_cons.mp h
    by_cases hnil : figures = []
    · subst hnil
      exact ⟨[c], [], 0, rfl, by simp, h, by simp, .nil, rfl⟩
    · obtain ⟨first, groups, n, heq, hfirstne, hfirst, hle, hgroups, hlength⟩ := ih hnil hfigures
      have hpos := List.length_pos_iff.mpr hfirstne
      unfold groupThousands
      rw [heq]
      split
      · rename_i hthird
        -- Before a point the figures so far are a group of their own.
        obtain ⟨x, y, z, rfl⟩ := List.length_eq_three.mp (by omega : first.length = 3)
        simp only [allFigures_cons] at hfirst
        refine ⟨[c], '.' :: x :: y :: z :: groups, n + 1, rfl, by simp, ?_, by simp,
          .cons hfirst.1 hfirst.2.1 hfirst.2.2.1 hgroups, ?_⟩
        · simpa [AllFigures] using hc
        · simp only [List.length_cons, List.length_nil] at hlength ⊢
          omega
      · rename_i hthird
        have hmod : figures.length % 3 ≠ 0 := fun hmod => hthird ⟨hnil, hmod⟩
        refine ⟨c :: first, groups, n, rfl, by simp, allFigures_cons.mpr ⟨hc, hfirst⟩, ?_,
          hgroups, ?_⟩
        · simp only [List.length_cons]
          omega
        · simp only [List.length_cons]
          omega

example : groupThousands "1234567".toList = "1.234.567".toList := by decide

section Grouped

variable {rest figures fraction : Text} (h : AllFigures figures) (hlong : 4 ≤ figures.length)

include h hlong

/-- Four figures have a point, and without the points they are the figures again. -/
theorem exists_groups : ∃ first groups n, groupThousands figures = first ++ groups ∧
    first ++ groups.filter (· ≠ '.') = figures ∧ first ≠ [] ∧ AllFigures first ∧
    first.length ≤ 3 ∧ Groups n groups ∧ 0 < n ∧ (figures.length ≤ 18 → n ≤ 5) := by
  obtain ⟨first, groups, n, heq, hne, hfirst, hle, hgroups, hlength⟩ :=
    groupThousands_eq (List.ne_nil_of_length_pos (by omega)) h
  have hpos := List.length_pos_iff.mpr hne
  have hfilter : first ++ groups.filter (· ≠ '.') = figures := by
    rw [← filter_first_groups hfirst, ← heq, filter_groupThousands h]
  exact ⟨first, groups, n, heq, hfilter, hne, hfirst, hle, hgroups, by omega, by omega⟩

/-- With the points the same whole number is written. -/
theorem writes_groupThousands (hshort : figures.length ≤ 18) (hrest : numberGoesOn rest = false) :
    FigureForm.groupedInteger.Writes rest (groupThousands figures) figures [] := by
  obtain ⟨first, groups, n, heq, hfilter, hne, hfirst, hle, hgroups, hn, hfive⟩ :=
    exists_groups h hlong
  have hwrites : FigureForm.groupedInteger.Writes rest (first ++ groups)
      (first ++ groups.filter (· ≠ '.')) [] :=
    .groupedInteger hne hfirst hle hgroups hn (hfive hshort) hrest
  rwa [hfilter, ← heq] at hwrites

/-- With the points the same decimal is written. -/
theorem writes_groupThousands_comma (hfne : fraction ≠ []) (hfraction : AllFigures fraction) :
    FigureForm.groupedDecimal.Writes rest (groupThousands figures ++ ',' :: fraction) figures
      fraction := by
  obtain ⟨first, groups, n, heq, hfilter, hne, hfirst, _, hgroups, hn, _⟩ :=
    exists_groups h hlong
  have hwrites : FigureForm.groupedDecimal.Writes rest (first ++ groups ++ ',' :: fraction)
      (first ++ groups.filter (· ≠ '.')) fraction :=
    .groupedDecimal hne hfirst hgroups hn hfne hfraction
  rwa [hfilter, ← heq] at hwrites

end Grouped

/-! ## A text that is one number written with figures -/

/-- What begins and ends with the text reads all of it. -/
theorem analyze_written {form : FigureForm} {text whole fraction : Text} {value : Value}
    (hwrites : form.Writes [] text whole fraction) (hvalue : value.IsWrittenBy whole fraction)
    (passes : Nat) :
    analyze spanishRules text passes = [⟨0, text, ⟨value, none⟩, form.rule.name⟩] := by
  have hgiven : ⟨0, text, ⟨value, none⟩, form.rule.name⟩ ∈ given text form.rule :=
    FigureForm.mem_given_iff.mpr
      ⟨rfl, [], [], whole, fraction, value, Stretch.whole text, rfl, hwrites, hvalue, rfl⟩
  exact analyze_of_mem_given (unambiguous_spanishRules text) form.mem_spanishRules hgiven
    (Numeral.covers_iff.mpr ⟨rfl, Nat.zero_add _⟩) passes

/-- Points between the thousands change no value: with them and without them a whole number, or a
number with decimals behind a comma, is read as one numeral of the whole text, and its value is
the value nearest to what is written. -/
theorem points_between_thousands_change_no_value (figures : Text) (h : AllFigures figures)
    (hlong : 4 ≤ figures.length) (passes : Nat) :
    (figures.length ≤ 18 → ∃ value : Value, value.IsWrittenBy figures [] ∧
      analyze spanishRules figures passes =
        [⟨0, figures, ⟨value, none⟩, FigureForm.integer.rule.name⟩] ∧
      analyze spanishRules (groupThousands figures) passes =
        [⟨0, groupThousands figures, ⟨value, none⟩, FigureForm.groupedInteger.rule.name⟩]) ∧
    (figures.length ≤ 308 → ∀ fraction : Text, fraction ≠ [] → AllFigures fraction →
      ∃ value : Value, value.IsWrittenBy figures fraction ∧
        analyze spanishRules (figures ++ ',' :: fraction) passes =
          [⟨0, figures ++ ',' :: fraction, ⟨value, none⟩, FigureForm.decimal.rule.name⟩] ∧
        analyze spanishRules (groupThousands figures ++ ',' :: fraction) passes =
          [⟨0, groupThousands figures ++ ',' :: fraction, ⟨value, none⟩,
            FigureForm.groupedDecimal.rule.name⟩]) := by
  constructor
  · intro hshort
    have hnone : AllFigures [] := by simp [AllFigures]
    obtain ⟨value, hvalue⟩ := Value.exists_isWrittenBy h hnone (by omega)
    have hplain : FigureForm.integer.Writes [] figures figures [] :=
      .integer (List.ne_nil_of_length_pos (by omega)) h hshort
    exact ⟨value, hvalue, analyze_written hplain hvalue passes,
      analyze_written (writes_groupThousands h hlong hshort rfl) hvalue passes⟩
  · intro hlength fraction hne hfraction
    obtain ⟨value, hvalue⟩ := Value.exists_isWrittenBy h hfraction hlength
    have hplain : FigureForm.decimal.Writes [] (figures ++ ',' :: fraction) figures fraction :=
      .decimal h hne hfraction
    exact ⟨value, hvalue, analyze_written hplain hvalue passes,
      analyze_written (writes_groupThousands_comma h hlong hne hfraction) hvalue passes⟩

/-- Two points in twelve million, and none, with decimals and without them. -/
theorem twelve_million_is_read_with_its_points :
    AllFigures "12345678".toList ∧ 4 ≤ "12345678".toList.length ∧
    "12345678".toList.length ≤ 18 ∧
    (∃ value : Value, value.IsWrittenBy "12345678".toList [] ∧
      analyze spanishRules "12345678".toList 1 =
        [⟨0, "12345678".toList, ⟨value, none⟩, FigureForm.integer.rule.name⟩] ∧
      analyze spanishRules "12.345.678".toList 1 =
        [⟨0, "12.345.678".toList, ⟨value, none⟩, FigureForm.groupedInteger.rule.name⟩]) ∧
    "12345678".toList.length ≤ 308 ∧ "90".toList ≠ [] ∧ AllFigures "90".toList ∧
    ∃ value : Value, value.IsWrittenBy "12345678".toList "90".toList ∧
      analyze spanishRules "12345678,90".toList 1 =
        [⟨0, "12345678,90".toList, ⟨value, none⟩, FigureForm.decimal.rule.name⟩] ∧
      analyze spanishRules "12.345.678,90".toList 1 =
        [⟨0, "12.345.678,90".toList, ⟨value, none⟩, FigureForm.groupedDecimal.rule.name⟩] := by
  have h : AllFigures "12345678".toList := by simp [AllFigures]
  have hfraction : AllFigures "90".toList := by simp [AllFigures]
  have hgrouped : groupThousands "12345678".toList = "12.345.678".toList := by decide
  obtain ⟨hwhole, hdecimal⟩ :=
    points_between_thousands_change_no_value "12345678".toList h (by decide) 1
  rw [hgrouped] at hwhole hdecimal
  exact ⟨h, by decide, by decide, hwhole (by decide), by decide, by decide, hfraction,
    hdecimal (by decide) "90".toList (by decide) hfraction⟩

end SpanishNumerals
