-- The five rules for numbers written with figures. Each of them has its form, and gives a number
-- for each stretch of that form: the value nearest to what the figures write without the points
-- that group them.
import Mathlib.Data.List.Basic
import SpanishNumerals.Proofs.SimpleRules
import SpanishNumerals.Proofs.WorthOfWords
import SpanishNumerals.Proofs.WrittenValues

namespace SpanishNumerals

/-! ## The forms -/

/-- Whether a separator and a figure follow. -/
def numberGoesOn : Text → Bool
  | s :: d :: _ => (s = '.' || s = ',') && d.isDigit
  | _ => false

theorem noNumberFollows_iff {rest : Text} :
    noNumberFollows rest = true ↔ noFigureFollows rest = true ∧ numberGoesOn rest = false := by
  match rest with
  | [] => simp [noNumberFollows, noFigureFollows, numberGoesOn]
  | [c] => simp [noNumberFollows, noFigureFollows, numberGoesOn]
  | c :: d :: rest =>
    simp only [noNumberFollows, noFigureFollows, numberGoesOn, Bool.and_eq_true,
      Bool.not_eq_true']

/-- The forms of numbers written with figures. -/
inductive FigureForm
  | integer
  | groupedDecimal
  | groupedInteger
  | decimal
  | pointDecimal
deriving DecidableEq

namespace FigureForm

/-- The rule for a form. -/
def rule : FigureForm → Rule
  | integer => figureRules.get ⟨0, by decide⟩
  | groupedDecimal => figureRules.get ⟨1, by decide⟩
  | groupedInteger => figureRules.get ⟨2, by decide⟩
  | decimal => figureRules.get ⟨3, by decide⟩
  | pointDecimal => figureRules.get ⟨4, by decide⟩

/-- The pattern of its rule. -/
def pattern : FigureForm → Pattern
  | integer => Pattern.integer.followedBy noFigureFollows
  | groupedDecimal => Pattern.groupedDecimal.followedBy noFigureFollows
  | groupedInteger => Pattern.groupedInteger.followedBy noNumberFollows
  | decimal => Pattern.decimal.followedBy noFigureFollows
  | pointDecimal => Pattern.pointDecimal.followedBy noNumberFollows

theorem elements_rule (form : FigureForm) : form.rule.elements = [.text form.pattern] := by
  cases form <;> rfl

theorem mem_figureRules_iff {rule : Rule} :
    rule ∈ figureRules ↔ ∃ form : FigureForm, rule = form.rule := by
  constructor
  · intro h
    simp only [figureRules, List.mem_cons, List.not_mem_nil, or_false] at h
    rcases h with rfl | rfl | rfl | rfl | rfl
    · exact ⟨.integer, rfl⟩
    · exact ⟨.groupedDecimal, rfl⟩
    · exact ⟨.groupedInteger, rfl⟩
    · exact ⟨.decimal, rfl⟩
    · exact ⟨.pointDecimal, rfl⟩
  · rintro ⟨form, rfl⟩
    cases form <;> exact List.get_mem _ _

/-- The text is a number of the form, with these figures before the decimals and these decimals,
where `rest` follows. -/
inductive Writes (rest : Text) : FigureForm → (text whole fraction : Text) → Prop
  | integer {figures : Text} : figures ≠ [] → AllFigures figures → figures.length ≤ 18 →
      Writes rest integer figures figures []
  | groupedDecimal {first groups fraction : Text} {n : Nat} : first ≠ [] → AllFigures first →
      Groups n groups → 0 < n → fraction ≠ [] → AllFigures fraction →
      Writes rest groupedDecimal (first ++ groups ++ ',' :: fraction)
        (first ++ groups.filter (· ≠ '.')) fraction
  | groupedInteger {first groups : Text} {n : Nat} : first ≠ [] → AllFigures first →
      first.length ≤ 3 → Groups n groups → 0 < n → n ≤ 5 → numberGoesOn rest = false →
      Writes rest groupedInteger (first ++ groups) (first ++ groups.filter (· ≠ '.')) []
  | decimal {whole fraction : Text} : AllFigures whole → fraction ≠ [] → AllFigures fraction →
      Writes rest decimal (whole ++ ',' :: fraction) whole fraction
  | pointDecimal {whole fraction : Text} : AllFigures whole → fraction ≠ [] →
      AllFigures fraction → ¬ (fraction.length = 3 ∧ 1 ≤ whole.length ∧ whole.length ≤ 3) →
      numberGoesOn rest = false →
      Writes rest pointDecimal (whole ++ '.' :: fraction) whole fraction

end FigureForm

/-! ## The points between groups -/

theorem Groups.figure_or_point {n : Nat} {groups : Text} (h : Groups n groups) :
    ∀ c ∈ groups, c = '.' ∨ c.isDigit = true := by
  induction h with
  | nil => simp
  | cons ha hb hc _ ih =>
    simp only [List.mem_cons, forall_eq_or_imp]
    exact ⟨Or.inl trivial, Or.inr ha, Or.inr hb, Or.inr hc, ih⟩

/-- Without their points the groups are figures. -/
theorem Groups.figures {n : Nat} {groups : Text} (h : Groups n groups) :
    AllFigures (groups.filter (· ≠ '.')) := by
  intro c hc
  obtain ⟨hmem, hpoint⟩ := List.mem_filter.mp hc
  exact (h.figure_or_point c hmem).resolve_left (of_decide_eq_true hpoint)

/-- No comma stands in the groups. -/
theorem Groups.comma_not_mem {n : Nat} {groups : Text} (h : Groups n groups) : ',' ∉ groups := by
  intro hmem
  rcases h.figure_or_point _ hmem with heq | hfigure
  · simp at heq
  · simp at hfigure

theorem Groups.exists_cons {n : Nat} {groups : Text} (h : Groups n groups) (hn : 0 < n) :
    ∃ a b c more, groups = '.' :: a :: b :: c :: more ∧ Groups (n - 1) more := by
  cases h with
  | nil => exact absurd hn (Nat.lt_irrefl 0)
  | cons _ _ _ hgroups => exact ⟨_, _, _, _, rfl, hgroups⟩

/-- The figures before and between the points. -/
theorem filter_first_groups {first groups : Text} (hfirst : AllFigures first) :
    (first ++ groups).filter (· ≠ '.') = first ++ groups.filter (· ≠ '.') := by
  rw [List.filter_append, filter_figures hfirst]

/-! ## A text has one form -/

namespace FigureForm.Writes

variable {form form' : FigureForm} {rest rest' text whole fraction whole' fraction' : Text}

theorem comma_mem_iff (h : form.Writes rest text whole fraction) :
    ',' ∈ text ↔ form = .groupedDecimal ∨ form = .decimal := by
  cases h with
  | integer _ hall => simp [hall.not_mem (c := ',') rfl]
  | groupedDecimal => simp
  | groupedInteger _ hfirst _ hgroups =>
    simp [hfirst.not_mem (c := ',') rfl, hgroups.comma_not_mem]
  | decimal => simp
  | pointDecimal hwhole _ hfraction =>
    simp [hwhole.not_mem (c := ',') rfl, hfraction.not_mem (c := ',') rfl]

theorem point_mem_iff (h : form.Writes rest text whole fraction) :
    '.' ∈ text ↔ form ≠ .integer ∧ form ≠ .decimal := by
  cases h with
  | integer _ hall => simp [hall.not_mem (c := '.') rfl]
  | groupedDecimal _ _ hgroups hn =>
    obtain ⟨a, b, c, more, rfl, _⟩ := hgroups.exists_cons hn
    simp
  | groupedInteger _ _ _ hgroups hn =>
    obtain ⟨a, b, c, more, rfl, _⟩ := hgroups.exists_cons hn
    simp
  | decimal hwhole _ hfraction =>
    simp [hwhole.not_mem (c := '.') rfl, hfraction.not_mem (c := '.') rfl]
  | pointDecimal => simp

/-- One group of thousands behind one to three figures is no decimal number, and more groups have
more points than one. -/
theorem not_grouped_and_pointed (h : Writes rest .groupedInteger text whole fraction)
    (h' : Writes rest' .pointDecimal text whole' fraction') : False := by
  cases h with
  | @groupedInteger first groups n hne hfirst hlength hgroups hn =>
    generalize htext : first ++ groups = text at h'
    cases h' with
    | pointDecimal hwhole _ hfraction hshort =>
      obtain ⟨a, b, c, more, rfl, hmore⟩ := hgroups.exists_cons hn
      obtain ⟨rfl, _, rfl⟩ := (List.append_cons_inj_of_notMem (hwhole.not_mem rfl)
        (hfraction.not_mem rfl)).mp htext.symm
      have hnil : more = [] := by
        by_contra hmorene
        obtain ⟨_, _, _, _, rfl, _⟩ := hmore.exists_cons (hmore.pos hmorene)
        have hpoint := hfraction '.' (by simp)
        simp at hpoint
      exact hshort ⟨by simp [hnil], List.length_pos_iff.mpr hne, hlength⟩

/-- A text has at most one form, whatever follows. -/
theorem form_unique (h : form.Writes rest text whole fraction)
    (h' : form'.Writes rest' text whole' fraction') : form = form' := by
  have hcomma := h.comma_mem_iff.symm.trans h'.comma_mem_iff
  have hpoint := h.point_mem_iff.symm.trans h'.point_mem_iff
  cases form <;> cases form' <;> simp at hcomma hpoint ⊢
  · exact not_grouped_and_pointed h h'
  · exact not_grouped_and_pointed h' h

/-- A text of a form writes one number. -/
theorem figures_unique (h : form.Writes rest text whole fraction)
    (h' : form.Writes rest' text whole' fraction') : whole = whole' ∧ fraction = fraction' := by
  have hcomma : ∀ {row : Text}, AllFigures row → ',' ∉ row := fun h => h.not_mem rfl
  cases h with
  | integer =>
    cases h'
    exact ⟨rfl, rfl⟩
  | @groupedDecimal first groups _ _ _ hfirst hgroups _ _ hfraction =>
    generalize htext : first ++ groups ++ ',' :: fraction = text at h'
    cases h' with
    | @groupedDecimal first' groups' _ _ _ hfirst' hgroups' =>
      obtain ⟨hrow, _, rfl⟩ := (List.append_cons_inj_of_notMem
        (by simp [hcomma hfirst, hgroups.comma_not_mem]) (hcomma hfraction)).mp htext
      rw [← filter_first_groups hfirst, ← filter_first_groups hfirst', hrow]
      exact ⟨rfl, rfl⟩
  | @groupedInteger first groups _ _ hfirst =>
    generalize htext : first ++ groups = text at h'
    cases h' with
    | @groupedInteger first' groups' _ _ hfirst' =>
      rw [← filter_first_groups hfirst, ← filter_first_groups hfirst', htext]
      exact ⟨rfl, rfl⟩
  | decimal hwhole _ hfraction =>
    generalize htext : whole ++ ',' :: fraction = text at h'
    cases h' with
    | decimal =>
      obtain ⟨rfl, _, rfl⟩ := (List.append_cons_inj_of_notMem (hcomma hwhole)
        (hcomma hfraction)).mp htext
      exact ⟨rfl, rfl⟩
  | pointDecimal hwhole _ hfraction =>
    generalize htext : whole ++ '.' :: fraction = text at h'
    cases h' with
    | pointDecimal =>
      obtain ⟨rfl, _, rfl⟩ := (List.append_cons_inj_of_notMem (hwhole.not_mem rfl)
        (hfraction.not_mem rfl)).mp htext
      exact ⟨rfl, rfl⟩

/-- A number written with figures ends with a figure. -/
theorem ends (h : form.Writes rest text whole fraction) :
    ∃ before c, text = before ++ [c] ∧ c.isDigit = true := by
  cases h with
  | integer hne hall hlength => exact ends_in_figure (Or.inl ⟨hne, hall, hlength⟩)
  | groupedDecimal hne hfirst hgroups hn hfne hfraction =>
    exact ends_in_figure (Or.inr (Or.inl ⟨_, _, _, _, rfl, hne, hfirst, hgroups, hn, hfne, hfraction⟩))
  | @groupedInteger first groups n _ _ _ hgroups hn =>
    obtain ⟨before, figures, rfl, hfigures, hall⟩ := hgroups.ends hn
    have := exists_last_figure (first ++ before ++ ['.']) hfigures hall
    rwa [List.append_assoc _ ['.'] _, List.append_assoc] at this
  | decimal hwhole hfne hfraction =>
    exact ends_in_figure (Or.inr (Or.inr ⟨_, _, rfl, hwhole, hfne, hfraction⟩))
  | pointDecimal _ hfne hfraction =>
    have := exists_last_figure (whole ++ ['.']) hfne hfraction
    rwa [List.append_assoc _ ['.'] _] at this

/-- Behind a figure at a boundary there is no figure. -/
theorem noFigureFollows (h : form.Writes rest text whole fraction) {front : Text}
    (hcloses : isBoundary (front ++ text).getLast? rest.head? = true) :
    noFigureFollows rest = true := by
  obtain ⟨before, c, rfl, hc⟩ := h.ends
  rw [noFigureFollows_iff]
  intro d hd
  rw [Bool.eq_false_iff]
  intro hdigit
  rw [← List.append_assoc, List.getLast?_concat, hd] at hcloses
  simp [isBoundary, separates, classify_of_isDigit hc, classify_of_isDigit hdigit] at hcloses

end FigureForm.Writes

/-! ## What a rule makes of its form -/

theorem plain?_written?_iff {whole fraction : Text} {token : Token} :
    Token.plain? (Value.written? whole fraction) = some token ↔
      ∃ value : Value, value.IsWrittenBy whole fraction ∧ token = ⟨value, none⟩ := by
  rw [Token.plain?, Option.map_eq_some_iff]
  simp only [Value.written?_eq_some_iff, @eq_comm _ token]

namespace FigureForm

variable {form : FigureForm} {rest : Text}

/-- The pattern of a form reads its texts, and the production makes of them what they write. -/
theorem exists_capture {text whole fraction : Text} (h : form.Writes rest text whole fraction)
    (hrest : noFigureFollows rest = true) :
    ∃ capture, capture.text = text ∧ form.pattern.Reads capture rest ∧
      form.rule.produce [.capture capture] = Token.plain? (Value.written? whole fraction) := by
  cases h with
  | integer hne hall hlength =>
    refine ⟨⟨text, []⟩, rfl, reads_integer_iff.mpr ⟨rfl, ⟨hne, hall, hlength⟩, hrest⟩, ?_⟩
    show Token.plain? (readWhole text).toOption = _
    rw [readWhole_eq hne hall hlength]
  | @groupedDecimal first groups fraction n hne hfirst hgroups hn hfne hfraction =>
    refine ⟨⟨_, []⟩, rfl, reads_groupedDecimal_iff.mpr
      ⟨rfl, ⟨_, _, _, _, rfl, hne, hfirst, hgroups, hn, hfne, hfraction⟩, hrest⟩, ?_⟩
    show Token.plain? (readDecimal (normalizeSeparators _)).toOption = _
    have hall := allFigures_append.mpr ⟨hfirst, hgroups.figures⟩
    rw [normalizeSeparators_figures (by rwa [filter_first_groups hfirst]) hfraction,
      filter_first_groups hfirst, readDecimal_atLeastZero hall hfraction]
  | @groupedInteger first groups n hne hfirst hlength hgroups hn hle hgoesOn =>
    refine ⟨⟨_, []⟩, rfl, reads_groupedInteger_iff.mpr
      ⟨rfl, ⟨n, _, _, rfl, hne, hfirst, hlength, hgroups, hn, hle⟩,
        noNumberFollows_iff.mpr ⟨hrest, hgoesOn⟩⟩, ?_⟩
    show Token.plain? (readDecimal ((first ++ groups).filter (· ≠ '.'))).toOption = _
    have hall := allFigures_append.mpr ⟨hfirst, hgroups.figures⟩
    rw [filter_first_groups hfirst, readDecimal_whole (by simp [hne]) hall]
  | decimal hwhole hfne hfraction =>
    refine ⟨⟨_, []⟩, rfl, reads_decimal_iff.mpr
      ⟨rfl, ⟨_, _, rfl, hwhole, hfne, hfraction⟩, hrest⟩, ?_⟩
    show Token.plain? (readDecimal (normalizeSeparators _)).toOption = _
    rw [normalizeSeparators_figures (by rwa [filter_figures hwhole]) hfraction,
      filter_figures hwhole, readDecimal_atLeastZero hwhole hfraction]
  | pointDecimal hwhole hfne hfraction hshort hgoesOn =>
    refine ⟨_, ?_, reads_pointDecimal_iff.mpr
      ⟨⟨_, _, rfl, hwhole, hfne, hfraction⟩, noNumberFollows_iff.mpr ⟨hrest, hgoesOn⟩⟩, ?_⟩
    · rfl
    · show (if byteLength fraction = 3 ∧ 1 ≤ byteLength whole ∧ byteLength whole ≤ 3 then none
        else Token.plain? (readDecimal (atLeastZero whole ++ '.' :: fraction)).toOption) = _
      rw [byteLength_figures hwhole, byteLength_figures hfraction, if_neg hshort,
        readDecimal_atLeastZero hwhole hfraction]

/-- What the pattern of a form reads, and the production makes a token of, is a text of the
form. -/
theorem writes_of_reads {capture : Capture} {token : Token}
    (hreads : form.pattern.Reads capture rest)
    (htoken : form.rule.produce [.capture capture] = some token) :
    ∃ whole fraction, form.Writes rest capture.text whole fraction := by
  cases form with
  | integer =>
    obtain ⟨_, ⟨hne, hall, hlength⟩, _⟩ := reads_integer_iff.mp hreads
    exact ⟨_, _, .integer hne hall hlength⟩
  | groupedDecimal =>
    obtain ⟨_, ⟨_, _, _, _, htext, hne, hfirst, hgroups, hn, hfne, hfraction⟩, _⟩ :=
      reads_groupedDecimal_iff.mp hreads
    rw [htext]
    exact ⟨_, _, .groupedDecimal hne hfirst hgroups hn hfne hfraction⟩
  | groupedInteger =>
    obtain ⟨_, ⟨_, _, _, htext, hne, hfirst, hlength, hgroups, hn, hle⟩, hfollow⟩ :=
      reads_groupedInteger_iff.mp hreads
    have hgoesOn := (noNumberFollows_iff.mp hfollow).2
    rw [htext]
    exact ⟨_, _, .groupedInteger hne hfirst hlength hgroups hn hle hgoesOn⟩
  | decimal =>
    obtain ⟨_, ⟨_, _, htext, hwhole, hfne, hfraction⟩, _⟩ := reads_decimal_iff.mp hreads
    rw [htext]
    exact ⟨_, _, .decimal hwhole hfne hfraction⟩
  | pointDecimal =>
    obtain ⟨⟨whole, fraction, rfl, hwhole, hfne, hfraction⟩, hfollow⟩ :=
      reads_pointDecimal_iff.mp hreads
    have hmade : (if byteLength fraction = 3 ∧ 1 ≤ byteLength whole ∧ byteLength whole ≤ 3 then
        none else Token.plain? (readDecimal (atLeastZero whole ++ '.' :: fraction)).toOption) =
        some token := htoken
    rw [byteLength_figures hwhole, byteLength_figures hfraction] at hmade
    split at hmade
    · simp at hmade
    · rename_i hshort
      exact ⟨_, _, .pointDecimal hwhole hfne hfraction hshort (noNumberFollows_iff.mp hfollow).2⟩

theorem noFigureFollows_of_reads {capture : Capture} (hreads : form.pattern.Reads capture rest) :
    noFigureFollows rest = true := by
  have hadmits := hreads.2.1
  cases form with
  | integer | groupedDecimal | decimal => exact hadmits
  | groupedInteger | pointDecimal => exact (noNumberFollows_iff.mp hadmits).1

/-- The token is the number that the text writes. -/
theorem written_of_reads {capture : Capture} {token : Token}
    (hreads : form.pattern.Reads capture rest)
    (htoken : form.rule.produce [.capture capture] = some token) :
    ∃ whole fraction, ∃ value : Value, form.Writes rest capture.text whole fraction ∧
      value.IsWrittenBy whole fraction ∧ token = ⟨value, none⟩ := by
  obtain ⟨whole, fraction, hwrites⟩ := writes_of_reads hreads htoken
  obtain ⟨other, hother, hreads', hmade⟩ :=
    exists_capture hwrites (noFigureFollows_of_reads hreads)
  rw [hreads.unique hreads' hother.symm, hmade, plain?_written?_iff] at htoken
  obtain ⟨value, hvalue, htoken⟩ := htoken
  exact ⟨whole, fraction, value, hwrites, hvalue, htoken⟩

theorem mem_spanishRules (form : FigureForm) : form.rule ∈ spanishRules := by
  simp only [spanishRules, List.mem_append]
  exact Or.inl (Or.inl (mem_figureRules_iff.mpr ⟨form, rfl⟩))

theorem beginsUnblank (form : FigureForm) : form.pattern.BeginsUnblank :=
  beginsUnblank_of_mem
    (mem_patternsOf.mpr ⟨_, form.mem_spanishRules, form.elements_rule ▸ List.mem_cons_self⟩)

/-- The rule of a form gives a numeral for each stretch of the form whose value is finite. -/
theorem mem_given_iff {text : Text} {n : Numeral} :
    n ∈ given text form.rule ↔ n.rule = form.rule.name ∧
      ∃ front back whole fraction, ∃ value : Value, Stretch text front n.text back ∧
        n.start = byteLength front ∧ form.Writes back n.text whole fraction ∧
        value.IsWrittenBy whole fraction ∧ n.token = ⟨value, none⟩ := by
  rw [mem_given_single form.elements_rule form.beginsUnblank]
  refine and_congr_right fun _ => ?_
  constructor
  · rintro ⟨front, back, capture, hstretch, hstart, htext, hreads, htoken⟩
    obtain ⟨whole, fraction, value, hwrites, hvalue, htoken⟩ := written_of_reads hreads htoken
    exact ⟨front, back, whole, fraction, value, hstretch, hstart, htext ▸ hwrites, hvalue, htoken⟩
  · rintro ⟨front, back, whole, fraction, value, hstretch, hstart, hwrites, hvalue, htoken⟩
    obtain ⟨capture, htext, hreads, hmade⟩ :=
      exists_capture hwrites (hwrites.noFigureFollows hstretch.closes)
    refine ⟨front, back, capture, hstretch, hstart, htext, hreads, ?_⟩
    rw [hmade, plain?_written?_iff]
    exact ⟨value, hvalue, htoken⟩

end FigureForm

end SpanishNumerals
