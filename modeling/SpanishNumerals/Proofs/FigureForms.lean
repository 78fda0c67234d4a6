-- The grammar of numbers written with figures. A form reads a text of its grammar at the front
-- of a text, and reads it to the end: what is left begins with nothing that the grammar would
-- have gone on with.
import Mathlib.Data.List.TakeWhile
import SpanishNumerals.Figures

namespace SpanishNumerals

/-! ## Rows of figures -/

/-- All the characters are figures. -/
def AllFigures (text : Text) : Prop := ∀ c ∈ text, c.isDigit = true

theorem allFigures_append {a b : Text} : AllFigures (a ++ b) ↔ AllFigures a ∧ AllFigures b := by
  simp only [AllFigures, List.mem_append, or_imp, forall_and]

theorem allFigures_cons {c : Char} {row : Text} :
    AllFigures (c :: row) ↔ c.isDigit = true ∧ AllFigures row := by
  simp only [AllFigures, List.mem_cons, forall_eq_or_imp]

theorem noFigureFollows_iff {rest : Text} :
    noFigureFollows rest = true ↔ ∀ c, rest.head? = some c → c.isDigit = false := by
  cases rest with
  | nil => simp [noFigureFollows]
  | cons c rest => simp [noFigureFollows]

theorem noFigureFollows_of_noNumberFollows {rest : Text} (h : noNumberFollows rest = true) :
    noFigureFollows rest = true := by
  match rest with
  | [] => rfl
  | [c] => exact h
  | c :: d :: rest =>
    simp only [noNumberFollows, Bool.and_eq_true] at h
    exact h.1

theorem takeWhile_figures {row rest : Text} (hrow : AllFigures row)
    (hrest : noFigureFollows rest = true) : (row ++ rest).takeWhile Char.isDigit = row := by
  rw [List.takeWhile_append_of_pos hrow]
  cases rest with
  | nil => simp
  | cons c rest =>
    have hc := noFigureFollows_iff.mp hrest c rfl
    simp [hc]

/-- The row of figures is read to its end, and there is one such row. -/
theorem splitFigures_eq_iff {text row rest : Text} :
    splitFigures text = (row, rest) ↔
      text = row ++ rest ∧ AllFigures row ∧ noFigureFollows rest = true := by
  constructor
  · intro h
    obtain ⟨rfl, rfl⟩ := Prod.mk.inj h
    refine ⟨(List.takeWhile_append_dropWhile).symm, fun c hc => List.mem_takeWhile_imp hc, ?_⟩
    rw [noFigureFollows_iff]
    intro c hc
    have hne : text.dropWhile Char.isDigit ≠ [] := by
      rintro hnil
      rw [hnil] at hc
      simp at hc
    rw [List.head?_eq_some_head hne] at hc
    rw [← Option.some.inj hc]
    exact List.head_dropWhile_not Char.isDigit hne
  · rintro ⟨rfl, hrow, hrest⟩
    have htake := takeWhile_figures hrow hrest
    have hsplit := @List.takeWhile_append_dropWhile _ Char.isDigit (row ++ rest)
    rw [htake] at hsplit
    simp only [splitFigures, htake, List.append_cancel_left hsplit]

theorem splitFigures_spec (text : Text) :
    text = (splitFigures text).1 ++ (splitFigures text).2 ∧ AllFigures (splitFigures text).1 ∧
      noFigureFollows (splitFigures text).2 = true := splitFigures_eq_iff.mp rfl

/-! ## Groups of thousands -/

/-- So many groups of a point and three figures. -/
inductive Groups : Nat → Text → Prop
  | nil : Groups 0 []
  | cons {n : Nat} {a b c : Char} {text : Text} : a.isDigit = true → b.isDigit = true →
      c.isDigit = true → Groups n text → Groups (n + 1) ('.' :: a :: b :: c :: text)

/-- Whether a text begins with a group. -/
def beginsWithGroup : Text → Bool
  | '.' :: a :: b :: c :: _ => a.isDigit && b.isDigit && c.isDigit
  | _ => false

namespace Groups

variable {n : Nat} {text : Text}

theorem length_eq (h : Groups n text) : text.length = 4 * n := by
  induction h with
  | nil => rfl
  | cons _ _ _ _ ih =>
    simp only [List.length_cons]
    omega

theorem ne_nil (h : Groups n text) (hn : 0 < n) : text ≠ [] := by
  rintro rfl
  have := h.length_eq
  simp only [List.length_nil] at this
  omega

theorem pos (h : Groups n text) (hne : text ≠ []) : 0 < n := by
  cases h with
  | nil => exact absurd rfl hne
  | cons => exact Nat.succ_pos _

/-- The groups end with a point and figures. -/
theorem ends (h : Groups n text) (hn : 0 < n) :
    ∃ before figures, text = before ++ '.' :: figures ∧ figures ≠ [] ∧ AllFigures figures := by
  induction h with
  | nil => exact absurd hn (Nat.lt_irrefl 0)
  | @cons n a b c text ha hb hc hgroups ih =>
    by_cases hzero : n = 0
    · subst hzero
      cases hgroups
      refine ⟨[], [a, b, c], rfl, by simp, ?_⟩
      simp [AllFigures, ha, hb, hc]
    · obtain ⟨before, figures, rfl, hne, hfigures⟩ := ih (Nat.pos_of_ne_zero hzero)
      exact ⟨'.' :: a :: b :: c :: before, figures, rfl, hne, hfigures⟩

end Groups

theorem beginsWithGroup_eq_false {text : Text}
    (h : ∀ a b c rest, text = '.' :: a :: b :: c :: rest →
      (a.isDigit && b.isDigit && c.isDigit) = false) : beginsWithGroup text = false := by
  unfold beginsWithGroup
  split
  · rename_i a b c rest
    exact h a b c rest rfl
  · rfl

/-- Groups are read as long as there are any, up to the limit. -/
theorem splitGroups_spec (limit : Nat) (text : Text) :
    ∃ n ≤ limit, Groups n (splitGroups limit text).1 ∧
      (beginsWithGroup (splitGroups limit text).2 = false ∨ n = limit) := by
  fun_induction splitGroups limit text with
  | case1 limit a b c text h groups rest hsplit ih =>
    simp only [hsplit, Bool.and_eq_true] at ih h
    obtain ⟨n, hn, hgroups, hrest⟩ := ih
    refine ⟨n + 1, Nat.succ_le_succ hn, Groups.cons h.1.1 h.1.2 h.2 hgroups, ?_⟩
    exact hrest.imp_right (congrArg (· + 1))
  | case2 limit a b c text h =>
    exact ⟨0, Nat.zero_le _, Groups.nil, Or.inl (by simpa [beginsWithGroup] using h)⟩
  | case3 limit text h =>
    refine ⟨0, Nat.zero_le _, Groups.nil, ?_⟩
    cases limit with
    | zero => exact Or.inr rfl
    | succ limit =>
      left
      apply beginsWithGroup_eq_false
      rintro a b c rest rfl
      exact absurd rfl (h limit a b c rest rfl)

theorem splitGroups_append_eq {n limit : Nat} {groups rest : Text} (h : Groups n groups)
    (hn : n ≤ limit) (hrest : beginsWithGroup rest = false ∨ n = limit) :
    splitGroups limit (groups ++ rest) = (groups, rest) := by
  induction h generalizing limit with
  | nil =>
    rw [List.nil_append]
    unfold splitGroups
    split
    · rename_i limit a b c text
      rcases hrest with hrest | hrest
      · rw [beginsWithGroup] at hrest
        rw [if_neg (by rw [hrest]; decide)]
      · exact absurd hrest (by omega)
    · rfl
  | @cons n a b c text ha hb hc hgroups ih =>
    obtain ⟨limit, rfl⟩ : ∃ k, limit = k + 1 := ⟨limit - 1, by omega⟩
    simp only [List.cons_append, splitGroups, ha, hb, hc, Bool.and_self, if_true]
    rw [ih (by omega) (hrest.imp_right fun h => by omega)]

/-! ## Rows of at most so many figures -/

theorem noFigureFollows_take {rest : Text} (h : noFigureFollows rest = true) (n : Nat) :
    noFigureFollows (rest.take n) = true := by
  cases rest with
  | nil => simp [noFigureFollows]
  | cons c rest =>
    cases n with
    | zero => rfl
    | succ n => exact h

/-- A row of figures is read up to the limit, and there is one such row. -/
theorem takeWhile_take_eq_iff {limit : Nat} {text row : Text} :
    (text.take limit).takeWhile Char.isDigit = row ↔ ∃ rest, text = row ++ rest ∧
      AllFigures row ∧ row.length ≤ limit ∧
      (noFigureFollows rest = true ∨ row.length = limit) := by
  constructor
  · rintro rfl
    obtain ⟨hsplit, hrow, hnext⟩ := splitFigures_eq_iff.mp
      (rfl : splitFigures (text.take limit) = (_, (text.take limit).dropWhile Char.isDigit))
    have hlength := congrArg List.length hsplit
    rw [List.length_take, List.length_append] at hlength
    refine ⟨(text.take limit).dropWhile Char.isDigit ++ text.drop limit, ?_, hrow, by omega, ?_⟩
    · rw [← List.append_assoc, ← hsplit, List.take_append_drop]
    · cases hrest : (text.take limit).dropWhile Char.isDigit with
      | cons c rest =>
        rw [hrest] at hnext
        exact Or.inl hnext
      | nil =>
        -- The row goes on to the limit, or to the end of the text.
        rw [hrest, List.length_nil] at hlength
        rcases Nat.lt_or_ge text.length limit with hshort | hlong
        · left
          rw [List.drop_of_length_le (Nat.le_of_lt hshort)]
          rfl
        · right
          omega
  · rintro ⟨rest, rfl, hrow, hle, hrest⟩
    rw [List.take_append, List.take_of_length_le hle]
    apply takeWhile_figures hrow
    rcases hrest with hrest | hfull
    · exact noFigureFollows_take hrest _
    · rw [hfull, Nat.sub_self]
      rfl

/-! ## What the forms read -/

theorem integerForm_eq_some_iff {text figures : Text} :
    integerForm text = some figures ↔ figures ≠ [] ∧ ∃ rest, text = figures ++ rest ∧
      AllFigures figures ∧ figures.length ≤ maxIntegerFigures ∧
      (noFigureFollows rest = true ∨ figures.length = maxIntegerFigures) := by
  rw [← takeWhile_take_eq_iff]
  unfold integerForm
  split
  · rename_i hnil
    rw [hnil]
    simp only [reduceCtorEq, false_iff, not_and]
    exact fun hne h => hne h.symm
  · rename_i hne
    rw [Option.some.injEq]
    constructor
    · rintro rfl
      exact ⟨hne, rfl⟩
    · exact And.right

/-- A row of one to eighteen figures. -/
def IsInteger (figures : Text) : Prop :=
  figures ≠ [] ∧ AllFigures figures ∧ figures.length ≤ maxIntegerFigures

/-- Figures or none, a comma and figures. -/
def IsDecimal (figures : Text) : Prop :=
  ∃ whole fraction, figures = whole ++ ',' :: fraction ∧ AllFigures whole ∧ fraction ≠ [] ∧
    AllFigures fraction

theorem decimalForm_eq_some_iff {text figures : Text} :
    decimalForm text = some figures ↔
      ∃ rest, text = figures ++ rest ∧ IsDecimal figures ∧ noFigureFollows rest = true := by
  constructor
  · intro h
    unfold decimalForm at h
    obtain ⟨hwhole, hall, _⟩ := splitFigures_spec text
    dsimp only at h
    split at h
    · rename_i rest hrest
      obtain ⟨hfraction, hfigures, hnext⟩ := splitFigures_spec rest
      split at h
      · rename_i hne
        obtain rfl := Option.some.inj h
        refine ⟨(splitFigures rest).2, ?_, ⟨_, _, rfl, hall, hne, hfigures⟩, hnext⟩
        rw [List.append_assoc, List.cons_append, ← hfraction, ← hrest, ← hwhole]
      · simp at h
    · simp at h
  · rintro ⟨rest, rfl, ⟨whole, fraction, rfl, hwhole, hne, hfraction⟩, hnext⟩
    have hsplit : splitFigures (whole ++ ',' :: fraction ++ rest) =
        (whole, ',' :: (fraction ++ rest)) :=
      splitFigures_eq_iff.mpr ⟨by simp, hwhole, rfl⟩
    have hrest := splitFigures_eq_iff.mpr ⟨rfl, hfraction, hnext⟩
    simp only [decimalForm, hsplit, hrest]
    rw [if_pos hne]

/-- Figures or none, a point and figures. -/
def IsPointDecimal (figures : Text) : Prop :=
  ∃ whole fraction, figures = whole ++ '.' :: fraction ∧ AllFigures whole ∧ fraction ≠ [] ∧
    AllFigures fraction

theorem pointDecimalForm_eq_some_iff {text whole fraction : Text} :
    pointDecimalForm text = some (whole, fraction) ↔
      ∃ rest, text = whole ++ '.' :: fraction ++ rest ∧ AllFigures whole ∧ fraction ≠ [] ∧
        AllFigures fraction ∧ noFigureFollows rest = true := by
  constructor
  · intro h
    unfold pointDecimalForm at h
    obtain ⟨hwhole, hall, _⟩ := splitFigures_spec text
    dsimp only at h
    split at h
    · rename_i rest hrest
      obtain ⟨hfraction, hfigures, hnext⟩ := splitFigures_spec rest
      split at h
      · rename_i hne
        obtain ⟨rfl, rfl⟩ := Prod.mk.inj (Option.some.inj h)
        refine ⟨(splitFigures rest).2, ?_, hall, hne, hfigures, hnext⟩
        rw [List.append_assoc, List.cons_append, ← hfraction, ← hrest, ← hwhole]
      · simp at h
    · simp at h
  · rintro ⟨rest, rfl, hwhole, hne, hfraction, hnext⟩
    have hsplit : splitFigures (whole ++ '.' :: fraction ++ rest) =
        (whole, '.' :: (fraction ++ rest)) :=
      splitFigures_eq_iff.mpr ⟨by simp, hwhole, rfl⟩
    have hrest := splitFigures_eq_iff.mpr ⟨rfl, hfraction, hnext⟩
    simp only [pointDecimalForm, hsplit, hrest]
    rw [if_pos hne]

/-- One to three figures, then so many groups of thousands, at most five. -/
def IsGroupedInteger (n : Nat) (figures : Text) : Prop :=
  ∃ whole groups, figures = whole ++ groups ∧ whole ≠ [] ∧ AllFigures whole ∧
    whole.length ≤ 3 ∧ Groups n groups ∧ 0 < n ∧ n ≤ 5

theorem groupedIntegerForm_eq_some_iff {text figures : Text} :
    groupedIntegerForm text = some figures ↔ ∃ rest n, text = figures ++ rest ∧
      IsGroupedInteger n figures ∧ (beginsWithGroup rest = false ∨ n = 5) := by
  constructor
  · intro h
    unfold groupedIntegerForm at h
    generalize hrow : (text.take 3).takeWhile Char.isDigit = whole at h
    obtain ⟨rest, rfl, hall, hle, _⟩ := takeWhile_take_eq_iff.mp hrow
    obtain ⟨n, hn, hgroups, hnext⟩ := splitGroups_spec 5 rest
    simp only [List.drop_left] at h
    split at h
    · rename_i hne
      obtain rfl := Option.some.inj h
      refine ⟨(splitGroups 5 rest).2, n, ?_,
        ⟨_, _, rfl, hne.1, hall, hle, hgroups, hgroups.pos hne.2, hn⟩, hnext⟩
      rw [List.append_assoc, splitGroups_append]
    · simp at h
  · rintro ⟨rest, n, rfl, ⟨whole, groups, rfl, hne, hall, hle, hgroups, hpos, hn⟩, hnext⟩
    have hpoint : noFigureFollows (groups ++ rest) = true := by
      cases hgroups with
      | nil => exact absurd hpos (Nat.lt_irrefl 0)
      | cons => rfl
    have hwhole : ((whole ++ groups ++ rest).take 3).takeWhile Char.isDigit = whole :=
      takeWhile_take_eq_iff.mpr ⟨groups ++ rest, List.append_assoc .., hall, hle, Or.inl hpoint⟩
    have hdrop : (whole ++ groups ++ rest).drop whole.length = groups ++ rest := by
      rw [List.append_assoc]
      exact List.drop_left
    simp only [groupedIntegerForm, hwhole, hdrop, splitGroups_append_eq hgroups hn hnext]
    rw [if_pos ⟨hne, hgroups.ne_nil hpos⟩]

/-- Figures, groups of thousands, a comma and figures. -/
def IsGroupedDecimal (figures : Text) : Prop :=
  ∃ whole n groups fraction, figures = whole ++ groups ++ ',' :: fraction ∧ whole ≠ [] ∧
    AllFigures whole ∧ Groups n groups ∧ 0 < n ∧ fraction ≠ [] ∧ AllFigures fraction

theorem groupedDecimalForm_eq_some_iff {text figures : Text} :
    groupedDecimalForm text = some figures ↔
      ∃ rest, text = figures ++ rest ∧ IsGroupedDecimal figures ∧ noFigureFollows rest = true := by
  constructor
  · intro h
    unfold groupedDecimalForm at h
    obtain ⟨hwhole, hall, _⟩ := splitFigures_spec text
    dsimp only at h
    generalize (splitFigures text).1 = whole at h hwhole hall
    generalize (splitFigures text).2 = behind at h hwhole
    obtain ⟨n, _, hgroups, _⟩ := splitGroups_spec behind.length behind
    have hbehind := splitGroups_append behind.length behind
    split at h
    · rename_i rest hrest
      obtain ⟨hfraction, hfigures, hnext⟩ := splitFigures_spec rest
      split at h
      · rename_i hne
        obtain rfl := Option.some.inj h
        refine ⟨(splitFigures rest).2, ?_,
          ⟨whole, n, _, _, rfl, hne.1, hall, hgroups, hgroups.pos hne.2.1, hne.2.2, hfigures⟩,
          hnext⟩
        simp only [List.append_assoc, List.cons_append]
        rw [← hfraction, ← hrest, hbehind, ← hwhole]
      · simp at h
    · simp at h
  · rintro ⟨rest, rfl,
      ⟨whole, n, groups, fraction, rfl, hne, hwhole, hgroups, hpos, hfne, hfraction⟩, hnext⟩
    have hpoint : noFigureFollows (groups ++ ',' :: (fraction ++ rest)) = true := by
      cases hgroups with
      | nil => exact absurd hpos (Nat.lt_irrefl 0)
      | cons => rfl
    have hsplit : splitFigures (whole ++ groups ++ ',' :: fraction ++ rest) =
        (whole, groups ++ ',' :: (fraction ++ rest)) :=
      splitFigures_eq_iff.mpr ⟨by simp, hwhole, hpoint⟩
    have hle : n ≤ (groups ++ ',' :: (fraction ++ rest)).length := by
      have := hgroups.length_eq
      rw [List.length_append]
      omega
    have hgroupsplit := splitGroups_append_eq hgroups hle
      (Or.inl (rfl : beginsWithGroup (',' :: (fraction ++ rest)) = false))
    have hrest := splitFigures_eq_iff.mpr ⟨rfl, hfraction, hnext⟩
    simp only [groupedDecimalForm, hsplit, hgroupsplit, hrest]
    rw [if_pos ⟨hne, hgroups.ne_nil hpos, hfne⟩]

/-! ## The characters of the forms -/

/-- A figure or a separator. -/
def isFigureSign (c : Char) : Bool := c.isDigit || c = '.' || c = ','

theorem isFigureSign_of_isDigit {c : Char} (h : c.isDigit = true) : isFigureSign c = true := by
  rw [isFigureSign, h, Bool.true_or, Bool.true_or]

theorem AllFigures.signs {text : Text} (h : AllFigures text) :
    ∀ c ∈ text, isFigureSign c = true := fun c hc => isFigureSign_of_isDigit (h c hc)

theorem Groups.signs {n : Nat} {text : Text} (h : Groups n text) :
    ∀ c ∈ text, isFigureSign c = true := by
  induction h with
  | nil => simp
  | cons ha hb hc _ ih =>
    simp only [List.mem_cons, forall_eq_or_imp]
    exact ⟨rfl, isFigureSign_of_isDigit ha, isFigureSign_of_isDigit hb,
      isFigureSign_of_isDigit hc, ih⟩

theorem IsDecimal.signs {text : Text} (h : IsDecimal text) : ∀ c ∈ text, isFigureSign c = true := by
  obtain ⟨whole, fraction, rfl, hwhole, _, hfraction⟩ := h
  simp only [List.forall_mem_append, List.forall_mem_cons]
  exact ⟨hwhole.signs, rfl, hfraction.signs⟩

theorem IsPointDecimal.signs {text : Text} (h : IsPointDecimal text) :
    ∀ c ∈ text, isFigureSign c = true := by
  obtain ⟨whole, fraction, rfl, hwhole, _, hfraction⟩ := h
  simp only [List.forall_mem_append, List.forall_mem_cons]
  exact ⟨hwhole.signs, rfl, hfraction.signs⟩

theorem IsGroupedInteger.signs {n : Nat} {text : Text} (h : IsGroupedInteger n text) :
    ∀ c ∈ text, isFigureSign c = true := by
  obtain ⟨whole, groups, rfl, _, hwhole, _, hgroups, _⟩ := h
  exact List.forall_mem_append.mpr ⟨hwhole.signs, hgroups.signs⟩

theorem IsGroupedDecimal.signs {text : Text} (h : IsGroupedDecimal text) :
    ∀ c ∈ text, isFigureSign c = true := by
  obtain ⟨whole, n, groups, fraction, rfl, _, hwhole, hgroups, _, _, hfraction⟩ := h
  simp only [List.forall_mem_append, List.forall_mem_cons]
  exact ⟨⟨hwhole.signs, hgroups.signs⟩, rfl, hfraction.signs⟩

theorem plain_signs {text : Text}
    (h : IsInteger text ∨ IsGroupedDecimal text ∨ IsDecimal text) :
    ∀ c ∈ text, isFigureSign c = true := by
  rcases h with ⟨_, hall, _⟩ | h | h
  · exact hall.signs
  · exact h.signs
  · exact h.signs

theorem pointed_signs {text : Text} (h : (∃ n, IsGroupedInteger n text) ∨ IsPointDecimal text) :
    ∀ c ∈ text, isFigureSign c = true := by
  rcases h with ⟨_, h⟩ | h
  · exact h.signs
  · exact h.signs

/-! ## The ends of the forms -/

theorem exists_last_figure (before : Text) {figures : Text} (hne : figures ≠ [])
    (hall : AllFigures figures) :
    ∃ front c, before ++ figures = front ++ [c] ∧ c.isDigit = true := by
  refine ⟨before ++ figures.dropLast, figures.getLast hne, ?_, hall _ (List.getLast_mem hne)⟩
  rw [List.append_assoc, List.dropLast_concat_getLast]

/-- A number written with figures ends with a figure. -/
theorem ends_in_figure {text : Text}
    (h : IsInteger text ∨ IsGroupedDecimal text ∨ IsDecimal text) :
    ∃ before c, text = before ++ [c] ∧ c.isDigit = true := by
  rcases h with ⟨hne, hall, _⟩ | ⟨whole, n, groups, fraction, rfl, _, _, _, _, hne, hall⟩ |
    ⟨whole, fraction, rfl, _, hne, hall⟩
  · exact exists_last_figure [] hne hall
  · have := exists_last_figure (whole ++ groups ++ [',']) hne hall
    rwa [List.append_assoc _ [','] _] at this
  · have := exists_last_figure (whole ++ [',']) hne hall
    rwa [List.append_assoc _ [','] _] at this

/-- A number whose point may be followed by more ends with a point and figures. -/
theorem ends_in_point {text : Text} (h : (∃ n, IsGroupedInteger n text) ∨ IsPointDecimal text) :
    ∃ before figures, text = before ++ '.' :: figures ∧ figures ≠ [] ∧ AllFigures figures := by
  rcases h with ⟨n, whole, groups, rfl, _, _, _, hgroups, hn, _⟩ |
    ⟨whole, fraction, rfl, _, hne, hall⟩
  · obtain ⟨before, figures, rfl, hne, hall⟩ := hgroups.ends hn
    exact ⟨whole ++ before, figures, (List.append_assoc ..).symm, hne, hall⟩
  · exact ⟨whole, fraction, rfl, hne, hall⟩

end SpanishNumerals
