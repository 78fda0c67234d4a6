-- The order in which numbers are found. A rule is read from left to right, and so the numbers
-- that one rule gives in a pass come in the order of the text, when those it builds on do.
import Mathlib.Data.List.Nodup
import Mathlib.Data.List.Pairwise
import SpanishNumerals.Proofs.Passes
import SpanishNumerals.Proofs.Places

namespace SpanishNumerals

/-! ## Readings from left to right -/

theorem Cursor.pairwise_segmentsFrom (behind ahead : Text) :
    (segmentsFrom behind ahead).Pairwise fun a b => a.pos < b.pos := by
  induction ahead generalizing behind with
  | nil => exact List.Pairwise.nil
  | cons c ahead ih =>
    unfold segmentsFrom
    split
    · refine List.pairwise_cons.mpr ⟨?_, ih (c :: behind)⟩
      intro later hlater
      obtain ⟨passed, _, _, hreach, _⟩ := mem_segmentsFrom.mp hlater
      have hsize := c.utf8Size_pos
      rw [hreach.pos_eq]
      simp only [pos, byteLength]
      omega
    · exact ih (c :: behind)

theorem pairwise_segments (text : Text) :
    (segments text).Pairwise fun a b => a.pos < b.pos := Cursor.pairwise_segmentsFrom [] text

/-- The numbers begin one after the other, or at the same place. -/
def FromLeftToRight (found : List Numeral) : Prop := found.Pairwise fun a b => a.start ≤ b.start

section Readings

variable {text : Text} {found : List Numeral} (h : FromLeftToRight found)

include h

theorem pairwise_readFirst (element : Element) :
    (readFirst text found element).Pairwise fun a b => a.1.pos ≤ b.1.pos := by
  cases element with
  | text pattern =>
    apply (pairwise_segments text).filterMap
    intro a b hlt x hx y hy
    obtain ⟨_, _, rfl⟩ := Option.map_eq_some_iff.mp hx
    obtain ⟨_, _, rfl⟩ := Option.map_eq_some_iff.mp hy
    exact Nat.le_of_lt hlt
  | number condition =>
    apply (h.filter _).filterMap
    intro a b hle x hx y hy
    obtain ⟨here, hhere, rfl⟩ := Option.map_eq_some_iff.mp hx
    obtain ⟨there, hthere, rfl⟩ := Option.map_eq_some_iff.mp hy
    rw [(cursorAt?_eq_some.mp hhere).2, (cursorAt?_eq_some.mp hthere).2]
    exact hle

theorem pairwise_readRule (rule : Rule) :
    (readRule text found rule).Pairwise fun a b => a.first.pos ≤ b.first.pos := by
  unfold readRule
  split
  · exact List.Pairwise.nil
  · rename_i element elements _
    rw [List.pairwise_flatMap]
    constructor
    · -- Readings that begin with the same node begin at the same place.
      intro start _
      rw [List.pairwise_map]
      exact List.pairwise_of_forall fun _ _ => Nat.le_refl _
    · refine (pairwise_readFirst h element).imp ?_
      intro a b hle x hx y hy
      obtain ⟨_, _, rfl⟩ := List.mem_map.mp hx
      obtain ⟨_, _, rfl⟩ := List.mem_map.mp hy
      exact hle

end Readings

/-! ## Numbers of one rule -/

/-- Of two numbers that one rule gave, the first begins no later. -/
def Numeral.FirstOfRule (a b : Numeral) : Prop := a.rule = b.rule → a.start ≤ b.start

theorem FromLeftToRight.firstOfRule {found : List Numeral} (h : FromLeftToRight found) :
    found.Pairwise Numeral.FirstOfRule := by
  refine List.Pairwise.imp ?_ h
  intro a b hle _
  exact hle

/-- When all were found by one rule, each begins no earlier than those before it. -/
theorem fromLeftToRight_of_one_rule {found : List Numeral} {name : String}
    (h : found.Pairwise Numeral.FirstOfRule) (hrule : ∀ n ∈ found, n.rule = name) :
    FromLeftToRight found := by
  refine h.imp_of_mem ?_
  intro a b ha hb hfirst
  exact hfirst ((hrule a ha).trans (hrule b hb).symm)

theorem pairwise_proposals {rules : Registry} {text : Text} {found : List Numeral}
    (hnames : (rules.map Rule.name).Nodup) (h : FromLeftToRight found) :
    (proposals rules text found).Pairwise Numeral.FirstOfRule := by
  unfold proposals
  rw [List.pairwise_flatMap]
  constructor
  · intro rule _
    apply (pairwise_readRule h rule).filterMap
    intro a b hle x hx y hy _
    obtain ⟨_, _, rfl⟩ := Option.map_eq_some_iff.mp hx
    obtain ⟨_, _, rfl⟩ := Option.map_eq_some_iff.mp hy
    exact hle
  · -- Two rules have two names.
    refine (List.pairwise_map.mp hnames).imp ?_
    intro rule other hne x hx y hy hsame
    obtain ⟨_, _, hx⟩ := List.mem_filterMap.mp hx
    obtain ⟨_, _, hy⟩ := List.mem_filterMap.mp hy
    obtain ⟨_, _, rfl⟩ := Option.map_eq_some_iff.mp hx
    obtain ⟨_, _, rfl⟩ := Option.map_eq_some_iff.mp hy
    exact absurd hsame hne

theorem keepNew_sublist (known proposed : List Numeral) :
    (keepNew known proposed).Sublist proposed := by
  induction proposed generalizing known with
  | nil => exact List.Sublist.refl []
  | cons n rest ih =>
    unfold keepNew
    split
    · exact (ih known).cons n
    · exact (ih (n :: known)).cons_cons n

theorem pairwise_first_pass {rules : Registry} (hnames : (rules.map Rule.name).Nodup)
    (text : Text) : (candidates rules text 1).Pairwise Numeral.FirstOfRule := by
  rw [candidates_one]
  exact (pairwise_proposals hnames List.Pairwise.nil).sublist (keepNew_sublist _ _)

/-- A pass more keeps the order, when what was found before stands from left to right and is
of other rules than those that build on numbers. -/
theorem pairwise_grow {rules : Registry} (hnames : (rules.map Rule.name).Nodup) {text : Text}
    {found : List Numeral} (h : FromLeftToRight found)
    (hother : ∀ n ∈ found, ∀ rule ∈ rules, n.rule ≠ rule.name) :
    (grow rules text found).Pairwise Numeral.FirstOfRule := by
  unfold grow
  refine List.pairwise_append.mpr ⟨h.firstOfRule,
    (pairwise_proposals hnames h).sublist (keepNew_sublist _ _), ?_⟩
  intro a ha b hb hsame
  obtain ⟨rule, hrule, hb⟩ := List.mem_flatMap.mp (mem_of_mem_keepNew hb)
  obtain ⟨_, _, hb⟩ := List.mem_filterMap.mp hb
  obtain ⟨_, _, rfl⟩ := Option.map_eq_some_iff.mp hb
  exact absurd hsame (hother a ha rule hrule)

end SpanishNumerals
