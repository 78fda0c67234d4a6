-- The word for the opposite at the beginning of a text, and the first numeral of a whole text:
-- the pass in which it is found, and what one pass more makes of it.
import Mathlib.Data.List.Find
import Mathlib.Data.Nat.Find
import SpanishNumerals.Proofs.Characters
import SpanishNumerals.Proofs.Ending
import SpanishNumerals.Proofs.Heights
import SpanishNumerals.Proofs.WholeText

namespace SpanishNumerals

/-- The opposite number, of the same scale. -/
def Token.opposite (token : Token) : Token := ⟨token.value.neg, token.grain⟩

/-- The word for the opposite. -/
def minus : Text := "menos".toList

/-- The pattern of the word for the opposite. -/
def minusPattern : Pattern := .caseless ["-".toList, "menos".toList]

/-- The rule of the opposite. -/
def negation : Rule := compoundRules[3]

/-- The rules on numbers that come before the opposite. -/
def rulesBeforeNegation : Registry := compoundRules.take 3

theorem compoundRules_eq :
    compoundRules = rulesBeforeNegation ++ negation :: compoundRules.drop 4 := rfl

theorem composing_spanishRules : composing spanishRules = compoundRules := by
  have hnone : (figureRules ++ wordRules).filter Rule.composes = [] := rfl
  have hall : compoundRules.filter Rule.composes = compoundRules := rfl
  rw [composing, spanishRules, List.filter_append, hnone, hall, List.nil_append]

theorem apply_negation (capture : Capture) (token : Token) :
    negation.apply [.capture capture, .number token] = some token.opposite := rfl

/-! ## The word -/

section Word

variable {rest : Text}

theorem read?_minus : minusPattern.read? (Cursor.start (minus ++ rest)) =
    some (⟨minus, []⟩, ⟨minus.reverse, rest⟩) := rfl

theorem readBounded?_minus {c : Char} (hc : rest.head? = some c) (hblank : isBlank c = true) :
    minusPattern.readBounded? (Cursor.start (minus ++ rest)) =
      some (⟨minus, []⟩, ⟨minus.reverse, rest⟩) := by
  refine Pattern.readBounded?_eq_some.mpr ⟨isBoundary_none_left _, read?_minus, ?_⟩
  unfold Cursor.atBoundary
  rw [hc]
  exact separates_of_isBlank_right 's' hblank

end Word

/-! ## Behind the word -/

theorem boundary_after_blanks {blanks : Text} (hne : blanks ≠ [])
    (hblank : ∀ c ∈ blanks, isBlank c = true) (ending : Text) :
    isBoundary (minus ++ blanks).reverse.head? ending.head? = true := by
  have hlast : (minus ++ blanks).reverse.head? = some (blanks.getLast hne) := by
    rw [List.head?_reverse, List.getLast?_append, List.getLast?_eq_getLast_of_ne_nil hne]
    rfl
  rw [hlast]
  cases ending with
  | nil => exact isBoundary_none_right _
  | cons c ending =>
    exact separates_of_isBlank_left c (hblank _ (List.getLast_mem hne))

/-- After the word and blanks one is at the beginning of the ending. -/
theorem skipBlank_minus {blanks ending : Text} (hblank : ∀ c ∈ blanks, isBlank c = true)
    (hnext : ∀ c, ending.head? = some c → isBlank c = false) :
    (Cursor.mk minus.reverse (blanks ++ ending)).skipBlank =
      (Cursor.start ending).after (minus ++ blanks) := by
  apply Cursor.skipBlank_of_reaches hblank
  · refine ⟨rfl, ?_⟩
    simp [Cursor.after, Cursor.start]
  · exact hnext

/-! ## The whole text -/

/-- The numeral is found in pass `k`, and not before. -/
structure FoundInPass (text : Text) (n : Numeral) (k : Nat) : Prop where
  pos : 1 ≤ k
  found : n ∈ candidates spanishRules text k
  not_before : ∀ j, 1 ≤ j → j < k → n ∉ candidates spanishRules text j

theorem exists_foundInPass {text : Text} {passes : Nat} {n : Numeral}
    (hpasses : byteLength text ≤ passes) (hn : n ∈ candidates spanishRules text passes) :
    ∃ k ≤ byteLength text, FoundInPass text n k := by
  have hpos : 1 ≤ byteLength text := by
    have hstands := standsIn_of_mem_candidates n hn
    have := hstands.start_lt_stop
    have := hstands.stop_le
    omega
  rw [candidates_of_byteLength_le growing_spanishRules (Nat.le_refl _) hpasses] at hn
  have hex : ∃ k, 1 ≤ k ∧ n ∈ candidates spanishRules text k := ⟨_, hpos, hn⟩
  obtain ⟨hk, hfound⟩ := Nat.find_spec hex
  refine ⟨Nat.find hex, Nat.find_min' hex ⟨hpos, hn⟩, hk, hfound, ?_⟩
  intro j hj hlt hmem
  exact Nat.find_min hex hlt ⟨hj, hmem⟩

/-- The first numeral of the whole text stays the first when more passes are made. -/
theorem find?_of_beginning {found more : List Numeral} {text : Text} {n : Numeral}
    (hbegin : found <+: more) (h : found.find? (·.covers text) = some n) :
    more.find? (·.covers text) = some n := by
  obtain ⟨rest, rfl⟩ := hbegin
  rw [List.find?_append, h, Option.some_or]

theorem find?_of_mem_beginning {found more : List Numeral} {text : Text} {n : Numeral}
    (hbegin : found <+: more) (hn : n ∈ found) (h : more.find? (·.covers text) = some n) :
    found.find? (·.covers text) = some n := by
  cases hfind : found.find? (·.covers text) with
  | none =>
    have hcovers := List.find?_some h
    exact absurd hcovers (List.find?_eq_none.mp hfind n hn)
  | some m => rw [← h, find?_of_beginning hbegin hfind]

/-- A numeral that begins a text does not begin with a blank. -/
theorem head_not_blank_of_mem {text : Text} {passes : Nat} {n : Numeral}
    (hn : n ∈ candidates spanishRules text passes) (hstart : n.start = 0) :
    ∀ c, text.head? = some c → isBlank c = false := by
  obtain ⟨h, _, hderived⟩ := mem_candidates_iff.mp (List.mem_map.mpr ⟨n, hn, rfl⟩)
  have hsegment : n.start ∈ segmentStarts text := hderived.start_mem_segmentStarts
  rw [hstart] at hsegment
  have hmem := (@mem_segmentStarts text (Cursor.start text) rfl).mp hsegment
  obtain ⟨_, c, rest, hnext, hclass, _⟩ := mem_segments.mp hmem
  intro d hd
  have hahead : text = c :: rest := hnext
  rw [hahead] at hd
  obtain rfl := Option.some.inj hd
  exact isBlank_eq_false hclass

/-- One pass more: the first numeral of the whole text that a rule proposes is the first of all
when none was found before and the rules before this one propose none. -/
theorem find?_candidates_succ {whole : Text} {k : Nat} {front back : Registry} {rule : Rule}
    {n : Numeral} (hrules : compoundRules = front ++ rule :: back)
    (h : (proposals [rule] whole (candidates spanishRules whole (k + 1))).find?
      (·.covers whole) = some n) :
    (candidates spanishRules whole (k + 2)).find? (·.covers whole) =
      some (((candidates spanishRules whole (k + 1) ++
        proposals front whole (candidates spanishRules whole (k + 1))).find?
          (·.covers whole)).getD n) := by
  have hfrom : (proposals (rule :: back) whole (candidates spanishRules whole (k + 1))).find?
      (·.covers whole) = some n := by
    rw [← List.singleton_append, proposals_append, List.find?_append, h, Option.some_or]
  rw [candidates_succ, composing_spanishRules, grow,
    find?_append_keepNew fun a b hkey => Numeral.covers_congr hkey, hrules, proposals_append,
    ← List.append_assoc, List.find?_append, hfrom]
  cases List.find? _ _ <;> rfl

end SpanishNumerals
