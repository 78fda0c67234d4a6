-- Passes that spare the rules of text alone. Such a rule reads the same whatever was found, so
-- all that it has to give is known after the first pass. Passes that take every rule find the
-- same numerals in the same order, and end where the sparing passes end.
import Mathlib.Data.List.Basic
import SpanishNumerals.Proofs.Passes

namespace SpanishNumerals

/-- All that the rules find when every pass takes every rule. There is at least one pass. -/
def plainCandidates (rules : Registry) (text : Text) (passes : Nat) : List Numeral :=
  saturate rules text (max passes 1) []

/-! ## Rules of text alone -/

theorem readElements_of_text (found : List Numeral) {elements : List Element}
    (h : elements.any Element.isNumber = false) (here : Cursor) :
    readElements found elements here = readElements [] elements here := by
  induction elements generalizing here with
  | nil => rfl
  | cons element elements ih =>
    rw [List.any_cons, Bool.or_eq_false_iff] at h
    cases element with
    | text pattern =>
      simp only [readElements, readElement]
      apply List.flatMap_congr
      rintro ⟨node, there⟩ _
      dsimp only
      rw [ih h.2 there]
    | number condition => exact absurd h.1 (by simp [Element.isNumber])

/-- A rule of text alone reads the same whatever was found. -/
theorem readRule_of_text (text : Text) (found : List Numeral) {rule : Rule}
    (h : rule.composes = false) : readRule text found rule = readRule text [] rule := by
  unfold Rule.composes at h
  unfold readRule
  cases helements : rule.elements with
  | nil => rfl
  | cons element elements =>
    rw [helements, List.any_cons, Bool.or_eq_false_iff] at h
    cases element with
    | text pattern =>
      apply List.flatMap_congr
      rintro ⟨first, node, there⟩ _
      dsimp only
      rw [readElements_of_text found h.2 there]
    | number condition => exact absurd h.1 (by simp [Element.isNumber])

/-! ## One pass -/

/-- What is new is not changed when numbers that are known already are left out before. -/
theorem keepNew_filter {base known : List Numeral} (hbase : base ⊆ known)
    (proposed : List Numeral) :
    keepNew known (proposed.filter fun n => !base.any n.sameAs) = keepNew known proposed := by
  induction proposed generalizing known with
  | nil => rfl
  | cons n rest ih =>
    by_cases hn : base.any n.sameAs = true
    · have hknown : known.any n.sameAs = true := by
        obtain ⟨m, hm, hsame⟩ := List.any_eq_true.mp hn
        exact List.any_eq_true.mpr ⟨m, hbase hm, hsame⟩
      rw [List.filter_cons_of_neg (by simp [hn]), ih hbase, keepNew, if_pos hknown]
    · rw [List.filter_cons_of_pos (by simpa using hn)]
      simp only [keepNew]
      split
      · exact ih hbase
      · rw [ih fun m hm => List.mem_cons_of_mem n (hbase hm)]

/-- What gives nothing may be left out. -/
theorem flatMap_filter_eq {α β : Type} {p : α → Bool} {f : α → List β} {l : List α}
    (h : ∀ a ∈ l, p a = false → f a = []) : (l.filter p).flatMap f = l.flatMap f := by
  induction l with
  | nil => rfl
  | cons a l ih =>
    have hrest := ih fun b hb => h b (List.mem_cons_of_mem a hb)
    cases hp : p a with
    | false => rw [List.filter_cons_of_neg (by simp [hp]), hrest, List.flatMap_cons,
        h a List.mem_cons_self hp, List.nil_append]
    | true => rw [List.filter_cons_of_pos hp, List.flatMap_cons, List.flatMap_cons, hrest]

section Pass

variable {rules : Registry} {text : Text} {found : List Numeral}
  (hfirst : ∀ n ∈ proposals rules text [], ∃ m ∈ found, m.key = n.key)

include hfirst

/-- When the numbers of the first pass are known, the rules of text alone give nothing new. -/
theorem keepNew_spared :
    keepNew found (proposals (composing rules) text found) =
      keepNew found (proposals rules text found) := by
  rw [← keepNew_filter (fun _ h => h) (proposals (composing rules) text found),
    ← keepNew_filter (fun _ h => h) (proposals rules text found)]
  congr 1
  unfold composing proposals
  rw [List.filter_flatMap, List.filter_flatMap]
  -- Of a rule that is spared the filter leaves nothing.
  refine flatMap_filter_eq ?_
  intro rule hrule hspared
  rw [List.filter_eq_nil_iff]
  intro n hn
  rw [readRule_of_text text found hspared] at hn
  obtain ⟨m, hm, hkey⟩ := hfirst n (List.mem_flatMap.mpr ⟨rule, hrule, hn⟩)
  have hknown : found.any n.sameAs = true :=
    List.any_eq_true.mpr ⟨m, hm, (Numeral.sameAs_iff n m).mpr hkey.symm⟩
  simp [hknown]

theorem grow_spared : grow (composing rules) text found = grow rules text found := by
  unfold grow
  rw [keepNew_spared hfirst]

end Pass

/-! ## All passes -/

/-- After any pass the numbers of the first one are known. -/
theorem first_pass_known (rules : Registry) (text : Text) (passes : Nat) :
    ∀ n ∈ proposals rules text [], ∃ m ∈ candidates rules text passes, m.key = n.key := by
  intro n hn
  obtain ⟨m, hm, hkey⟩ := @key_mem_of_proposed [] _ _ hn
  have hkept : m ∈ candidates rules text 0 := hm.resolve_left List.not_mem_nil
  exact ⟨m, (candidates_beginning rules text (Nat.zero_le passes)).subset hkept, hkey⟩

theorem saturate_eq_candidates (rules : Registry) (text : Text) (passes : Nat) :
    saturate rules text (passes + 1) [] = candidates rules text (passes + 1) := by
  induction passes with
  | zero => exact saturate_succ' rules text 0 []
  | succ passes ih =>
    rw [saturate_succ', ih, candidates_succ, grow_spared (first_pass_known rules text _)]

theorem plainCandidates_eq (rules : Registry) (text : Text) (passes : Nat) :
    plainCandidates rules text passes = candidates rules text passes := by
  unfold plainCandidates
  cases passes with
  | zero => exact saturate_eq_candidates rules text 0
  | succ passes =>
    rw [Nat.max_eq_left (Nat.le_add_left 1 passes), saturate_eq_candidates]

/-- The rules of text alone are spared after the first pass, and nothing is lost by it: within any
number of passes the same numerals are found, in the same order and by the same rules, as when
every pass takes every rule. And the one finds nothing more just when the other does. -/
theorem rules_of_text_are_spared_without_loss (rules : Registry) (text : Text) (passes : Nat) :
    candidates rules text passes = plainCandidates rules text passes ∧
      (keepNew (candidates rules text passes)
          (proposals (composing rules) text (candidates rules text passes)) = [] ↔
        keepNew (plainCandidates rules text passes)
          (proposals rules text (plainCandidates rules text passes)) = []) := by
  rw [plainCandidates_eq, keepNew_spared (first_pass_known rules text passes)]
  exact ⟨rfl, Iff.rfl⟩

end SpanishNumerals
