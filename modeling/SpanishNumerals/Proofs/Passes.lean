-- The passes of a saturation, one at a time. A pass puts what is new behind what was found.
-- So the numerals found within some passes are the beginning of those found within more.
import SpanishNumerals.Analysis

namespace SpanishNumerals

/-! ## One pass -/

/-- What is found after one pass more. -/
def grow (rules : Registry) (text : Text) (found : List Numeral) : List Numeral :=
  found ++ keepNew found (proposals rules text found)

/-- The rules that build on numbers. They alone take part in the passes after the first. -/
def composing (rules : Registry) : Registry := rules.filter Rule.composes

theorem mem_composing {rules : Registry} {rule : Rule} :
    rule ∈ composing rules ↔ rule ∈ rules ∧ rule.composes = true := List.mem_filter

theorem proposals_append (front back : Registry) (text : Text) (found : List Numeral) :
    proposals (front ++ back) text found = proposals front text found ++ proposals back text found :=
  List.flatMap_append

theorem prefix_grow (rules : Registry) (text : Text) (found : List Numeral) :
    found <+: grow rules text found := List.prefix_append _ _

/-- When a pass finds nothing new, no later one does. -/
theorem saturate_of_fixed {rules : Registry} {text : Text} {found : List Numeral}
    (h : keepNew found (proposals rules text found) = []) (passes : Nat) :
    saturate rules text passes found = found := by
  cases passes with
  | zero => rfl
  | succ passes => simp only [saturate, h]

theorem saturate_succ (rules : Registry) (text : Text) (passes : Nat) (found : List Numeral) :
    saturate rules text (passes + 1) found = saturate rules text passes (grow rules text found) := by
  unfold grow
  simp only [saturate]
  split
  · rename_i h
    rw [h, List.append_nil, saturate_of_fixed h]
  · rename_i h _
    rfl

theorem saturate_succ' (rules : Registry) (text : Text) (passes : Nat) (found : List Numeral) :
    saturate rules text (passes + 1) found = grow rules text (saturate rules text passes found) := by
  induction passes generalizing found with
  | zero => rw [saturate_succ]; rfl
  | succ passes ih => rw [saturate_succ, ih, saturate_succ]

/-! ## Within some passes -/

theorem candidates_one (rules : Registry) (text : Text) :
    candidates rules text 1 = keepNew [] (proposals rules text []) := rfl

theorem candidates_succ (rules : Registry) (text : Text) (passes : Nat) :
    candidates rules text (passes + 2) =
      grow (composing rules) text (candidates rules text (passes + 1)) :=
  saturate_succ' (composing rules) text passes _

theorem candidates_prefix_succ (rules : Registry) (text : Text) (passes : Nat) :
    candidates rules text passes <+: candidates rules text (passes + 1) := by
  cases passes with
  | zero => exact List.prefix_refl _
  | succ passes =>
    rw [candidates_succ]
    exact prefix_grow _ _ _

/-- What fewer passes find stands at the beginning of what more passes find. -/
theorem candidates_beginning (rules : Registry) (text : Text) {m n : Nat} (h : m ≤ n) :
    candidates rules text m <+: candidates rules text n := by
  obtain ⟨k, rfl⟩ := Nat.exists_eq_add_of_le h
  clear h
  induction k with
  | zero => exact List.prefix_refl _
  | succ k ih => exact ih.trans (candidates_prefix_succ rules text (m + k))

/-- The passes over two texts side by side: what holds of nothing found, and is kept by a pass of
some of the rules, holds of all that is found. -/
theorem candidates_side_by_side {rules : Registry} {text text' : Text}
    {R : List Numeral → List Numeral → Prop} (hempty : R [] [])
    (hgrow : ∀ taking ⊆ rules, ∀ found found', R found found' →
      R (grow taking text found) (grow taking text' found')) (passes : Nat) :
    R (candidates rules text passes) (candidates rules text' passes) := by
  have hone : R (candidates rules text 1) (candidates rules text' 1) :=
    hgrow rules (fun _ h => h) [] [] hempty
  rcases passes with _ | passes
  · exact hone
  · induction passes with
    | zero => exact hone
    | succ passes ih =>
      rw [candidates_succ, candidates_succ]
      exact hgrow (composing rules) (fun _ h => (mem_composing.mp h).1) _ _ ih

/-- The same for the passes over one text. -/
theorem candidates_induction {rules : Registry} {text : Text} {P : List Numeral → Prop}
    (hempty : P []) (hgrow : ∀ taking ⊆ rules, ∀ found, P found → P (grow taking text found))
    (passes : Nat) : P (candidates rules text passes) :=
  @candidates_side_by_side rules text text (fun found _ => P found) hempty
    (fun taking h found _ => hgrow taking h found) passes

/-! ## What is new, seen through a test of place and number -/

section KeyTests

variable {q : Numeral → Bool}

/-- A test that looks at nothing but the place and the number lets through what is new of the
numerals that it lets through. -/
theorem filter_keepNew (hq : ∀ a b : Numeral, a.key = b.key → q a = q b)
    (known proposed : List Numeral) :
    (keepNew known proposed).filter q = keepNew (known.filter q) (proposed.filter q) := by
  induction proposed generalizing known with
  | nil => rfl
  | cons p rest ih =>
    by_cases hp : q p = true
    · have hany : (known.filter q).any p.sameAs = known.any p.sameAs := by
        rw [Bool.eq_iff_iff, List.any_eq_true, List.any_eq_true]
        constructor
        · rintro ⟨m, hm, hsame⟩
          exact ⟨m, (List.mem_filter.mp hm).1, hsame⟩
        · rintro ⟨m, hm, hsame⟩
          have := hq p m ((Numeral.sameAs_iff p m).mp hsame)
          exact ⟨m, List.mem_filter.mpr ⟨hm, this ▸ hp⟩, hsame⟩
      rw [List.filter_cons_of_pos hp]
      simp only [keepNew, hany]
      split
      · exact ih known
      · rw [List.filter_cons_of_pos hp, ih, List.filter_cons_of_pos hp]
    · rw [List.filter_cons_of_neg hp]
      simp only [keepNew]
      split
      · exact ih known
      · rw [List.filter_cons_of_neg hp, ih, List.filter_cons_of_neg hp]

/-- The first numeral that passes such a test is the same whether or not the repeated ones
are dropped. -/
theorem find?_append_keepNew (hq : ∀ a b : Numeral, a.key = b.key → q a = q b)
    (known proposed : List Numeral) :
    (known ++ keepNew known proposed).find? q = (known ++ proposed).find? q := by
  rw [List.find?_append, List.find?_append]
  rcases hknown : known.find? q with _ | n
  · simp only [Option.none_or]
    induction proposed generalizing known with
    | nil => rfl
    | cons p rest ih =>
      have hnone := List.find?_eq_none.mp hknown
      simp only [keepNew]
      split
      · rename_i hany
        obtain ⟨m, hm, hsame⟩ := List.any_eq_true.mp hany
        have hp : q p = false := by
          rw [hq p m ((Numeral.sameAs_iff p m).mp hsame)]
          simpa using hnone m hm
        rw [ih known hknown, List.find?_cons_of_neg (by simp [hp])]
      · by_cases hp : q p = true
        · rw [List.find?_cons_of_pos hp, List.find?_cons_of_pos hp]
        · rw [List.find?_cons_of_neg hp, List.find?_cons_of_neg hp]
          exact ih (p :: known) (by rw [List.find?_cons_of_neg hp]; exact hknown)
  · rfl

end KeyTests

/-- Renaming the places keeps what is new, when it neither joins nor parts two numbers. -/
theorem map_keepNew {f : Numeral → Numeral}
    (hf : ∀ a b : Numeral, (f a).key = (f b).key ↔ a.key = b.key) (known proposed : List Numeral) :
    keepNew (known.map f) (proposed.map f) = (keepNew known proposed).map f := by
  induction proposed generalizing known with
  | nil => rfl
  | cons p rest ih =>
    have hany : (known.map f).any (f p).sameAs = known.any p.sameAs := by
      rw [List.any_map, Bool.eq_iff_iff, List.any_eq_true, List.any_eq_true]
      simp only [Function.comp_apply, Numeral.sameAs_iff, hf]
    simp only [List.map_cons, keepNew, hany]
    split
    · exact ih known
    · rw [List.map_cons, ← ih, List.map_cons]

end SpanishNumerals
