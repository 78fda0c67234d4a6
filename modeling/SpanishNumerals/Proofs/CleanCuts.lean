-- Cuts that no Spanish pattern looks across. A pattern may look at what is left of a text to
-- see that no figure, no number or no word goes on there; and it may read a longer word when
-- more letters are left. At a clean cut none of that can change what is read before the cut.
import SpanishNumerals.Proofs.Beginning

namespace SpanishNumerals

/-- Text may be put behind `a` and nothing that was read in `a` goes on in it. -/
structure CleanCut (a rest : Text) : Prop where
  /-- No word and no row of figures is cut through. -/
  boundary : isBoundary a.reverse.head? rest.head? = true
  /-- Figures behind a point go on in `rest` with no separator and no more figures. -/
  number : ∀ before figures back, a = before ++ '.' :: figures ++ back → figures ≠ [] →
    AllFigures figures → noNumberFollows back = true → noNumberFollows (back ++ rest) = true
  /-- A letter that may be a suffix goes on in `rest` with no word. -/
  suffix : ∀ front c, a = front ++ [c] → isBoundary front.reverse.head? (some c) = true →
    isSuffixLetter c = true → noWordFollows rest = true

/-! ## Conditions on what is left -/

theorem noNumberFollows_of_append {back rest : Text} (h : noNumberFollows (back ++ rest) = true) :
    noNumberFollows back = true := by
  match back, rest with
  | [], _ => rfl
  | [c], rest => exact noFigureFollows_of_noNumberFollows h
  | _ :: _ :: _, _ => exact h

/-! ## At a clean cut -/

namespace CleanCut

variable {a rest : Text} (h : CleanCut a rest)

include h

theorem noFigureFollows_append {front back : Text} {c : Char} (ha : a = front ++ [c] ++ back)
    (hc : c.isDigit = true) :
    noFigureFollows (back ++ rest) = true ↔ noFigureFollows back = true := by
  cases back with
  | cons d back => exact Iff.rfl
  | nil =>
    -- No figure follows another across a boundary.
    refine ⟨fun _ => rfl, fun _ => noFigureFollows_iff.mpr ?_⟩
    intro d hd
    rw [List.nil_append] at hd
    have hboundary := h.boundary
    rw [ha, hd, List.append_nil, List.reverse_append] at hboundary
    rw [Bool.eq_false_iff]
    intro hdigit
    simp [isBoundary, separates, classify_of_isDigit hc, classify_of_isDigit hdigit] at hboundary

theorem noNumberFollows_append {before figures back : Text}
    (ha : a = before ++ '.' :: figures ++ back) (hne : figures ≠ []) (hall : AllFigures figures) :
    noNumberFollows (back ++ rest) = true ↔ noNumberFollows back = true :=
  ⟨noNumberFollows_of_append, h.number before figures back ha hne hall⟩

/-- No word goes on across the cut. -/
theorem beginsWith_append {front text key : Text} (ha : a = front ++ text) (hne : text ≠ [])
    (hkey : key ∈ spokenWords) :
    beginsWith sameFold key (text ++ rest) = beginsWith sameFold key text := by
  rw [Bool.eq_iff_iff, beginsWith_sameFold_iff, beginsWith_sameFold_iff]
  by_cases hle : key.length ≤ text.length
  · rw [List.take_append_of_le_length hle]
  · have hlong : text.length < key.length := Nat.lt_of_not_le hle
    rw [List.take_of_length_le (Nat.le_of_lt hlong)]
    constructor
    · intro hbegins
      exfalso
      have htake : (text ++ rest).take key.length =
          text ++ rest.take (key.length - text.length) := by
        rw [List.take_append, List.take_of_length_le (Nat.le_of_lt hlong)]
      obtain ⟨_, hhyphen | hletters⟩ := letters_of_spoken hkey hbegins
      · -- The hyphen is one character and does not reach across.
        have hlength := congrArg List.length hbegins
        rw [hhyphen, List.length_map, List.length_map] at hlength
        have := List.length_pos_iff.mpr hne
        simp only [List.length_cons, List.length_nil] at hlength
        omega
      · rw [htake] at hletters hbegins
        have hlength := congrArg List.length hbegins
        rw [List.length_map, List.length_map, List.length_append] at hlength
        cases rest with
        | nil =>
          rw [List.take_nil, List.length_nil] at hlength
          omega
        | cons d rest =>
          obtain ⟨n, hn⟩ : ∃ n, key.length - text.length = n + 1 :=
            ⟨key.length - text.length - 1, by omega⟩
          have hd : classify d = .letter := by
            apply hletters
            rw [hn, List.take_succ_cons]
            simp
          have hc : classify (text.getLast hne) = .letter :=
            hletters _ (List.mem_append_left _ (List.getLast_mem hne))
          have hboundary := h.boundary
          rw [ha, ← List.dropLast_append_getLast hne, ← List.append_assoc,
            List.reverse_append] at hboundary
          simp [isBoundary, separates, hc, hd] at hboundary
    · intro hwhole
      have := congrArg List.length hwhole
      rw [List.length_map, List.length_map] at this
      omega

theorem noWordFollows_append {front back : Text} {c : Char} (ha : a = front ++ [c] ++ back)
    (hstart : isBoundary front.reverse.head? (some c) = true) (hc : isSuffixLetter c = true) :
    noWordFollows (back ++ rest) = true ↔ noWordFollows back = true := by
  cases back with
  | cons d back => exact Iff.rfl
  | nil =>
    refine ⟨fun _ => rfl, fun _ => h.suffix front c ?_ hstart hc⟩
    rw [ha, List.append_nil]

/-! ## The Spanish patterns at a clean cut -/

theorem steady_plain {pattern : Pattern} (hpattern : pattern ∈ plainPatterns) :
    pattern.Steady a rest := by
  intro front capture back ha _
  have hiff : (IsInteger capture.text ∨ IsGroupedDecimal capture.text ∨ IsDecimal capture.text) →
      (noFigureFollows (back ++ rest) = true ↔ noFigureFollows back = true) := by
    intro hform
    obtain ⟨before, c, htext, hc⟩ := ends_in_figure hform
    have ha' : a = (front ++ before) ++ [c] ++ back := by
      simp only [ha, htext, List.append_assoc]
    exact h.noFigureFollows_append ha' hc
  simp only [plainPatterns, List.mem_cons, List.not_mem_nil, or_false] at hpattern
  rcases hpattern with rfl | rfl | rfl
  · rw [reads_integer_iff, reads_integer_iff]
    exact and_congr_right fun _ => and_congr_right fun hform => hiff (Or.inl hform)
  · rw [reads_groupedDecimal_iff, reads_groupedDecimal_iff]
    exact and_congr_right fun _ => and_congr_right fun hform => hiff (Or.inr (Or.inl hform))
  · rw [reads_decimal_iff, reads_decimal_iff]
    exact and_congr_right fun _ => and_congr_right fun hform => hiff (Or.inr (Or.inr hform))

theorem steady_pointed {pattern : Pattern} (hpattern : pattern ∈ pointedPatterns) :
    pattern.Steady a rest := by
  intro front capture back ha _
  have hiff : ((∃ n, IsGroupedInteger n capture.text) ∨ IsPointDecimal capture.text) →
      (noNumberFollows (back ++ rest) = true ↔ noNumberFollows back = true) := by
    intro hform
    obtain ⟨before, figures, htext, hne, hall⟩ := ends_in_point hform
    have ha' : a = (front ++ before) ++ '.' :: figures ++ back := by
      simp only [ha, htext, List.append_assoc]
    exact h.noNumberFollows_append ha' hne hall
  simp only [pointedPatterns, List.mem_cons, List.not_mem_nil, or_false] at hpattern
  rcases hpattern with rfl | rfl
  · rw [reads_groupedInteger_iff, reads_groupedInteger_iff]
    exact and_congr_right fun _ => and_congr_right fun hform => hiff (Or.inl hform)
  · rw [reads_pointDecimal_iff, reads_pointDecimal_iff]
    apply and_congr_right
    rintro ⟨whole, fraction, rfl, hdecimal⟩
    exact hiff (Or.inr ⟨whole, fraction, rfl, hdecimal⟩)

theorem steady_spoken {pattern : Pattern} (hpattern : pattern.IsSpoken) :
    pattern.Steady a rest := by
  obtain ⟨keys, hkeys, hextent, hfollow⟩ := hpattern
  intro front capture back ha _
  rw [reads_caseless_iff hextent hfollow, reads_caseless_iff hextent hfollow]
  apply and_congr_right
  intro hne
  have hfind : (keys.find? fun key => beginsWith sameFold key (capture.text ++ (back ++ rest))) =
      keys.find? fun key => beginsWith sameFold key (capture.text ++ back) := by
    apply List.find?_congr
    intro key hkey
    have ha' : a = front ++ (capture.text ++ back) := by rw [ha, List.append_assoc]
    rw [← List.append_assoc]
    exact h.beginsWith_append ha' (by simp [hne]) (hkeys hkey)
  rw [hfind]

theorem steady_suffix : suffixPattern.Steady a rest := by
  intro front capture back ha hstart
  rw [reads_suffix_iff, reads_suffix_iff]
  apply and_congr_right
  rintro ⟨c, rfl, hc⟩
  exact h.noWordFollows_append ha hstart hc

/-- At a clean cut each Spanish pattern reads what it reads in the beginning by itself. -/
theorem steady {pattern : Pattern} (hpattern : pattern ∈ patternsOf spanishRules) :
    pattern.Steady a rest := by
  rcases patternsOf_spanishRules hpattern with hplain | hpointed | hspoken | rfl
  · exact h.steady_plain hplain
  · exact h.steady_pointed hpointed
  · exact h.steady_spoken hspoken
  · exact h.steady_suffix

end CleanCut

end SpanishNumerals
