-- Separators. No number reaches across a sign that no number is written with, nor across a word
-- that the rules do not know. So what is recognized in two texts with such a separator between
-- them is what is recognized in the one and in the other.
import SpanishNumerals.Proofs.CleanCuts
import SpanishNumerals.Proofs.Leaves
import SpanishNumerals.Proofs.Parting

namespace SpanishNumerals

/-! ## Separators -/

/-- The words of the tables, and the other words and letters of the rules. -/
def knownWords : List Text :=
  vocabulary ++ ["punto".toList, "menos".toList, "mil".toList, "k".toList, "m".toList, "g".toList]

/-- One sign that no number is written with, or a word that the rules do not know between two
spaces. -/
inductive Separator : Text → Prop
  | sign {c : Char} : classify c = .other → c ∉ ['.', ',', '-', '_'] → Separator [c]
  | word {word : Text} : word ≠ [] → (∀ c ∈ word, classify c = .letter) →
      (∀ known ∈ knownWords, word.map foldChar ≠ known.map foldChar) →
      Separator (' ' :: word ++ [' '])

theorem suffix_known : ∀ letter ∈ ['k', 'm', 'g'], [letter] ∈ knownWords := by
  intro letter hletter
  refine List.mem_append_right vocabulary ?_
  revert letter
  decide

theorem known_of_spoken : ∀ key ∈ spokenWords, key = ['-'] ∨ key ∈ knownWords := by
  intro key hkey
  simp only [spokenWords, List.mem_cons] at hkey
  rcases hkey with rfl | rfl | rfl | hkey
  · exact Or.inl rfl
  · exact Or.inr (List.mem_append_right vocabulary (by decide))
  · exact Or.inr (List.mem_append_right vocabulary (by decide))
  · exact Or.inr (List.mem_append_left _ hkey)

/-- A separator begins and ends with a character that is part of no word and of no number. -/
def IsGap (c : Char) : Prop :=
  classify c ≠ .letter ∧ classify c ≠ .digit ∧ c ∉ ['.', ',', '-', '_']

theorem isGap_space : IsGap ' ' := by
  unfold IsGap
  decide

theorem isGap_of_sign {c : Char} (hclass : classify c = .other) (hc : c ∉ ['.', ',', '-', '_']) :
    IsGap c := by
  refine ⟨?_, ?_, hc⟩ <;> simp [hclass]

theorem isGap_of_isBlank {c : Char} (h : isBlank c = true) : IsGap c := by
  refine ⟨by simp [classify_of_isBlank h], by simp [classify_of_isBlank h], ?_⟩
  rintro hc
  have hsigns : ∀ d ∈ ['.', ',', '-', '_'], isBlank d = false := by decide
  rw [hsigns c hc] at h
  exact absurd h (by decide)

namespace IsGap

variable {c : Char} (h : IsGap c)

include h

theorem isDigit_eq_false : c.isDigit = false := by
  rw [Bool.eq_false_iff]
  exact fun hc => h.2.1 (classify_of_isDigit hc)

theorem not_isFigureSign : isFigureSign c = false := by
  have hc := h.2.2
  simp only [List.mem_cons, List.not_mem_nil, or_false, not_or] at hc
  simp [isFigureSign, h.isDigit_eq_false, hc.1, hc.2.1]

/-- There is a boundary before such a character and behind it. -/
theorem isBoundary_right (before : Option Char) : isBoundary before (some c) = true := by
  cases before with
  | none => rfl
  | some d =>
    obtain ⟨hletter, hdigit, _⟩ := h
    rw [isBoundary, separates]
    generalize classify c = kind at hletter hdigit
    cases kind with
    | letter => exact absurd rfl hletter
    | digit => exact absurd rfl hdigit
    | blank => cases classify d <;> rfl
    | other => cases classify d <;> rfl

theorem isBoundary_left (after : Option Char) : isBoundary (some c) after = true := by
  cases after with
  | none => rfl
  | some d =>
    have := h.isBoundary_right (some d)
    rwa [isBoundary, separates_comm] at this

/-- No Spanish pattern reads such a character. -/
theorem not_mem_read {read rest : Text} (hread : SpanishRead read rest) : c ∉ read := by
  intro hmem
  rcases hread.signs_or_letters with hsigns | rfl | hletters
  · have := hsigns c hmem
    rw [h.not_isFigureSign] at this
    exact absurd this (by decide)
  · obtain rfl := List.mem_singleton.mp hmem
    exact h.2.2 (by decide)
  · exact h.1 (hletters c hmem)

/-- Before such a character there is a clean cut. -/
theorem cleanCut (before rest : Text) : CleanCut before (c :: rest) where
  boundary := h.isBoundary_right _
  number := by
    intro _ _ back _ _ _ hback
    have hc := h.2.2
    simp only [List.mem_cons, List.not_mem_nil, or_false, not_or] at hc
    match back with
    | [] =>
      cases rest with
      | nil => simp [noNumberFollows, h.isDigit_eq_false]
      | cons d rest => simp [noNumberFollows, h.isDigit_eq_false, hc]
    | [d] =>
      have hd : d.isDigit = false := by simpa [noNumberFollows] using hback
      simp [noNumberFollows, h.isDigit_eq_false, hd]
    | _ :: _ :: _ => exact hback
  suffix := by
    intro _ _ _ _ _
    have hletter : isAlphabetic c = false := by
      rw [Bool.eq_false_iff]
      exact fun hc => h.1 (by rw [classify, if_pos hc])
    have hnumber : isNumeric c = false := by
      rw [Bool.eq_false_iff]
      exact fun hc => h.2.1 (by rw [classify, hletter, if_neg (by decide), if_pos hc])
    have hc := h.2.2
    simp only [List.mem_cons, List.not_mem_nil, or_false, not_or] at hc
    simp [noWordFollows, hletter, hnumber, hc]

end IsGap

namespace Separator

variable {sep : Text} (h : Separator sep)

include h

theorem exists_first : ∃ c rest, sep = c :: rest ∧ IsGap c := by
  cases h with
  | sign hclass hc => exact ⟨_, [], rfl, isGap_of_sign hclass hc⟩
  | word => exact ⟨' ', _, rfl, isGap_space⟩

theorem exists_last : ∃ front c, sep = front ++ [c] ∧ IsGap c := by
  cases h with
  | sign hclass hc => exact ⟨[], _, rfl, isGap_of_sign hclass hc⟩
  | word => exact ⟨_, ' ', rfl, isGap_space⟩

theorem exists_no_blank : ∃ left c right, sep = left ++ c :: right ∧ isBlank c = false := by
  cases h with
  | sign hclass hc => exact ⟨[], _, [], rfl, isBlank_eq_false (by simp [hclass])⟩
  | @word word hne hletters _ =>
    obtain ⟨c, word, rfl⟩ := List.exists_cons_of_ne_nil hne
    refine ⟨[' '], c, word ++ [' '], rfl, isBlank_eq_false ?_⟩
    simp [hletters c List.mem_cons_self]

end Separator

/-! ## Nothing is read across a separator -/

section Across

variable {a sep b : Text}

/-- A pattern that reads in a word between spaces reads the whole word. -/
theorem read_eq_word {front read after : Text}
    (hletters : ∀ c ∈ front ++ read ++ after, classify c = .letter) (hne : read ≠ [])
    (hopens : isBoundary (a ++ ' ' :: front).reverse.head? read.head? = true)
    (hcloses : isBoundary read.reverse.head? (after ++ ' ' :: b).head? = true) :
    front ++ read ++ after = read := by
  obtain rfl : front = [] := by
    rcases List.eq_nil_or_concat' front with rfl | ⟨left, d, rfl⟩
    · rfl
    · obtain ⟨c, more, rfl⟩ := List.exists_cons_of_ne_nil hne
      have hc := hletters c (by simp)
      have hd := hletters d (by simp)
      simp [isBoundary, separates, hc, hd] at hopens
  obtain rfl : after = [] := by
    cases after with
    | nil => rfl
    | cons d after =>
      obtain ⟨left, c, rfl⟩ := (List.eq_nil_or_concat' read).resolve_left hne
      have hc := hletters c (by simp)
      have hd := hletters d (by simp)
      simp [isBoundary, separates, hc, hd] at hcloses
  simp

/-- Of a word that the rules do not know no pattern reads anything. -/
theorem leaf_apart_word {word front read back : Text}
    (hletters : ∀ c ∈ word, classify c = .letter)
    (hunknown : ∀ known ∈ knownWords, word.map foldChar ≠ known.map foldChar)
    (hleaf : Leaf spanishRules (a ++ (' ' :: word ++ [' ']) ++ b) front read back) :
    byteLength (front ++ read) ≤ byteLength a ∨
      byteLength (a ++ (' ' :: word ++ [' '])) ≤ byteLength front := by
  have hspace := isGap_space.not_mem_read hleaf.spanishRead
  have hsplit : front ++ read ++ back = a ++ ' ' :: (word ++ ' ' :: b) := by
    rw [← hleaf.split]
    simp
  rcases split_at_unread hsplit hspace with ⟨_, rfl, _⟩ | ⟨between, rfl, hbetween⟩
  · left
    simp
  · rcases split_at_unread hbetween.symm hspace with ⟨after, rfl, rfl⟩ | ⟨_, rfl, _⟩
    · exfalso
      have hword := read_eq_word hletters hleaf.ne_nil hleaf.opens hleaf.closes
      rw [hword] at hletters hunknown
      obtain ⟨c, more, hread⟩ := List.exists_cons_of_ne_nil hleaf.ne_nil
      have hmem : c ∈ read := hread ▸ List.mem_cons_self
      rcases hleaf.spanishRead.word_or_suffix hmem (hletters c hmem) with
        ⟨key, hkey, hfold⟩ | ⟨d, rfl, hd, _⟩
      · rcases known_of_spoken key hkey with rfl | hknown
        · -- The hyphen is no letter.
          obtain ⟨d, rfl, hd⟩ := List.map_eq_singleton_iff.mp hfold
          have hhyphen := hletters d (by simp)
          rw [eq_hyphen_of_foldChar hd] at hhyphen
          exact absurd hhyphen (by decide)
        · exact hunknown key hknown hfold
      · obtain ⟨letter, hletter, hsame⟩ := List.any_eq_true.mp hd
        refine hunknown [letter] (suffix_known letter hletter) ?_
        rw [List.map_singleton, List.map_singleton, of_decide_eq_true hsame]
    · right
      simp [byteLength]

theorem leaf_apart (hsep : Separator sep) {front read back : Text}
    (hleaf : Leaf spanishRules (a ++ sep ++ b) front read back) :
    byteLength (front ++ read) ≤ byteLength a ∨ byteLength (a ++ sep) ≤ byteLength front := by
  cases hsep with
  | @sign c hclass hc =>
    have hsplit : front ++ read ++ back = a ++ c :: b := by
      rw [← hleaf.split]
      simp
    have hunread := (isGap_of_sign hclass hc).not_mem_read hleaf.spanishRead
    rcases split_at_unread hsplit hunread with ⟨_, rfl, _⟩ | ⟨_, rfl, _⟩
    · left
      simp
    · right
      simp [byteLength]
  | word hne hletters hunknown => exact leaf_apart_word hletters hunknown hleaf

/-- A number stands before the separator or behind it. -/
theorem derived_apart (hsep : Separator sep) {key : Key} {h : Nat}
    (hd : Derived spanishRules (a ++ sep ++ b) key h) :
    key.2.1 ≤ byteLength a ∨ byteLength (a ++ sep) ≤ key.1 := by
  by_contra hacross
  have hle : byteLength a ≤ byteLength (a ++ sep) := by simp
  obtain ⟨front, read, back, hleaf, hfront, hread⟩ := hd.begins
  have hbegins := leaf_apart hsep hleaf
  obtain ⟨front', read', back', hleaf', hfront', hread'⟩ := hd.ends
  have hends := leaf_apart hsep hleaf'
  have hlt := byteLength_pos hleaf.ne_nil
  have hlt' := byteLength_pos hleaf'.ne_nil
  rw [byteLength_append] at hread hread' hbegins hends
  -- A character of the separator would be read that no pattern reads.
  obtain ⟨left, c, right, rfl, hc⟩ := hsep.exists_no_blank
  have hsplit : a ++ (left ++ c :: right) ++ b = (a ++ left) ++ c :: (right ++ b) := by simp
  have hchar : byteLength (a ++ left) < byteLength (a ++ (left ++ c :: right)) := by
    have := byteLength_pos (List.cons_ne_nil c right)
    rw [← List.append_assoc, byteLength_append (a ++ left)]
    omega
  have hleft : byteLength a ≤ byteLength (a ++ left) := by simp
  obtain ⟨front, before, after, back, hleaf, hbefore, _, _, _⟩ :=
    hd.covered_char hsplit hc (by omega) (by omega)
  have hmiddle := leaf_apart hsep hleaf
  have hpos := byteLength_pos (List.cons_ne_nil c after)
  rw [← List.append_assoc, ← hbefore, byteLength_append (a ++ left)] at hmiddle
  have hfront := congrArg byteLength hbefore
  rw [byteLength_append front] at hfront
  omega

/-! ## The law -/

/-- What is recognized in two texts with a separator between them is what is recognized in the
first, followed by what is recognized in the second. -/
theorem two_texts_with_a_separator_are_analyzed_apart (hsep : Separator sep) (passes : Nat) :
    analyze spanishRules (a ++ sep ++ b) passes = analyze spanishRules a passes ++
      (analyze spanishRules b passes).map (Numeral.shift (byteLength (a ++ sep))) := by
  have hstands := @standsIn_of_mem_candidates spanishRules (a ++ sep ++ b) passes
  have hgap : ∀ n ∈ candidates spanishRules (a ++ sep ++ b) passes,
      n.stop ≤ byteLength a ∨ byteLength (a ++ sep) ≤ n.start := by
    intro n hn
    obtain ⟨_, _, hd⟩ := mem_candidates_iff.mp (List.mem_map_of_mem hn)
    exact derived_apart hsep hd
  have hbefore : BeginsWith (byteLength a) (candidates spanishRules (a ++ sep ++ b) passes)
      (candidates spanishRules a passes) := by
    obtain ⟨c, rest, rfl, hc⟩ := hsep.exists_first
    have hcut := hc.cleanCut a (rest ++ b)
    rw [List.append_assoc]
    exact candidates_within hcut.boundary (fun _ => hcut.steady) passes
  have hbehind : EndsWith (byteLength (a ++ sep)) (candidates spanishRules (a ++ sep ++ b) passes)
      (candidates spanishRules b passes) := by
    apply candidates_after
    obtain ⟨front, c, rfl, hc⟩ := hsep.exists_last
    rw [← List.append_assoc, List.reverse_append]
    exact hc.isBoundary_left _
  unfold BeginsWith at hbefore
  unfold EndsWith at hbehind
  rw [analyze, select_of_gap (by simp) (fun n hn => (hstands n hn).size_pos) hgap, hbefore,
    hbehind, map_select_shift]
  rfl

/-- The word "con" is a separator: of "dos con tres mil" 2 and 3000 are recognized. -/
theorem two_and_three_are_analyzed_apart :
    Separator " con ".toList ∧
      analyze spanishRules "dos".toList 32 =
        [⟨0, "dos".toList, ⟨.ofNat 2, none⟩, "number (0..15)"⟩] ∧
      analyze spanishRules "tres mil".toList 32 =
        [⟨0, "tres mil".toList, ⟨.ofNat 3000, some 3⟩, "thousands"⟩] ∧
      analyze spanishRules ("dos".toList ++ " con ".toList ++ "tres mil".toList) 32 =
        [⟨0, "dos".toList, ⟨.ofNat 2, none⟩, "number (0..15)"⟩,
          ⟨8, "tres mil".toList, ⟨.ofNat 3000, some 3⟩, "thousands"⟩] := by
  have hsep : Separator " con ".toList :=
    @Separator.word "con".toList (by decide) (by decide) (by decide)
  have htwo : analyze spanishRules "dos".toList 32 =
      [⟨0, "dos".toList, ⟨.ofNat 2, none⟩, "number (0..15)"⟩] := by
    decide +kernel
  have hthree : analyze spanishRules "tres mil".toList 32 =
      [⟨0, "tres mil".toList, ⟨.ofNat 3000, some 3⟩, "thousands"⟩] := by
    decide +kernel
  refine ⟨hsep, htwo, hthree, ?_⟩
  rw [two_texts_with_a_separator_are_analyzed_apart hsep 32, htwo, hthree]
  rfl

end Across

end SpanishNumerals
