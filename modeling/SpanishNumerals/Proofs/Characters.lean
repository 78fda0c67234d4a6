-- What is needed of the characters themselves: the blanks, the figures, and the letters that
-- the words for numbers are written with. The tables of code points are searched once, here.
import SpanishNumerals.Text.CharClass
import SpanishNumerals.Text.Folding
import SpanishNumerals.Text.Lowercase

namespace SpanishNumerals

-- To decide what holds of all characters of a text, go through the text, not through all
-- characters that there are.
instance (priority := 2000) decidableForallMemText (P : Char → Prop) [DecidablePred P]
    (text : List Char) : Decidable (∀ c ∈ text, P c) :=
  List.decidableBAll P text

/-! ## Ranges, point by point -/

/-- The code points of some ranges. -/
def pointsOf (ranges : List (Nat × Nat)) : List Nat :=
  ranges.flatMap fun (first, last) => (List.range (last + 1 - first)).map (first + ·)

theorem mem_pointsOf {n : Nat} {ranges : List (Nat × Nat)} (h : inRanges n ranges = true) :
    n ∈ pointsOf ranges := by
  induction ranges with
  | nil => simp [inRanges] at h
  | cons r ranges ih =>
    obtain ⟨first, last⟩ := r
    unfold inRanges at h
    split at h
    · simp at h
    · rename_i hfirst
      rw [pointsOf, List.flatMap_cons, List.mem_append]
      by_cases hlast : n ≤ last
      · left
        refine List.mem_map.mpr ⟨n - first, List.mem_range.mpr ?_, ?_⟩ <;> omega
      · simp only [hlast, decide_false, Bool.false_or] at h
        exact Or.inr (ih h)

/-- What holds of each code point of some ranges holds of their characters. -/
theorem forall_inRanges {ranges : List (Nat × Nat)} {P : Char → Prop}
    (h : ∀ n ∈ pointsOf ranges, P (Char.ofNat n)) {c : Char} (hc : inRanges c.toNat ranges = true) :
    P c := by
  have hn := h c.toNat (mem_pointsOf hc)
  rwa [Char.ofNat_toNat] at hn

theorem classify_of_isBlank {c : Char} (h : isBlank c = true) : classify c = .blank :=
  forall_inRanges (P := fun c => classify c = .blank) (by decide +kernel) h

theorem isBlank_eq_false {c : Char} (h : classify c ≠ .blank) : isBlank c = false := by
  rw [Bool.eq_false_iff]
  exact fun hc => h (classify_of_isBlank hc)

theorem separates_of_isBlank_left {a : Char} (b : Char) (h : isBlank a = true) :
    separates a b = true := by
  unfold separates
  rw [classify_of_isBlank h]

theorem separates_of_isBlank_right (a : Char) {b : Char} (h : isBlank b = true) :
    separates a b = true := by
  rw [separates_comm, separates_of_isBlank_left a h]

/-- The code points of the figures. -/
def figureRanges : List (Nat × Nat) := [(48, 57)]

theorem inRanges_of_isDigit {c : Char} (h : c.isDigit = true) :
    inRanges c.toNat figureRanges = true := by
  obtain ⟨h1, h2⟩ : 48 ≤ c.toNat ∧ c.toNat ≤ 57 := Char.isDigit_iff_toNat.mp h
  simp only [figureRanges, inRanges, Nat.not_lt.mpr h1, if_false, decide_eq_true h2, Bool.true_or]

theorem classify_of_isDigit {c : Char} (h : c.isDigit = true) : classify c = .digit :=
  forall_inRanges (P := fun c => classify c = .digit) (by decide) (inRanges_of_isDigit h)

/-! ## Letters in whatever case -/

/-- The code points that some runs may send to `m`. -/
def originsOf (m : Nat) (runs : List (Nat × Nat × Nat × Nat)) : List Nat :=
  m :: runs.filterMap fun (first, last, _, target) =>
    if target ≤ m ∧ m ≤ target + (last - first) then some (first + (m - target)) else none

theorem mem_originsOf (n : Nat) (runs : List (Nat × Nat × Nat × Nat)) :
    n ∈ originsOf (alongRuns n runs) runs := by
  induction runs with
  | nil => simp [alongRuns, originsOf]
  | cons run runs ih =>
    obtain ⟨first, last, step, target⟩ := run
    unfold alongRuns
    split
    · exact List.mem_cons_self
    · split
      · split
        · rename_i hfirst hlast _
          refine List.mem_cons_of_mem _ (List.mem_filterMap.mpr ⟨_, List.mem_cons_self, ?_⟩)
          dsimp only
          rw [if_pos (by omega)]
          congr 1
          omega
        · exact List.mem_cons_self
      · rcases List.mem_cons.mp ih with h | h
        · exact List.mem_cons.mpr (Or.inl h)
        · obtain ⟨run, hrun, hn⟩ := List.mem_filterMap.mp h
          exact List.mem_cons_of_mem _
            (List.mem_filterMap.mpr ⟨run, List.mem_cons_of_mem _ hrun, hn⟩)

/-- The small letters of the words for numbers, with and without accents. -/
def spellingLetters : Text := "abcdefghijklmnopqrstuvwxyzáéíóúñ".toList

/-- A character that becomes one of the letters in small is a letter, and folds to it. -/
theorem letter_of_origin : ∀ k ∈ spellingLetters, ∀ n ∈ originsOf k.toNat lowercaseRuns,
    foldChar (Char.ofNat n) = k ∧ classify (Char.ofNat n) = .letter := by
  decide +kernel

theorem toNat_of_ofNat_eq {n : Nat} {k : Char} (hk : k.toNat ≠ 0) (h : Char.ofNat n = k) :
    n = k.toNat := by
  subst h
  unfold Char.ofNat at hk ⊢
  by_cases hvalid : n.isValidChar
  · rw [dif_pos hvalid]
    rfl
  · rw [dif_neg hvalid] at hk
    exact absurd rfl hk

theorem letter_of_lowercaseChar {c k : Char} (hk : k ∈ spellingLetters)
    (h : Char.ofNat (alongRuns c.toNat lowercaseRuns) = k) :
    foldChar c = k ∧ classify c = .letter := by
  have hne : k.toNat ≠ 0 := (by decide : ∀ k ∈ spellingLetters, k.toNat ≠ 0) k hk
  have hn : alongRuns c.toNat lowercaseRuns = k.toNat := toNat_of_ofNat_eq hne h
  have hc := letter_of_origin k hk c.toNat (hn ▸ mem_originsOf c.toNat lowercaseRuns)
  rwa [Char.ofNat_toNat] at hc

theorem letters_of_lowercaseAfter {behind text : Text}
    (h : ∀ c ∈ lowercaseAfter behind text, c ∈ spellingLetters) :
    text.map foldChar = lowercaseAfter behind text ∧ ∀ c ∈ text, classify c = .letter := by
  induction text generalizing behind with
  | nil => exact ⟨rfl, by simp⟩
  | cons c text ih =>
    unfold lowercaseAfter at h ⊢
    obtain ⟨hfold, hletters⟩ := ih fun d hd => h d (List.mem_append_right _ hd)
    by_cases hsigma : c = 'Σ'
    · -- Neither form of the small sigma is one of the letters.
      rw [if_pos hsigma] at h
      have hmem := h _ (List.mem_append_left _ List.mem_cons_self)
      split at hmem <;> exact absurd hmem (by decide)
    · rw [if_neg hsigma] at h ⊢
      by_cases hdot : c = '\u0130'
      · have hmem := h '\u0307' (List.mem_append_left _ (by simp [lowercaseChar, hdot]))
        exact absurd hmem (by decide)
      · have hchar : lowercaseChar c = [Char.ofNat (alongRuns c.toNat lowercaseRuns)] := by
          rw [lowercaseChar, if_neg hdot]
        rw [hchar] at h ⊢
        obtain ⟨hc, hletter⟩ := letter_of_lowercaseChar
          (h _ (List.mem_append_left _ List.mem_cons_self)) rfl
        refine ⟨?_, ?_⟩
        · rw [List.map_cons, hfold, hc]
          rfl
        · intro d hd
          rcases List.mem_cons.mp hd with rfl | hd
          · exact hletter
          · exact hletters d hd

/-- A text whose small form is made of these letters is made of letters, and folds to it. -/
theorem letters_of_lowercase {text : Text} (h : ∀ c ∈ lowercase text, c ∈ spellingLetters) :
    text.map foldChar = lowercase text ∧ ∀ c ∈ text, classify c = .letter :=
  letters_of_lowercaseAfter h

/-- A text of characters that are their own small form is its own small form. -/
theorem lowercaseAfter_eq_self {text : Text} (h : ∀ c ∈ text, c ≠ 'Σ' ∧ lowercaseChar c = [c])
    (behind : Text) : lowercaseAfter behind text = text := by
  induction text generalizing behind with
  | nil => rfl
  | cons c text ih =>
    obtain ⟨⟨hsigma, hchar⟩, htext⟩ := List.forall_mem_cons.mp h
    rw [lowercaseAfter, if_neg hsigma, hchar, ih htext]
    rfl

/-- No blank is one of the letters, or a hyphen, but for case. -/
theorem sameFold_blank {k c : Char} (hk : k ∈ '-' :: spellingLetters) (hc : isBlank c = true) :
    sameFold k c = false := by
  have hpoints : ∀ n ∈ pointsOf blankRanges, ∀ k ∈ '-' :: spellingLetters,
      sameFold k (Char.ofNat n) = false := by decide +kernel
  exact forall_inRanges (P := fun c => ∀ k ∈ '-' :: spellingLetters, sameFold k c = false)
    hpoints hc k hk

end SpanishNumerals
