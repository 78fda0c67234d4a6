-- Twin places. When two texts are run side by side, a place of one has its twin in the other,
-- with the same on both sides once the rows of blanks are squeezed. Twins have the same
-- boundaries, past characters and past blanks one comes to twins again, and stretches may begin
-- at twin places only.
import Mathlib.Data.List.Forall2
import SpanishNumerals.Proofs.Blocks

namespace SpanishNumerals

section Twins

variable {text text' : Text}

/-- A place of one text and a place of the other, with the same on both sides but for the rows
of blanks. -/
structure Alike (text text' : Text) (here there : Cursor) : Prop where
  text_left : here.text = text
  text_right : there.text = text'
  ahead : squeeze here.ahead = squeeze there.ahead
  behind : squeeze here.behind = squeeze there.behind

namespace Alike

variable {here there : Cursor}

theorem symm (h : Alike text text' here there) : Alike text' text there here :=
  ⟨h.text_right, h.text_left, h.ahead.symm, h.behind.symm⟩

theorem atBoundary_eq (h : Alike text text' here there) :
    here.atBoundary = there.atBoundary := by
  unfold Cursor.atBoundary
  rw [← isBoundary_squeeze_left, ← isBoundary_squeeze_right, h.behind, h.ahead,
    isBoundary_squeeze_left, isBoundary_squeeze_right]

theorem blank_ahead (h : Alike text text' here there) :
    here.ahead.head?.all isBlank = there.ahead.head?.all isBlank := by
  rw [← blank_head?_squeeze, h.ahead, blank_head?_squeeze]

theorem blank_behind (h : Alike text text' here there) :
    here.behind.head?.all isBlank = there.behind.head?.all isBlank := by
  rw [← blank_head?_squeeze, h.behind, blank_head?_squeeze]

/-- Past characters that are no blanks one comes from twin places to twin places. -/
theorem past (h : Alike text text' here there) {read : Text} {last : Cursor}
    (hread : ∀ c ∈ read, isBlank c = false) (hreach : here.Reaches read last) :
    ∃ last', there.Reaches read last' ∧ Alike text text' last last' := by
  have hsqueeze : squeeze there.ahead = read ++ squeeze last.ahead := by
    rw [← h.ahead, hreach.1, squeeze_append_of_not_blank hread]
  obtain ⟨back, hback, hrest⟩ := exists_of_squeeze_eq_append hread hsqueeze
  have hreach' := Cursor.reaches_forward hback
  refine ⟨there.forward read.length, hreach', hreach.text_eq.trans h.text_left,
    hreach'.text_eq.trans h.text_right, ?_, ?_⟩
  · rw [← hrest, Cursor.ahead_forward, hback, List.drop_left]
  · have hreverse : ∀ c ∈ read.reverse, isBlank c = false := by simpa using hread
    rw [hreach.2, hreach'.2, squeeze_append_of_not_blank hreverse,
      squeeze_append_of_not_blank hreverse, h.behind]

end Alike

/-! ### One twin only -/

/-- Squeezing keeps all characters that are no blanks. -/
theorem filter_squeeze (text : Text) :
    (squeeze text).filter (fun c => !isBlank c) = text.filter fun c => !isBlank c := by
  induction text with
  | nil => rfl
  | cons c text ih =>
    cases hc : isBlank c with
    | false => rw [squeeze_cons_of_not_blank hc, List.filter_cons, List.filter_cons, ih]
    | true =>
      rw [squeeze_cons, squeezeCons, if_pos hc, List.filter_cons_of_neg (by simp [hc]), ← ih]
      split
      · rfl
      · exact List.filter_cons_of_neg (by simp [isBlank_space])

/-- Where only blanks are passed and something else is passed first, nothing is passed. -/
theorem eq_nil_of_filter {passed rest : Text} (hhead : (passed ++ rest).head?.all isBlank = false)
    (h : (passed ++ rest).filter (fun c => !isBlank c) = rest.filter fun c => !isBlank c) :
    passed = [] := by
  cases passed with
  | nil => rfl
  | cons c passed =>
    have hc : isBlank c = false := hhead
    have hlength := congrArg List.length h
    simp [hc] at hlength
    omega

theorem Cursor.Reaches.eq_of_nil {a b : Cursor} (h : a.Reaches [] b) : a = b :=
  eq_of_behind_ahead h.2.symm h.1

/-- Two places of one text with the same ahead, which is no blank, are one place. -/
theorem eq_of_squeeze_ahead {a b : Cursor} (htext : a.text = b.text)
    (hnext : a.ahead.head?.all isBlank = false) (h : squeeze a.ahead = squeeze b.ahead) : a = b := by
  have hfilter := congrArg (List.filter fun c => !isBlank c) h
  rw [filter_squeeze, filter_squeeze] at hfilter
  have hnext' : b.ahead.head?.all isBlank = false := by
    rw [← blank_head?_squeeze, ← h, blank_head?_squeeze, hnext]
  rcases Nat.le_total a.pos b.pos with hle | hle
  · obtain ⟨passed, hreach⟩ := Cursor.reaches_of_pos_le htext hle
    rw [hreach.1] at hnext hfilter
    obtain rfl := eq_nil_of_filter hnext hfilter
    exact hreach.eq_of_nil
  · obtain ⟨passed, hreach⟩ := Cursor.reaches_of_pos_le htext.symm hle
    rw [hreach.1] at hnext' hfilter
    obtain rfl := eq_nil_of_filter hnext' hfilter.symm
    exact hreach.eq_of_nil.symm

/-- Two places of one text with the same behind, which is no blank, are one place. -/
theorem eq_of_squeeze_behind {a b : Cursor} (htext : a.text = b.text)
    (hlast : a.behind.head?.all isBlank = false) (h : squeeze a.behind = squeeze b.behind) :
    a = b := by
  have hfilter := congrArg (List.filter fun c => !isBlank c) h
  rw [filter_squeeze, filter_squeeze] at hfilter
  have hlast' : b.behind.head?.all isBlank = false := by
    rw [← blank_head?_squeeze, ← h, blank_head?_squeeze, hlast]
  rcases Nat.le_total a.pos b.pos with hle | hle
  · obtain ⟨passed, hreach⟩ := Cursor.reaches_of_pos_le htext hle
    rw [hreach.2] at hlast' hfilter
    obtain rfl := List.reverse_eq_nil_iff.mp (eq_nil_of_filter hlast' hfilter.symm)
    exact hreach.eq_of_nil
  · obtain ⟨passed, hreach⟩ := Cursor.reaches_of_pos_le htext.symm hle
    rw [hreach.2] at hlast hfilter
    obtain rfl := List.reverse_eq_nil_iff.mp (eq_nil_of_filter hlast hfilter)
    exact hreach.eq_of_nil.symm

/-! ### Past blanks -/

/-- Past the blanks there are twin places, or both texts are at their end. -/
def AlikePastBlanks (text text' : Text) (here there : Cursor) : Prop :=
  here.skipBlank.ahead = [] ∧ there.skipBlank.ahead = [] ∨
    Alike text text' here.skipBlank there.skipBlank ∧
      here.skipBlank.ahead.head?.all isBlank = false

/-- Squeezed, what lies ahead loses its blanks, and they come to what lies behind. -/
theorem squeeze_skipBlank (here : Cursor) :
    here.skipBlank.ahead = [] ∧ (squeeze here.ahead).dropWhile isBlank = [] ∨
      squeeze here.skipBlank.ahead = (squeeze here.ahead).dropWhile isBlank ∧
      here.skipBlank.ahead.head?.all isBlank = false ∧
      squeeze here.skipBlank.behind =
        if here.ahead.head?.all isBlank then squeezeCons ' ' (squeeze here.behind)
        else squeeze here.behind := by
  obtain ⟨blanks, hblanks, hahead, hbehind, hnext⟩ :=
    Cursor.skipBlankFrom_spec here.behind here.ahead
  change here.ahead = blanks ++ here.skipBlank.ahead at hahead
  change here.skipBlank.behind = blanks.reverse ++ here.behind at hbehind
  change ∀ c, here.skipBlank.ahead.head? = some c → _ at hnext
  rw [hbehind]
  rcases hskip : here.skipBlank.ahead with _ | ⟨c, rest⟩
  · left
    rw [hahead, hskip, List.append_nil, squeeze_blanks hblanks]
    exact ⟨rfl, rfl⟩
  · right
    have hc : isBlank c = false := hnext c (by rw [hskip]; rfl)
    rw [hahead, hskip]
    cases hrow : blanks with
    | nil => simp [squeeze_cons_of_not_blank hc, hc]
    | cons d row =>
      rw [← hrow]
      have hne : blanks ≠ [] := by simp [hrow]
      have hd : isBlank d = true := hblanks d (by simp [hrow])
      have hhead : (blanks ++ c :: rest).head?.all isBlank = true := by simp [hrow, hd]
      rw [if_pos hhead, squeeze_blanks_append hne hblanks,
        squeeze_blanks_append (by simpa using hne) (by simpa using hblanks),
        squeeze_cons_of_not_blank hc]
      simp [squeezeCons, isBlank_space, hc]

theorem alikePastBlanks {here there : Cursor} (htext : here.text = text)
    (htext' : there.text = text')
    (hdrop : (squeeze here.ahead).dropWhile isBlank = (squeeze there.ahead).dropWhile isBlank)
    (hrow : (if here.ahead.head?.all isBlank then squeezeCons ' ' (squeeze here.behind)
        else squeeze here.behind) =
      if there.ahead.head?.all isBlank then squeezeCons ' ' (squeeze there.behind)
        else squeeze there.behind) :
    AlikePastBlanks text text' here there := by
  rcases squeeze_skipBlank here with ⟨hend, hnil⟩ | ⟨hahead, hnext, hbehind⟩ <;>
    rcases squeeze_skipBlank there with ⟨hend', hnil'⟩ | ⟨hahead', hnext', hbehind'⟩
  · exact Or.inl ⟨hend, hend'⟩
  · rw [← blank_head?_squeeze, hahead', ← hdrop, hnil] at hnext'
    exact absurd hnext' (by decide)
  · rw [← blank_head?_squeeze, hahead, hdrop, hnil'] at hnext
    exact absurd hnext (by decide)
  · refine Or.inr ⟨⟨(Cursor.text_skipBlank _).trans htext, (Cursor.text_skipBlank _).trans htext',
      ?_, ?_⟩, hnext⟩
    · rw [hahead, hahead', hdrop]
    · rw [hbehind, hbehind', hrow]

/-- Twin places stay twins past blanks: there are blanks before both or before neither. -/
theorem Alike.skipBlank {here there : Cursor} (h : Alike text text' here there) :
    AlikePastBlanks text text' here there :=
  alikePastBlanks h.text_left h.text_right (by rw [h.ahead]) (by rw [h.blank_ahead, h.behind])

/-! ### Where stretches may begin -/

theorem segmentsFrom_skipBlank (behind ahead : Text) :
    Cursor.segmentsFrom behind ahead =
      Cursor.segmentsFrom (Cursor.skipBlankFrom behind ahead).behind
        (Cursor.skipBlankFrom behind ahead).ahead := by
  induction ahead generalizing behind with
  | nil => rfl
  | cons c ahead ih =>
    unfold Cursor.skipBlankFrom
    split
    · rename_i hc
      rw [← ih, Cursor.segmentsFrom, classify_of_isBlank hc]
      rfl
    · rfl

/-- Stretches may begin at twin places, in the same order. -/
theorem alike_segmentsFrom {here there : Cursor} (h : AlikePastBlanks text text' here there) :
    List.Forall₂ (Alike text text') (Cursor.segmentsFrom here.behind here.ahead)
      (Cursor.segmentsFrom there.behind there.ahead) := by
  -- By induction on what lies ahead: past the blanks one character is passed in both texts.
  induction hlength : here.ahead.length using Nat.strong_induction_on generalizing here there with
  | _ length ih =>
    rw [segmentsFrom_skipBlank here.behind, segmentsFrom_skipBlank there.behind]
    change List.Forall₂ _ (Cursor.segmentsFrom here.skipBlank.behind here.skipBlank.ahead)
      (Cursor.segmentsFrom there.skipBlank.behind there.skipBlank.ahead)
    rcases h with ⟨hend, hend'⟩ | ⟨h, hnext⟩
    · rw [hend, hend']
      exact List.Forall₂.nil
    · obtain ⟨blanks, _, hskip⟩ := here.reaches_skipBlank
      generalize here.skipBlank = first at h hnext hskip
      generalize there.skipBlank = first' at h
      obtain ⟨behind, _ | ⟨c, ahead⟩⟩ := first
      · simp at hnext
      · have hc : isBlank c = false := hnext
        have hread : ∀ d ∈ [c], isBlank d = false := by simpa using hc
        have hreach : (Cursor.mk behind (c :: ahead)).Reaches [c] ⟨c :: behind, ahead⟩ := ⟨rfl, rfl⟩
        obtain ⟨last', ⟨hahead', hbehind'⟩, hlast⟩ := h.past hread hreach
        have hshort : ahead.length < length := by
          rw [← hlength, hskip.1]
          simp only [List.length_append, List.length_cons]
          omega
        have hrest := ih ahead.length hshort hlast.skipBlank rfl
        have hboundary : isBoundary behind.head? (some c) =
            isBoundary first'.behind.head? (some c) := by
          rw [← isBoundary_squeeze_left, h.behind, isBoundary_squeeze_left]
        rw [hbehind'] at hrest
        rw [hahead', List.singleton_append, Cursor.segmentsFrom, Cursor.segmentsFrom, ← hboundary]
        split
        · rw [show Cursor.mk first'.behind (c :: last'.ahead) = first' from
            Cursor.eq_of_behind_ahead rfl hahead'.symm]
          exact List.Forall₂.cons h hrest
        · exact hrest

end Twins

end SpanishNumerals
