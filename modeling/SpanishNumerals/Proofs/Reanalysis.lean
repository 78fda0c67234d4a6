-- A number that was recognized in a text is recognized again when its characters stand by
-- themselves, and nothing else is recognized in them. The ends of a number are clean cuts: what
-- was read up to there had looked at what follows, and what follows by itself is nothing.
import SpanishNumerals.Proofs.CleanCuts
import SpanishNumerals.Proofs.Leaves
import SpanishNumerals.Proofs.WholeText

namespace SpanishNumerals

/-! ## The ends of a number -/

/-- No letter of the suffixes is a word by itself. -/
theorem suffix_not_spoken {c : Char} (hc : isSuffixLetter c = true) {key : Text}
    (hkey : key ∈ spokenWords) : [c].map foldChar ≠ key.map foldChar := by
  have hall : ∀ key ∈ spokenWords, ∀ letter ∈ ['k', 'm', 'g'],
      key.map foldChar ≠ [foldChar letter] := by decide +kernel
  obtain ⟨letter, hletter, hsame⟩ := List.any_eq_true.mp hc
  intro hfold
  apply hall key hkey letter hletter
  rw [← hfold, List.map_singleton, of_decide_eq_true hsame]

section Ends

variable {pre text post : Text} {key : Key} {h : Nat}
  (hd : Derived spanishRules (pre ++ text ++ post) key h) (hstart : key.1 = byteLength pre)
  (hstop : key.2.1 = byteLength (pre ++ text))

include hd

theorem boundary_of_derived (hstart : key.1 = byteLength pre) :
    isBoundary pre.reverse.head? (text ++ post).head? = true := by
  have htext : (Cursor.mk pre.reverse (text ++ post)).text = pre ++ text ++ post := by
    rw [Cursor.text, List.reverse_reverse, List.append_assoc]
  have hpos : (Cursor.mk pre.reverse (text ++ post)).pos = key.1 :=
    (byteLength_reverse pre).trans hstart.symm
  have hmem := hd.start_mem_segmentStarts
  rw [← hpos, mem_segmentStarts htext] at hmem
  obtain ⟨_, c, rest, hahead, _, hboundary⟩ := mem_segments.mp hmem
  dsimp only at hahead
  rw [hahead]
  exact hboundary

include hstart hstop

theorem exists_last_leaf : ∃ between read, text = between ++ read ∧
    Leaf spanishRules (pre ++ text ++ post) (pre ++ between) read post := by
  obtain ⟨front, read, back, hleaf, hfront, hread⟩ := hd.ends
  obtain ⟨hends, rfl⟩ := append_inj_of_byteLength_eq hleaf.split (hstop.symm.trans hread.symm)
  obtain ⟨between, rfl, rfl⟩ := exists_between_of_byteLength_le hends (hstart ▸ hfront)
  exact ⟨between, read, rfl, hleaf⟩

/-- The end of a number is no cut through a word or a row of figures. -/
theorem boundary_of_last_leaf : isBoundary text.reverse.head? post.head? = true := by
  obtain ⟨between, read, htext, hleaf⟩ := exists_last_leaf hd hstart hstop
  have hne : read.reverse ≠ [] := by simpa using hleaf.ne_nil
  rw [htext, List.reverse_append, List.head?_append_of_ne_nil _ hne]
  exact hleaf.closes

/-- What is left of a number begins with no separator unless more follows. -/
theorem noNumberFollows_of_last {before : Text} {c : Char} (htext : text = before ++ [c])
    (hc : noNumberFollows [c] = true) : noNumberFollows (c :: post) = true := by
  obtain ⟨between, read, hsplit, hleaf⟩ := exists_last_leaf hd hstart hstop
  obtain ⟨front, d, rfl⟩ := (List.eq_nil_or_concat' _).resolve_left hleaf.ne_nil
  rw [htext, ← List.append_assoc] at hsplit
  obtain rfl := List.singleton_inj.mp (List.append_inj' hsplit rfl).2
  obtain ⟨hpoint, hcomma⟩ := hleaf.spanishRead.ends
  cases post with
  | nil => exact hc
  | cons e post =>
    have hdigit : c.isDigit = false := by simpa [noNumberFollows] using hc
    simp [noNumberFollows, hdigit, hpoint, hcomma]

/-- Behind a point and figures that end a number no number follows. -/
theorem noNumberFollows_of_point {before figures : Text} (htext : text = before ++ '.' :: figures)
    (hall : AllFigures figures) : noNumberFollows post = true := by
  have hsplit : pre ++ text ++ post = (pre ++ before) ++ '.' :: (figures ++ post) := by
    rw [htext]
    simp
  have hlength : byteLength (pre ++ before) < byteLength (pre ++ text) := by
    have := byteLength_pos (List.cons_ne_nil '.' figures)
    rw [htext, byteLength_append, byteLength_append, byteLength_append]
    omega
  obtain ⟨front, left, right, back, hleaf, hfront, hback, _, hend⟩ := hd.covered_char hsplit
    (by decide) (by rw [hstart, byteLength_append]; omega) (hstop ▸ hlength)
  have hle : byteLength right ≤ byteLength figures := by
    rw [hstop, ← List.append_assoc, ← hfront, htext, ← List.append_assoc] at hend
    rw [byteLength_append _ ('.' :: right), byteLength_append _ ('.' :: figures)] at hend
    simp only [byteLength] at hend
    omega
  obtain ⟨more, rfl, rfl⟩ := exists_between_of_byteLength_le hback.symm hle
  obtain ⟨hright, hmore⟩ := allFigures_append.mp hall
  have hfollow := hleaf.spanishRead.noNumberFollows_of_point rfl hright
  cases more with
  | nil => exact hfollow
  | cons d more =>
    -- The leaf would have stopped before a figure.
    have hd' := noFigureFollows_iff.mp (noFigureFollows_of_noNumberFollows hfollow) d rfl
    rw [hmore d List.mem_cons_self] at hd'
    exact absurd hd' (by decide)

/-- Behind a letter that may be a suffix no word follows. -/
theorem noWordFollows_of_suffix {front : Text} {c : Char} (htext : text = front ++ [c])
    (hopens : isBoundary front.reverse.head? (some c) = true) (hc : isSuffixLetter c = true) :
    noWordFollows post = true := by
  obtain ⟨between, read, hsplit, hleaf⟩ := exists_last_leaf hd hstart hstop
  obtain ⟨left, d, rfl⟩ := (List.eq_nil_or_concat' _).resolve_left hleaf.ne_nil
  rw [htext, ← List.append_assoc] at hsplit
  obtain ⟨rfl, hcd⟩ := List.append_inj' hsplit rfl
  obtain rfl := List.singleton_inj.mp hcd
  have hletter := letter_of_suffix hc
  have hmem : c ∈ left ++ [c] := List.mem_append_right left List.mem_cons_self
  rcases hleaf.spanishRead.word_or_suffix hmem hletter with ⟨key, hkey, hfold⟩ | ⟨_, _, _, hrest⟩
  · exfalso
    obtain ⟨_, hhyphen | hletters⟩ := letters_of_spoken hkey hfold
    · have hc' : c ∈ ['-'] := hhyphen ▸ hmem
      obtain rfl := List.mem_singleton.mp hc'
      exact absurd hletter (by decide)
    · rcases List.eq_nil_or_concat' left with rfl | ⟨left, d, rfl⟩
      · exact suffix_not_spoken hc hkey hfold
      · -- A boundary would part two letters of the word.
        have hd' := hletters d (by simp)
        rw [← List.append_assoc, List.reverse_append] at hopens
        simp [isBoundary, separates, hd', hletter] at hopens
  · exact hrest

/-- The end of a number is a clean cut. -/
theorem cleanCut_of_derived : CleanCut text post where
  boundary := boundary_of_last_leaf hd hstart hstop
  number := by
    intro before figures back htext hne hall hback
    match back with
    | [] =>
      rw [List.append_nil] at htext
      exact noNumberFollows_of_point hd hstart hstop htext hall
    | [c] => exact noNumberFollows_of_last hd hstart hstop htext hback
    | _ :: _ :: _ => exact hback
  suffix := fun _ _ => noWordFollows_of_suffix hd hstart hstop

end Ends

/-! ## Between two clean cuts -/

/-- What lies between two cuts is what is found there by itself. -/
theorem candidates_between {pre text post : Text}
    (hpre : isBoundary pre.reverse.head? (text ++ post).head? = true) (hpost : CleanCut text post)
    (passes : Nat) :
    (candidates spanishRules (pre ++ text ++ post) passes).filter (fun n =>
        byteLength pre ≤ n.start && n.stop ≤ byteLength (pre ++ text)) =
      (candidates spanishRules text passes).map (Numeral.shift (byteLength pre)) := by
  have hafter := candidates_after hpre spanishRules passes
  have hwithin := candidates_within hpost.boundary (fun _ => hpost.steady) passes
  unfold EndsWith at hafter
  unfold BeginsWith at hwithin
  rw [← hwithin, List.append_assoc]
  have hsplit : (fun n : Numeral => decide (byteLength pre ≤ n.start) &&
      decide (n.stop ≤ byteLength (pre ++ text))) = fun n =>
        decide (n.stop ≤ byteLength (pre ++ text)) && decide (byteLength pre ≤ n.start) := by
    funext n
    rw [Bool.and_comm]
  rw [hsplit, ← List.filter_filter, hafter, List.filter_map]
  congr 2
  funext n
  simp

/-! ## What is kept of one stretch -/

/-- Two numerals cover the same stretch. -/
def Numeral.sameSpan (a b : Numeral) : Bool := a.start = b.start && a.stop = b.stop

theorem Numeral.sameSpan_iff {a b : Numeral} :
    a.sameSpan b = true ↔ a.start = b.start ∧ a.stop = b.stop := by
  simp [sameSpan]

section Span

variable {found kept : List Numeral} {places : List Nat} (h : Chosen found kept places)

include h

/-- A numeral that is kept is the first that was found of its stretch. -/
theorem Chosen.find?_sameSpan (hsize : ∀ n ∈ found, 0 < n.size) {n : Numeral} (hn : n ∈ kept) :
    found.find? (·.sameSpan n) = some n := by
  obtain ⟨i, hi, hplace⟩ := h.exists_place hn
  obtain ⟨hlt, heq⟩ := List.getElem?_eq_some_iff.mp hplace
  have hpos := hsize n (List.mem_of_getElem? hplace)
  refine List.find?_eq_some_iff_getElem.mpr ⟨Numeral.sameSpan_iff.mpr ⟨rfl, rfl⟩, i, hlt, heq, ?_⟩
  intro j hj
  have hjlt : j < found.length := Nat.lt_trans hj hlt
  have hm : found[j]? = some found[j] := List.getElem?_eq_getElem hjlt
  rw [Bool.not_eq_true']
  by_contra hspan
  obtain ⟨hstart, hstop⟩ := Numeral.sameSpan_iff.mp (Bool.not_eq_false _ ▸ hspan)
  have hover : ∀ m : Numeral, found[j].overlaps m = n.overlaps m := by
    intro m
    rw [Numeral.overlaps, Numeral.overlaps, hstart, hstop]
  have hself : n.overlaps n = true := by
    unfold Numeral.overlaps Numeral.stop
    simp only [Bool.and_self, decide_eq_true_eq]
    omega
  have hjplace : j ∉ places := by
    intro hmem
    have := h.not_overlaps hmem hi (by omega) hm hplace
    rw [hover, hself] at this
    exact absurd this (by decide)
  -- What beats the earlier one is the kept one itself, which was found later.
  obtain ⟨k, hk, m, hkm, hoverlap, hbefore⟩ := h.beaten j _ hm hjplace
  rw [hover] at hoverlap
  obtain rfl : k = i := by
    by_contra hne
    have := h.not_overlaps hi hk (Ne.symm hne) hplace hkm
    rw [hoverlap] at this
    exact absurd this (by decide)
  obtain rfl : n = m := Option.some.inj (hplace.symm.trans hkm)
  unfold Numeral.stop at hstop
  rcases hbefore with hlonger | ⟨_, hearlier⟩ <;> omega

end Span

/-- The first numeral of a stretch between two cuts is the first that covers it by itself. -/
theorem find?_sameSpan_between {pre text post : Text}
    (hpre : isBoundary pre.reverse.head? (text ++ post).head? = true) (hpost : CleanCut text post)
    (passes : Nat) {n : Numeral} (hstart : n.start = byteLength pre)
    (hstop : n.stop = byteLength (pre ++ text)) :
    (candidates spanishRules (pre ++ text ++ post) passes).find? (·.sameSpan n) =
      ((candidates spanishRules text passes).find? (·.covers text)).map
        (Numeral.shift (byteLength pre)) := by
  have htest : ∀ m : Numeral, m.sameSpan n = true →
      byteLength pre ≤ m.start ∧ m.stop ≤ byteLength (pre ++ text) := by
    intro m hspan
    have := Numeral.sameSpan_iff.mp hspan
    omega
  have hcovers : (fun m : Numeral => m.covers text) =
      (fun m : Numeral => m.sameSpan n) ∘ Numeral.shift (byteLength pre) := by
    funext m
    rw [Function.comp_apply, Bool.eq_iff_iff, Numeral.covers_iff, Numeral.sameSpan_iff,
      Numeral.start_shift, Numeral.stop_shift]
    rw [byteLength_append] at hstop
    omega
  rw [hcovers, ← List.find?_map, ← candidates_between hpre hpost passes, List.find?_filter]
  congr 1
  funext m
  by_cases hspan : m.sameSpan n = true
  · obtain ⟨hfrom, hto⟩ := htest m hspan
    simp [-byteLength_append, hspan, hfrom, hto]
  · simp [hspan]

/-! ## The law -/

/-- A number that was recognized in a text is what is recognized in its own characters, at their
beginning, and nothing besides. -/
theorem a_recognized_number_is_recognized_by_itself (text : Text) (passes : Nat) (n : Numeral)
    (hn : n ∈ analyze spanishRules text passes) :
    analyze spanishRules n.text passes = [{ n with start := 0 }] := by
  have hmem : n ∈ candidates spanishRules text passes := mem_of_mem_select hn
  obtain ⟨_, first, last, rfl, hfirst, hreach⟩ := standsIn_of_mem_candidates n hmem
  obtain ⟨h, _, hd⟩ := mem_candidates_iff.mp (List.mem_map_of_mem hmem)
  obtain ⟨pre, hpre⟩ : ∃ pre, pre = first.behind.reverse := ⟨_, rfl⟩
  have htext : first.text = pre ++ n.text ++ last.ahead := by
    rw [Cursor.text, hreach.1, hpre, List.append_assoc]
  have hstart : n.start = byteLength pre := by rw [hpre, byteLength_reverse, ← hfirst, Cursor.pos]
  have hstop : n.stop = byteLength (pre ++ n.text) := by
    rw [byteLength_append, ← hstart, Numeral.stop, Numeral.size]
  have hsize : ∀ m ∈ candidates spanishRules first.text passes, 0 < m.size :=
    fun m hm => (standsIn_of_mem_candidates m hm).size_pos
  have hfind := (chosen_select hsize (nodup_candidates ..)).find?_sameSpan hsize hn
  rw [htext] at hd hfind
  rw [find?_sameSpan_between (boundary_of_derived hd hstart) (cleanCut_of_derived hd hstart hstop)
    passes hstart hstop] at hfind
  obtain ⟨m, hm, hshift⟩ := Option.map_eq_some_iff.mp hfind
  have hcovers := List.find?_some hm
  obtain ⟨hmstart, _⟩ := Numeral.covers_iff.mp hcovers
  rw [analyze_of_find? hm, ← hshift, ← hmstart]
  rfl

/-- "dos mil" is recognized within a longer text, and so by itself. -/
theorem two_thousand_is_recognized_by_itself :
    let n : Numeral := ⟨4, "dos mil".toList, ⟨.ofNat 2000, some 3⟩, "thousands"⟩
    n ∈ analyze spanishRules "los dos mil".toList 32 ∧
      analyze spanishRules n.text 32 = [{ n with start := 0 }] := by
  have hn : (⟨4, "dos mil".toList, ⟨.ofNat 2000, some 3⟩, "thousands"⟩ : Numeral) ∈
      analyze spanishRules "los dos mil".toList 32 := by
    decide +kernel
  exact ⟨hn, a_recognized_number_is_recognized_by_itself _ _ _ hn⟩

end SpanishNumerals
