-- How high a derivation can be. A rule on numbers reads something besides each of its numbers,
-- so a number takes a longer stretch of text than the numbers it rests on, and no derivation
-- is higher than its stretch is long.
import SpanishNumerals.Catalogue
import SpanishNumerals.Proofs.Derivation

namespace SpanishNumerals

/-- Each rule on numbers has two elements or more. -/
def Growing (rules : Registry) : Prop :=
  ∀ rule ∈ rules, rule.composes = true → 2 ≤ rule.elements.length

theorem growing_spanishRules : Growing spanishRules := by
  unfold Growing
  decide

/-! ## The stretches of the pieces -/

theorem le_skipBlankAt (text : Text) (pos : Nat) : pos ≤ skipBlankAt text pos := by
  unfold skipBlankAt
  split
  · rename_i here hhere
    obtain ⟨_, rfl⟩ := cursorAt?_eq_some.mp hhere
    obtain ⟨blanks, _, hreach⟩ := here.reaches_skipBlank
    rw [hreach.pos_eq]
    exact Nat.le_add_right _ _
  · exact Nat.le_refl _

/-- A piece of text takes one character at least. -/
theorem Piece.Fits.start_lt_stop {piece : Piece} {text : Text} {pattern : Pattern}
    (h : piece.Fits text (.text pattern)) : piece.start < piece.stop := by
  obtain ⟨here, capture, there, hhere, hread, hstop, _, _⟩ := h
  obtain ⟨_, hpos⟩ := cursorAt?_eq_some.mp hhere
  obtain ⟨_, hread, _⟩ := Pattern.readBounded?_eq_some.mp hread
  have hne := byteLength_pos (Pattern.read?_eq_some hread).1
  rw [hstop, (Cursor.reaches_of_read? hread).pos_eq, hpos]
  omega

/-- The pieces of a row lie one behind the other between its two ends. -/
theorem Row.within {text : Text} {elements : List Element} {pieces : List Piece} {pos stop : Nat}
    (h : Row text elements pieces pos stop) (hpieces : ∀ p ∈ pieces, p.start < p.stop) :
    pos ≤ stop ∧ ∀ p ∈ pieces, pos ≤ p.start ∧ p.stop ≤ stop := by
  induction h with
  | nil => exact ⟨Nat.le_refl _, by simp⟩
  | @cons element elements piece pieces pos stop hfits hstart hrow ih =>
    obtain ⟨hle, hrest⟩ := ih fun p hp => hpieces p (List.mem_cons_of_mem piece hp)
    have hpiece := hpieces piece List.mem_cons_self
    have hskip := le_skipBlankAt text pos
    refine ⟨by omega, ?_⟩
    intro p hp
    rcases List.mem_cons.mp hp with rfl | hp
    · exact ⟨by omega, hle⟩
    · obtain ⟨hp1, hp2⟩ := hrest p hp
      exact ⟨by omega, hp2⟩

theorem Row.length_eq {text : Text} {elements : List Element} {pieces : List Piece}
    {pos stop : Nat} (h : Row text elements pieces pos stop) :
    pieces.length = elements.length := by
  induction h with
  | nil => rfl
  | cons _ _ _ ih => rw [List.length_cons, List.length_cons, ih]

/-! ## The height of a derivation -/

/-- A number takes one byte of text at least for each step of its derivation. -/
theorem Derived.height_le_span {rules : Registry} {text : Text} {key : Key} {h : Nat}
    (hrules : Growing rules) (hd : Derived rules text key h) : key.1 + h ≤ key.2.1 := by
  induction hd with
  | @intro rule pieces key hrule hassembles hderived ih =>
    have hspan : ∀ p ∈ pieces, p.start < p.stop ∧ p.start + p.height ≤ p.stop := by
      intro p hp
      obtain ⟨element, _, hfits⟩ := hassembles.fits p hp
      cases element with
      | text pattern =>
        have hlt := hfits.start_lt_stop
        obtain ⟨_, _, _, _, _, _, _, hzero⟩ := hfits
        exact ⟨hlt, by omega⟩
      | number condition =>
        obtain ⟨token, hnode, _⟩ := hfits
        have hpos := (hderived p hp token hnode).height_pos
        have hle : p.start + p.height ≤ p.stop := ih p hp token hnode
        exact ⟨by omega, hle⟩
    have hnode := hassembles.node_ne_number
    cases hassembles with
    | @intro element elements piece pieces stop token helements hfits hopens hrow htoken =>
      have hpiece := hspan piece List.mem_cons_self
      obtain ⟨hstop, hwithin⟩ :=
        hrow.within fun p hp => (hspan p (List.mem_cons_of_mem piece hp)).1
      have hhighest : Piece.highest (piece :: pieces) ≤ stop - piece.start - 1 := by
        apply Piece.highest_le
        intro p hp
        by_cases hcomposes : rule.composes = true
        · -- Another piece stands beside `p` and takes a byte of its own.
          have htwo := hrules rule hrule hcomposes
          rw [helements, List.length_cons, ← hrow.length_eq] at htwo
          obtain ⟨q, more, rfl⟩ := List.exists_cons_of_length_pos (show 0 < pieces.length by omega)
          rcases List.mem_cons.mp hp with rfl | hp
          · have hq := hspan q (List.mem_cons_of_mem _ List.mem_cons_self)
            have := hwithin q List.mem_cons_self
            omega
          · have hp' := hspan p (List.mem_cons_of_mem _ hp)
            have := hwithin p hp
            omega
        · obtain ⟨_, _, hpfits⟩ :=
            (Assembles.intro helements hfits hopens hrow htoken).fits p hp
          have := hpfits.height_eq_zero (hnode (by simpa using hcomposes) p hp)
          omega
      dsimp only
      omega

/-- A number begins where a stretch may begin. -/
theorem Derived.start_mem_segmentStarts {rules : Registry} {text : Text} {key : Key} {h : Nat}
    (hd : Derived rules text key h) : key.1 ∈ segmentStarts text := by
  induction hd with
  | @intro rule pieces key hrule hassembles hderived ih =>
    cases hassembles with
    | @intro element elements piece pieces stop token _ hfits hopens _ _ =>
      cases element with
      | text pattern => exact hopens rfl
      | number condition =>
        obtain ⟨token, hnode, _⟩ := hfits
        exact ih piece List.mem_cons_self token hnode

/-! ## How many passes are enough -/

/-- When each number has a derivation within `most`, no pass after so many finds more. -/
theorem candidates_eq_of_heights {rules : Registry} {text : Text} {most passes : Nat}
    (hle : most ≤ passes)
    (hheights : ∀ key k, Derived rules text key k → ∃ j ≤ most, Derived rules text key j) :
    candidates rules text passes = candidates rules text most := by
  obtain ⟨more, hmore⟩ := candidates_beginning rules text hle
  cases more with
  | nil => rw [← hmore, List.append_nil]
  | cons n more =>
    have hdistinct := pairwise_key_candidates rules text passes
    have hn : n ∈ candidates rules text passes := by
      rw [← hmore]
      simp
    obtain ⟨k, _, hk⟩ := mem_candidates_iff.mp (List.mem_map.mpr ⟨n, hn, rfl⟩)
    obtain ⟨j, hj, hderived⟩ := hheights n.key k hk
    obtain ⟨m, hm, hkey⟩ :=
      List.mem_map.mp (mem_candidates_iff.mpr ⟨j, Nat.le_trans hj (Nat.le_max_left _ _), hderived⟩)
    rw [← hmore] at hdistinct
    exact absurd hkey ((List.pairwise_append.mp hdistinct).2.2 m hm n List.mem_cons_self)

/-- From as many passes on as the text has bytes, no more of them find more. -/
theorem candidates_of_byteLength_le {rules : Registry} (hrules : Growing rules) {text : Text}
    {m n : Nat} (hm : byteLength text ≤ m) (hn : m ≤ n) :
    candidates rules text n = candidates rules text m := by
  refine candidates_eq_of_heights hn fun key h hderived => ⟨h, ?_, hderived⟩
  have hspan := hderived.height_le_span hrules
  obtain ⟨r, hr, rfl⟩ :=
    List.mem_map.mp (mem_candidates_iff.mpr ⟨h, Nat.le_max_left h 1, hderived⟩)
  have hstop := (standsIn_of_mem_candidates r hr).stop_le
  dsimp only [Numeral.key] at hspan
  omega

/-- More passes only add to what fewer have found. When each rule on numbers has two elements or
more, as each Spanish one has, a pass for each byte of the text is enough, and at least one; so
the default number of passes is enough for each text of no more bytes. -/
theorem more_passes_only_add_until_the_length_of_the_text (rules : Registry) (text : Text) :
    (∀ m n, m ≤ n → candidates rules text m <+: candidates rules text n) ∧
    (Growing rules →
      (∀ m, max (byteLength text) 1 ≤ m →
        candidates rules text m = candidates rules text (max (byteLength text) 1)) ∧
      (byteLength text ≤ defaultPasses → ∀ m, defaultPasses ≤ m →
        candidates rules text m = candidates rules text defaultPasses)) ∧
    Growing spanishRules := by
  refine ⟨fun m n => candidates_beginning rules text, fun hrules => ⟨?_, ?_⟩,
    growing_spanishRules⟩
  · intro m hm
    exact candidates_of_byteLength_le hrules (Nat.le_max_left _ _) hm
  · intro htext m hm
    exact candidates_of_byteLength_le hrules htext hm

/-- Of the seven bytes of "dos mil" seven passes find all that forty find. -/
theorem seven_passes_are_enough_for_two_thousand :
    candidates spanishRules "dos mil".toList 1 <+: candidates spanishRules "dos mil".toList 2 ∧
      candidates spanishRules "dos mil".toList 40 = candidates spanishRules "dos mil".toList 7 ∧
      candidates spanishRules "dos mil".toList 40 =
        candidates spanishRules "dos mil".toList defaultPasses := by
  obtain ⟨hadd, henough, hrules⟩ :=
    more_passes_only_add_until_the_length_of_the_text spanishRules "dos mil".toList
  obtain ⟨hbytes, hdefault⟩ := henough hrules
  exact ⟨hadd 1 2 (by decide), hbytes 40 (by decide), hdefault (by decide) 40 (by decide)⟩

end SpanishNumerals
