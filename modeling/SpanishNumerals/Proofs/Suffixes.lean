-- A suffix behind a number. Nothing but the rule of the suffixes reads a suffix letter that
-- stands by itself, and that rule scales each number that ends where the blanks before the
-- letter begin. What other rules make of a scaled number is scaled too, unless they are the
-- rules of sums, which do not ask.
import SpanishNumerals.Proofs.Blocks
import SpanishNumerals.Proofs.FirstTokens
import SpanishNumerals.Proofs.Reanalysis

namespace SpanishNumerals

/-- The rule of the suffixes. -/
def suffixRule : Rule := compoundRules[5]

/-- The number times a factor, of the scale of the factor, if it is finite. -/
def scaledBy (factor : Value) (grain : Nat) (token : Token) : Option Token :=
  Token.scaled? (token.value.mul? factor) grain

theorem apply_suffixRule (token : Token) (capture : Capture) :
    suffixRule.apply [.number token, .capture capture] =
      (suffixScale ((capture.group 1).getD capture.text)).bind fun scale =>
        scaledBy scale.1 scale.2 token := rfl

theorem mul?_neg (v factor : Value) : v.neg.mul? factor = (v.mul? factor).map Value.neg := by
  have hsign : ((!v.negative) != factor.negative) = !(v.negative != factor.negative) := by
    cases v.negative <;> cases factor.negative <;> rfl
  unfold Value.mul? Value.round? Value.neg
  dsimp only
  rw [hsign]
  split <;> rfl

/-- The opposite is scaled as the number is. -/
theorem scaledBy_opposite (factor : Value) (grain : Nat) (token : Token) :
    scaledBy factor grain token.opposite = (scaledBy factor grain token).map Token.opposite := by
  unfold scaledBy Token.scaled? Token.opposite
  rw [mul?_neg, Option.map_map, Option.map_map]
  rfl

/-! ## The letter -/

/-- The letter of a scale is one that the rule looks for. -/
theorem isSuffixLetter_of_suffixScale {c : Char} {scale : Value × Nat}
    (h : suffixScale [c] = some scale) : isSuffixLetter c = true := by
  have hletter : ∃ k ∈ ['k', 'm', 'g'], lowercase [c] = [k] := by
    unfold suffixScale at h
    split at h
    · exact ⟨'k', by simp, ‹_›⟩
    · exact ⟨'m', by simp, ‹_›⟩
    · exact ⟨'g', by simp, ‹_›⟩
    · simp at h
  obtain ⟨k, hk, hlower⟩ := hletter
  have hspelled : ∀ k ∈ ['k', 'm', 'g'], k ∈ spellingLetters ∧ foldChar k = k := by
    decide
  have hfold : [c].map foldChar = [k] := by
    rw [← hlower]
    apply (letters_of_lowercase _).1
    rw [hlower]
    simpa using (hspelled k hk).1
  refine List.any_eq_true.mpr ⟨k, hk, ?_⟩
  rw [sameFold, decide_eq_true_eq, (hspelled k hk).2]
  exact (List.singleton_inj.mp hfold).symm

/-- No other pattern reads a suffix letter by itself. -/
theorem eq_suffixPattern_of_reads {pattern : Pattern} {capture : Capture} {rest : Text} {c : Char}
    (hpattern : pattern ∈ patternsOf spanishRules) (h : pattern.Reads capture rest)
    (htext : capture.text = [c]) (hc : isSuffixLetter c = true) : pattern = suffixPattern := by
  have hsign := letter_not_isFigureSign (letter_of_suffix hc)
  have hmem : c ∈ capture.text := htext ▸ List.mem_singleton_self c
  rcases patternsOf_spanishRules hpattern with hplain | hpointed | ⟨keys, hkeys, hextent, hfollow⟩ | rfl
  · have hall := plain_signs (plain_of_reads hplain h).1 c hmem
    rw [hsign] at hall
    exact absurd hall (by decide)
  · have hall := pointed_signs (pointed_of_reads hpointed h).1 c hmem
    rw [hsign] at hall
    exact absurd hall (by decide)
  · obtain ⟨key, hkey, hfold⟩ := exists_key_of_reads hextent hfollow h
    rw [htext] at hfold
    exact absurd hfold (suffix_not_spoken hc (hkeys hkey))
  · rfl

/-! ## The ends of numbers -/

/-- A number does not end with a blank. -/
theorem last_not_blank_of_mem {text : Text} {passes : Nat} {n : Numeral}
    (hn : n ∈ candidates spanishRules text passes) :
    ∀ d, n.text.getLast? = some d → isBlank d = false := by
  obtain ⟨h, _, hderived⟩ := mem_candidates_iff.mp (List.mem_map.mpr ⟨n, hn, rfl⟩)
  obtain ⟨hne, first, last, rfl, hpos, hreach⟩ := standsIn_of_mem_candidates n hn
  have hsplit : first.text = first.behind.reverse ++ n.text ++ last.ahead := by
    rw [Cursor.text, hreach.1, List.append_assoc]
  have hstart : n.key.1 = byteLength first.behind.reverse := by
    rw [byteLength_reverse]
    exact hpos.symm
  rw [hsplit] at hderived
  obtain ⟨between, read, htext, hleaf⟩ := exists_last_leaf hderived hstart (by
    rw [byteLength_append, ← hstart]
    rfl)
  intro d hd
  rw [htext, List.getLast?_append_of_ne_nil _ hleaf.ne_nil] at hd
  obtain ⟨pattern, hpattern, capture, rfl, hreads⟩ := hleaf.reads
  exact not_blank_of_reads hpattern hreads d (List.mem_of_getLast? hd)

/-- The blanks at the end of a text are told from what stands before them. -/
theorem append_blanks_inj {a b p q : Text} (h : a ++ p = b ++ q)
    (ha : ∀ d, a.getLast? = some d → isBlank d = false)
    (hb : ∀ d, b.getLast? = some d → isBlank d = false)
    (hp : ∀ d ∈ p, isBlank d = true) (hq : ∀ d ∈ q, isBlank d = true) : a = b := by
  have hover : ∀ {a b between q : Text}, (∀ d, a.getLast? = some d → isBlank d = false) →
      (∀ d ∈ q, isBlank d = true) → a = b ++ between → (∀ d ∈ between, d ∈ q) → a = b := by
    intro a b between q ha hq hsplit hsub
    cases hlast : between.getLast? with
    | none => rw [hsplit, List.getLast?_eq_none_iff.mp hlast, List.append_nil]
    | some d =>
      have hd := ha d (by rw [hsplit, List.getLast?_append, hlast, Option.some_or])
      rw [hq d (hsub d (List.mem_of_getLast? hlast))] at hd
      exact absurd hd (by decide)
  rcases List.append_eq_append_iff.mp h with ⟨between, hsplit, hrest⟩ | ⟨between, hsplit, hrest⟩
  · exact (hover hb hp hsplit fun d hd => hrest ▸ List.mem_append_left q hd).symm
  · exact hover ha hq hsplit fun d hd => hrest ▸ List.mem_append_left p hd

/-! ## A letter behind blanks -/

/-- The ways to read one text from a place on. -/
theorem findSome?_readElements_text (found : List Numeral) (there : Cursor) (pattern : Pattern)
    (g : Window × Cursor → Option Token) :
    (readElements found [.text pattern] there).findSome? g =
      (pattern.readBounded? there.skipBlank).bind fun reading =>
        g ([.capture reading.1], reading.2) := by
  simp only [readElements, readElement, List.map_cons, List.map_nil, findSome?_flatMap,
    List.findSome?_map]
  cases pattern.readBounded? there.skipBlank <;> simp

section Suffixed

variable {text blanks : Text} {c : Char} {factor : Value} {grain : Nat}
  (hne : blanks ≠ []) (hblank : ∀ d ∈ blanks, isBlank d = true)
  (hc : suffixScale [c] = some (factor, grain))

include hne hblank hc

/-- What is read at the end of the text is the letter, as a suffix. -/
theorem read_at_end {pattern : Pattern} {here there : Cursor} {capture : Capture}
    (hpattern : pattern ∈ patternsOf spanishRules)
    (hread : pattern.readBounded? here = some (capture, there))
    (htext : here.text = text ++ blanks ++ [c])
    (hend : there.pos = byteLength (text ++ blanks ++ [c])) :
    pattern = suffixPattern ∧ here = ⟨(text ++ blanks).reverse, [c]⟩ := by
  obtain ⟨_, hread, _⟩ := Pattern.readBounded?_eq_some.mp hread
  obtain ⟨hreach, hreads⟩ := Pattern.read?_eq_some_iff.mp hread
  obtain rfl : there = ⟨(text ++ blanks ++ [c]).reverse, []⟩ := by
    apply Cursor.eq_of_pos
    · rw [hreach.text_eq, htext, Cursor.text, List.reverse_reverse, List.append_nil]
    · rw [hend, Cursor.pos, byteLength_reverse]
  have hahead : here.ahead = capture.text := hreach.1.trans (List.append_nil _)
  rw [Cursor.text, hahead, ← List.dropLast_append_getLast hreads.1, ← List.append_assoc] at htext
  obtain ⟨hfront, hlast⟩ := List.append_inj' htext rfl
  -- A longer reading would take the blank before the letter.
  have hdrop : capture.text.dropLast = [] := by
    by_contra hdrop
    have hlast := congrArg List.getLast? hfront
    rw [List.getLast?_append_of_ne_nil _ hdrop, List.getLast?_append_of_ne_nil _ hne,
      List.getLast?_eq_getLast_of_ne_nil hdrop, List.getLast?_eq_getLast_of_ne_nil hne,
      Option.some_inj] at hlast
    have hnot := not_blank_of_reads hpattern hreads _
      (List.dropLast_subset _ (List.getLast_mem hdrop))
    rw [hlast, hblank _ (List.getLast_mem hne)] at hnot
    exact absurd hnot (by decide)
  have hcapture : capture.text = [c] := by
    rw [← List.dropLast_append_getLast hreads.1, hdrop, hlast, List.nil_append]
  rw [hdrop, List.append_nil] at hfront
  refine ⟨eq_suffixPattern_of_reads hpattern hreads hcapture (isSuffixLetter_of_suffixScale hc),
    Cursor.eq_of_behind_ahead ?_ (hahead.trans hcapture)⟩
  rw [← hfront, List.reverse_reverse]

theorem readBounded?_suffix :
    suffixPattern.readBounded? ⟨(text ++ blanks).reverse, [c]⟩ =
      some (⟨[c], [some [c]]⟩, ⟨(text ++ blanks ++ [c]).reverse, []⟩) := by
  refine Pattern.readBounded?_eq_some.mpr ⟨?_, Pattern.read?_eq_some_iff.mpr ⟨?_, ?_⟩, ?_⟩
  · apply isBoundary_of_blank_left
    rw [List.head?_reverse, List.getLast?_append_of_ne_nil _ hne,
      List.getLast?_eq_getLast_of_ne_nil hne]
    exact hblank _ (List.getLast_mem hne)
  · exact ⟨rfl, by simp⟩
  · exact reads_suffix_iff.mpr ⟨⟨c, rfl, isSuffixLetter_of_suffixScale hc⟩, rfl⟩
  · exact isBoundary_none_right _

variable {found : List Numeral}
  (hfound : ∀ n ∈ found, n.StandsIn (text ++ blanks ++ [c]))
  (hends : ∀ n ∈ found, ∀ d, n.text.getLast? = some d → isBlank d = false)
  (htext : ∀ d, text.getLast? = some d → isBlank d = false)

include hfound hends htext

/-- The rule of the suffixes scales the numbers that end where the text ends. -/
theorem firstMade_suffix (f : Token → Option Token) (start : Nat) :
    firstMade f start (byteLength (text ++ blanks ++ [c]))
        (proposals [suffixRule] (text ++ blanks ++ [c]) found) =
      firstMade (fun token => (scaledBy factor grain token).bind f) start (byteLength text)
        found := by
  have hrule : readRule (text ++ blanks ++ [c]) found suffixRule =
      (readFirst (text ++ blanks ++ [c]) found (.number .any)).flatMap fun first =>
        (readElements found [.text suffixPattern] first.2.2).map fun rest =>
          ⟨first.1, rest.2, first.2.1 :: rest.1⟩ := rfl
  have hclass : isBlank c = false :=
    isBlank_eq_false (by
      rw [letter_of_suffix (isSuffixLetter_of_suffixScale hc)]
      decide)
  rw [firstMade_proposals hfound, hrule, findSome?_flatMap, readFirst, findSome?_filterMap,
    ← List.head?_filterMap, List.filterMap_filter, List.head?_filterMap]
  apply findSome?_congr
  intro n hn
  obtain ⟨here, hhere, hreach⟩ := (hfound n hn).cursor
  obtain ⟨hheretext, hpos⟩ := cursorAt?_eq_some.mp hhere
  have hstop : (here.forward n.text.length).pos = n.stop := by
    rw [hreach.pos_eq, hpos, Numeral.stop, Numeral.size]
  simp only [Condition.accepts, if_true, hhere, Option.map_some, Option.bind_some,
    List.findSome?_map, Function.comp_def, findSome?_readElements_text]
  by_cases hat : n.stop = byteLength text
  · -- The blanks are skipped and the letter is read.
    have hthere : here.forward n.text.length = ⟨text.reverse, blanks ++ [c]⟩ := by
      apply Cursor.eq_of_pos
      · rw [hreach.text_eq, hheretext, Cursor.text, List.reverse_reverse, List.append_assoc]
      · rw [hstop, hat, Cursor.pos, byteLength_reverse]
    have hskip : (Cursor.mk text.reverse (blanks ++ [c])).skipBlank =
        ⟨(text ++ blanks).reverse, [c]⟩ := by
      apply Cursor.skipBlank_of_reaches hblank
      · exact ⟨rfl, List.reverse_append⟩
      · intro d hd
        exact Option.some.inj hd ▸ hclass
    have happly : suffixRule.apply [.number n.token, .capture ⟨[c], [some [c]]⟩] =
        scaledBy factor grain n.token := by
      have hletter : ((Capture.mk [c] [some [c]]).group 1).getD [c] = [c] := rfl
      rw [apply_suffixRule, hletter, hc, Option.bind_some]
    have hend : (Cursor.mk (text ++ blanks ++ [c]).reverse []).pos =
        byteLength (text ++ blanks ++ [c]) := byteLength_reverse _
    rw [hthere, hskip, readBounded?_suffix hne hblank hc, Option.bind_some, happly, hpos]
    simp only [hend, hat, and_true]
  · -- Elsewhere the letter is not the next that is read.
    rw [if_neg fun h => hat h.2, Option.bind_eq_none_iff]
    rintro ⟨capture, last⟩ hread
    refine if_neg fun hplace => hat ?_
    obtain ⟨skipped, hskipped, hskip⟩ := (here.forward n.text.length).reaches_skipBlank
    have hskiptext : (here.forward n.text.length).skipBlank.text = text ++ blanks ++ [c] := by
      rw [Cursor.text_skipBlank, hreach.text_eq, hheretext]
    have hpattern : suffixPattern ∈ patternsOf spanishRules :=
      mem_patternsOf.mpr ⟨suffixRule, by simp [spanishRules, suffixRule, compoundRules],
        List.mem_cons_of_mem _ (List.mem_singleton_self _)⟩
    have hletter := (read_at_end hne hblank hc hpattern hread hskiptext hplace.2).2
    have hbehind := congrArg List.reverse (hskip.2.symm.trans (congrArg Cursor.behind hletter))
    rw [List.reverse_append, List.reverse_reverse, List.reverse_reverse] at hbehind
    have hlast : ∀ d, (here.forward n.text.length).behind.reverse.getLast? = some d →
        isBlank d = false := by
      intro d hd
      rw [hreach.2, List.reverse_append, List.reverse_reverse,
        List.getLast?_append_of_ne_nil _ (hfound n hn).1] at hd
      exact hends n hn d hd
    have hsame := append_blanks_inj hbehind hlast htext hskipped hblank
    rw [← hstop, Cursor.pos, ← byteLength_reverse, hsame]

end Suffixed

end SpanishNumerals
