-- Numbers of figures side by side. Each of them is read by itself, unless three in a row are so
-- many hundreds and a remainder: those are read as one number. Of two such rows that share a
-- number the longer one is read, and of two as long the first.
import SpanishNumerals.Proofs.FigureWords
import SpanishNumerals.Proofs.ReadingOrder
import SpanishNumerals.Proofs.Slices

namespace SpanishNumerals

/-! ## The text of a row -/

/-- The text of some words from the first character of the first to the last of the last. -/
def rowText : List Word → Text
  | [] => []
  | word :: words => word.text ++ written words

/-- The blanks before the first of some words. -/
def rowGap : List Word → Text
  | [] => []
  | word :: _ => word.gap

theorem written_row (words : List Word) : written words = rowGap words ++ rowText words := by
  cases words with
  | nil => rfl
  | cons word words => exact written_cons word words

/-- The numeral covers the words `taken`, which come behind the words `before`. -/
structure Numeral.CoversRow (n : Numeral) (before taken : List Word) : Prop where
  start_eq : n.start = byteLength (written before ++ rowGap taken)
  text_eq : n.text = rowText taken

theorem coversRow_of_stands {words before taken : List Word} (h : Unbroken words) {n : Numeral}
    (hformed : n.WellFormed (written words)) (hstands : Stands words before taken n.start n.stop) :
    n.CoversRow before taken := by
  obtain ⟨rest, hwords⟩ := hstands.splits
  obtain ⟨word, more, rfl⟩ := List.exists_cons_of_ne_nil hstands.nonempty
  have hsplit : words = before ++ word :: (more ++ rest) := by rw [← hwords]; simp
  have hstart : n.start = byteLength (written before ++ rowGap (word :: more)) := by
    rw [hstands.start_eq, hsplit, skipBlankAt_written (hsplit ▸ h), byteLength_append]
    rfl
  have hstop : n.stop = byteLength (written before ++ rowGap (word :: more)) +
      byteLength (rowText (word :: more)) := by
    rw [hstands.stop_eq, written_append, written_row (word :: more), ← List.append_assoc,
      byteLength_append]
  obtain ⟨front, back, htext, hfront, _⟩ := slice?_eq_some.mp hformed.slice
  have hwritten : front ++ (n.text ++ back) = (written before ++ rowGap (word :: more)) ++
      (rowText (word :: more) ++ written rest) := by
    rw [← List.append_assoc, ← htext, ← hwords, written_append, written_append,
      written_row (word :: more)]
    simp only [List.append_assoc]
  obtain ⟨_, hrest⟩ := append_inj_of_byteLength_eq hwritten (hfront.trans hstart)
  have hsize : byteLength n.text = byteLength (rowText (word :: more)) := by
    unfold Numeral.stop Numeral.size at hstop
    omega
  exact ⟨hstart, (append_inj_of_byteLength_eq hrest hsize).1⟩

/-! ## What is found -/

section Found

variable {words : List Word} (h : Figured words)

include h

/-- What one pass makes of numbers that are read from words of figures. -/
theorem readBy_of_mem_proposals {rules : Registry} (hrules : rules ⊆ spanishRules)
    {found : List Numeral} (hstands : ∀ n ∈ found, n.StandsIn (written words))
    (hread : ∀ n ∈ found, ∃ before taken, Stands words before taken n.start n.stop ∧
      ReadBy n.rule taken n.token) :
    ∀ n ∈ proposals rules (written words) found, ∃ before taken,
      Stands words before taken n.start n.stop ∧ ReadBy n.rule taken n.token := by
  intro n hn
  obtain ⟨rule, hrule, hname, pieces, hassembles, hknown⟩ :=
    assembles_of_mem_proposals (fun _ => 0) hstands hn
  have hspanish := hrules hrule
  have hnumbers : ∀ piece ∈ pieces, ∀ token, piece.node = .number token →
      Located words ReadAs (piece.start, piece.stop, token) := by
    intro piece hpiece token hnode
    obtain ⟨m, hm, hmkey⟩ := List.mem_map.mp ((hknown piece hpiece).1 token hnode)
    obtain ⟨before, taken, hbefore, htaken⟩ := hread m hm
    rw [← hmkey]
    exact ⟨before, taken, hbefore, _, htaken⟩
  obtain ⟨before, taken, hplace, htakes, htoken⟩ :=
    takes_of_assembles h.legible (h.readsWords rule hspanish) hassembles hnumbers
  refine ⟨before, taken, hplace, ?_⟩
  have hfigures : ∀ word ∈ taken, IsInteger word.text := fun word hword =>
    h.integers word (hplace.splits.subset (List.mem_append_right before hword))
  rw [hname]
  exact readBy_of_takes hspanish hfigures htakes htoken

/-- All that is found is read by one of the two rules. -/
theorem readBy_of_mem_candidates (passes : Nat) :
    ∀ n ∈ candidates spanishRules (written words) passes, ∃ before taken,
      Stands words before taken n.start n.stop ∧ ReadBy n.rule taken n.token :=
  forall_mem_candidates
    (fun _ htaking _ hstands hread => readBy_of_mem_proposals h htaking hstands hread) passes

/-- The first pass reads single words only. -/
theorem rule_of_mem_first_pass :
    ∀ n ∈ candidates spanishRules (written words) 1, n.rule = "integer (numeric)" := by
  intro n hn
  obtain ⟨_, _, _, hread⟩ := readBy_of_mem_candidates h 1 n hn
  rw [candidates_one] at hn
  obtain ⟨rule, hrule, hgiven⟩ := mem_proposals_first.mp (mem_of_mem_keepNew hn)
  obtain ⟨reading, _, hmakes⟩ := mem_given.mp hgiven
  obtain ⟨_, _, rfl⟩ := Option.map_eq_some_iff.mp hmakes
  refine (hread.alone_or_joined.imp And.left And.left).resolve_right ?_
  intro hname
  obtain rfl : rule = hundredsRule := rule_eq_of_name hrule hundredsRule_mem hname
  rw [given_of_composes (by decide)] at hgiven
  exact List.not_mem_nil hgiven

theorem derivedWithin_of_readBy {before taken : List Word} {name : String} {token : Token}
    (htaken : before ++ taken <+: words) (hread : ReadBy name taken token) :
    DerivedWithin spanishRules words 2 before taken token := by
  cases hread with
  | alone hvalue => exact (derivedWithin_alone h htaken hvalue).mono (by decide)
  | joined hjoins => exact derivedWithin_joined h htaken hjoins

/-- After two passes there is nothing more to find. -/
theorem candidates_figures {passes : Nat} (hpasses : 2 ≤ passes) :
    candidates spanishRules (written words) passes =
      candidates spanishRules (written words) 2 := by
  refine candidates_eq_of_heights hpasses ?_
  intro key k hderived
  obtain ⟨n, hn, rfl⟩ := List.mem_map.mp
    (mem_candidates_iff.mpr ⟨k, Nat.le_max_left k 1, hderived⟩)
  obtain ⟨before, taken, hstands, hread⟩ := readBy_of_mem_candidates h k n hn
  obtain ⟨j, hj, hderived⟩ := derivedWithin_of_readBy h hstands.splits hread
  rw [← hstands.start_eq, ← hstands.stop_eq] at hderived
  exact ⟨j, hj, hderived⟩

/-- Of two numbers that one rule reads the first in the text is found first. -/
theorem pairwise_figures (passes : Nat) :
    (candidates spanishRules (written words) passes).Pairwise Numeral.FirstOfRule := by
  have hone := pairwise_first_pass nodup_names (written words)
  rcases passes with _ | _ | passes
  · exact hone
  · exact hone
  · have hnames : ((composing spanishRules).map Rule.name).Nodup :=
      nodup_names.sublist (List.filter_sublist.map _)
    have hfirst := rule_of_mem_first_pass h
    rw [candidates_figures h (Nat.le_add_left 2 passes), candidates_succ]
    refine pairwise_grow hnames (fromLeftToRight_of_one_rule hone hfirst) ?_
    intro n hn rule hrule hname
    rw [hfirst n hn] at hname
    obtain ⟨hspanish, hcomposes⟩ := mem_composing.mp hrule
    obtain rfl : FigureForm.integer.rule = rule := rule_eq_of_name integerRule_mem hspanish hname
    exact absurd hcomposes (by decide)

end Found

/-! ## What is kept -/

/-- The numerals cover all the words behind `before`, row after row, and each of them is what
its row is read as. -/
inductive Tiles : (before after : List Word) → List Numeral → Prop
  | nil {before : List Word} : Tiles before [] []
  | cons {before taken rest : List Word} {n : Numeral} {kept : List Numeral} :
      n.CoversRow before taken → ReadBy n.rule taken n.token →
      Tiles (before ++ taken) rest kept → Tiles before (taken ++ rest) (n :: kept)

/-- Numerals one behind the other that leave no word out cover all the words. The induction is
on the numerals: the first of them begins with the first word. -/
theorem tiles_of_kept {words : List Word} (h : Unbroken words) {kept : List Numeral}
    (hformed : ∀ n ∈ kept, n.WellFormed (written words))
    (hread : ∀ n ∈ kept, ∃ before taken, Stands words before taken n.start n.stop ∧
      ReadBy n.rule taken n.token)
    (hpairwise : kept.Pairwise fun a b => a.stop ≤ b.start) {before after : List Word}
    (hwords : before ++ after = words)
    (hbehind : ∀ n ∈ kept, byteLength (written before) ≤ n.start)
    (hmet : ∀ front word, before ++ front ++ [word] <+: words → ∃ n ∈ kept,
      n.start < byteLength (written (before ++ front ++ [word])) ∧
        byteLength (written (before ++ front)) < n.stop) :
    Tiles before after kept := by
  induction kept generalizing before after with
  | nil =>
    cases after with
    | nil => exact Tiles.nil
    | cons word after =>
      obtain ⟨n, hn, _⟩ := hmet [] word ⟨after, by rw [← hwords]; simp⟩
      exact absurd hn List.not_mem_nil
  | cons n kept ih =>
    obtain ⟨hfirst, hrest⟩ := List.pairwise_cons.mp hpairwise
    have hpos := (hformed n List.mem_cons_self).start_lt_stop
    obtain ⟨before', taken, hstands, hreadn⟩ := hread n List.mem_cons_self
    have hbegins : before <+: words := ⟨after, hwords⟩
    have hge : before.length ≤ before'.length := by
      have hnot := Nat.not_lt.mpr (hbehind n List.mem_cons_self)
      exact Nat.not_lt.mp ((hstands.start_lt_iff h hbegins).not.mp hnot)
    cases after with
    | nil =>
      -- There is no word left for the numeral to cover.
      rw [List.append_nil] at hwords
      have hshort := hstands.splits.length_le
      have hne := List.length_pos_iff.mpr hstands.nonempty
      rw [← hwords, List.length_append] at hshort
      omega
    | cons word after =>
      have hword : before ++ [] ++ [word] <+: words := ⟨after, by rw [← hwords]; simp⟩
      obtain ⟨m, hm, hmstart, _⟩ := hmet [] word hword
      have hstart : n.start < byteLength (written (before ++ [] ++ [word])) := by
        rcases List.mem_cons.mp hm with rfl | hm
        · exact hmstart
        · have := hfirst m hm
          omega
      have hlt := (hstands.start_lt_iff h hword).mp hstart
      have heq : before = before' := by
        refine (List.prefix_of_prefix_length_le hbegins hstands.before_prefix hge).eq_of_length ?_
        simp at hlt
        omega
      subst heq
      obtain ⟨rest, hsplit⟩ := hstands.splits
      have hafter : word :: after = taken ++ rest := by
        rw [← hsplit, List.append_assoc] at hwords
        exact List.append_cancel_left hwords
      rw [hafter]
      refine Tiles.cons (coversRow_of_stands h (hformed n List.mem_cons_self) hstands) hreadn ?_
      refine ih (fun m hm => hformed m (List.mem_cons_of_mem n hm))
        (fun m hm => hread m (List.mem_cons_of_mem n hm)) hrest hsplit ?_ ?_
      · intro m hm
        rw [← hstands.stop_eq]
        exact hfirst m hm
      · intro front next hnext
        rw [List.append_assoc before] at hnext ⊢
        obtain ⟨m, hm, hmstart, hmstop⟩ := hmet (taken ++ front) next hnext
        refine ⟨m, (List.mem_cons.mp hm).resolve_left ?_, hmstart, hmstop⟩
        rintro rfl
        have hle : byteLength (written (before ++ taken)) ≤
            byteLength (written (before ++ (taken ++ front))) := by
          rw [← List.append_assoc, written_append _ front, byteLength_append]
          exact Nat.le_add_right _ _
        rw [hstands.stop_eq] at hmstop
        omega

/-! ## The analysis of words of figures -/

/-- The row `taken'` behind `before'` goes before the row `taken` behind `before`: they share a
word, and it is longer, or as long and begins no later. -/
structure GoesBeforeRow (before' taken' before taken : List Word) : Prop where
  shares : before.length < (before' ++ taken').length ∧ before'.length < (before ++ taken).length
  longer : byteLength (rowText taken) < byteLength (rowText taken') ∨
    byteLength (rowText taken) = byteLength (rowText taken') ∧ before'.length ≤ before.length

section Analysis

variable {words : List Word} (h : Figured words) (passes : Nat)

include h

/-- Each word is found by itself. -/
theorem exists_candidate_alone {before : List Word} {word : Word}
    (hword : before ++ [word] <+: words) :
    ∃ n ∈ candidates spanishRules (written words) passes,
      Stands words before [word] n.start n.stop := by
  obtain ⟨_, hall, hlength⟩ := h.integers word (hword.subset (by simp))
  have hnone : AllFigures [] := fun _ hc => absurd hc List.not_mem_nil
  obtain ⟨value, hvalue⟩ :=
    Value.exists_isWrittenBy hall hnone (Nat.le_trans hlength (by decide))
  obtain ⟨k, hk, hderived⟩ := derivedWithin_alone h hword hvalue
  obtain ⟨n, hn, hkey⟩ := List.mem_map.mp
    (mem_candidates_iff.mpr ⟨k, Nat.le_trans hk (Nat.le_max_right passes 1), hderived⟩)
  obtain ⟨hstart, hstop, -⟩ := Numeral.key_eq_iff.mp hkey
  exact ⟨n, hn, hword, List.cons_ne_nil word [], hstart, hstop⟩

theorem tiles_figures : Tiles [] words (analyze spanishRules (written words) passes) := by
  obtain ⟨places, hchosen⟩ := exists_chosen spanishRules (written words) passes
  have hunbroken := h.legible.unbroken
  have hfound : ∀ n ∈ analyze spanishRules (written words) passes,
      n ∈ candidates spanishRules (written words) passes := fun n hn => mem_of_mem_select hn
  refine tiles_of_kept hunbroken (fun n hn => wellFormed_of_mem_candidates n (hfound n hn))
    (fun n hn => readBy_of_mem_candidates h passes n (hfound n hn)) hchosen.in_order.pairwise
    rfl (fun n _ => Nat.zero_le n.start) ?_
  intro front word hword
  rw [List.nil_append] at hword ⊢
  obtain ⟨n, hn, hstands⟩ := exists_candidate_alone h passes hword
  have hpos := (wellFormed_of_mem_candidates n hn).start_lt_stop
  have hskip := le_skipBlankAt (written words) (byteLength (written front))
  rw [← hstands.start_eq] at hskip
  rw [← hstands.stop_eq]
  rcases hchosen.exists_kept (pairwise_figures h passes) hn with hkept | ⟨m, hm, hover, _⟩
  · exact ⟨n, hkept, hpos, by omega⟩
  · simp only [Numeral.overlaps, Bool.and_eq_true, decide_eq_true_eq] at hover
    exact ⟨m, hm, hover.2, by omega⟩

/-- Of three words that join, none is read without a row that goes before theirs. -/
theorem exists_joined_first (hpasses : 2 ≤ passes) {before : List Word} {a b c : Word}
    (hsplits : before ++ [a, b, c] <+: words) (hjoins : Joins a b c) :
    ∃ n ∈ analyze spanishRules (written words) passes, n.rule = "numbers 200..999" ∧
      ∃ before' a' b' c', before' ++ [a', b', c'] <+: words ∧ Joins a' b' c' ∧
        n.CoversRow before' [a', b', c'] ∧
          GoesBeforeRow before' [a', b', c'] before [a, b, c] := by
  obtain ⟨places, hchosen⟩ := exists_chosen spanishRules (written words) passes
  have hunbroken := h.legible.unbroken
  obtain ⟨k, hk, hderived⟩ := derivedWithin_joined h hsplits hjoins
  obtain ⟨t, ht, hkey⟩ := List.mem_map.mp (mem_candidates_iff.mpr
    ⟨k, Nat.le_trans hk (Nat.le_trans hpasses (Nat.le_max_left passes 1)), hderived⟩)
  obtain ⟨hstart, hstop, -⟩ := Numeral.key_eq_iff.mp hkey
  have hstands : Stands words before [a, b, c] t.start t.stop :=
    ⟨hsplits, List.cons_ne_nil _ _, hstart, hstop⟩
  have htcovers := coversRow_of_stands hunbroken (wellFormed_of_mem_candidates t ht) hstands
  have hsize : t.size = byteLength (rowText [a, b, c]) := congrArg byteLength htcovers.text_eq
  have htrule : t.rule = "numbers 200..999" := by
    obtain ⟨before', taken', hstands', hread⟩ := readBy_of_mem_candidates h passes t ht
    obtain ⟨_, rfl⟩ := hstands.unique hunbroken hstands'
    rcases hread.alone_or_joined with ⟨_, _, _, hone, _⟩ | ⟨hname, _⟩
    · simp at hone
    · exact hname
  rcases hchosen.exists_kept (pairwise_figures h passes) ht with hkept | ⟨m, hm, hover, hbefore⟩
  · refine ⟨t, hkept, htrule, before, a, b, c, hsplits, hjoins, htcovers, ⟨?_, ?_⟩, Or.inr ⟨rfl, ?_⟩⟩
    · simp
    · simp
    · exact Nat.le_refl _
  · have hmfound : m ∈ candidates spanishRules (written words) passes := mem_of_mem_select hm
    have hmformed := wellFormed_of_mem_candidates m hmfound
    obtain ⟨before', taken', hstands', hread⟩ := readBy_of_mem_candidates h passes m hmfound
    have hmcovers := coversRow_of_stands hunbroken hmformed hstands'
    have hmsize : m.size = byteLength (rowText taken') := congrArg byteLength hmcovers.text_eq
    simp only [Numeral.overlaps, Bool.and_eq_true, decide_eq_true_eq] at hover
    have hshares := (hstands.start_lt_stop_iff hunbroken hstands').mp hover.1
    have hshares' := (hstands'.start_lt_stop_iff hunbroken hstands).mp hover.2
    rcases hread.alone_or_joined with ⟨_, word, _, rfl, _⟩ | ⟨hname, a', b', c', rfl, hjoins', _⟩
    · -- One word of the three is shorter than they are.
      have hshorter := hstands'.size_lt hunbroken hstands
        (by simp at hshares; omega) (by simp at hshares' ⊢; omega) (by simp)
        hmformed.start_lt_stop
      unfold Numeral.stop at hshorter
      omega
    · refine ⟨m, hm, hname, before', a', b', c', hstands'.splits, hjoins', hmcovers,
        ⟨hshares, hshares'⟩, ?_⟩
      rw [← hsize, ← hmsize]
      rcases hbefore with hlonger | ⟨hsame, hfirst⟩
      · exact Or.inl hlonger
      · refine Or.inr ⟨hsame, ?_⟩
        have hle := hfirst (hname.trans htrule.symm)
        by_contra hlater
        have hlt := hstands.start_lt hunbroken hstands' (Nat.not_le.mp hlater)
        omega

end Analysis

/-- Where no three words join, the rows are single words. -/
theorem Tiles.alone {before after : List Word} {kept : List Numeral}
    (htiles : Tiles before after kept)
    (hapart : ∀ front a b c, front ++ [a, b, c] <+: after → ¬ Joins a b c) :
    kept.length = after.length ∧ ∀ front word back, after = front ++ word :: back →
      ∃ n value, kept[front.length]? = some n ∧ n.CoversRow (before ++ front) [word] ∧
        value.IsWrittenBy word.text [] ∧ n.token = ⟨value, none⟩ := by
  induction htiles with
  | nil => simp
  | @cons before taken rest n kept hcovers hread _ ih =>
    rcases hread.alone_or_joined with ⟨_, word, value, rfl, hvalue, htoken⟩ |
      ⟨_, a, b, c, rfl, hjoins, _⟩
    · obtain ⟨hlength, hrows⟩ := ih fun front a b c hbegins =>
        hapart (word :: front) a b c (by
          obtain ⟨more, rfl⟩ := hbegins
          exact ⟨more, by simp⟩)
      refine ⟨by simp [hlength], ?_⟩
      intro front next back hsplit
      cases front with
      | nil =>
        obtain ⟨rfl, rfl⟩ := List.cons.inj hsplit
        exact ⟨n, value, rfl, by rwa [List.append_nil], hvalue, htoken⟩
      | cons first front =>
        obtain ⟨rfl, hrest⟩ := List.cons.inj hsplit
        obtain ⟨m, value', hm, hmcovers, hmrest⟩ := hrows front next back hrest
        rw [List.append_assoc] at hmcovers
        exact ⟨m, value', hm, hmcovers, hmrest⟩
    · exact absurd hjoins (hapart [] a b c ⟨rest, rfl⟩)

/-- Numbers of one to eighteen figures, with blanks between them, are read one by one, each as
the value nearest to it and without a scale, but for three in a row that are two to nine, a
hundred, and less than a hundred: these are read as one number, unless they share a number with
such a row that is longer, or as long and before them. -/
theorem adjacent_figures_are_read_apart_unless_three_join {words : List Word} (h : Figured words)
    (passes : Nat) :
    Tiles [] words (analyze spanishRules (written words) passes) ∧
    (2 ≤ passes → ∀ before a b c, before ++ [a, b, c] <+: words → Joins a b c →
      ∃ n ∈ analyze spanishRules (written words) passes, n.rule = "numbers 200..999" ∧
        ∃ before' a' b' c', before' ++ [a', b', c'] <+: words ∧ Joins a' b' c' ∧
          n.CoversRow before' [a', b', c'] ∧
            GoesBeforeRow before' [a', b', c'] before [a, b, c]) ∧
    ((∀ before a b c, before ++ [a, b, c] <+: words → ¬ Joins a b c) →
      (analyze spanishRules (written words) passes).length = words.length ∧
      ∀ before word after, words = before ++ word :: after → ∃ n value,
        (analyze spanishRules (written words) passes)[before.length]? = some n ∧
          n.CoversRow before [word] ∧ value.IsWrittenBy word.text [] ∧
            n.token = ⟨value, none⟩) := by
  have htiles := tiles_figures h passes
  refine ⟨htiles, ?_, htiles.alone⟩
  intro hpasses before a b c hsplits hjoins
  exact exists_joined_first h passes hpasses hsplits hjoins

/-- A hundred, twenty, two and a thousand, with blanks between them. -/
def hundredTwentyTwoThousand : List Word :=
  [⟨[], "100".toList, blank_nothing⟩, ⟨[' '], "20".toList, blank_space⟩,
   ⟨['\t'], "2".toList, blank_tab⟩, ⟨[' ', ' '], "1000".toList, blank_two_spaces⟩]

/-- Three, a hundred and twenty. -/
def threeHundredTwenty : List Word :=
  [⟨[], "3".toList, blank_nothing⟩, ⟨[' '], "100".toList, blank_space⟩,
   ⟨[' '], "20".toList, blank_space⟩]

theorem four_numbers_are_read_apart_and_three_join :
    (Figured hundredTwentyTwoThousand ∧
      (∀ before a b c, before ++ [a, b, c] <+: hundredTwentyTwoThousand → ¬ Joins a b c) ∧
      (analyze spanishRules "100 20\t2  1000".toList defaultPasses).length = 4 ∧
      ∃ n, (analyze spanishRules "100 20\t2  1000".toList defaultPasses)[3]? = some n ∧
        n.start = 10 ∧ n.text = "1000".toList ∧ n.token = ⟨.ofNat 1000, none⟩) ∧
    Figured threeHundredTwenty ∧
      ∃ n ∈ analyze spanishRules "3 100 20".toList defaultPasses, n.rule = "numbers 200..999" := by
  have hfigured : Figured hundredTwentyTwoThousand := by decide
  have hfigured' : Figured threeHundredTwenty := by decide
  have hapart : ∀ before a b c, before ++ [a, b, c] <+: hundredTwentyTwoThousand →
      ¬ Joins a b c := by
    -- The one hundred stands first, and the one that joins stands between two others.
    rintro before a b c ⟨rest, hsplit⟩ ⟨_, _, hhundred, _⟩
    rcases before with _ | ⟨x, _ | ⟨y, before⟩⟩
    · obtain ⟨_, hsplit⟩ := List.cons.inj hsplit
      rw [(List.cons.inj hsplit).1] at hhundred
      exact absurd hhundred (by decide)
    · obtain ⟨_, hsplit⟩ := List.cons.inj hsplit
      obtain ⟨_, hsplit⟩ := List.cons.inj hsplit
      rw [(List.cons.inj hsplit).1] at hhundred
      exact absurd hhundred (by decide)
    · have hlength := congrArg List.length hsplit
      simp [hundredTwentyTwoThousand] at hlength
      omega
  obtain ⟨hlength, hrows⟩ :=
    (adjacent_figures_are_read_apart_unless_three_join hfigured defaultPasses).2.2 hapart
  obtain ⟨n, value, hn, hcovers, hvalue, htoken⟩ :=
    hrows (hundredTwentyTwoThousand.take 3) ⟨[' ', ' '], "1000".toList, blank_two_spaces⟩ [] rfl
  have hexact : value = .ofNat 1000 := hvalue.eq_ofNat (by decide)
  obtain ⟨m, hm, hname, _⟩ :=
    (adjacent_figures_are_read_apart_unless_three_join hfigured' defaultPasses).2.1 (by decide)
      [] _ _ _ List.prefix_rfl (by decide)
  refine ⟨⟨hfigured, hapart, hlength, n, hn, hcovers.start_eq, hcovers.text_eq, ?_⟩,
    hfigured', m, hm, hname⟩
  rw [htoken, hexact]

theorem three_a_hundred_and_twenty_are_read_as_one_number :
    ¬ ∀ words : List Word, words ≠ [] → Figured words →
      (analyze spanishRules (written words) defaultPasses).length = words.length ∧
      ∀ before word after, words = before ++ word :: after → ∃ n value,
        (analyze spanishRules (written words) defaultPasses)[before.length]? = some n ∧
          n.CoversRow before [word] ∧ value.IsWrittenBy word.text [] ∧
            n.token = ⟨value, none⟩ := by
  intro h
  have hone : analyze spanishRules (written threeHundredTwenty) defaultPasses =
      [⟨0, "3 100 20".toList, ⟨.ofNat 320, none⟩, "numbers 200..999"⟩] := by decide +kernel
  have hlength := (h threeHundredTwenty (by simp [threeHundredTwenty]) (by decide)).1
  rw [hone] at hlength
  exact absurd hlength (by decide)

end SpanishNumerals
