-- What the rules make of the words of a spelling. Whichever rules read some of these words in
-- a row, they make the number of it that the words are worth together.
import SpanishNumerals.Proofs.Spellings
import SpanishNumerals.Proofs.WholeNumbers

namespace SpanishNumerals

/-! ## What the productions make of words -/

/-- The token of a number of words is what they are worth. -/
structure IsWorth (keys : List Text) (token : Token) : Prop where
  value : token.value = .ofNat (worth keys)
  grain : token.grain = scaleOf keys
  bounded : worth keys ≤ twoPow 53
  begins : keys.head? ≠ some andWord
  ends : keys.getLast? ≠ some andWord

namespace IsWorth

variable {keys more : List Text} {token a b : Token}

theorem token_eq (h : IsWorth keys token) : token = ⟨.ofNat (worth keys), scaleOf keys⟩ := by
  obtain ⟨value, grain⟩ := token
  obtain ⟨hvalue, hgrain, _, _, _⟩ := h
  dsimp only at hvalue hgrain
  rw [hvalue, hgrain]

/-- A sum whose last part is less than a thousand. -/
theorem add {joined : List Text} {value : Value} (hb : IsWorth more b) (hlt : worth more < 1000)
    (hne : more ≠ []) (hle : worth joined ≤ 1000000) (hbegins : joined.head? ≠ some andWord)
    (hjoined : joined ≠ []) (hvalue : (Value.ofNat (worth joined)).add? b.value = some value) :
    IsWorth (joined ++ more) ⟨value, none⟩ := by
  have hsum : worth (joined ++ more) = worth joined + worth more := worth_append_of_lt hlt
  have hsmall : worth joined + worth more ≤ twoPow 53 := le_twoPow_53 (by omega)
  rw [hb.value, Value.add?_ofNat hsmall] at hvalue
  refine ⟨?_, (scaleOf_append hne hlt).symm, ?_, ?_, ?_⟩
  · rw [hsum]
    exact (Option.some.inj hvalue).symm
  · rw [hsum]
    exact hsmall
  · rw [List.head?_append_of_ne_nil _ hjoined]
    exact hbegins
  · rw [List.getLast?_append_of_ne_nil _ hne]
    exact hb.ends

end IsWorth

theorem plain?_eq_some {value : Option Value} {token : Token}
    (h : Token.plain? value = some token) : ∃ v, value = some v ∧ token = ⟨v, none⟩ := by
  obtain ⟨v, hv, htoken⟩ := Option.map_eq_some_iff.mp h
  exact ⟨v, hv, htoken.symm⟩

/-! ## Words of the tables -/

theorem spells_of_lookup {table : WordTable} {spelling : Text} {n : Nat}
    (h : (table.lookup spelling).toOption = some n) : table.Spells n (lowercase spelling) := by
  unfold WordTable.lookup at h
  split at h
  · rename_i entry m hfind
    have hword := List.find?_some hfind
    dsimp only at hword
    obtain rfl : m = n := Option.some.inj h
    exact ⟨_, List.mem_of_find?_eq_some hfind, (of_decide_eq_true hword).symm⟩
  · simp [Except.toOption] at h

theorem le_of_spells {table : WordTable} (htable : table ∈ wordTables) {n : Nat} {key : Text}
    (h : table.Spells n key) : n ≤ 1000 := by
  obtain ⟨word, hentry, _⟩ := h
  exact (by decide : ∀ table ∈ wordTables, ∀ entry ∈ table.entries, entry.2 ≤ 1000)
    table htable _ hentry

/-- A word of a table is worth its number. -/
theorem isWorth_word {table : WordTable} (htable : table ∈ wordTables) {word : Word}
    {token : Token} (h : table.produce [.capture ⟨word.text, []⟩] = some token) :
    IsWorth [word.key] token := by
  have hbind : ((table.lookup word.text).toOption.bind fun n => Token.plain? (Value.ofNat? n)) =
      some token := h
  obtain ⟨n, hn, htoken⟩ := Option.bind_eq_some_iff.mp hbind
  have hspells : table.Spells n word.key := spells_of_lookup hn
  have hle := le_twoPow_53 (Nat.le_trans (le_of_spells htable hspells) (by decide))
  have hworth : worth [word.key] = n := by
    rw [worth_singleton, hspells.wordValue_eq htable]
  rw [Value.ofNat?_eq hle] at htoken
  obtain ⟨_, hvalue, rfl⟩ := plain?_eq_some htoken
  refine ⟨?_, (scaleOf_singleton _).symm, by rwa [hworth], ?_, ?_⟩
  · rw [hworth]
    exact (Option.some.inj hvalue).symm
  · simpa using hspells.ne_andWord htable
  · simpa using hspells.ne_andWord htable

/-! ## The rules on words of a spelling -/

/-- A rule for figures begins with text. -/
theorem exists_pattern_of_figures {rule : Rule} (h : rule ∈ figureRules) :
    ∃ pattern, Element.text pattern ∈ rule.elements := by
  simp only [figureRules, List.mem_cons, List.not_mem_nil, or_false] at h
  rcases h with rfl | rfl | rfl | rfl | rfl <;> exact ⟨_, List.mem_cons_self⟩

/-- The words are worth the token, wherever they stand. -/
def WorthOf (_before taken : List Word) (token : Token) : Prop :=
  IsWorth (taken.map Word.key) token

section Rules

variable {before taken : List Word} {window : Window} {token : Token}

theorem isWorth_sum {condition : Condition}
    (hcondition : ∀ n grain, n ≤ twoPow 53 →
      condition.accepts ⟨.ofNat n, grain⟩ = true → n ≤ 90) {low : Nat} (hle : low ≤ twoPow 53)
    (hknown : ∀ word ∈ taken, word.key ∈ vocabulary)
    (htakes : Takes WorthOf before
      [.number condition, wordElement "y", .number (.between (bound low) (bound 10))] taken window)
    (hvalue : Compound.sum window = some token) : IsWorth (taken.map Word.key) token := by
  cases htakes with
  | @number _ _ first _ _ a _ hne ha haccepts hrest =>
    cases hrest with
    | @text _ _ word _ _ _ hword hrest =>
      cases hrest with
      | @number _ _ second _ _ b _ hne' hb haccepts' hrest =>
        cases hrest
        have hkey := (takes_word_iff andWord (by simp) _ (hknown word (by simp))).mp hword
        rw [ha.token_eq] at haccepts
        rw [hb.token_eq, accepts_between hb.bounded hle (by decide)] at haccepts'
        have hfirst := hcondition _ _ ha.bounded haccepts
        have hjoined : worth (first.map Word.key ++ [andWord]) = worth (first.map Word.key) := by
          rw [worth_concat, addWord, if_neg (by decide), wordValue_andWord, Nat.add_zero]
        obtain ⟨value, hadd, rfl⟩ := plain?_eq_some hvalue
        rw [ha.value, ← hjoined] at hadd
        have hsum := hb.add (by omega) (by simpa using hne') (by omega) ?_ (by simp) hadd
        · simpa [hkey] using hsum
        · rw [List.head?_append_of_ne_nil _ (by simpa using hne)]
          exact ha.begins

/-- A count below ten and a hundred never stand side by side in a spelling. -/
theorem not_hundredsOf (hchain : (taken.map Word.key).IsChain Follows)
    (htakes : Takes WorthOf before
      [.number (.between (bound 2) (bound 10)), .number (.equals (bound 100)),
        .number (.between (bound 0) (bound 100))] taken window) : False := by
  cases htakes with
  | @number _ _ first _ _ a _ hne ha haccepts hrest =>
    cases hrest with
    | @number _ _ second _ _ b _ hne' hb haccepts' hrest =>
      rw [ha.token_eq, accepts_between ha.bounded (by decide) (by decide)] at haccepts
      rw [hb.token_eq, accepts_equals hb.bounded (by decide)] at haccepts'
      obtain ⟨front, x, hfront⟩ :=
        (List.eq_nil_or_concat' (first.map Word.key)).resolve_left (by simpa using hne)
      obtain ⟨y, back, hback⟩ :=
        List.exists_cons_of_ne_nil (show second.map Word.key ≠ [] by simpa using hne')
      have hends := ha.ends
      have hbegins := hb.begins
      rw [hfront] at haccepts hends
      rw [hback] at haccepts' hbegins
      have hfollows : Follows x y := by
        rw [List.map_append, List.map_append, hfront, hback] at hchain
        exact (List.isChain_append.mp hchain).2.2 x (by simp) y (by simp)
      have hx : wordValue x < 10 := by
        have := wordValue_le_addWord x (worth front)
        rw [worth_concat] at haccepts
        omega
      rcases hfollows with rfl | hlarge | rfl | rfl
      · simp at hends
      · omega
      · simp at hbegins
      · have := thousand_le_of_mem (List.mem_cons_self : mil ∈ mil :: back) 0
        unfold worth at haccepts'
        omega

theorem isWorth_thousands (hknown : ∀ word ∈ taken, word.key ∈ vocabulary)
    (htakes : Takes WorthOf before [.number thousandsCount, wordElement "mil"] taken window)
    (hvalue : Compound.thousands window = some token) : IsWorth (taken.map Word.key) token := by
  cases htakes with
  | @number _ _ first _ _ a _ hne ha haccepts hrest =>
    cases hrest with
    | @text _ _ word _ _ _ hword hrest =>
      cases hrest
      have hkey := (takes_word_iff mil (by simp) _ (hknown word (by simp))).mp hword
      rw [ha.token_eq, accepts_thousandsCount ha.bounded] at haccepts
      have hworth : worth (first.map Word.key ++ [mil]) = worth (first.map Word.key) * 1000 := by
        rw [worth_mil, Nat.max_eq_left (by omega)]
      have hsmall : worth (first.map Word.key) * 1000 ≤ twoPow 53 := le_twoPow_53 (by omega)
      have hproduct : Token.scaled? (a.value.mul? (.ofNat 1000)) 3 = some token := hvalue
      rw [ha.value, Value.mul?_ofNat ha.bounded (by decide) hsmall] at hproduct
      obtain rfl := Option.some.inj hproduct
      have hkeys : (first ++ [word]).map Word.key = first.map Word.key ++ [mil] := by
        simp [hkey]
      rw [hkeys]
      have hfirst : first.map Word.key ≠ [] := by simpa using hne
      refine ⟨by rw [hworth], (scaleOf_mil hfirst).symm, by rw [hworth]; exact hsmall, ?_, ?_⟩
      · rw [List.head?_append_of_ne_nil _ hfirst]
        exact ha.begins
      · simp [mil, andWord]

theorem isWorth_thousandsAnd (hknown : ∀ word ∈ taken, word.key ∈ vocabulary)
    (htakes : Takes WorthOf before
      [.number thousandsCount, wordElement "mil", .number (remainderBelow (bound 1000))] taken
      window)
    (hvalue : Compound.thousandsAnd window = some token) :
    IsWorth (taken.map Word.key) token := by
  cases htakes with
  | @number _ _ first _ _ a _ hne ha haccepts hrest =>
    cases hrest with
    | @text _ _ word _ _ _ hword hrest =>
      cases hrest with
      | @number _ _ second _ _ b _ hne' hb haccepts' hrest =>
        cases hrest
        have hkey := (takes_word_iff mil (by simp) _ (hknown word (by simp))).mp hword
        rw [ha.token_eq, accepts_thousandsCount ha.bounded] at haccepts
        rw [hb.token_eq, accepts_remainderBelow hb.bounded (by decide)] at haccepts'
        have hworth : worth (first.map Word.key ++ [mil]) = worth (first.map Word.key) * 1000 := by
          rw [worth_mil, Nat.max_eq_left (by omega)]
        have hsmall : worth (first.map Word.key) * 1000 ≤ twoPow 53 := le_twoPow_53 (by omega)
        obtain ⟨value, hsum, rfl⟩ := plain?_eq_some hvalue
        obtain ⟨product, hproduct, hadd⟩ := Option.bind_eq_some_iff.mp hsum
        rw [ha.value, Value.mul?_ofNat ha.bounded (by decide) hsmall] at hproduct
        obtain rfl := Option.some.inj hproduct
        rw [← hworth] at hadd
        have hresult := hb.add (by omega) (by simpa using hne') (by omega) ?_ (by simp) hadd
        · simpa [hkey] using hresult
        · rw [List.head?_append_of_ne_nil _ (by simpa using hne)]
          exact ha.begins

theorem isWorth_thousandAnd (hknown : ∀ word ∈ taken, word.key ∈ vocabulary)
    (htakes : Takes WorthOf before
      [wordElement "mil", .number (remainderBelow (bound 1000))] taken window)
    (hvalue : Compound.thousandsAnd window = some token) :
    IsWorth (taken.map Word.key) token := by
  cases htakes with
  | @text _ _ word _ _ _ hword hrest =>
    cases hrest with
    | @number _ _ second _ _ b _ hne' hb haccepts' hrest =>
      cases hrest
      have hkey := (takes_word_iff mil (by simp) _ (hknown word (by simp))).mp hword
      rw [hb.token_eq, accepts_remainderBelow hb.bounded (by decide)] at haccepts'
      have hworth : worth [mil] = 1000 := by rw [worth_singleton, wordValue_mil]
      obtain ⟨value, hadd, rfl⟩ := plain?_eq_some hvalue
      rw [← hworth] at hadd
      have hresult := hb.add (by omega) (by simpa using hne') (by omega) (by decide) (by simp) hadd
      simpa [hkey] using hresult

theorem isWorth_hundredsAnd
    (htakes : Takes WorthOf before
      [.text hundreds.pattern, .number (remainderBelow (bound 100))] taken window)
    (hvalue : Compound.hundredsAnd window = some token) : IsWorth (taken.map Word.key) token := by
  cases htakes with
  | @text _ _ word _ _ _ hword hrest =>
    cases hrest with
    | @number _ _ second _ _ b _ hne' hb haccepts' hrest =>
      cases hrest
      rw [hb.token_eq, accepts_remainderBelow hb.bounded (by decide)] at haccepts'
      obtain ⟨n, hlookup, hrest⟩ := Option.bind_eq_some_iff.mp hvalue
      have hspells : hundreds.Spells n word.key := spells_of_lookup hlookup
      have hle := le_of_spells hundreds_mem hspells
      have hworth : worth [word.key] = n := by
        rw [worth_singleton, hspells.wordValue_eq hundreds_mem]
      have hsum : Token.plain? ((Value.ofNat n).add? b.value) = some token := by
        obtain ⟨m, hm, hvalue⟩ := Option.bind_eq_some_iff.mp hrest
        rw [Value.ofNat?_eq (le_twoPow_53 (by omega))] at hm
        obtain rfl := Option.some.inj hm
        split at hvalue
        · exact hvalue
        · simp at hvalue
      obtain ⟨value, hadd, rfl⟩ := plain?_eq_some hsum
      rw [← hworth] at hadd
      have hresult := hb.add (by omega) (by simpa using hne') (by omega)
        (by simpa using hspells.ne_andWord hundreds_mem) (by simp) hadd
      simpa using hresult

theorem worthOf_word {table : WordTable} (htable : table ∈ wordTables)
    (htakes : Takes WorthOf before [.text table.pattern] taken window)
    (hvalue : table.produce window = some token) : WorthOf before taken token := by
  cases htakes with
  | text _ hrest =>
    cases hrest
    exact isWorth_word htable hvalue

/-- No elements with a strange pattern take a row of words. -/
theorem text_not_mem {elements : List Element} {pattern : Pattern}
    (hpattern : pattern ∈ strangePatterns) (hknown : ∀ word ∈ taken, word.key ∈ vocabulary)
    (htakes : Takes WorthOf before elements taken window) : Element.text pattern ∉ elements := by
  intro hmem
  obtain ⟨word, hword, htaken⟩ := htakes.exists_word hmem
  rw [takes_strange pattern hpattern word.key (hknown word hword)] at htaken
  exact Bool.false_ne_true htaken

/-- The rules keep it up that words are worth their token. Rules with a pattern that takes none
of the words, as those for figures, read no row of them at all. -/
theorem worthOf_of_takes {rule : Rule} (hrule : rule ∈ spanishRules)
    (hknown : ∀ word ∈ taken, word.key ∈ vocabulary)
    (hchain : (taken.map Word.key).IsChain Follows)
    (htakes : Takes WorthOf before rule.elements taken window)
    (hvalue : rule.produce window = some token) : WorthOf before taken token := by
  rcases List.mem_append.mp hrule with hrule | hrule
  · rcases List.mem_append.mp hrule with hrule | hrule
    · obtain ⟨pattern, hpattern⟩ := exists_pattern_of_figures hrule
      have hmem : pattern ∈ strangePatterns := List.mem_append_left _
        (List.mem_flatMap.mpr ⟨rule, hrule, List.mem_filterMap.mpr ⟨_, hpattern, rfl⟩⟩)
      exact absurd hpattern (text_not_mem hmem hknown htakes)
    · simp only [wordRules, List.mem_cons, List.not_mem_nil, or_false] at hrule
      rcases hrule with rfl | rfl | rfl | rfl
      · exact worthOf_word ones_mem htakes hvalue
      · exact worthOf_word teens_mem htakes hvalue
      · exact worthOf_word tens_mem htakes hvalue
      · exact worthOf_word hundreds_mem htakes hvalue
  · simp only [compoundRules, List.mem_cons, List.not_mem_nil, or_false] at hrule
    rcases hrule with rfl | rfl | rfl | rfl | rfl | rfl | rfl | rfl | rfl | rfl
    · refine isWorth_sum ?_ (by decide) hknown htakes hvalue
      intro n grain hn haccepts
      rw [accepts_equals hn (by decide)] at haccepts
      omega
    · refine isWorth_sum ?_ (by decide) hknown htakes hvalue
      intro n grain hn haccepts
      rw [accepts_tens hn] at haccepts
      exact (by decide : ∀ m ∈ [20, 30, 40, 50, 60, 70, 80, 90], m ≤ 90) n haccepts
    · exact (not_hundredsOf hchain htakes).elim
    · have hminus : Pattern.caseless ["-".toList, "menos".toList] ∈ strangePatterns :=
        List.mem_append_right _ (by simp)
      exact absurd List.mem_cons_self (text_not_mem hminus hknown htakes)
    · have hpoint : Pattern.caseless ["punto".toList] ∈ strangePatterns :=
        List.mem_append_right _ (by simp)
      exact absurd (List.mem_cons_of_mem _ List.mem_cons_self) (text_not_mem hpoint hknown htakes)
    · have hsuffix : (Pattern.caselessLetter ['k', 'm', 'g']).followedBy noWordFollows ∈
          strangePatterns := List.mem_append_right _ (by simp)
      exact absurd (List.mem_cons_of_mem _ List.mem_cons_self) (text_not_mem hsuffix hknown htakes)
    · exact isWorth_hundredsAnd htakes hvalue
    · exact isWorth_thousands hknown htakes hvalue
    · exact isWorth_thousandsAnd hknown htakes hvalue
    · exact isWorth_thousandAnd hknown htakes hvalue

end Rules

end SpanishNumerals
