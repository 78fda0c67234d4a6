-- A number that is spelled out is read as that number. The spelling shows one derivation of the
-- whole text, and every derivation of it gives what the words are worth, which is the number.
import SpanishNumerals.Proofs.WorthOfWords
import SpanishNumerals.Proofs.WholeText

namespace SpanishNumerals

/-! ## The token and the height of a number -/

/-- The token of a number: with a scale when the number is so many thousands. -/
def tokenOf (n : Nat) : Token := ⟨.ofNat n, if 2000 ≤ n ∧ n % 1000 = 0 then some 3 else none⟩

/-- How high the derivation of a number may be. -/
def heightOf (n : Nat) : Nat := if n < 100 then 2 else if n < 1000 then 3 else 4

theorem tokenOf_of_lt {n : Nat} (h : n < 2000) : tokenOf n = ⟨.ofNat n, none⟩ := by
  rw [tokenOf, if_neg (by omega)]

theorem heightOf_le_of_lt {n : Nat} (h : n < 1000) : heightOf n ≤ 3 := by
  unfold heightOf
  split <;> omega

theorem heightOf_tens {n : Nat} (h : n < 100) : heightOf n = 2 := if_pos h

theorem heightOf_hundreds {n : Nat} (hlow : 100 ≤ n) (hhigh : n < 1000) : heightOf n = 3 := by
  rw [heightOf, if_neg (by omega), if_pos hhigh]

theorem heightOf_thousands {n : Nat} (h : 1000 ≤ n) : heightOf n = 4 := by
  rw [heightOf, if_neg (by omega), if_neg (by omega)]

theorem two_le_heightOf (n : Nat) : 2 ≤ heightOf n := by
  unfold heightOf
  split
  · exact Nat.le_refl 2
  · split <;> omega

theorem heightOf_le (n : Nat) : heightOf n ≤ 4 := by
  unfold heightOf
  split
  · omega
  · split <;> omega

theorem Spells.words_ne_nil {n : Nat} {keys : List Text} {words : List Word} (h : Spells n keys)
    (hkeys : words.map Word.key = keys) : words ≠ [] := by
  rintro rfl
  exact h.ne_nil hkeys.symm

/-! ## A derivation of each spelling -/

theorem lookup_of_spells {table : WordTable} (htable : table ∈ wordTables) {word : Word} {n : Nat}
    (h : table.Spells n word.key) : (table.lookup word.text).toOption = some n := by
  cases hlookup : table.lookup word.text with
  | ok m =>
    have hm : table.Spells m word.key := spells_of_lookup (by rw [hlookup]; rfl)
    rw [← h.wordValue_eq htable, hm.wordValue_eq htable]
    rfl
  | error _ =>
    obtain ⟨spelling, hentry, hkey⟩ := h
    unfold WordTable.lookup at hlookup
    split at hlookup
    · simp at hlookup
    · rename_i hfind
      have hnot := List.find?_eq_none.mp hfind _ hentry
      exact absurd (decide_eq_true hkey.symm) hnot

theorem produce_of_spells {table : WordTable} (htable : table ∈ wordTables) {word : Word} {n : Nat}
    (h : table.Spells n word.key) :
    table.produce [.capture ⟨word.text, []⟩] = some ⟨.ofNat n, none⟩ := by
  show ((table.lookup word.text).toOption.bind fun n => Token.plain? (Value.ofNat? n)) = _
  rw [lookup_of_spells htable h, Option.bind_some,
    Value.ofNat?_eq (le_twoPow_53 (Nat.le_trans (le_of_spells htable h) (by decide)))]
  rfl

theorem takes_of_spells {table : WordTable} (htable : table ∈ wordTables) {key : Text} {n : Nat}
    (h : table.Spells n key) : table.pattern.takes key = true := by
  obtain ⟨spelling, hentry, hkey⟩ := h
  have htakes := takes_entry table htable _ hentry
  rwa [← hkey] at htakes

theorem plain?_sum {a b n : Nat} (h : a + b = n) (hn : n ≤ 2000000) :
    Token.plain? ((Value.ofNat a).add? (.ofNat b)) = some ⟨.ofNat n, none⟩ := by
  subst h
  rw [Value.add?_ofNat (le_twoPow_53 hn)]
  rfl

theorem scaled?_thousands {a n : Nat} (h : a * 1000 = n) (hn : n ≤ 2000000) :
    Token.scaled? ((Value.ofNat a).mul? (.ofNat 1000)) 3 = some ⟨.ofNat n, some 3⟩ := by
  subst h
  rw [Value.mul?_ofNat (le_twoPow_53 (by omega)) (by decide) (le_twoPow_53 hn)]
  rfl

/-- The thousands of a number may be counted. -/
theorem accepts_count {n : Nat} (hlow : 2000 ≤ n) (hhigh : n < 1000000) :
    thousandsCount.accepts ⟨.ofNat (n / 1000), none⟩ = true := by
  rw [accepts_thousandsCount (le_twoPow_53 (by omega))]
  exact ⟨by omega, by omega, rfl⟩

theorem accepts_remainder {n b : Nat} (hb : b ≤ 1000) (hn : n ≠ 0) (hlt : n < b) :
    (remainderBelow (bound b)).accepts ⟨.ofNat n, none⟩ = true := by
  rw [accepts_remainderBelow (le_twoPow_53 (by omega)) (le_twoPow_53 (by omega))]
  exact ⟨Nat.pos_of_ne_zero hn, hlt, rfl⟩

theorem takes_thousand {word : Word} (h : word.key = mil) :
    (Pattern.caseless ["mil".toList]).takes word.key = true := by
  rw [h]
  decide

theorem beginning_of_append {words before first last : List Word}
    (h : before ++ (first ++ last) <+: words) : before ++ first <+: words := by
  rw [← List.append_assoc] at h
  exact (List.prefix_append _ last).trans h

theorem rest_of_append {words before taken : List Word} {word : Word}
    (h : before ++ word :: taken <+: words) : before ++ [word] ++ taken <+: words := by
  rw [List.append_assoc]
  exact h

section Derivations

variable {words : List Word} (h : Legible vocabulary words) {before taken : List Word}

include h

/-- A row that the elements of a rule take is a step of a derivation. -/
theorem derivedWithin_of_rule (name : String) {elements : List Element} (produce : Production)
    {most : Nat} {window : Window} {token : Token} (htaken : before ++ taken <+: words)
    (hne : taken ≠ [])
    (htakes : Takes (DerivedWithin spanishRules words most) before elements taken window)
    (hvalue : produce window = some token)
    (hrule : ∃ rule, Registry.find? spanishRules name = some rule ∧ rule.elements = elements ∧
      rule.produce = produce) :
    DerivedWithin spanishRules words (most + 1) before taken token := by
  obtain ⟨rule, hfind, rfl, rfl⟩ := hrule
  have hmem : rule ∈ spanishRules := List.mem_of_find?_eq_some hfind
  exact derivedWithin_of_takes h hmem (readsWords_spanishRules rule hmem) htaken htakes hne hvalue

theorem derivedWithin_word {table : WordTable} (htable : table ∈ wordTables) {word : Word}
    {n : Nat} (htaken : before ++ [word] <+: words) (hspells : table.Spells n word.key) :
    DerivedWithin spanishRules words 1 before [word] ⟨.ofNat n, none⟩ := by
  have hvalue := produce_of_spells htable hspells
  have htakes : Takes (DerivedWithin spanishRules words 0) before [.text table.pattern] [word]
      [.capture ⟨word.text, []⟩] :=
    Takes.text (takes_of_spells htable hspells) Takes.nil
  have hne := List.cons_ne_nil word []
  simp only [wordTables, List.mem_cons, List.not_mem_nil, or_false] at htable
  rcases htable with rfl | rfl | rfl | rfl
  · exact derivedWithin_of_rule h "number (0..15)" ones.produce htaken hne htakes hvalue
      ⟨_, rfl, rfl, rfl⟩
  · exact derivedWithin_of_rule h "number (16..19 21..29)" teens.produce htaken hne htakes hvalue
      ⟨_, rfl, rfl, rfl⟩
  · exact derivedWithin_of_rule h "number (20..90)" tens.produce htaken hne htakes hvalue
      ⟨_, rfl, rfl, rfl⟩
  · exact derivedWithin_of_rule h "number (100..1000)" hundreds.produce htaken hne htakes hvalue
      ⟨_, rfl, rfl, rfl⟩

theorem derivedWithin_tensAnd {n : Nat} (hlow : 29 < n) (hhigh : n < 100) (hunits : n % 10 ≠ 0)
    {ten y unit : Word} (htaken : before ++ [ten, y, unit] <+: words)
    (hten : tens.Spells (n / 10 * 10) ten.key) (hy : y.key = andWord)
    (hunit : ones.Spells (n % 10) unit.key) :
    DerivedWithin spanishRules words 2 before [ten, y, unit] ⟨.ofNat n, none⟩ := by
  have hplaces : before ++ [ten] ++ ([y] ++ [unit]) <+: words := by
    rw [List.append_assoc]
    exact htaken
  have hfirst := derivedWithin_word h tens_mem (beginning_of_append htaken) hten
  have hlast := derivedWithin_word h ones_mem (by rwa [← List.append_assoc] at hplaces) hunit
  have hfirst_accepted : (Condition.oneOf (tensValues.map .finite)).accepts
      ⟨.ofNat (n / 10 * 10), none⟩ = true := by
    rw [accepts_tens (le_twoPow_53 (by omega))]
    simp only [List.mem_cons, List.not_mem_nil, or_false]
    omega
  have hlast_accepted : (Condition.between (bound 1) (bound 10)).accepts
      ⟨.ofNat (n % 10), none⟩ = true := by
    rw [accepts_between (le_twoPow_53 (by omega)) (by decide) (by decide)]
    omega
  have hword : (Pattern.caseless ["y".toList]).takes y.key = true := by
    rw [hy]
    decide
  have htakes := Takes.number (List.cons_ne_nil ten []) hfirst hfirst_accepted
    (Takes.text hword (Takes.last (List.cons_ne_nil unit []) hlast hlast_accepted))
  have hvalue : Compound.sum [.number ⟨.ofNat (n / 10 * 10), none⟩, .capture ⟨y.text, []⟩,
      .number ⟨.ofNat (n % 10), none⟩] = some ⟨.ofNat n, none⟩ := by
    rw [← plain?_sum (show n / 10 * 10 + n % 10 = n by omega) (by omega)]
    rfl
  exact derivedWithin_of_rule h "number (21..29 31..39 .. 91..99)" Compound.sum htaken
    (List.cons_ne_nil _ _) htakes hvalue ⟨_, rfl, rfl, rfl⟩

theorem derivedWithin_hundredsAnd {n most : Nat} (hlow : 100 ≤ n) (hhigh : n < 1000)
    (hrest : n % 100 ≠ 0) {hundred : Word} (htaken : before ++ hundred :: taken <+: words)
    (hhundred : hundreds.Spells (100 * (n / 100)) hundred.key) (hne : taken ≠ [])
    (hlast : DerivedWithin spanishRules words most (before ++ [hundred]) taken
      ⟨.ofNat (n % 100), none⟩) :
    DerivedWithin spanishRules words (most + 1) before (hundred :: taken) ⟨.ofNat n, none⟩ := by
  have hlast_accepted := accepts_remainder (by decide) hrest (Nat.mod_lt n (by decide : 0 < 100))
  have hword : hundreds.pattern.takes hundred.key = true := takes_of_spells hundreds_mem hhundred
  have hvalue : Compound.hundredsAnd
      [.capture ⟨hundred.text, []⟩, .number ⟨.ofNat (n % 100), none⟩] =
        some ⟨.ofNat n, none⟩ := by
    have hmem : Value.ofNat (100 * (n / 100)) ∈ hundredsValues := by
      rw [mem_hundredsValues (le_twoPow_53 (by omega))]
      simp only [List.mem_cons, List.not_mem_nil, or_false]
      omega
    show (hundreds.lookup hundred.text).toOption.bind _ = _
    rw [lookup_of_spells hundreds_mem hhundred, Option.bind_some]
    show (Value.ofNat? (100 * (n / 100))).bind _ = _
    rw [Value.ofNat?_eq (le_twoPow_53 (by omega)), Option.bind_some, if_pos hmem]
    exact plain?_sum (by omega) (by omega)
  have htakes := Takes.text hword (Takes.last hne hlast hlast_accepted)
  exact derivedWithin_of_rule h "hundreds plus remainder" Compound.hundredsAnd htaken
    (List.cons_ne_nil _ _) htakes hvalue ⟨_, rfl, rfl, rfl⟩

/-- The words that count thousands, and "mil". -/
theorem derivedWithin_thousands {n most : Nat} (hlow : 2000 ≤ n) (hhigh : n < 1000000)
    (hrest : n % 1000 = 0) {thousand : Word} (htaken : before ++ (taken ++ [thousand]) <+: words)
    (hthousand : thousand.key = mil) (hne : taken ≠ [])
    (hfirst : DerivedWithin spanishRules words most before taken ⟨.ofNat (n / 1000), none⟩) :
    DerivedWithin spanishRules words (most + 1) before (taken ++ [thousand])
      ⟨.ofNat n, some 3⟩ := by
  have hvalue : Compound.thousands
      [.number ⟨.ofNat (n / 1000), none⟩, .capture ⟨thousand.text, []⟩] =
        some ⟨.ofNat n, some 3⟩ := by
    rw [← scaled?_thousands (show n / 1000 * 1000 = n by omega) (by omega)]
    rfl
  have htakes := Takes.number hne hfirst (accepts_count hlow hhigh)
    (Takes.text (takes_thousand hthousand) Takes.nil)
  exact derivedWithin_of_rule h "thousands" Compound.thousands htaken (by simp) htakes hvalue
    ⟨_, rfl, rfl, rfl⟩

theorem derivedWithin_thousandsAnd {n most : Nat} (hlow : 2000 ≤ n) (hhigh : n < 1000000)
    (hrest : n % 1000 ≠ 0) {thousand : Word} {last : List Word}
    (htaken : before ++ (taken ++ thousand :: last) <+: words) (hthousand : thousand.key = mil)
    (hne : taken ≠ []) (hlast_ne : last ≠ [])
    (hfirst : DerivedWithin spanishRules words most before taken ⟨.ofNat (n / 1000), none⟩)
    (hlast : DerivedWithin spanishRules words most (before ++ taken ++ [thousand]) last
      ⟨.ofNat (n % 1000), none⟩) :
    DerivedWithin spanishRules words (most + 1) before (taken ++ thousand :: last)
      ⟨.ofNat n, none⟩ := by
  have hlast_accepted := accepts_remainder (by decide) hrest (Nat.mod_lt n (by decide : 0 < 1000))
  have hvalue : Compound.thousandsAnd [.number ⟨.ofNat (n / 1000), none⟩,
      .capture ⟨thousand.text, []⟩, .number ⟨.ofNat (n % 1000), none⟩] =
        some ⟨.ofNat n, none⟩ := by
    show Token.plain? (((Value.ofNat (n / 1000)).mul? (.ofNat 1000)).bind _) = _
    rw [Value.mul?_ofNat (le_twoPow_53 (by omega)) (by decide) (le_twoPow_53 (by omega)),
      Option.bind_some]
    exact plain?_sum (by omega) (by omega)
  have htakes := Takes.number hne hfirst (accepts_count hlow hhigh)
    (Takes.text (takes_thousand hthousand) (Takes.last hlast_ne hlast hlast_accepted))
  exact derivedWithin_of_rule h "thousands plus remainder" Compound.thousandsAnd htaken (by simp)
    htakes hvalue ⟨_, rfl, rfl, rfl⟩

/-- One thousand and a remainder: "mil" counts for itself. -/
theorem derivedWithin_thousandAnd {n most : Nat} (hlow : 1000 < n) (hhigh : n < 2000)
    {thousand : Word} (htaken : before ++ thousand :: taken <+: words)
    (hthousand : thousand.key = mil) (hne : taken ≠ [])
    (hlast : DerivedWithin spanishRules words most (before ++ [thousand]) taken
      ⟨.ofNat (n % 1000), none⟩) :
    DerivedWithin spanishRules words (most + 1) before (thousand :: taken) ⟨.ofNat n, none⟩ := by
  have hrest : n % 1000 ≠ 0 := by omega
  have hlast_accepted := accepts_remainder (by decide) hrest (Nat.mod_lt n (by decide : 0 < 1000))
  have hvalue : Compound.thousandsAnd
      [.capture ⟨thousand.text, []⟩, .number ⟨.ofNat (n % 1000), none⟩] =
        some ⟨.ofNat n, none⟩ := by
    rw [← plain?_sum (show 1000 + n % 1000 = n by omega) (by omega)]
    rfl
  have htakes := Takes.text (takes_thousand hthousand) (Takes.last hne hlast hlast_accepted)
  exact derivedWithin_of_rule h "mil plus remainder" Compound.thousandsAnd htaken
    (List.cons_ne_nil _ _) htakes hvalue ⟨_, rfl, rfl, rfl⟩

/-- The words of a spelling have a derivation that makes the number. -/
theorem derivedWithin_of_spells {n : Nat} {keys : List Text} (hspells : Spells n keys)
    (htaken : before ++ taken <+: words) (hkeys : taken.map Word.key = keys) :
    DerivedWithin spanishRules words (heightOf n) before taken (tokenOf n) := by
  induction hspells generalizing before taken with
  | @word n key hn hkey =>
    obtain ⟨word, rfl, rfl⟩ := List.map_eq_singleton_iff.mp hkeys
    rw [tokenOf_of_lt (by omega)]
    have hone : 1 ≤ heightOf n := Nat.le_trans (by decide) (two_le_heightOf n)
    rcases hkey with hkey | hkey | hkey
    · exact (derivedWithin_word h ones_mem htaken hkey).mono hone
    · exact (derivedWithin_word h teens_mem htaken hkey).mono hone
    · exact (derivedWithin_word h tens_mem htaken hkey).mono hone
  | @tensAnd n ten unit hlow hhigh hunits hten hunit =>
    obtain ⟨first, rest, rfl, rfl, hrest⟩ := List.map_eq_cons_iff.mp hkeys
    obtain ⟨y, rest, rfl, hy, hrest⟩ := List.map_eq_cons_iff.mp hrest
    obtain ⟨last, rfl, rfl⟩ := List.map_eq_singleton_iff.mp hrest
    rw [tokenOf_of_lt (by omega)]
    exact (derivedWithin_tensAnd h hlow hhigh hunits htaken hten hy hunit).mono (two_le_heightOf n)
  | @hundreds n key hlow hhigh hrest hkey =>
    obtain ⟨word, rfl, rfl⟩ := List.map_eq_singleton_iff.mp hkeys
    rw [tokenOf_of_lt (by omega)]
    rw [show 100 * (n / 100) = n by omega] at hkey
    have hone : 1 ≤ heightOf n := Nat.le_trans (by decide) (two_le_heightOf n)
    exact (derivedWithin_word h hundreds_mem htaken hkey).mono hone
  | @hundredsAnd n key keys hlow hhigh hrest hkey hkeys' ih =>
    obtain ⟨hundred, last, rfl, rfl, hlast⟩ := List.map_eq_cons_iff.mp hkeys
    have hderived := ih (rest_of_append htaken) hlast
    rw [tokenOf_of_lt (by omega)] at hderived ⊢
    rw [heightOf_hundreds hlow hhigh]
    rw [heightOf_tens (by omega)] at hderived
    have hne := hkeys'.words_ne_nil hlast
    exact derivedWithin_hundredsAnd h hlow hhigh hrest htaken hkey hne hderived
  | thousand =>
    obtain ⟨word, rfl, hword⟩ := List.map_eq_singleton_iff.mp hkeys
    rw [tokenOf_of_lt (by omega)]
    have hkey : hundreds.Spells 1000 word.key := hword ▸ spells_mil
    exact (derivedWithin_word h hundreds_mem htaken hkey).mono (by decide)
  | @thousandAnd n keys hlow hhigh hkeys' ih =>
    obtain ⟨thousand, last, rfl, hthousand, hlast⟩ := List.map_eq_cons_iff.mp hkeys
    have hderived := ih (rest_of_append htaken) hlast
    rw [tokenOf_of_lt (by omega)] at hderived ⊢
    rw [heightOf_thousands (by omega)]
    have hne := hkeys'.words_ne_nil hlast
    exact derivedWithin_thousandAnd h hlow hhigh htaken hthousand hne
      (hderived.mono (heightOf_le_of_lt (by omega)))
  | @thousands n keys hlow hhigh hrest hkeys' ih =>
    obtain ⟨first, last, rfl, hfirst, hlast⟩ := List.map_eq_append_iff.mp hkeys
    obtain ⟨thousand, rfl, hthousand⟩ := List.map_eq_singleton_iff.mp hlast
    have hderived := ih (beginning_of_append htaken) hfirst
    rw [tokenOf_of_lt (by omega)] at hderived
    rw [tokenOf, if_pos ⟨hlow, hrest⟩, heightOf_thousands (by omega)]
    have hne := hkeys'.words_ne_nil hfirst
    exact derivedWithin_thousands h hlow hhigh hrest htaken hthousand hne
      (hderived.mono (heightOf_le_of_lt (by omega)))
  | @thousandsAnd n keys rest hlow hhigh hrest hkeys' hkeys'' ih ih' =>
    obtain ⟨first, more, rfl, hfirst, hmore⟩ := List.map_eq_append_iff.mp hkeys
    obtain ⟨thousand, last, rfl, hthousand, hlast⟩ := List.map_eq_cons_iff.mp hmore
    have hderived := ih (beginning_of_append htaken) hfirst
    have hderived' := ih' (rest_of_append (by rwa [← List.append_assoc] at htaken)) hlast
    rw [tokenOf_of_lt (by omega)] at hderived hderived'
    rw [tokenOf, if_neg fun hn => hrest hn.2, heightOf_thousands (by omega)]
    have hne := hkeys'.words_ne_nil hfirst
    have hne' := hkeys''.words_ne_nil hlast
    exact derivedWithin_thousandsAnd h hlow hhigh hrest htaken hthousand hne hne'
      (hderived.mono (heightOf_le_of_lt (by omega)))
      (hderived'.mono (heightOf_le_of_lt (by omega)))

end Derivations

/-! ## The whole text -/

section Whole

variable {words : List Word} {n : Nat}

theorem legible_of_spells (hspaced : Spaced words) (h : Spells n (words.map Word.key)) :
    Legible vocabulary words := by
  have hknown : ∀ word ∈ words, word.key ∈ vocabulary := fun word hword =>
    h.mem_vocabulary word.key (List.mem_map_of_mem hword)
  have hjoined : ∀ word ∈ words, ∀ c ∈ word.text, ∀ d ∈ word.text, separates c d = false := by
    intro word hword c hc d hd
    have hletters := letters_of_spelled (hknown word hword)
    unfold separates
    rw [hletters c hc, hletters d hd]
  exact ⟨⟨hspaced, fun word hword => ne_nil_of_spelled (hknown word hword), hjoined⟩, hknown⟩

/-- Nothing stands before the first word. -/
theorem skipBlankAt_begin (h : Unbroken words) : skipBlankAt (written words) 0 = 0 := by
  cases words with
  | nil => rfl
  | cons word words =>
    have hskip := @skipBlankAt_written [] words word h
    rw [h.spaced.1] at hskip
    exact hskip

/-- What stands from end to end of the text is all the words. -/
theorem Stands.whole (h : Unbroken words) {before taken : List Word}
    (hstands : Stands words before taken 0 (byteLength (written words))) :
    before = [] ∧ taken = words := by
  have hbefore : [] = before :=
    hstands.before_eq h List.nil_prefix (skipBlankAt_begin h).symm
  subst hbefore
  refine ⟨rfl, ?_⟩
  obtain ⟨rest, hrest⟩ := hstands.splits
  rw [List.nil_append] at hrest
  cases rest with
  | nil => rwa [List.append_nil] at hrest
  | cons word rest =>
    have hlt := byteLength_written_lt h hrest.symm rest
    have hstop := hstands.stop_eq
    rw [hrest] at hlt
    rw [List.nil_append] at hstop
    omega

/-- Every derivation of the whole text gives what the words are worth. -/
theorem token_of_derived (hspaced : Spaced words) (h : Spells n (words.map Word.key))
    {token : Token} {k : Nat}
    (hderived : Derived spanishRules (written words) (0, byteLength (written words), token) k) :
    token = tokenOf n := by
  have hlegible := legible_of_spells hspaced h
  have hlocated : Located words WorthOf (0, byteLength (written words), token) := by
    refine located_of_derived hlegible readsWords_spanishRules ?_ hderived
    intro rule hrule before taken window token hsplits htakes hvalue
    obtain ⟨rest, rfl⟩ := hsplits
    have hknown : ∀ word ∈ taken, word.key ∈ vocabulary := fun word hword =>
      hlegible.known word (List.mem_append_left _ (List.mem_append_right _ hword))
    have hchain := h.chain
    rw [List.map_append, List.map_append] at hchain
    exact worthOf_of_takes hrule hknown
      (List.isChain_append.mp (List.isChain_append.mp hchain).1).2.1 htakes hvalue
  obtain ⟨before, taken, hstands, hworth⟩ := hlocated
  obtain ⟨rfl, rfl⟩ := hstands.whole hlegible.unbroken
  have htoken : token = ⟨.ofNat (worth _), scaleOf _⟩ := hworth.token_eq
  rw [htoken, h.worth_eq, h.scaleOf_eq]
  rfl

end Whole

/-- A text that spells a number, in whatever case and with whatever blanks between the words, is
read as this number, and as nothing else. -/
theorem every_spelling_is_read_as_its_number {words : List Word} {n : Nat}
    (hspaced : Spaced words) (hspells : Spells n (words.map Word.key)) :
    ∃ e, analyze spanishRules (written words) defaultPasses = [e] ∧ e.start = 0 ∧
      e.stop = byteLength (written words) ∧ e.text = written words ∧
      e.token = ⟨.ofNat n, if 2000 ≤ n ∧ n % 1000 = 0 then some 3 else none⟩ := by
  have hlegible := legible_of_spells hspaced hspells
  have hderived : DerivedWithin spanishRules words (heightOf n) [] words (tokenOf n) :=
    derivedWithin_of_spells hlegible hspells List.prefix_rfl rfl
  obtain ⟨k, hk, hderived⟩ := hderived
  have hpasses : k ≤ defaultPasses := Nat.le_trans hk (Nat.le_trans (heightOf_le n) (by decide))
  rw [show skipBlankAt (written words) (byteLength (written [])) = 0 from
    skipBlankAt_begin hlegible.unbroken] at hderived
  obtain ⟨e, hanalyze, hcovers, htext, htoken⟩ := analyze_of_derived hpasses hderived
    fun other k hother => token_of_derived hspaced hspells hother
  obtain ⟨hstart, hstop⟩ := Numeral.covers_iff.mp hcovers
  exact ⟨e, hanalyze, hstart, hstop, htext, htoken⟩

/-- Thirty-two thousand, with capitals, a tab and two blanks. -/
def thirtyTwoThousand : List Word :=
  [⟨[], "Treinta".toList, by decide⟩, ⟨[' '], "Y".toList, by decide⟩,
   ⟨['\t'], "dos".toList, by decide⟩, ⟨[' ', ' '], "MIL".toList, by decide⟩]

theorem thirty_two_thousand_is_read :
    Spaced thirtyTwoThousand ∧ Spells 32000 (thirtyTwoThousand.map Word.key) ∧
      ∃ e, analyze spanishRules (written thirtyTwoThousand) defaultPasses = [e] ∧ e.start = 0 ∧
        e.stop = 18 ∧ e.text = "Treinta Y\tdos  MIL".toList ∧
        e.token = ⟨.ofNat 32000, some 3⟩ := by
  have hspaced : Spaced thirtyTwoThousand := by
    refine ⟨rfl, ?_⟩
    simp
  have hspells : Spells 32000 (thirtyTwoThousand.map Word.key) := by
    have hcount : Spells 32 ["treinta".toList, "y".toList, "dos".toList] :=
      Spells.tensAnd (by decide) (by decide) (by decide) ⟨"treinta", by decide, rfl⟩
        ⟨"dos", by decide, rfl⟩
    have hkeys : thirtyTwoThousand.map Word.key =
        ["treinta".toList, "y".toList, "dos".toList] ++ [mil] := by decide
    rw [hkeys]
    exact Spells.thousands (by decide) (by decide) (by decide) hcount
  exact ⟨hspaced, hspells, every_spelling_is_read_as_its_number hspaced hspells⟩

end SpanishNumerals
