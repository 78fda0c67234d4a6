-- The rules with a word for hundreds or for thousands. The numbers that they take are whole, have
-- no scale and lie in an interval, and the format holds their products and sums exactly. So each
-- of these rules keeps to its range, and the thousands and the remainder can be told from the
-- value: they are its quotient and its remainder.
import SpanishNumerals.Proofs.NamedRanges

namespace SpanishNumerals

/-! ## The numbers that the rules take -/

section Wholes

variable {token : Token} {low high : Nat}

/-- An interval, whole numbers and no scale together leave the whole numbers of the interval. -/
theorem accepts_wholes_iff (hlow : 0 < low) (hle : low ≤ high) (hhigh : high ≤ twoPow 53) :
    (Condition.all [.between (bound low) (bound high), .whole, .unscaled]).accepts token = true ↔
      ∃ n, low ≤ n ∧ n < high ∧ token = ⟨.ofNat n, none⟩ := by
  simp only [accepts_all, List.forall_mem_cons, List.not_mem_nil, false_implies, implies_true,
    and_true, accepts_unscaled]
  constructor
  · rintro ⟨hbetween, hwhole, hgrain⟩
    obtain ⟨n, hge, hlt, hn⟩ := exists_of_accepts (Nat.le_trans hle hhigh) hhigh hbetween hwhole
    refine ⟨n, hge, hlt, ?_⟩
    rw [← hn.eq_ofNat (by omega) (by omega), ← hgrain]
  · rintro ⟨n, hge, hlt, rfl⟩
    have hsmall : n ≤ twoPow 53 := by omega
    exact ⟨(accepts_between hsmall (Nat.le_trans hle hhigh) hhigh).mpr ⟨hge, hlt⟩,
      @Value.Is.accepts_whole ⟨.ofNat n, none⟩ n (Value.is_ofNat hsmall), rfl⟩

theorem accepts_thousandsCount_iff :
    thousandsCount.accepts token = true ↔ ∃ n, 2 ≤ n ∧ n < 1000 ∧ token = ⟨.ofNat n, none⟩ :=
  accepts_wholes_iff (by decide) (by decide) (by decide)

theorem accepts_remainderBelow_iff (hpos : 1 ≤ high) (hhigh : high ≤ 1000) :
    (remainderBelow (bound high)).accepts token = true ↔
      ∃ n, 1 ≤ n ∧ n < high ∧ token = ⟨.ofNat n, none⟩ :=
  accepts_wholes_iff (by decide) hpos (le_twoPow_53 (by omega))

end Wholes

/-! ## The four rules -/

/-- The rule for a word of hundreds and a remainder. -/
def hundredsAndRule : Rule := compoundRules.get ⟨6, by decide⟩

/-- The rule for so many thousands. -/
def thousandsRule : Rule := compoundRules.get ⟨7, by decide⟩

/-- The rule for so many thousands and a remainder. -/
def thousandsAndRule : Rule := compoundRules.get ⟨8, by decide⟩

/-- The rule for one thousand and a remainder. -/
def thousandAndRule : Rule := compoundRules.get ⟨9, by decide⟩

theorem hundredsAndRule_mem : hundredsAndRule ∈ spanishRules :=
  List.mem_append_right _ (List.get_mem _ _)

theorem thousandsRule_mem : thousandsRule ∈ spanishRules :=
  List.mem_append_right _ (List.get_mem _ _)

theorem thousandsAndRule_mem : thousandsAndRule ∈ spanishRules :=
  List.mem_append_right _ (List.get_mem _ _)

theorem thousandAndRule_mem : thousandAndRule ∈ spanishRules :=
  List.mem_append_right _ (List.get_mem _ _)

theorem produce_hundredsAndRule : hundredsAndRule.produce = Compound.hundredsAnd := rfl

theorem produce_thousandsRule : thousandsRule.produce = Compound.thousands := rfl

theorem produce_thousandsAndRule : thousandsAndRule.produce = Compound.thousandsAnd := rfl

theorem produce_thousandAndRule : thousandAndRule.produce = Compound.thousandsAnd := rfl

section Windows

variable {window : Window} {token : Token}

/-- A window of a word and a remainder. -/
theorem exists_of_takenBy_remainder {pattern : Pattern} {high : Nat} (hpos : 1 ≤ high)
    (hhigh : high ≤ 1000)
    (h : window.TakenBy [.text pattern, .number (remainderBelow (bound high))]) :
    ∃ word r, 1 ≤ r ∧ r < high ∧ window = [.capture word, .number ⟨.ofNat r, none⟩] := by
  obtain ⟨word, _, hlast, rfl⟩ := Window.takenBy_text.mp h
  obtain ⟨rest, _, hrest, hnil, rfl⟩ := Window.takenBy_number.mp hlast
  obtain rfl := Window.takenBy_nil.mp hnil
  obtain ⟨r, hone, hlt, rfl⟩ := (accepts_remainderBelow_iff hpos hhigh).mp hrest
  exact ⟨word, r, hone, hlt, rfl⟩

theorem exists_of_hundredsAndRule (h : hundredsAndRule.apply window = some token) :
    ∃ m r, 1 ≤ m ∧ m ≤ 9 ∧ 1 ≤ r ∧ r < 100 ∧ token = ⟨.ofNat (100 * m + r), none⟩ := by
  obtain ⟨htaken, hproduce⟩ := apply_eq_some_iff.mp h
  obtain ⟨word, r, hpos, hlt, rfl⟩ :=
    exists_of_takenBy_remainder (by decide) (by decide) htaken
  rw [produce_hundredsAndRule] at hproduce
  -- The production reads the word again, and refuses "mil".
  have hbind : ((hundreds.lookup word.text).toOption.bind fun n =>
      (Value.ofNat? n).bind fun value =>
        if value ∈ hundredsValues then Token.plain? (value.add? (.ofNat r)) else none) =
      some token := hproduce
  obtain ⟨n, hn, hrest⟩ := Option.bind_eq_some_iff.mp hbind
  obtain ⟨value, hvalue, hsum⟩ := Option.bind_eq_some_iff.mp hrest
  have hle := le_of_spells hundreds_mem (spells_of_lookup hn)
  rw [Value.ofNat?_eq (le_twoPow_53 (by omega))] at hvalue
  obtain rfl := Option.some.inj hvalue
  split at hsum
  · rename_i hmem
    obtain ⟨m, hone, hnine, rfl⟩ : ∃ m, 1 ≤ m ∧ m ≤ 9 ∧ n = 100 * m := by
      rw [mem_hundredsValues (le_twoPow_53 (by omega))] at hmem
      simp only [List.mem_cons, List.not_mem_nil, or_false] at hmem
      exact ⟨n / 100, by omega⟩
    rw [plain?_sum rfl (by omega)] at hsum
    exact ⟨m, r, hone, hnine, hpos, hlt, (Option.some.inj hsum).symm⟩
  · simp at hsum

theorem exists_of_thousandsRule (h : thousandsRule.apply window = some token) :
    ∃ m, 2 ≤ m ∧ m < 1000 ∧ token = ⟨.ofNat (m * 1000), some 3⟩ := by
  obtain ⟨htaken, hproduce⟩ := apply_eq_some_iff.mp h
  obtain ⟨count, _, hcount, hlast, rfl⟩ := Window.takenBy_number.mp htaken
  obtain ⟨word, _, hnil, rfl⟩ := Window.takenBy_text.mp hlast
  obtain rfl := Window.takenBy_nil.mp hnil
  obtain ⟨m, hge, hlt, rfl⟩ := accepts_thousandsCount_iff.mp hcount
  rw [produce_thousandsRule] at hproduce
  have hscaled : Token.scaled? ((Value.ofNat m).mul? (.ofNat 1000)) 3 = some token := hproduce
  rw [scaled?_thousands rfl (by omega)] at hscaled
  exact ⟨m, hge, hlt, (Option.some.inj hscaled).symm⟩

/-- The windows that the rule for thousands and a remainder takes. -/
theorem takenBy_thousandsAndRule_iff :
    window.TakenBy thousandsAndRule.elements ↔
      ∃ m word r, 2 ≤ m ∧ m < 1000 ∧ 1 ≤ r ∧ r < 1000 ∧
        window = [.number ⟨.ofNat m, none⟩, .capture word, .number ⟨.ofNat r, none⟩] := by
  have helements : thousandsAndRule.elements =
      [.number thousandsCount, wordElement "mil", .number (remainderBelow (bound 1000))] := rfl
  simp only [helements, wordElement, Window.takenBy_number, Window.takenBy_text,
    Window.takenBy_nil, accepts_thousandsCount_iff,
    accepts_remainderBelow_iff (by decide : 1 ≤ 1000) (Nat.le_refl _)]
  constructor
  · rintro ⟨_, _, ⟨m, hge, hlt, rfl⟩, ⟨word, _, ⟨_, _, ⟨r, hpos, hbelow, rfl⟩, rfl, rfl⟩, rfl⟩, rfl⟩
    exact ⟨m, word, r, hge, hlt, hpos, hbelow, rfl⟩
  · rintro ⟨m, word, r, hge, hlt, hpos, hbelow, rfl⟩
    exact ⟨_, _, ⟨m, hge, hlt, rfl⟩, ⟨word, _, ⟨_, _, ⟨r, hpos, hbelow, rfl⟩, rfl, rfl⟩, rfl⟩, rfl⟩

theorem apply_thousandsAndRule {m r : Nat} {word : Capture} (hge : 2 ≤ m) (hlt : m < 1000)
    (hpos : 1 ≤ r) (hbelow : r < 1000) :
    thousandsAndRule.apply
        [.number ⟨.ofNat m, none⟩, .capture word, .number ⟨.ofNat r, none⟩] =
      some ⟨.ofNat (m * 1000 + r), none⟩ := by
  refine apply_eq_some_iff.mpr
    ⟨takenBy_thousandsAndRule_iff.mpr ⟨m, word, r, hge, hlt, hpos, hbelow, rfl⟩, ?_⟩
  rw [produce_thousandsAndRule]
  show Token.plain? (((Value.ofNat m).mul? (.ofNat 1000)).bind _) = _
  rw [Value.mul?_ofNat (le_twoPow_53 (by omega)) (by decide) (le_twoPow_53 (by omega)),
    Option.bind_some]
  exact plain?_sum rfl (by omega)

/-- The numbers of a window are the quotient and the remainder of the value that comes of it. -/
theorem exists_value_of_takenBy (h : window.TakenBy thousandsAndRule.elements) :
    ∃ v word, 2001 ≤ v ∧ v ≤ 999999 ∧ v % 1000 ≠ 0 ∧
      window = [.number ⟨.ofNat (v / 1000), none⟩, .capture word,
        .number ⟨.ofNat (v % 1000), none⟩] ∧
      thousandsAndRule.apply window = some ⟨.ofNat v, none⟩ := by
  obtain ⟨m, word, r, hge, hlt, hpos, hbelow, rfl⟩ := takenBy_thousandsAndRule_iff.mp h
  have hquotient : (m * 1000 + r) / 1000 = m := by omega
  have hremainder : (m * 1000 + r) % 1000 = r := by omega
  refine ⟨m * 1000 + r, word, by omega, by omega, by omega, ?_, ?_⟩
  · rw [hquotient, hremainder]
  · exact apply_thousandsAndRule hge hlt hpos hbelow

theorem exists_of_thousandAndRule (h : thousandAndRule.apply window = some token) :
    ∃ r, 1 ≤ r ∧ r < 1000 ∧ token = ⟨.ofNat (1000 + r), none⟩ := by
  obtain ⟨htaken, hproduce⟩ := apply_eq_some_iff.mp h
  obtain ⟨word, r, hpos, hlt, rfl⟩ :=
    exists_of_takenBy_remainder (by decide) (by decide) htaken
  rw [produce_thousandAndRule] at hproduce
  have hsum : Token.plain? ((Value.ofNat 1000).add? (.ofNat r)) = some token := hproduce
  rw [plain?_sum rfl (by omega)] at hsum
  exact ⟨r, hpos, hlt, (Option.some.inj hsum).symm⟩

/-- Two windows of thousands and a remainder that give one value hold the same numbers. -/
theorem operands_eq_of_value_eq {a b a' b' token' : Token} {word word' : Capture}
    (h : thousandsAndRule.apply [.number a, .capture word, .number b] = some token)
    (h' : thousandsAndRule.apply [.number a', .capture word', .number b'] = some token')
    (hvalue : token.value = token'.value) : a = a' ∧ b = b' := by
  obtain ⟨m, _, r, hge, hlt, hpos, hbelow, hwindow⟩ :=
    takenBy_thousandsAndRule_iff.mp (apply_eq_some_iff.mp h).1
  obtain ⟨m', _, r', hge', hlt', hpos', hbelow', hwindow'⟩ :=
    takenBy_thousandsAndRule_iff.mp (apply_eq_some_iff.mp h').1
  cases hwindow
  cases hwindow'
  rw [apply_thousandsAndRule hge hlt hpos hbelow] at h
  rw [apply_thousandsAndRule hge' hlt' hpos' hbelow'] at h'
  cases h
  cases h'
  have hsame : m * 1000 + r = m' * 1000 + r' :=
    Value.eq_of_ofNat_eq (le_twoPow_53 (by omega)) (le_twoPow_53 (by omega)) hvalue
  obtain rfl : m = m' := by omega
  obtain rfl : r = r' := by omega
  exact ⟨rfl, rfl⟩

end Windows

/-! ## Every number found -/

theorem exists_window_of_name {text : Text} {passes : Nat} {n : Numeral} {rule : Rule}
    (hn : n ∈ candidates spanishRules text passes) (hrule : rule ∈ spanishRules)
    (hname : n.rule = rule.name) : ∃ window : Window, rule.apply window = some n.token := by
  obtain ⟨pieces, hassembles, _⟩ := assembled_of_name hn hrule hname
  exact ⟨pieces.map Piece.node, hassembles.apply_eq⟩

/-- The rules with a word for hundreds or thousands give exact whole numbers of their ranges,
whatever the text. In each window of thousands and a remainder the two numbers are the quotient
and the remainder of the value by a thousand, so that one value comes of one pair of numbers. -/
theorem words_for_hundreds_and_thousands_give_place_values :
    (∀ text passes, ∀ n ∈ candidates spanishRules text passes,
      (n.rule = "hundreds plus remainder" →
        ∃ v, 101 ≤ v ∧ v ≤ 999 ∧ v % 100 ≠ 0 ∧ n.token = ⟨.ofNat v, none⟩) ∧
      (n.rule = "thousands" →
        ∃ v, 2000 ≤ v ∧ v ≤ 999000 ∧ v % 1000 = 0 ∧ n.token = ⟨.ofNat v, some 3⟩) ∧
      (n.rule = "thousands plus remainder" →
        ∃ v, 2001 ≤ v ∧ v ≤ 999999 ∧ v % 1000 ≠ 0 ∧ n.token = ⟨.ofNat v, none⟩) ∧
      (n.rule = "mil plus remainder" →
        ∃ v, 1001 ≤ v ∧ v ≤ 1999 ∧ n.token = ⟨.ofNat v, none⟩)) ∧
    ∀ rule ∈ spanishRules, rule.name = "thousands plus remainder" →
      (∀ window : Window, window.TakenBy rule.elements →
        ∃ v word, 2001 ≤ v ∧ v ≤ 999999 ∧
          window = [.number ⟨.ofNat (v / 1000), none⟩, .capture word,
            .number ⟨.ofNat (v % 1000), none⟩] ∧
          rule.apply window = some ⟨.ofNat v, none⟩) ∧
      ∀ a b a' b' word word' token token',
        rule.apply [.number a, .capture word, .number b] = some token →
        rule.apply [.number a', .capture word', .number b'] = some token' →
        token.value = token'.value → a = a' ∧ b = b' := by
  constructor
  · intro text passes n hn
    refine ⟨fun hname => ?hundreds, fun hname => ?thousands, fun hname => ?thousandsAnd,
      fun hname => ?thousandAnd⟩
    case hundreds =>
      obtain ⟨window, hwindow⟩ := exists_window_of_name hn hundredsAndRule_mem hname
      obtain ⟨m, r, hone, hnine, hpos, hlt, htoken⟩ := exists_of_hundredsAndRule hwindow
      exact ⟨100 * m + r, by omega, by omega, by omega, htoken⟩
    case thousands =>
      obtain ⟨window, hwindow⟩ := exists_window_of_name hn thousandsRule_mem hname
      obtain ⟨m, hge, hlt, htoken⟩ := exists_of_thousandsRule hwindow
      exact ⟨m * 1000, by omega, by omega, by omega, htoken⟩
    case thousandsAnd =>
      obtain ⟨window, hwindow⟩ := exists_window_of_name hn thousandsAndRule_mem hname
      obtain ⟨v, _, hlow, hhigh, hrest, rfl, happly⟩ := exists_value_of_takenBy
        (apply_eq_some_iff.mp hwindow).1
      exact ⟨v, hlow, hhigh, hrest, Option.some.inj (hwindow.symm.trans happly)⟩
    case thousandAnd =>
      obtain ⟨window, hwindow⟩ := exists_window_of_name hn thousandAndRule_mem hname
      obtain ⟨r, hpos, hlt, htoken⟩ := exists_of_thousandAndRule hwindow
      exact ⟨1000 + r, by omega, by omega, htoken⟩
  · intro rule hrule hname
    obtain rfl : rule = thousandsAndRule := rule_eq_of_name hrule thousandsAndRule_mem hname
    refine ⟨fun window htaken => ?_, fun a b a' b' word word' token token' => ?_⟩
    · obtain ⟨v, word, hlow, hhigh, _, hwindow, happly⟩ := exists_value_of_takenBy htaken
      exact ⟨v, word, hlow, hhigh, hwindow, happly⟩
    · exact operands_eq_of_value_eq

/-- The numbers of "ciento veinte", "dos mil" and "mil cien", and the window of "dos mil
quinientos". -/
theorem two_thousand_five_hundred_has_its_place_values :
    (∃ n ∈ candidates spanishRules "ciento veinte".toList 32,
      n.rule = "hundreds plus remainder" ∧
      ∃ v, 101 ≤ v ∧ v ≤ 999 ∧ v % 100 ≠ 0 ∧ n.token = ⟨.ofNat v, none⟩) ∧
    (∃ n ∈ candidates spanishRules "dos mil".toList 32, n.rule = "thousands" ∧
      ∃ v, 2000 ≤ v ∧ v ≤ 999000 ∧ v % 1000 = 0 ∧ n.token = ⟨.ofNat v, some 3⟩) ∧
    (∃ n ∈ candidates spanishRules "mil cien".toList 32, n.rule = "mil plus remainder" ∧
      ∃ v, 1001 ≤ v ∧ v ≤ 1999 ∧ n.token = ⟨.ofNat v, none⟩) ∧
    ∃ v word, 2001 ≤ v ∧ v ≤ 999999 ∧
      ([.number ⟨.ofNat 2, none⟩, .capture ⟨"mil".toList, []⟩, .number ⟨.ofNat 500, none⟩] :
          Window) =
        [.number ⟨.ofNat (v / 1000), none⟩, .capture word, .number ⟨.ofNat (v % 1000), none⟩] ∧
      thousandsAndRule.apply [.number ⟨.ofNat 2, none⟩, .capture ⟨"mil".toList, []⟩,
        .number ⟨.ofNat 500, none⟩] = some ⟨.ofNat v, none⟩ := by
  obtain ⟨hfound, hwindows⟩ := words_for_hundreds_and_thousands_give_place_values
  have hhundreds : ⟨0, "ciento veinte".toList, ⟨.ofNat 120, none⟩, "hundreds plus remainder"⟩ ∈
      candidates spanishRules "ciento veinte".toList 32 := by decide +kernel
  have hthousands : ⟨0, "dos mil".toList, ⟨.ofNat 2000, some 3⟩, "thousands"⟩ ∈
      candidates spanishRules "dos mil".toList 32 := by decide +kernel
  have hthousand : ⟨0, "mil cien".toList, ⟨.ofNat 1100, none⟩, "mil plus remainder"⟩ ∈
      candidates spanishRules "mil cien".toList 32 := by decide +kernel
  have htaken : Window.TakenBy [.number ⟨.ofNat 2, none⟩, .capture ⟨"mil".toList, []⟩,
      .number ⟨.ofNat 500, none⟩] thousandsAndRule.elements :=
    takenBy_thousandsAndRule_iff.mpr ⟨2, _, 500, by decide, by decide, by decide, by decide, rfl⟩
  exact ⟨⟨_, hhundreds, rfl, (hfound _ _ _ hhundreds).1 rfl⟩,
    ⟨_, hthousands, rfl, (hfound _ _ _ hthousands).2.1 rfl⟩,
    ⟨_, hthousand, rfl, (hfound _ _ _ hthousand).2.2.2 rfl⟩,
    (hwindows thousandsAndRule thousandsAndRule_mem rfl).1 _ htaken⟩

end SpanishNumerals
