-- The rules that are named after a range. They ask their numbers for an interval and not for
-- whole numbers, so that what they give lies between the bounds of the sums and is in the range
-- of the name when the numbers are whole.
import SpanishNumerals.Proofs.FigureWords
import SpanishNumerals.Proofs.Windows

namespace SpanishNumerals

/-! ## Whole values -/

namespace Value

theorem isWhole_iff {v : Value} : v.isWhole = true ↔ ∃ n : Int, v.Is n := by
  constructor
  · intro h
    obtain ⟨k, hk⟩ := Nat.dvd_of_mod_eq_zero (of_decide_eq_true h)
    rw [Nat.mul_comm] at hk
    cases hsign : v.negative with
    | true =>
      refine ⟨-k, ?_⟩
      rw [Is, signed, if_pos hsign, hk, Int.natCast_mul, Int.neg_mul]
    | false =>
      refine ⟨k, ?_⟩
      rw [Is, signed, if_neg (Bool.eq_false_iff.mp hsign), hk, Int.natCast_mul]
  · rintro ⟨n, hn⟩
    rw [isWhole, hn.quanta_eq, Nat.mul_mod_left]
    rfl

/-- A whole number above zero is one value. -/
theorem Is.eq_ofNat {v : Value} {n : Nat} (h : v.Is n) (hpos : 0 < n) (hle : n ≤ twoPow 53) :
    v = ofNat n := by
  have hquanta := h.quanta_eq
  have hunits : (0 : Int) < n * quantaPerUnit :=
    Int.mul_pos (Int.natCast_pos.mpr hpos) (Int.natCast_pos.mpr quantaPerUnit_pos)
  obtain ⟨hnegative, _⟩ := quanta_of_pos (h ▸ hunits : 0 < v.signed)
  exact ext hnegative (hquanta.trans (quanta_ofNat hle).symm)

end Value

/-! ## Sums -/

/-- The value is no less than one whole number and no more than another. -/
def Value.Within (low high : Nat) (v : Value) : Prop :=
  ((low * quantaPerUnit : Nat) : Int) ≤ v.signed ∧ v.signed ≤ (high * quantaPerUnit : Nat)

section Sums

variable {a b v : Value} {low high low' high' : Nat}

theorem within_add (ha : a.Within low high) (hb : b.Within low' high')
    (hlow : low + low' ≤ twoPow 53) (hhigh : high + high' ≤ twoPow 53) (hv : a.add? b = some v) :
    v.Within (low + low') (high + high') := by
  apply Value.add?_between hlow hhigh hv
  · rw [Nat.add_mul, Int.natCast_add]
    exact Int.add_le_add ha.1 hb.1
  · rw [Nat.add_mul, Int.natCast_add]
    exact Int.add_le_add ha.2 hb.2

theorem within_mul {n : Nat} (hn : n ≤ twoPow 53) (hpos : 0 < low) (ha : a.Within low high)
    (hlow : n * low ≤ twoPow 53) (hhigh : n * high ≤ twoPow 53)
    (hv : (Value.ofNat n).mul? a = some v) : v.Within (n * low) (n * high) :=
  Value.mul?_between hn hpos hlow hhigh hv ha.1 ha.2

theorem within_of_is {n : Nat} (h : a.Is n) : a.Within n n := by
  rw [Value.Within, h, Int.natCast_mul]
  exact ⟨Int.le_refl _, Int.le_refl _⟩

theorem within_of_accepts {token : Token} (hlow : low ≤ twoPow 53) (hhigh : high ≤ twoPow 53)
    (h : (Condition.between (bound low) (bound high)).accepts token = true) :
    token.value.Within low high := by
  obtain ⟨hge, hlt⟩ := (accepts_between_iff hlow hhigh).mp h
  exact ⟨hge, Int.le_of_lt hlt⟩

/-- A whole number that the interval accepts is one of those in it. -/
theorem exists_of_accepts {token : Token} (hlow : low ≤ twoPow 53) (hhigh : high ≤ twoPow 53)
    (h : (Condition.between (bound low) (bound high)).accepts token = true)
    (hwhole : token.value.isWhole = true) :
    ∃ m : Nat, low ≤ m ∧ m < high ∧ token.value.Is m := by
  obtain ⟨n, hn⟩ := Value.isWhole_iff.mp hwhole
  obtain ⟨hge, hlt⟩ := (hn.accepts_between hlow hhigh).mp h
  obtain ⟨m, rfl⟩ := Int.eq_ofNat_of_zero_le (by omega : 0 ≤ n)
  exact ⟨m, by omega, by omega, hn⟩

end Sums

/-! ## What the rules are made of -/

section Operands

variable {text : Text} {passes : Nat} {n : Numeral} {rule : Rule}
  (hn : n ∈ candidates spanishRules text passes) (hrule : rule ∈ spanishRules)
  (hname : n.rule = rule.name)

include hn hrule hname

theorem assembled_of_name : ∃ pieces, Assembles text rule pieces n.key ∧
    ∀ piece ∈ pieces, piece.Known (candidates spanishRules text passes) := by
  obtain ⟨other, hother, hothername, hpieces⟩ := assembled_of_mem_candidates hn
  rwa [rule_eq_of_name hother hrule (hothername.symm.trans hname)] at hpieces

/-- The numbers at both ends of a rule of three elements. -/
theorem operands_of_three {first last : Condition} {middle : Element}
    (helements : rule.elements = [.number first, middle, .number last]) :
    ∃ a ∈ candidates spanishRules text passes, ∃ b ∈ candidates spanishRules text passes,
      a.start = n.start ∧ b.stop = n.stop ∧ first.accepts a.token = true ∧
      last.accepts b.token = true ∧ ∃ node, middle.accepts node = true ∧
        rule.produce [.number a.token, node, .number b.token] = some n.token := by
  obtain ⟨pieces, hassembles, hknown⟩ := assembled_of_name hn hrule hname
  obtain ⟨htaken, hproduce⟩ := apply_eq_some_iff.mp hassembles.apply_eq
  obtain ⟨x, y, z, rfl, hx, _, hz, hstart, hstop⟩ := hassembles.three helements
  obtain ⟨a, ha, hastart, _, hanode, hfirst⟩ := (hknown x (by simp)).exists_number hx
  obtain ⟨b, hb, _, hbstop, hbnode, hlast⟩ := (hknown z (by simp)).exists_number hz
  rw [Window.TakenBy, helements] at htaken
  have hmiddle : middle.accepts y.node = true :=
    (List.forall₂_cons.mp (List.forall₂_cons.mp htaken).2).1
  simp only [List.map_cons, List.map_nil, hanode, hbnode] at hproduce
  exact ⟨a, ha, b, hb, hastart.trans hstart, hbstop.trans hstop, hfirst, hlast, y.node, hmiddle,
    hproduce⟩

/-- The two numbers of a rule with a word between them. -/
theorem operands_about_word {first last : Condition} {pattern : Pattern}
    (helements : rule.elements = [.number first, .text pattern, .number last]) :
    ∃ a ∈ candidates spanishRules text passes, ∃ b ∈ candidates spanishRules text passes,
      b.stop = n.stop ∧ first.accepts a.token = true ∧ last.accepts b.token = true ∧
      ∃ capture,
        rule.produce [.number a.token, .capture capture, .number b.token] = some n.token := by
  obtain ⟨a, ha, b, hb, _, hstop, hfirst, hlast, node, hnode, hproduce⟩ :=
    operands_of_three hn hrule hname helements
  cases node with
  | capture capture => exact ⟨a, ha, b, hb, hstop, hfirst, hlast, capture, hproduce⟩
  | number token => simp [Element.accepts] at hnode

/-- The outer two of the three numbers of a rule. -/
theorem operands_of_numbers {first middle last : Condition}
    (helements : rule.elements = [.number first, .number middle, .number last]) :
    ∃ a ∈ candidates spanishRules text passes, ∃ b ∈ candidates spanishRules text passes,
      a.start = n.start ∧ b.stop = n.stop ∧ first.accepts a.token = true ∧
      last.accepts b.token = true ∧ ∃ token,
        rule.produce [.number a.token, .number token, .number b.token] = some n.token := by
  obtain ⟨a, ha, b, hb, hstart, hstop, hfirst, hlast, node, hnode, hproduce⟩ :=
    operands_of_three hn hrule hname helements
  cases node with
  | number token => exact ⟨a, ha, b, hb, hstart, hstop, hfirst, hlast, token, hproduce⟩
  | capture capture => simp [Element.accepts] at hnode

end Operands

/-! ## The three rules -/

/-- The rule for ten and a unit. -/
def tenAndRule : Rule := compoundRules.get ⟨0, by decide⟩

/-- The rule for the other tens and a unit. -/
def tensAndRule : Rule := compoundRules.get ⟨1, by decide⟩

theorem tenAndRule_mem : tenAndRule ∈ spanishRules :=
  List.mem_append_right _ (List.get_mem _ _)

theorem tensAndRule_mem : tensAndRule ∈ spanishRules :=
  List.mem_append_right _ (List.get_mem _ _)

theorem produce_tenAndRule : tenAndRule.produce = Compound.sum := rfl

theorem produce_tensAndRule : tensAndRule.produce = Compound.sum := rfl

section Ranges

variable {a b token : Token} {ten low high : Nat}

/-- Tens and a unit. -/
theorem range_of_sum (hten : a.value.Is ten) (hpos : 0 < ten) (hle : ten ≤ 90)
    (hunit : (Condition.between (bound low) (bound high)).accepts b = true) (hlow : low ≤ 10)
    (hhigh : high ≤ 10) {capture : Capture}
    (hsum : Compound.sum [.number a, .capture capture, .number b] = some token) :
    (Value.ofNat ten).add? b.value = some token.value ∧
      token.value.Within (ten + low) (ten + high) ∧
      (b.value.isWhole = true → ∃ m, low ≤ m ∧ m < high ∧ token.value = .ofNat (ten + m)) := by
  have hsmall : ∀ m ≤ 100, m ≤ twoPow 53 := fun m hm => le_twoPow_53 (by omega)
  obtain ⟨v, hv, rfl⟩ := plain?_eq_some (show Token.plain? (a.value.add? b.value) = _ from hsum)
  refine ⟨?_, ?_, ?_⟩
  · rw [← hten.eq_ofNat hpos (hsmall _ (by omega)), hv]
  · exact within_add (within_of_is hten) (within_of_accepts (hsmall _ (by omega))
      (hsmall _ (by omega)) hunit) (hsmall _ (by omega)) (hsmall _ (by omega)) hv
  · intro hwhole
    obtain ⟨m, hfrom, hto, hm⟩ :=
      exists_of_accepts (hsmall _ (by omega)) (hsmall _ (by omega)) hunit hwhole
    have his := hten.add hm (hsmall _ (by omega)) hv
    exact ⟨m, hfrom, hto, Value.Is.eq_ofNat (n := ten + m) his (by omega) (hsmall _ (by omega))⟩

/-- Hundreds and a remainder. -/
theorem range_of_hundreds {hundred : Token}
    (hcount : (Condition.between (bound 2) (bound 10)).accepts a = true)
    (hrest : (Condition.between (bound 0) (bound 100)).accepts b = true)
    (hsum : Compound.hundredsOf [.number a, .number hundred, .number b] = some token) :
    ((Value.ofNat 100).mul? a.value).bind (fun product => product.add? b.value) =
        some token.value ∧
      token.value.Within 200 1100 ∧
      (a.value.isWhole = true → b.value.isWhole = true → ∃ m r, 2 ≤ m ∧ m < 10 ∧ r < 100 ∧
        token.value = .ofNat (100 * m + r)) := by
  have hsmall : ∀ m ≤ 1100, m ≤ twoPow 53 := fun m hm => le_twoPow_53 (by omega)
  obtain ⟨v, hv, rfl⟩ := plain?_eq_some (show Token.plain?
    (((Value.ofNat 100).mul? a.value).bind fun product => product.add? b.value) = _ from hsum)
  obtain ⟨product, hproduct, hadd⟩ := Option.bind_eq_some_iff.mp hv
  refine ⟨hv, ?_, ?_⟩
  · have hcounted := within_of_accepts (hsmall 2 (by decide)) (hsmall 10 (by decide)) hcount
    have hremains := within_of_accepts (hsmall 0 (by decide)) (hsmall 100 (by decide)) hrest
    have htimes := within_mul (hsmall 100 (by decide)) (by decide) hcounted
      (hsmall 200 (by decide)) (hsmall 1000 (by decide)) hproduct
    have htotal := within_add htimes hremains (hsmall 200 (by decide)) (hsmall 1100 (by decide)) hadd
    exact htotal
  · intro hwhole hwhole'
    obtain ⟨m, hfrom, hto, hm⟩ :=
      exists_of_accepts (hsmall 2 (by decide)) (hsmall 10 (by decide)) hcount hwhole
    obtain ⟨r, _, hbelow, hr⟩ :=
      exists_of_accepts (hsmall 0 (by decide)) (hsmall 100 (by decide)) hrest hwhole'
    have htimes := (Value.is_ofNat (hsmall 100 (by decide))).mul hm
      (hsmall _ (by omega)) hproduct
    have his := htimes.add hr (hsmall _ (by omega)) hadd
    exact ⟨m, r, hfrom, hto, hbelow,
      Value.Is.eq_ofNat (n := 100 * m + r) his (by omega) (hsmall _ (by omega))⟩

end Ranges

/-! ## Every number found -/

/-- The rules named after a range add up numbers found in the text. Their sums lie between the
bounds that the intervals have together, and when the numbers are whole the sum is a whole number
of the range. -/
theorem named_ranges_hold_the_sums_of_whole_numbers {text : Text} {passes : Nat} {n : Numeral}
    (hn : n ∈ candidates spanishRules text passes) :
    (n.rule = "number (16..19)" →
      ∃ unit ∈ candidates spanishRules text passes, unit.stop = n.stop ∧
        (Value.ofNat 10).add? unit.token.value = some n.token.value ∧
        n.token.value.Within 16 20 ∧
        (unit.token.value.isWhole = true → ∃ v, 16 ≤ v ∧ v ≤ 19 ∧ n.token.value = .ofNat v)) ∧
    (n.rule = "number (21..29 31..39 .. 91..99)" →
      ∃ ten ∈ [20, 30, 40, 50, 60, 70, 80, 90],
      ∃ unit ∈ candidates spanishRules text passes, unit.stop = n.stop ∧
        (Value.ofNat ten).add? unit.token.value = some n.token.value ∧
        n.token.value.Within (ten + 1) (ten + 10) ∧
        (unit.token.value.isWhole = true →
          ∃ v, 21 ≤ v ∧ v ≤ 99 ∧ v % 10 ≠ 0 ∧ n.token.value = .ofNat v)) ∧
    (n.rule = "numbers 200..999" →
      ∃ count ∈ candidates spanishRules text passes, count.start = n.start ∧
      ∃ rest ∈ candidates spanishRules text passes, rest.stop = n.stop ∧
        ((Value.ofNat 100).mul? count.token.value).bind
          (fun product => product.add? rest.token.value) = some n.token.value ∧
        n.token.value.Within 200 1100 ∧
        (count.token.value.isWhole = true → rest.token.value.isWhole = true →
          ∃ v, 200 ≤ v ∧ v ≤ 999 ∧ n.token.value = .ofNat v)) := by
  refine ⟨fun hname => ?sixteen, fun hname => ?twentyOne, fun hname => ?twoHundred⟩
  case sixteen =>
    obtain ⟨a, _, unit, hunit, hstop, hten, haccepts, capture, hsum⟩ :=
      operands_about_word hn tenAndRule_mem hname rfl
    rw [produce_tenAndRule] at hsum
    have his := (accepts_equals_iff (by decide)).mp hten
    obtain ⟨hadd, hwithin, hwhole⟩ :=
      range_of_sum his (by decide) (by decide) haccepts (by decide) (by decide) hsum
    refine ⟨unit, hunit, hstop, hadd, hwithin, fun h => ?_⟩
    obtain ⟨m, hfrom, hto, hvalue⟩ := hwhole h
    exact ⟨10 + m, by omega, by omega, hvalue⟩
  case twentyOne =>
    obtain ⟨a, _, unit, hunit, hstop, htens, haccepts, capture, hsum⟩ :=
      operands_about_word hn tensAndRule_mem hname rfl
    rw [produce_tensAndRule] at hsum
    obtain ⟨ten, hten, his⟩ := accepts_tens_iff.mp htens
    have hround : ∀ m ∈ [20, 30, 40, 50, 60, 70, 80, 90], 20 ≤ m ∧ m ≤ 90 ∧ m % 10 = 0 := by
      decide
    obtain ⟨hge, hle, hmod⟩ := hround ten hten
    obtain ⟨hadd, hwithin, hwhole⟩ :=
      range_of_sum his (by omega) hle haccepts (by decide) (by decide) hsum
    refine ⟨ten, hten, unit, hunit, hstop, hadd, hwithin, fun h => ?_⟩
    obtain ⟨m, hfrom, hto, hvalue⟩ := hwhole h
    exact ⟨ten + m, by omega, by omega, by omega, hvalue⟩
  case twoHundred =>
    obtain ⟨count, hcount, rest, hrest, hstart, hstop, haccepts, haccepts', hundred, hsum⟩ :=
      operands_of_numbers hn hundredsRule_mem hname elements_hundredsRule
    rw [produce_hundredsRule] at hsum
    obtain ⟨hadd, hwithin, hwhole⟩ := range_of_hundreds haccepts haccepts' hsum
    refine ⟨count, hcount, hstart, rest, hrest, hstop, hadd, hwithin, fun h h' => ?_⟩
    obtain ⟨m, r, hfrom, hto, hbelow, hvalue⟩ := hwhole h h'
    exact ⟨100 * m + r, by omega, by omega, hvalue⟩

/-- The numbers of "diez y seis", "treinta y siete" and "tres cientos veinte". -/
theorem sums_of_whole_numbers_are_in_the_named_ranges :
    (∃ n ∈ candidates spanishRules "diez y seis".toList 32, n.rule = "number (16..19)" ∧
      ∃ v, 16 ≤ v ∧ v ≤ 19 ∧ n.token.value = .ofNat v) ∧
    (∃ n ∈ candidates spanishRules "treinta y siete".toList 32,
      n.rule = "number (21..29 31..39 .. 91..99)" ∧
      ∃ v, 21 ≤ v ∧ v ≤ 99 ∧ v % 10 ≠ 0 ∧ n.token.value = .ofNat v) ∧
    ∃ n ∈ candidates spanishRules "tres cientos veinte".toList 32, n.rule = "numbers 200..999" ∧
      ∃ v, 200 ≤ v ∧ v ≤ 999 ∧ n.token.value = .ofNat v := by
  have hten : ⟨0, "diez y seis".toList, ⟨.ofNat 16, none⟩, "number (16..19)"⟩ ∈
      candidates spanishRules "diez y seis".toList 32 ∧
      ∀ n ∈ candidates spanishRules "diez y seis".toList 32, n.token.value.isWhole = true := by
    decide +kernel
  have htens : ⟨0, "treinta y siete".toList, ⟨.ofNat 37, none⟩,
        "number (21..29 31..39 .. 91..99)"⟩ ∈
      candidates spanishRules "treinta y siete".toList 32 ∧
      ∀ n ∈ candidates spanishRules "treinta y siete".toList 32,
        n.token.value.isWhole = true := by
    decide +kernel
  have hhundreds : ⟨0, "tres cientos veinte".toList, ⟨.ofNat 320, none⟩, "numbers 200..999"⟩ ∈
      candidates spanishRules "tres cientos veinte".toList 32 ∧
      ∀ n ∈ candidates spanishRules "tres cientos veinte".toList 32,
        n.token.value.isWhole = true := by
    decide +kernel
  refine ⟨⟨_, hten.1, rfl, ?_⟩, ⟨_, htens.1, rfl, ?_⟩, ⟨_, hhundreds.1, rfl, ?_⟩⟩
  · obtain ⟨unit, hunit, _, _, _, h⟩ :=
      (named_ranges_hold_the_sums_of_whole_numbers hten.1).1 rfl
    exact h (hten.2 unit hunit)
  · obtain ⟨_, _, unit, hunit, _, _, _, h⟩ :=
      (named_ranges_hold_the_sums_of_whole_numbers htens.1).2.1 rfl
    exact h (htens.2 unit hunit)
  · obtain ⟨count, hcount, _, rest, hrest, _, _, _, h⟩ :=
      (named_ranges_hold_the_sums_of_whole_numbers hhundreds.1).2.2 rfl
    exact h (hhundreds.2 count hcount) (hhundreds.2 rest hrest)

/-- The number of "9,9 100 99" is past the range of its rule, and the one of "diez y 6,5" is not
whole. -/
theorem nine_point_nine_hundreds_leave_the_named_range :
    ¬ (∀ text passes, ∀ n ∈ candidates spanishRules text passes, n.rule = "numbers 200..999" →
      ∃ v, 200 ≤ v ∧ v ≤ 999 ∧ n.token.value = .ofNat v) ∧
    ¬ ∀ text passes, ∀ n ∈ candidates spanishRules text passes, n.rule = "number (16..19)" →
      n.token.value.isWhole = true := by
  constructor
  · intro h
    obtain ⟨v, _, hle, hvalue⟩ := h "9,9 100 99".toList 32
      ⟨0, "9,9 100 99".toList, ⟨.ofNat 1089, none⟩, "numbers 200..999"⟩ (by decide +kernel) rfl
    have hexact : (Value.ofNat 1089).Is (1089 : Nat) := Value.is_ofNat (by decide)
    have hequal : Value.ofNat 1089 = .ofNat v := hvalue
    rw [hequal] at hexact
    have hsame := hexact.eq_iff.mp (Value.is_ofNat (le_twoPow_53 (by omega)))
    omega
  · intro h
    obtain ⟨n, hn, hrule, hpart⟩ : ∃ n ∈ candidates spanishRules "diez y 6,5".toList 32,
        n.rule = "number (16..19)" ∧ n.token.value.isWhole = false := by decide +kernel
    exact absurd (h _ _ n hn hrule) (by simp [hpart])

end SpanishNumerals
