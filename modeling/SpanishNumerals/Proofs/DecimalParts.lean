-- Numbers read as decimals. A number from zero on is divided by the first power of ten above it,
-- and what comes of it stays below one: the grid has a number below one that rounding does not
-- pass. A number below zero lies below the first power already and stays as it is, so that the
-- rule of the decimals adds it whole.
import SpanishNumerals.Proofs.NearestValues
import SpanishNumerals.Proofs.WordsAlone

namespace SpanishNumerals

/-! ## Rounding below one -/

/-- The greatest number on the grid below one unit. -/
def belowUnit : Nat := (twoPow 53 - 1) * twoPow 1021

theorem onGrid_belowUnit : OnGrid belowUnit := onGrid_mul_twoPow (Nat.sub_le _ 1) 1021

theorem quantaPerUnit_eq : quantaPerUnit = belowUnit + twoPow 1021 := by decide +kernel

section Quotient

variable {quanta den : Nat} (hgrid : OnGrid quanta) (hlt : quanta < den * quantaPerUnit)

include hgrid hlt

/-- So many units are a multiple of the spacing below them. -/
theorem spacing_dvd_units (hden : den ≤ twoPow 53) :
    twoPow (quanta.log2 - 52) ∣ den * quantaPerUnit := by
  have hle : quanta.log2 - 52 ≤ 1074 := by
    rcases Nat.eq_zero_or_pos quanta with rfl | hpos
    · decide
    · have hunits : twoPow (53 + 1074) = twoPow 53 * quantaPerUnit := by
        rw [quantaPerUnit, twoPow_add]
      have hlog : quanta.log2 < 53 + 1074 := by
        rw [log2_lt (Nat.ne_of_gt hpos), hunits]
        exact Nat.lt_of_lt_of_le hlt (Nat.mul_le_mul_right _ hden)
      omega
  exact Nat.dvd_trans (twoPow_dvd hle) (Nat.dvd_mul_left _ _)

/-- A quotient below one is no more than the greatest number on the grid there. -/
theorem le_mul_belowUnit (hden : den ≤ twoPow 53) : quanta ≤ den * belowUnit := by
  have hunits := spacing_dvd_units hgrid hlt hden
  have hquanta := Nat.dvd_of_mod_eq_zero hgrid
  have hdigits := lt_twoPow_spacing quanta
  generalize quanta.log2 - 52 = k at hunits hquanta hdigits
  rcases Nat.lt_or_ge (den * twoPow 1021) (twoPow k) with hwide | hnarrow
  · -- Both are multiples of the spacing, and the gap between them is one at least.
    obtain ⟨c, rfl⟩ := hquanta
    obtain ⟨m, hm⟩ := hunits
    rw [hm] at hlt
    have hstep : twoPow k * (c + 1) ≤ twoPow k * m :=
      Nat.mul_le_mul_left _ (Nat.lt_of_mul_lt_mul_left hlt)
    have hsplit : den * quantaPerUnit = den * belowUnit + den * twoPow 1021 := by
      rw [quantaPerUnit_eq, Nat.mul_add]
    rw [← hm, hsplit, Nat.mul_add] at hstep
    omega
  · obtain ⟨c, rfl⟩ := hquanta
    rw [Nat.add_comm, twoPow_add] at hdigits
    have hc : c ≤ twoPow 53 - 1 := Nat.le_sub_one_of_lt (Nat.lt_of_mul_lt_mul_left hdigits)
    calc twoPow k * c
        _ ≤ den * twoPow 1021 * (twoPow 53 - 1) := Nat.mul_le_mul hnarrow hc
        _ = den * belowUnit := by rw [belowUnit, Nat.mul_assoc, Nat.mul_comm (twoPow 1021)]

theorem nearest_lt_quantaPerUnit (hpos : 0 < den) (hden : den ≤ twoPow 53) :
    nearest quanta den < quantaPerUnit := by
  have hle := nearest_le hpos onGrid_belowUnit (le_mul_belowUnit hgrid hlt hden)
  have hbelow : belowUnit < quantaPerUnit := by decide +kernel
  exact Nat.lt_of_le_of_lt hle hbelow

end Quotient

/-! ## The first power of ten above a number -/

namespace Value

/-- A number is divided by the first power of ten above it. -/
theorem asDecimals_eq_divNat {v : Value} {k : Nat} (hk : k < 10)
    (hlt : v.signed < (tenPow k * quantaPerUnit : Nat))
    (hfirst : ∀ j < k, ((tenPow j * quantaPerUnit : Nat) : Int) ≤ v.signed) :
    v.asDecimals = v.divNat (tenPow k) (tenPow_pos k) := by
  have hfind : (List.range 10).find? (fun k => v.signed < (tenPow k * quantaPerUnit : Nat)) =
      some k := by
    rw [List.find?_range_eq_some]
    refine ⟨decide_eq_true hlt, List.mem_range.mpr hk, ?_⟩
    intro j hj
    rw [Bool.not_eq_true', decide_eq_false_iff_not, Int.not_lt]
    exact hfirst j hj
  rw [asDecimals, hfind]

/-- The first power is one, and nothing is divided by it. -/
theorem asDecimals_eq_self {v : Value} (hlt : v.signed < quantaPerUnit) : v.asDecimals = v := by
  have hone : tenPow 0 = 1 := rfl
  have hunit : tenPow 0 * quantaPerUnit = quantaPerUnit := by rw [hone, Nat.one_mul]
  rw [← hunit] at hlt
  rw [asDecimals_eq_divNat (by decide) hlt (fun j hj => absurd hj (Nat.not_lt_zero j))]
  have hnearest : nearest v.quanta (tenPow 0) = v.quanta := by
    have h := nearest_of_onGrid (tenPow_pos 0) v.onGrid
    rwa [hone, Nat.one_mul] at h
  exact ext rfl hnearest

/-- A number of ten figures and more is divided by no power. -/
theorem asDecimals_of_le {v : Value} (hle : ((tenPow 9 * quantaPerUnit : Nat) : Int) ≤ v.signed) :
    v.asDecimals = .zero false := by
  have hfind : (List.range 10).find? (fun k => v.signed < (tenPow k * quantaPerUnit : Nat)) =
      none := by
    rw [List.find?_eq_none]
    intro k hk
    have hpow : tenPow k * quantaPerUnit ≤ tenPow 9 * quantaPerUnit :=
      Nat.mul_le_mul_right _ (tenPow_le (Nat.le_of_lt_succ (List.mem_range.mp hk)))
    simp only [decide_eq_true_eq]
    omega
  rw [asDecimals, hfind]

/-- What a number as decimals is: a quotient, or zero. -/
theorem asDecimals_cases (v : Value) :
    (∃ k < 10, v.signed < (tenPow k * quantaPerUnit : Nat) ∧
      v.asDecimals = v.divNat (tenPow k) (tenPow_pos k)) ∨
    0 ≤ v.signed ∧ v.asDecimals = .zero false := by
  unfold asDecimals
  cases hfind : (List.range 10).find? (fun k => v.signed < (tenPow k * quantaPerUnit : Nat)) with
  | none =>
    have hle := List.find?_eq_none.mp hfind 0 (by decide)
    simp only [decide_eq_true_eq] at hle
    exact Or.inr ⟨by omega, rfl⟩
  | some k =>
    have hlt := List.find?_some hfind
    have hk := List.mem_range.mp (List.mem_of_find?_eq_some hfind)
    exact Or.inl ⟨k, hk, of_decide_eq_true hlt, rfl⟩

theorem asDecimals_lt_one (v : Value) : v.asDecimals.signed < quantaPerUnit := by
  have hunit : (0 : Int) < quantaPerUnit := Int.natCast_pos.mpr quantaPerUnit_pos
  rcases v.asDecimals_cases with ⟨k, hk, hlt, hdecimals⟩ | ⟨_, hdecimals⟩
  · rw [hdecimals]
    cases hsign : v.negative with
    | true =>
      simp only [signed, divNat, hsign, if_true]
      omega
    | false =>
      simp only [signed, hsign, Bool.false_eq_true, if_false] at hlt
      have hpow : tenPow k ≤ twoPow 53 := Nat.le_trans (tenPow_le (by omega : k ≤ 9)) (by decide)
      have hnearest := nearest_lt_quantaPerUnit v.onGrid (Int.ofNat_lt.mp hlt) (tenPow_pos k) hpow
      simp only [signed, divNat, hsign, Bool.false_eq_true, if_false, Int.ofNat_lt]
      exact hnearest
  · rw [hdecimals, signed_zero]
    exact hunit

/-- The sign stays. -/
theorem asDecimals_nonneg_iff (v : Value) : 0 ≤ v.asDecimals.signed ↔ 0 ≤ v.signed := by
  rcases Int.lt_or_le v.signed 0 with hneg | hnonneg
  · rw [asDecimals_eq_self (Int.lt_of_lt_of_le hneg (Int.natCast_nonneg _))]
  · refine iff_of_true ?_ hnonneg
    rcases v.asDecimals_cases with ⟨k, _, _, hdecimals⟩ | ⟨_, hdecimals⟩
    · rw [hdecimals]
      cases hsign : v.negative with
      | true =>
        -- The negative zero.
        have hzero : v.quanta = 0 := by
          simp only [signed, hsign, if_true] at hnonneg
          omega
        have hnearest : nearest 0 (tenPow k) = 0 :=
          nearest_eq_zero (by have := tenPow_pos k; omega)
        simp [signed, divNat, hsign, hzero, hnearest]
      | false => simp [signed, divNat, hsign]
    · rw [hdecimals, signed_zero]

end Value

/-! ## The rule of the decimals -/

theorem takenBy_pointRule_iff {a b : Token} {capture : Capture} :
    Window.TakenBy [.number a, .capture capture, .number b] pointRule.elements ↔
      b.grain = none := by
  have helements : pointRule.elements =
      [.number .any, wordElement "punto", .number .unscaled] := rfl
  simp only [helements, wordElement, Window.takenBy_number, Window.takenBy_text,
    Window.takenBy_nil, accepts_unscaled]
  constructor
  · rintro ⟨_, _, _, ⟨_, _, ⟨_, _, hb, rfl, hlast⟩, hmiddle⟩, hfirst⟩
    cases hfirst
    cases hmiddle
    cases hlast
    exact hb
  · intro hb
    exact ⟨a, _, rfl, ⟨capture, _, ⟨b, _, hb, rfl, rfl⟩, rfl⟩, rfl⟩

/-- A number and the decimals behind it. -/
theorem apply_pointRule {whole fraction : Token} (hgrain : fraction.grain = none)
    (capture : Capture) :
    pointRule.apply [.number whole, .capture capture, .number fraction] =
      Token.plain? (whole.value.add? fraction.value.asDecimals) := by
  apply Option.ext
  intro token
  rw [apply_eq_some_iff, and_iff_right (takenBy_pointRule_iff.mpr hgrain)]
  rfl

/-- In every window that the rule of the decimals takes, the second number is read as decimals and
added to the first. These are below one, and below zero only when the number itself is. Then the
number is added as it stands. A number of ten figures and more adds nothing. -/
theorem decimals_are_a_part_of_one_unless_the_number_is_below_zero {a b : Token}
    {capture : Capture}
    (htaken : Window.TakenBy [.number a, .capture capture, .number b] pointRule.elements) :
    pointRule.apply [.number a, .capture capture, .number b] =
        Token.plain? (a.value.add? b.value.asDecimals) ∧
      b.value.asDecimals.signed < quantaPerUnit ∧
      (0 ≤ b.value.asDecimals.signed ↔ 0 ≤ b.value.signed) ∧
      (b.value.signed < 0 → b.value.asDecimals = b.value) ∧
      (((tenPow 9 * quantaPerUnit : Nat) : Int) ≤ b.value.signed →
        b.value.asDecimals = .zero false) := by
  refine ⟨apply_pointRule (takenBy_pointRule_iff.mp htaken) capture, b.value.asDecimals_lt_one,
    b.value.asDecimals_nonneg_iff, ?_, Value.asDecimals_of_le⟩
  intro hneg
  exact Value.asDecimals_eq_self (Int.lt_of_lt_of_le hneg (Int.natCast_nonneg _))

/-- The window of "tres punto veinticinco". -/
theorem twenty_five_is_read_as_decimals :
    Window.TakenBy [.number ⟨.ofNat 3, none⟩, .capture ⟨"punto".toList, []⟩,
        .number ⟨.ofNat 25, none⟩] pointRule.elements ∧
      pointRule.apply [.number ⟨.ofNat 3, none⟩, .capture ⟨"punto".toList, []⟩,
          .number ⟨.ofNat 25, none⟩] =
        Token.plain? ((Value.ofNat 3).add? (Value.ofNat 25).asDecimals) ∧
      (Value.ofNat 25).asDecimals.signed < quantaPerUnit ∧
      (0 ≤ (Value.ofNat 25).asDecimals.signed ↔ 0 ≤ (Value.ofNat 25).signed) ∧
      ((Value.ofNat 25).signed < 0 → (Value.ofNat 25).asDecimals = .ofNat 25) ∧
      (((tenPow 9 * quantaPerUnit : Nat) : Int) ≤ (Value.ofNat 25).signed →
        (Value.ofNat 25).asDecimals = .zero false) := by
  have htaken : Window.TakenBy [.number ⟨.ofNat 3, none⟩, .capture ⟨"punto".toList, []⟩,
      .number ⟨.ofNat 25, none⟩] pointRule.elements := takenBy_pointRule_iff.mpr rfl
  exact ⟨htaken, decimals_are_a_part_of_one_unless_the_number_is_below_zero htaken⟩

/-- The window of "tres punto menos cinco". The number is below zero and so is what is added. -/
theorem minus_five_is_added_as_it_stands :
    Window.TakenBy [.number ⟨.ofNat 3, none⟩, .capture ⟨"punto".toList, []⟩,
        .number ⟨(Value.ofNat 5).neg, none⟩] pointRule.elements ∧
      ¬ 0 ≤ (Value.ofNat 5).neg.asDecimals.signed ∧
      ((analyze spanishRules "3 punto menos 5".toList 32).map
        fun n => (n.start, n.stop, n.token.text)) = [(0, 15, "-2".toList)] :=
  ⟨takenBy_pointRule_iff.mpr rfl, by decide +kernel, by decide +kernel⟩

end SpanishNumerals
