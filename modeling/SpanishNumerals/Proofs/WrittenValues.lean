-- The values of numbers written with figures. Figures before the decimals and figures after them
-- write a quotient of a whole number by a power of ten, and what is read is the value nearest to
-- it, whether a point stands between them, a comma or nothing.
import Mathlib.Data.List.Induction
import SpanishNumerals.Proofs.FigureForms
import SpanishNumerals.Proofs.NearestValues
import SpanishNumerals.Proofs.Places

namespace SpanishNumerals

/-! ## Rows of figures -/

theorem AllFigures.ne {row : Text} (h : AllFigures row) {c d : Char} (hc : c ∈ row)
    (hd : d.isDigit = false) : c ≠ d := by
  rintro rfl
  rw [h c hc] at hd
  simp at hd

theorem AllFigures.not_mem {row : Text} (h : AllFigures row) {c : Char}
    (hc : c.isDigit = false) : c ∉ row := fun hmem => h.ne hmem hc rfl

theorem tenPow_add (j k : Nat) : tenPow (j + k) = tenPow j * tenPow k := Nat.pow_add 10 j k

theorem tenPow_le {j k : Nat} (h : j ≤ k) : tenPow j ≤ tenPow k :=
  Nat.pow_le_pow_right (by decide) h

theorem twoPow_le_tenPow (k : Nat) : twoPow k ≤ tenPow k := Nat.pow_le_pow_left (by decide) k

theorem figuresValue_concat (row : Text) (c : Char) :
    figuresValue (row ++ [c]) = 10 * figuresValue row + (c.toNat - '0'.toNat) := by
  simp only [figuresValue, List.foldl_append, List.foldl_cons, List.foldl_nil]

theorem figure_lt_ten {c : Char} (h : c.isDigit = true) : c.toNat - '0'.toNat < 10 := by
  obtain ⟨_, hle⟩ := Char.isDigit_iff_toNat.mp h
  have hnine : '9'.toNat = 9 + '0'.toNat := rfl
  omega

/-- A row of figures writes less than ten to the power of its length. -/
theorem figuresValue_lt {row : Text} (h : AllFigures row) :
    figuresValue row < tenPow row.length := by
  induction row using List.reverseRecOn with
  | nil => exact tenPow_pos 0
  | append_singleton row c ih =>
    obtain ⟨hrow, hc⟩ := allFigures_append.mp h
    have hlt := ih hrow
    have hfigure := figure_lt_ten (hc c List.mem_cons_self)
    have hpow : tenPow (row.length + 1) = tenPow row.length * 10 := Nat.pow_succ ..
    rw [figuresValue_concat, List.length_append, List.length_singleton, hpow]
    omega

/-- A row that does not begin with a zero writes no less than the power below. -/
theorem tenPow_le_figuresValue {c : Char} {row : Text} (hc : c.isDigit = true) (hne : c ≠ '0') :
    tenPow row.length ≤ figuresValue (c :: row) := by
  induction row using List.reverseRecOn with
  | nil =>
    have hone : figuresValue [c] = c.toNat - '0'.toNat := by simp [figuresValue]
    have hpow : tenPow 0 = 1 := rfl
    obtain ⟨hle, _⟩ := Char.isDigit_iff_toNat.mp hc
    have hzero : c.toNat ≠ '0'.toNat := fun h => hne (Char.toNat_inj.mp h)
    rw [hone, List.length_nil, hpow]
    omega
  | append_singleton row d ih =>
    have hpow : tenPow (row.length + 1) = tenPow row.length * 10 := Nat.pow_succ ..
    rw [← List.cons_append, figuresValue_concat, List.length_append, List.length_singleton, hpow]
    omega

/-- A zero in front changes nothing. -/
theorem figuresValue_zero_cons (row : Text) : figuresValue ('0' :: row) = figuresValue row := by
  simp [figuresValue]

theorem byteLength_figures {row : Text} (h : AllFigures row) : byteLength row = row.length := by
  induction row with
  | nil => rfl
  | cons c row ih =>
    have hc : c.utf8Size = 1 := by
      obtain ⟨_, hle⟩ := Char.isDigit_iff_toNat.mp (h c List.mem_cons_self)
      rw [Char.utf8Size_eq_one_iff]
      exact Nat.le_trans hle (by decide)
    rw [byteLength, hc, ih fun d hd => h d (List.mem_cons_of_mem c hd), List.length_cons,
      Nat.add_comm]

/-! ## The number that figures write -/

namespace Value

/-- The value is the nearest one to the number with these figures before the decimals and these
decimals. -/
structure IsWrittenBy (v : Value) (whole fraction : Text) : Prop where
  positive : v.negative = false
  nearest : IsNearest (figuresValue (whole ++ fraction) * quantaPerUnit) (tenPow fraction.length)
    v.quanta

theorem IsWrittenBy.unique {v w : Value} {whole fraction : Text} (hv : v.IsWrittenBy whole fraction)
    (hw : w.IsWrittenBy whole fraction) : v = w :=
  ext (hv.positive.trans hw.positive.symm) (hv.nearest.unique hw.nearest)

/-- The value of figures before the decimals and of decimals, if it is finite. -/
def written? (whole fraction : Text) : Option Value :=
  round? false (figuresValue (whole ++ fraction) * quantaPerUnit) (tenPow fraction.length)
    (tenPow_pos _)

theorem written?_eq_some_iff {whole fraction : Text} {v : Value} :
    written? whole fraction = some v ↔ v.IsWrittenBy whole fraction := by
  rw [written?, round?_eq_some_iff]
  exact ⟨fun h => ⟨h.1, h.2⟩, fun h => ⟨h.positive, h.nearest⟩⟩

theorem written?_zero_cons (whole fraction : Text) :
    written? ('0' :: whole) fraction = written? whole fraction := by
  simp only [written?, List.cons_append, figuresValue_zero_cons]

/-- Up to 308 figures before the decimals write a finite value. -/
theorem exists_isWrittenBy {whole fraction : Text} (hwhole : AllFigures whole)
    (hfraction : AllFigures fraction) (hlength : whole.length ≤ 308) :
    ∃ v : Value, v.IsWrittenBy whole fraction := by
  -- The greatest number on the grid with a finite magnitude.
  have hgrid : OnGrid ((twoPow 53 - 1) * twoPow 2045) := onGrid_mul_twoPow (Nat.sub_le _ 1) 2045
  have hfinite : (twoPow 53 - 1) * twoPow 2045 < quantaLimit := by decide +kernel
  have hgreatest : tenPow 308 * quantaPerUnit ≤ (twoPow 53 - 1) * twoPow 2045 := by decide +kernel
  have hlt : figuresValue (whole ++ fraction) < tenPow fraction.length * tenPow 308 := by
    calc figuresValue (whole ++ fraction)
        _ < tenPow (whole ++ fraction).length :=
          figuresValue_lt (allFigures_append.mpr ⟨hwhole, hfraction⟩)
        _ ≤ tenPow (fraction.length + 308) := by
          rw [List.length_append, Nat.add_comm]
          exact tenPow_le (Nat.add_le_add_left hlength _)
        _ = tenPow fraction.length * tenPow 308 := tenPow_add _ _
  have hle : figuresValue (whole ++ fraction) * quantaPerUnit ≤
      tenPow fraction.length * ((twoPow 53 - 1) * twoPow 2045) := by
    calc figuresValue (whole ++ fraction) * quantaPerUnit
        _ ≤ tenPow fraction.length * tenPow 308 * quantaPerUnit :=
          Nat.mul_le_mul_right _ (Nat.le_of_lt hlt)
        _ ≤ tenPow fraction.length * ((twoPow 53 - 1) * twoPow 2045) := by
          rw [Nat.mul_assoc]
          exact Nat.mul_le_mul_left _ hgreatest
  have hsome : (written? whole fraction).isSome = true :=
    round?_isSome_iff.mpr (Nat.lt_of_le_of_lt (nearest_le (tenPow_pos _) hgrid hle) hfinite)
  obtain ⟨v, hv⟩ := Option.isSome_iff_exists.mp hsome
  exact ⟨v, written?_eq_some_iff.mp hv⟩

end Value

/-- The nearest number to what the figures write is past the greatest finite one. -/
def RoundsToInfinity (whole fraction : Text) : Prop :=
  ∃ quanta, IsNearest (figuresValue (whole ++ fraction) * quantaPerUnit)
    (tenPow fraction.length) quanta ∧ quantaLimit ≤ quanta

/-- Figures that write no value are too many. -/
theorem roundsToInfinity_iff {whole fraction : Text} :
    RoundsToInfinity whole fraction ↔ ¬ ∃ v : Value, v.IsWrittenBy whole fraction := by
  have hnearest := isNearest_nearest (figuresValue (whole ++ fraction) * quantaPerUnit)
    (tenPow_pos fraction.length)
  constructor
  · rintro ⟨quanta, hquanta, hle⟩ ⟨v, hv⟩
    rw [hquanta.unique hv.nearest] at hle
    exact absurd v.bounded (Nat.not_lt.mpr hle)
  · intro hnone
    refine ⟨_, hnearest, ?_⟩
    by_contra hlt
    exact hnone ⟨⟨false, _, hnearest.onGrid, Nat.lt_of_not_le hlt⟩, rfl, hnearest⟩

/-! ## Decimals -/

theorem nearest_eq_zero {num den : Nat} (h : 2 * num < den) : nearest num den = 0 := by
  have hdiv : num / den = 0 := Nat.div_eq_of_lt (by omega)
  have hspacing : den * twoPow 0 = den := Nat.mul_one den
  have hround : roundDiv num den = 0 := by
    simp [roundDiv, hdiv, Nat.mod_eq_of_lt (by omega : num < den), h]
  simp [nearest, hdiv, hspacing, hround]

theorem round_congr {negative : Bool} {num den num' den' : Nat} {hden : 0 < den}
    {hden' : 0 < den'} (h : nearest num den = nearest num' den') :
    Binary64.round negative num den hden = Binary64.round negative num' den' hden' := by
  have hround : Value.round? negative num den hden = Value.round? negative num' den' hden' := by
    apply Option.ext
    intro v
    rw [Value.round?_eq_some_iff_quanta, Value.round?_eq_some_iff_quanta, h]
  unfold Binary64.round
  rw [hround]

/-- A whole number by more decimals than this is nearest to zero. -/
theorem two_mul_lt_tenPow (n : Nat) : 2 * (n * quantaPerUnit) < tenPow (400 + n.log2) := by
  have hpow : twoPow 1076 ≤ tenPow 400 := by decide +kernel
  calc 2 * (n * quantaPerUnit)
      _ < twoPow 1 * (twoPow (n.log2 + 1) * quantaPerUnit) :=
        Nat.mul_lt_mul_of_pos_left
          (Nat.mul_lt_mul_of_pos_right (lt_twoPow_log2 n) quantaPerUnit_pos) Nat.two_pos
      _ = twoPow 1076 * twoPow n.log2 := by
        rw [quantaPerUnit, ← twoPow_add, ← twoPow_add, ← twoPow_add]
        congr 1
        omega
      _ ≤ tenPow 400 * tenPow n.log2 := Nat.mul_le_mul hpow (twoPow_le_tenPow _)
      _ = tenPow (400 + n.log2) := (tenPow_add _ _).symm

namespace Decimal

theorem boundedExponent_decimals (n places : Nat) :
    (Decimal.mk false n (0 - (places : Int))).boundedExponent =
      -((min places (400 + n.log2) : Nat) : Int) := by
  simp only [boundedExponent]
  omega

/-- So many decimals divide by a power of ten. Where the exponent is bounded, every number of
decimals gives zero. -/
theorem toBinary64_decimals (n places : Nat) :
    (Decimal.mk false n (0 - (places : Int))).toBinary64 =
      Binary64.round false (n * quantaPerUnit) (tenPow places) (tenPow_pos places) := by
  have hbounded := boundedExponent_decimals n places
  unfold toBinary64
  rcases Nat.eq_zero_or_pos places with rfl | hpos
  · have hzero : -((min 0 (400 + n.log2) : Nat) : Int) = 0 := by simp
    have hone : n * tenPow 0 = n := Nat.mul_one n
    rw [hzero] at hbounded
    rw [if_pos (Int.le_of_eq hbounded.symm)]
    simp only [hbounded, Int.toNat_zero, hone]
    rfl
  · have hneg : ¬ 0 ≤ (Decimal.mk false n (0 - (places : Int))).boundedExponent := by
      rw [hbounded]
      omega
    have hplaces : (-(Decimal.mk false n (0 - (places : Int))).boundedExponent).toNat =
        min places (400 + n.log2) := by
      rw [hbounded, Int.neg_neg, Int.toNat_natCast]
    rw [if_neg hneg]
    apply round_congr
    rw [hplaces]
    rcases Nat.le_total places (400 + n.log2) with hle | hle
    · rw [Nat.min_eq_left hle]
    · have hsmall := two_mul_lt_tenPow n
      rw [Nat.min_eq_right hle, nearest_eq_zero hsmall,
        nearest_eq_zero (Nat.lt_of_lt_of_le hsmall (tenPow_le hle))]

end Decimal

/-! ## Reading -/

theorem splitSign_figure {c : Char} (h : c.isDigit = true) (text : Text) :
    splitSign (c :: text) = (false, c :: text) := by
  unfold splitSign
  split
  · rename_i heq
    obtain ⟨rfl, _⟩ := List.cons.inj heq
    simp at h
  · rename_i heq
    obtain ⟨rfl, _⟩ := List.cons.inj heq
    simp at h
  · rfl

theorem value?_round {negative : Bool} {num den : Nat} {hden : 0 < den} :
    (Binary64.round negative num den hden).value? = Value.round? negative num den hden := by
  unfold Binary64.round
  generalize Value.round? negative num den hden = found
  cases found <;> rfl

theorem readDecimal_eq_value? {text : Text} {number : Binary64}
    (h : Binary64.read? text = some number) : (readDecimal text).toOption = number.value? := by
  cases number <;> simp [readDecimal, h, Except.toOption, Binary64.value?]

section Reading

variable {whole fraction : Text} (hne : whole ≠ []) (hwhole : AllFigures whole)

include hne hwhole

theorem splitSign_figures (rest : Text) : splitSign (whole ++ rest) = (false, whole ++ rest) := by
  obtain ⟨c, row, rfl⟩ := List.exists_cons_of_ne_nil hne
  exact splitSign_figure (hwhole c List.mem_cons_self) _

/-- Figures before the decimals, then what gives the decimals and nothing more. -/
theorem readDecimal_eq {rest : Text} (hrest : noFigureFollows rest = true)
    (hfraction : splitFraction rest = (fraction, [])) :
    (readDecimal (whole ++ rest)).toOption = Value.written? whole fraction := by
  obtain ⟨htake, hdrop⟩ := Prod.mk.inj (splitFigures_eq_iff.mpr ⟨rfl, hwhole, hrest⟩)
  have hread : Decimal.read? (whole ++ rest) =
      some ⟨false, figuresValue (whole ++ fraction), 0 - (fraction.length : Int)⟩ := by
    simp only [Decimal.read?, splitSign_figures hne hwhole, htake, hdrop, hfraction]
    rw [if_neg fun h => hne h.1]
    rfl
  have hnumber : Binary64.read? (whole ++ rest) = some (Decimal.toBinary64
      ⟨false, figuresValue (whole ++ fraction), 0 - (fraction.length : Int)⟩) := by
    simp only [Binary64.read?, hread]
  rw [readDecimal_eq_value? hnumber, Decimal.toBinary64_decimals, value?_round, Value.written?]

theorem readDecimal_whole : (readDecimal whole).toOption = Value.written? whole [] := by
  have h : (readDecimal (whole ++ [])).toOption = Value.written? whole [] :=
    readDecimal_eq hne hwhole rfl rfl
  rwa [List.append_nil] at h

theorem readDecimal_point (hfraction : AllFigures fraction) :
    (readDecimal (whole ++ '.' :: fraction)).toOption = Value.written? whole fraction := by
  have hsplit : splitFigures (fraction ++ []) = (fraction, []) :=
    splitFigures_eq_iff.mpr ⟨rfl, hfraction, rfl⟩
  rw [List.append_nil] at hsplit
  exact readDecimal_eq hne hwhole rfl hsplit

theorem readWhole_eq (hlength : whole.length ≤ maxIntegerFigures) :
    (readWhole whole).toOption = Value.written? whole [] := by
  have hbytes : ¬ maxIntegerFigures < byteLength whole := by
    rw [byteLength_figures hwhole]
    exact Nat.not_lt.mpr hlength
  have hread : readInteger? whole = some (figuresValue whole : Int) := by
    have hsign := splitSign_figures hne hwhole []
    rw [List.append_nil] at hsign
    simp only [readInteger?, hsign]
    rw [if_pos ⟨hne, List.all_eq_true.mpr hwhole⟩]
    rfl
  have hvalue : Value.ofInt? (figuresValue whole : Int) = Value.written? whole [] := by
    have hsign : ¬ (figuresValue whole : Int) < 0 := Int.not_lt.mpr (Int.natCast_nonneg _)
    rw [Value.ofInt?, Value.written?, decide_eq_false hsign, Int.natAbs_natCast, List.append_nil]
    rfl
  -- Under a name of its own the rounding is not computed.
  obtain ⟨round, hround⟩ : ∃ round, round = Value.ofInt? := ⟨_, rfl⟩
  rw [← hvalue]
  unfold readWhole
  rw [← hround, if_neg hbytes, hread]
  dsimp only
  cases round (figuresValue whole) <;> rfl

end Reading

/-! ## The separators -/

/-- The figures before the decimals as they are read: a zero when there are none. -/
def atLeastZero (whole : Text) : Text := if whole = [] then ['0'] else whole

theorem readDecimal_atLeastZero {whole fraction : Text} (hwhole : AllFigures whole)
    (hfraction : AllFigures fraction) :
    (readDecimal (atLeastZero whole ++ '.' :: fraction)).toOption =
      Value.written? whole fraction := by
  unfold atLeastZero
  split
  · rename_i hnil
    have hzero : AllFigures ['0'] := by simp [AllFigures]
    rw [readDecimal_point (by simp) hzero hfraction, Value.written?_zero_cons, hnil]
  · rename_i hne
    exact readDecimal_point hne hwhole hfraction

theorem filter_figures {row : Text} (h : AllFigures row) : row.filter (· ≠ '.') = row := by
  rw [List.filter_eq_self]
  intro c hc
  exact decide_eq_true (h.ne hc rfl)

theorem map_comma_figures {row : Text} (h : AllFigures row) :
    row.map (fun c => if c = ',' then '.' else c) = row := by
  rw [List.map_congr_left (g := id), List.map_id]
  intro c hc
  exact if_neg (h.ne hc rfl)

theorem normalizeSeparators_figures {row fraction : Text}
    (hrow : AllFigures (row.filter (· ≠ '.'))) (hfraction : AllFigures fraction) :
    normalizeSeparators (row ++ ',' :: fraction) =
      atLeastZero (row.filter (· ≠ '.')) ++ '.' :: fraction := by
  have hplain : ((row ++ ',' :: fraction).filter (· ≠ '.')).map
      (fun c => if c = ',' then '.' else c) = row.filter (· ≠ '.') ++ '.' :: fraction := by
    rw [List.filter_append, List.filter_cons_of_pos (by decide), filter_figures hfraction,
      List.map_append, List.map_cons, map_comma_figures hrow, map_comma_figures hfraction]
    rfl
  unfold normalizeSeparators
  rw [hplain]
  dsimp only
  cases hfigures : row.filter (· ≠ '.') with
  | nil => rfl
  | cons c figures =>
    have hc : c ≠ '.' := hrow.ne (hfigures ▸ List.mem_cons_self) rfl
    split
    · rename_i heq
      exact absurd (List.cons.inj heq).1 hc
    · rfl

end SpanishNumerals
