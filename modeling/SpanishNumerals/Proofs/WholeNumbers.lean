-- Whole numbers among the values. Up to 2^53 they are added, multiplied and compared as whole
-- numbers are: nothing is rounded away.
import Mathlib.Tactic.Ring
import SpanishNumerals.Catalogue

namespace SpanishNumerals

/-! ## Rounding what needs none -/

/-- A number on the grid is the nearest one to itself. -/
theorem nearest_of_onGrid {den m : Nat} (hden : 0 < den) (hm : OnGrid m) :
    nearest (den * m) den = m := by
  have hspacing := twoPow_pos (m.log2 - 52)
  obtain ⟨c, hc⟩ := Nat.dvd_of_mod_eq_zero hm
  have hnum : den * m = den * twoPow (m.log2 - 52) * c := by rw [Nat.mul_assoc, ← hc]
  have hround : roundDiv (den * m) (den * twoPow (m.log2 - 52)) = c := by
    apply Nat.le_antisymm
    · exact roundDiv_le (Nat.mul_pos hden hspacing) (Nat.le_of_eq hnum)
    · exact le_roundDiv (Nat.mul_pos hden hspacing) (Nat.le_of_eq hnum.symm)
  unfold nearest
  rw [Nat.mul_div_cancel_left m hden]
  dsimp only
  rw [hround, Nat.mul_comm]
  exact hc.symm

theorem le_twoPow_53 {n : Nat} (h : n ≤ 2000000) : n ≤ twoPow 53 :=
  Nat.le_trans h (by decide)

namespace Value

theorem ext {a b : Value} (hnegative : a.negative = b.negative) (hquanta : a.quanta = b.quanta) :
    a = b := by
  cases a
  cases b
  simp only at hnegative hquanta
  subst hnegative hquanta
  rfl

theorem natAbs_signed (v : Value) : v.signed.natAbs = v.quanta := by
  unfold signed
  split <;> simp

theorem round?_exact (v : Value) {num den : Nat} (hden : 0 < den) (h : num = den * v.quanta) :
    round? v.negative num den hden = some v := by
  have hnearest : nearest num den = v.quanta := by rw [h, nearest_of_onGrid hden v.onGrid]
  unfold round?
  rw [dif_pos (by rw [hnearest]; exact v.bounded)]
  exact congrArg some (ext rfl hnearest)

/-! ## Sums and products -/

section Arithmetic

variable {a b n : Nat}

theorem signed_ofNat (h : n ≤ twoPow 53) : (ofNat n).signed = (n * quantaPerUnit : Nat) := by
  have hquanta := quanta_ofNat h
  unfold signed
  rw [hquanta]
  rfl

theorem add?_ofNat (h : a + b ≤ twoPow 53) :
    (ofNat a).add? (ofNat b) = some (ofNat (a + b)) := by
  have hsum : (ofNat a).signed + (ofNat b).signed = ((a + b) * quantaPerUnit : Nat) := by
    rw [signed_ofNat (Nat.le_trans (Nat.le_add_right a b) h),
      signed_ofNat (Nat.le_trans (Nat.le_add_left b a) h), Nat.add_mul]
    exact (Int.natCast_add _ _).symm
  unfold add?
  rw [hsum]
  dsimp only
  split
  · rename_i hzero
    have hab : (a + b) * quantaPerUnit = 0 := by exact_mod_cast hzero
    refine congrArg some (ext rfl ?_)
    rw [quanta_ofNat h, hab]
    rfl
  · have hneg : ¬ (((a + b) * quantaPerUnit : Nat) : Int) < 0 := Int.not_lt.mpr (Int.natCast_nonneg _)
    rw [decide_eq_false hneg, Int.natAbs_natCast]
    apply round?_exact (ofNat (a + b))
    rw [quanta_ofNat h, Nat.one_mul]

theorem mul?_ofNat (ha : a ≤ twoPow 53) (hb : b ≤ twoPow 53) (h : a * b ≤ twoPow 53) :
    (ofNat a).mul? (ofNat b) = some (ofNat (a * b)) := by
  unfold mul?
  apply round?_exact (ofNat (a * b))
  rw [quanta_ofNat h, quanta_ofNat ha, quanta_ofNat hb]
  calc a * quantaPerUnit * (b * quantaPerUnit)
      _ = a * b * (quantaPerUnit * quantaPerUnit) := Nat.mul_mul_mul_comm ..
      _ = quantaPerUnit * (a * b * quantaPerUnit) := by rw [← Nat.mul_assoc, Nat.mul_comm]

theorem ofNat?_eq (h : n ≤ twoPow 53) : ofNat? n = some (ofNat n) := by
  unfold ofNat?
  apply round?_exact (ofNat n)
  rw [quanta_ofNat h, Nat.one_mul]

end Arithmetic

/-! ## Whole numbers of either sign -/

/-- The value is this whole number. Both zeros are zero. -/
def Is (v : Value) (n : Int) : Prop := v.signed = n * quantaPerUnit

theorem is_ofNat {n : Nat} (h : n ≤ twoPow 53) : (ofNat n).Is n := by
  unfold Is
  rw [signed_ofNat h, Int.natCast_mul]

namespace Is

variable {a b v : Value} {m n : Int}

theorem neg (h : v.Is n) : v.neg.Is (-n) := by
  unfold Is at h ⊢
  rw [signed_neg, h, Int.neg_mul]

theorem quanta_eq (h : v.Is n) : v.quanta = n.natAbs * quantaPerUnit := by
  rw [← v.natAbs_signed, h, Int.natAbs_mul, Int.natAbs_natCast]

/-- The sum of whole numbers is whole, when it is none of those that are too great. -/
theorem add (ha : a.Is m) (hb : b.Is n) (hle : (m + n).natAbs ≤ twoPow 53)
    (hv : a.add? b = some v) : v.Is (m + n) := by
  have hsum : a.signed + b.signed = (m + n) * quantaPerUnit := by rw [ha, hb, Int.add_mul]
  unfold add? at hv
  rw [hsum] at hv
  dsimp only at hv
  unfold Is
  split at hv
  · rename_i hzero
    obtain rfl := Option.some.inj hv
    rw [signed_zero, hzero]
  · have habs : ((m + n) * quantaPerUnit).natAbs = (m + n).natAbs * quantaPerUnit := by
      rw [Int.natAbs_mul, Int.natAbs_natCast]
    have hexact := round?_exact ⟨decide ((m + n) * quantaPerUnit < 0), (m + n).natAbs * quantaPerUnit,
      onGrid_mul_quantaPerUnit hle, mul_quantaPerUnit_lt hle⟩ Nat.one_pos
      (show ((m + n) * quantaPerUnit).natAbs = _ by rw [habs, Nat.one_mul])
    obtain rfl := Option.some.inj (hexact.symm.trans hv)
    simp only [signed, ← habs, decide_eq_true_eq]
    omega

/-- The product of whole numbers is whole, when it is none of those that are too great. -/
theorem mul (ha : a.Is m) (hb : b.Is n) (hle : (m * n).natAbs ≤ twoPow 53)
    (hv : a.mul? b = some v) : v.Is (m * n) := by
  have hquanta : a.quanta * b.quanta = quantaPerUnit * ((m * n).natAbs * quantaPerUnit) := by
    rw [ha.quanta_eq, hb.quanta_eq, Nat.mul_mul_mul_comm, ← Int.natAbs_mul, ← Nat.mul_assoc,
      Nat.mul_comm]
  have hexact := round?_exact ⟨a.negative != b.negative, (m * n).natAbs * quantaPerUnit,
    onGrid_mul_quantaPerUnit hle, mul_quantaPerUnit_lt hle⟩ quantaPerUnit_pos hquanta
  obtain rfl := Option.some.inj (hexact.symm.trans hv)
  -- The sign is right because the exact product of the signed quanta has it too.
  have hproduct : (quantaPerUnit : Int) * signed ⟨a.negative != b.negative,
      (m * n).natAbs * quantaPerUnit, onGrid_mul_quantaPerUnit hle, mul_quantaPerUnit_lt hle⟩ =
      a.signed * b.signed := by
    have hcast : (quantaPerUnit : Int) * ((m * n).natAbs * quantaPerUnit : Nat) =
        a.quanta * b.quanta := by exact_mod_cast hquanta.symm
    unfold signed
    cases a.negative <;> cases b.negative <;>
      simp only [bne_self_eq_false, Bool.false_bne, Bool.true_bne, Bool.not_false, Bool.false_eq_true,
        if_true, if_false, Int.neg_mul, Int.mul_neg, Int.neg_neg, hcast]
  refine Int.eq_of_mul_eq_mul_left (Int.natCast_ne_zero.mpr (Nat.ne_of_gt quantaPerUnit_pos)) ?_
  rw [hproduct, ha, hb]
  ring

end Is

end Value

/-! ## Conditions -/

theorem accepts_unscaled {token : Token} :
    Condition.unscaled.accepts token = true ↔ token.grain = none := by
  simp only [Condition.accepts, Option.isNone_iff_eq_none]

theorem accepts_all {conditions : List Condition} {token : Token} :
    (Condition.all conditions).accepts token = true ↔
      ∀ condition ∈ conditions, condition.accepts token = true := by
  rw [Condition.accepts, Condition.acceptsAll_eq, List.all_eq_true]

section AnyValue

variable {token : Token} {a b : Nat}

theorem accepts_between_iff (ha : a ≤ twoPow 53) (hb : b ≤ twoPow 53) :
    (Condition.between (bound a) (bound b)).accepts token = true ↔
      ((a * quantaPerUnit : Nat) : Int) ≤ token.value.signed ∧
        token.value.signed < (b * quantaPerUnit : Nat) := by
  rw [← Value.signed_ofNat ha, ← Value.signed_ofNat hb]
  simp only [Condition.accepts, bound, Binary64.atMost, Binary64.less, Binary64.equals,
    Bool.and_eq_true, Bool.or_eq_true, decide_eq_true_eq]
  omega

theorem accepts_equals_iff (ha : a ≤ twoPow 53) :
    (Condition.equals (bound a)).accepts token = true ↔ token.value.Is a := by
  simp only [Condition.accepts, bound, Binary64.equals, decide_eq_true_eq]
  rw [Value.signed_ofNat ha, Value.Is, Int.natCast_mul]

/-- The tens that a unit may follow. -/
theorem accepts_tens_iff : (Condition.oneOf (tensValues.map .finite)).accepts token = true ↔
    ∃ ten ∈ [20, 30, 40, 50, 60, 70, 80, 90], token.value.Is (ten : Nat) := by
  have hvalues : tensValues = [20, 30, 40, 50, 60, 70, 80, 90].map Value.ofNat := rfl
  have hequal : ∀ ten ∈ [20, 30, 40, 50, 60, 70, 80, 90],
      (Binary64.finite token.value).equals (.finite (.ofNat ten)) = true ↔
        token.value.Is (ten : Nat) :=
    fun ten hten => @accepts_equals_iff token ten ((by decide :
      ∀ m ∈ [20, 30, 40, 50, 60, 70, 80, 90], m ≤ twoPow 53) ten hten)
  rw [Condition.accepts, hvalues, List.map_map, List.any_map, List.any_eq_true]
  exact ⟨fun ⟨ten, hten, haccepts⟩ => ⟨ten, hten, (hequal ten hten).mp haccepts⟩,
    fun ⟨ten, hten, his⟩ => ⟨ten, hten, (hequal ten hten).mpr his⟩⟩

end AnyValue

namespace Value.Is

theorem eq_iff {v : Value} {m n : Int} (h : v.Is n) : v.Is m ↔ n = m := by
  rw [Is, h]
  exact Int.mul_eq_mul_right_iff (Int.natCast_ne_zero.mpr (Nat.ne_of_gt quantaPerUnit_pos))

variable {token : Token} {n : Int} (h : token.value.Is n) {a b : Nat}

include h

theorem accepts_equals (ha : a ≤ twoPow 53) :
    (Condition.equals (bound a)).accepts token = true ↔ n = a := by
  rw [accepts_equals_iff ha, h.eq_iff]

theorem accepts_between (ha : a ≤ twoPow 53) (hb : b ≤ twoPow 53) :
    (Condition.between (bound a) (bound b)).accepts token = true ↔ a ≤ n ∧ n < b := by
  have hpos : (0 : Int) < quantaPerUnit := Int.natCast_pos.mpr quantaPerUnit_pos
  rw [accepts_between_iff ha hb, h, Int.natCast_mul, Int.natCast_mul,
    Int.mul_le_mul_right hpos, Int.mul_lt_mul_right hpos]

theorem accepts_whole : Condition.whole.accepts token = true := by
  rw [Condition.accepts, isWhole, h.quanta_eq, Nat.mul_mod_left]
  rfl

/-- The counts of thousands. -/
theorem accepts_thousandsCount :
    thousandsCount.accepts token = true ↔ 2 ≤ n ∧ n < 1000 ∧ token.grain = none := by
  rw [thousandsCount, accepts_all]
  simp only [List.forall_mem_cons, List.not_mem_nil, false_implies, implies_true, and_true,
    h.accepts_between (by decide : 2 ≤ twoPow 53) (by decide : 1000 ≤ twoPow 53),
    h.accepts_whole, accepts_unscaled, true_and, and_assoc]
  rfl

/-- What may remain below a bound. -/
theorem accepts_remainderBelow (hb : b ≤ twoPow 53) :
    (remainderBelow (bound b)).accepts token = true ↔ 1 ≤ n ∧ n < b ∧ token.grain = none := by
  rw [remainderBelow, accepts_all]
  simp only [List.forall_mem_cons, List.not_mem_nil, false_implies, implies_true, and_true,
    h.accepts_between (by decide : 1 ≤ twoPow 53) hb, h.accepts_whole, accepts_unscaled,
    true_and, and_assoc]
  rfl

/-- The tens that a unit may follow. -/
theorem accepts_tens :
    (Condition.oneOf (tensValues.map .finite)).accepts token = true ↔
      ∃ ten ∈ [20, 30, 40, 50, 60, 70, 80, 90], n = (ten : Nat) := by
  simp only [accepts_tens_iff, h.eq_iff]

end Value.Is

/-! ### of whole numbers that are not negative -/

theorem Value.eq_of_ofNat_eq {m n : Nat} (hm : m ≤ twoPow 53) (hn : n ≤ twoPow 53)
    (h : ofNat m = ofNat n) : m = n := by
  have his : (ofNat m).Is n := by
    rw [h]
    exact is_ofNat hn
  exact Int.ofNat_inj.mp ((is_ofNat hm).eq_iff.mp his)

section Conditions

variable {a b n : Nat} {grain : Option Nat}

theorem accepts_equals (hn : n ≤ twoPow 53) (ha : a ≤ twoPow 53) :
    (Condition.equals (bound a)).accepts ⟨.ofNat n, grain⟩ = true ↔ n = a := by
  rw [@Value.Is.accepts_equals ⟨.ofNat n, grain⟩ _ (Value.is_ofNat hn) _ ha, Int.ofNat_inj]

theorem accepts_between (hn : n ≤ twoPow 53) (ha : a ≤ twoPow 53) (hb : b ≤ twoPow 53) :
    (Condition.between (bound a) (bound b)).accepts ⟨.ofNat n, grain⟩ = true ↔
      a ≤ n ∧ n < b := by
  rw [@Value.Is.accepts_between ⟨.ofNat n, grain⟩ _ (Value.is_ofNat hn) _ _ ha hb, Int.ofNat_le,
    Int.ofNat_lt]

/-- The counts of thousands. -/
theorem accepts_thousandsCount (hn : n ≤ twoPow 53) :
    thousandsCount.accepts ⟨.ofNat n, grain⟩ = true ↔ 2 ≤ n ∧ n < 1000 ∧ grain = none := by
  rw [@Value.Is.accepts_thousandsCount ⟨.ofNat n, grain⟩ _ (Value.is_ofNat hn)]
  norm_cast

/-- What may remain below a bound. -/
theorem accepts_remainderBelow (hn : n ≤ twoPow 53) (hb : b ≤ twoPow 53) :
    (remainderBelow (bound b)).accepts ⟨.ofNat n, grain⟩ = true ↔
      1 ≤ n ∧ n < b ∧ grain = none := by
  rw [@Value.Is.accepts_remainderBelow ⟨.ofNat n, grain⟩ _ (Value.is_ofNat hn) _ hb]
  norm_cast

/-- The tens that a unit may follow. -/
theorem accepts_tens (hn : n ≤ twoPow 53) :
    (Condition.oneOf (tensValues.map .finite)).accepts ⟨.ofNat n, grain⟩ = true ↔
      n ∈ [20, 30, 40, 50, 60, 70, 80, 90] := by
  rw [@Value.Is.accepts_tens ⟨.ofNat n, grain⟩ _ (Value.is_ofNat hn)]
  constructor
  · rintro ⟨ten, hten, heq⟩
    rwa [Int.ofNat_inj.mp heq]
  · exact fun hmem => ⟨n, hmem, rfl⟩

/-- The hundreds in one word. -/
theorem mem_hundredsValues (hn : n ≤ twoPow 53) :
    Value.ofNat n ∈ hundredsValues ↔ n ∈ [100, 200, 300, 400, 500, 600, 700, 800, 900] := by
  have hvalues : hundredsValues = [100, 200, 300, 400, 500, 600, 700, 800, 900].map Value.ofNat :=
    rfl
  rw [hvalues]
  constructor
  · intro hmem
    obtain ⟨m, hm, heq⟩ := List.mem_map.mp hmem
    have hbound : m ≤ twoPow 53 := (by decide :
      ∀ m ∈ [100, 200, 300, 400, 500, 600, 700, 800, 900], m ≤ twoPow 53) m hm
    rwa [← Value.eq_of_ofNat_eq hbound hn heq]
  · exact fun hmem => List.mem_map.mpr ⟨n, hmem, rfl⟩

end Conditions

end SpanishNumerals
