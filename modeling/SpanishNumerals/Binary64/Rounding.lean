-- Rounding to the nearest value. The exact number is a quotient of two whole numbers of
-- quanta. It goes to the nearest number on the grid, and from the middle to the one whose
-- last binary digit is zero. A magnitude past the greatest finite one has no value. Sums,
-- products and quotients of values are exact results, rounded once.
import SpanishNumerals.Binary64.Value

namespace SpanishNumerals

/-- The quotient as the nearest whole number; from the middle, the even one. -/
def roundDiv (num den : Nat) : Nat :=
  let below := num / den
  let twice := 2 * (num % den)
  if twice < den then below
  else if den < twice then below + 1
  else below + below % 2

/-- The number of quanta on the grid nearest to `num / den`. The spacing of the grid there is
the power of two that leaves 53 binary digits. -/
def nearest (num den : Nat) : Nat :=
  let spacing := twoPow ((num / den).log2 - 52)
  roundDiv num (den * spacing) * spacing

/-! ## Laws -/

theorem roundDiv_le {num den m : Nat} (hden : 0 < den) (h : num ≤ den * m) :
    roundDiv num den ≤ m := by
  have hdm := Nat.div_add_mod num den
  have hmod := Nat.mod_lt num hden
  unfold roundDiv
  rcases Nat.lt_or_eq_of_le (show num / den ≤ m from Nat.div_le_of_le_mul h) with hlt | heq
  · dsimp only
    split
    · omega
    · split <;> omega
  · have hzero : num % den = 0 := by
      rw [← heq] at h
      omega
    simp [hzero, hden, heq]

theorem le_roundDiv {num den m : Nat} (hden : 0 < den) (h : den * m ≤ num) :
    m ≤ roundDiv num den := by
  have hle : m ≤ num / den := (Nat.le_div_iff_mul_le hden).mpr (by rwa [Nat.mul_comm])
  unfold roundDiv
  dsimp only
  split
  · exact hle
  · split <;> omega

/-- The rounded quotient is within half a unit. -/
theorem roundDiv_near (num : Nat) {den : Nat} (hden : 0 < den) :
    2 * (den * roundDiv num den) ≤ 2 * num + den ∧
      2 * num ≤ 2 * (den * roundDiv num den) + den := by
  have hdm := Nat.div_add_mod num den
  have hmod := Nat.mod_lt num hden
  unfold roundDiv
  dsimp only
  split
  · omega
  · split
    · rw [Nat.mul_add]
      omega
    · rcases Nat.mod_two_eq_zero_or_one (num / den) with h | h <;> rw [h, Nat.mul_add] <;> omega

theorem lt_twoPow_spacing (q : Nat) : q < twoPow (53 + (q.log2 - 52)) :=
  Nat.lt_of_lt_of_le (lt_twoPow_log2 q) (twoPow_le (by omega))

theorem onGrid_nearest (num : Nat) {den : Nat} (hden : 0 < den) : OnGrid (nearest num den) := by
  unfold nearest
  apply onGrid_mul_twoPow
  have hspacing := twoPow_pos ((num / den).log2 - 52)
  apply roundDiv_le (Nat.mul_pos hden hspacing)
  have hlt : num < den * (num / den + 1) := Nat.lt_mul_div_succ num hden
  have hle : num / den + 1 ≤ twoPow (53 + ((num / den).log2 - 52)) := lt_twoPow_spacing _
  calc num ≤ den * (num / den + 1) := Nat.le_of_lt hlt
    _ ≤ den * twoPow (53 + ((num / den).log2 - 52)) := Nat.mul_le_mul_left _ hle
    _ = den * twoPow ((num / den).log2 - 52) * twoPow 53 := by
      rw [Nat.add_comm, twoPow_add, Nat.mul_assoc]

/-- Rounding does not pass a number on the grid. -/
theorem nearest_le {num den m : Nat} (hden : 0 < den) (hm : OnGrid m) (h : num ≤ den * m) :
    nearest num den ≤ m := by
  have hq : num / den ≤ m := Nat.div_le_of_le_mul h
  have hdvd : twoPow ((num / den).log2 - 52) ∣ m := by
    by_cases hsmall : (num / den).log2 - 52 = 0
    · rw [hsmall]
      exact Nat.one_dvd m
    · have hq0 : num / den ≠ 0 := by
        intro h0
        simp [h0] at hsmall
      have hm0 : m ≠ 0 := Nat.ne_of_gt (Nat.lt_of_lt_of_le (Nat.pos_of_ne_zero hq0) hq)
      have hlog : (num / den).log2 ≤ m.log2 :=
        (le_log2 hm0).mpr (Nat.le_trans (twoPow_log2_le hq0) hq)
      exact Nat.dvd_trans (twoPow_dvd (by omega)) (Nat.dvd_of_mod_eq_zero hm)
  obtain ⟨c, hc⟩ := hdvd
  have hspacing := twoPow_pos ((num / den).log2 - 52)
  calc nearest num den ≤ c * twoPow ((num / den).log2 - 52) := by
        apply Nat.mul_le_mul_right
        apply roundDiv_le (Nat.mul_pos hden hspacing)
        rw [Nat.mul_assoc, ← hc]
        exact h
    _ = m := by rw [Nat.mul_comm, ← hc]

/-! ## Rounded values -/

namespace Value

/-- The value nearest to a quotient of quanta of the given sign, if it is finite. -/
def round? (negative : Bool) (num den : Nat) (hden : 0 < den) : Option Value :=
  if h : nearest num den < quantaLimit then
    some ⟨negative, nearest num den, onGrid_nearest num hden, h⟩
  else none

end Value

/-- The number nearest to a quotient of quanta of the given sign. -/
def Binary64.round (negative : Bool) (num den : Nat) (hden : 0 < den) : Binary64 :=
  match Value.round? negative num den hden with
  | some v => .finite v
  | none => .infinity negative

/-! ## Arithmetic -/

namespace Value

/-- The sum. An exact zero is the negative one only when both terms are negative. -/
def add? (a b : Value) : Option Value :=
  let sum := a.signed + b.signed
  if sum = 0 then some (zero (a.negative && b.negative))
  else round? (sum < 0) sum.natAbs 1 Nat.one_pos

/-- The product. -/
def mul? (a b : Value) : Option Value :=
  round? (a.negative != b.negative) (a.quanta * b.quanta) quantaPerUnit quantaPerUnit_pos

/-- The quotient by a whole number above zero. -/
def divNat (v : Value) (d : Nat) (hd : 0 < d) : Value where
  negative := v.negative
  quanta := nearest v.quanta d
  onGrid := onGrid_nearest v.quanta hd
  bounded := Nat.lt_of_le_of_lt
    (nearest_le hd v.onGrid (Nat.le_mul_of_pos_left v.quanta hd)) v.bounded

/-- The value nearest to a whole number, if it is finite. -/
def ofNat? (n : Nat) : Option Value := round? false (n * quantaPerUnit) 1 Nat.one_pos

/-- The value nearest to a whole number of either sign, if it is finite. -/
def ofInt? (n : Int) : Option Value := round? (n < 0) (n.natAbs * quantaPerUnit) 1 Nat.one_pos

end Value

end SpanishNumerals
