-- The values of numerals: the finite numbers of the binary64 format. A value is a sign and a
-- whole number of quanta of 2^-1074, the least positive value. Two values are equal as data
-- when they have the same bits, so the two zeros are two values.

namespace SpanishNumerals

/-! ## Powers -/

/-- A power of two. -/
def twoPow (k : Nat) : Nat := Nat.pow 2 k

/-- A power of ten. -/
def tenPow (k : Nat) : Nat := Nat.pow 10 k

theorem twoPow_pos (k : Nat) : 0 < twoPow k := Nat.two_pow_pos k

theorem tenPow_pos (k : Nat) : 0 < tenPow k := Nat.pow_pos (by decide)

theorem twoPow_add (j k : Nat) : twoPow (j + k) = twoPow j * twoPow k := Nat.pow_add 2 j k

theorem twoPow_le {j k : Nat} (h : j ≤ k) : twoPow j ≤ twoPow k :=
  Nat.pow_le_pow_right Nat.two_pos h

theorem twoPow_lt {j k : Nat} (h : j < k) : twoPow j < twoPow k :=
  Nat.pow_lt_pow_right Nat.one_lt_two h

theorem twoPow_dvd {j k : Nat} (h : j ≤ k) : twoPow j ∣ twoPow k := Nat.pow_dvd_pow 2 h

/-! ## The binary length -/

theorem log2_lt {n k : Nat} (h : n ≠ 0) : n.log2 < k ↔ n < twoPow k := Nat.log2_lt h

theorem le_log2 {n k : Nat} (h : n ≠ 0) : k ≤ n.log2 ↔ twoPow k ≤ n := Nat.le_log2 h

theorem lt_twoPow_log2 (n : Nat) : n < twoPow (n.log2 + 1) := Nat.lt_log2_self

theorem twoPow_log2_le {n : Nat} (h : n ≠ 0) : twoPow n.log2 ≤ n := Nat.log2_self_le h

/-! ## Numbers of quanta -/

/-- The number of quanta in one unit. -/
def quantaPerUnit : Nat := twoPow 1074

/-- A number of quanta that reads as at most 53 binary digits and trailing zeros. -/
def OnGrid (quanta : Nat) : Prop := quanta % twoPow (quanta.log2 - 52) = 0

instance (quanta : Nat) : Decidable (OnGrid quanta) := inferInstanceAs (Decidable (_ = _))

/-- The first number of quanta past the greatest finite magnitude. -/
def quantaLimit : Nat := twoPow 2098

/-- A finite binary64 number. -/
structure Value where
  /-- The sign bit. -/
  negative : Bool
  /-- The magnitude in quanta. -/
  quanta : Nat
  /-- The format has a number of that magnitude. -/
  onGrid : OnGrid quanta
  /-- The magnitude is finite. -/
  bounded : quanta < quantaLimit
deriving DecidableEq

/-! ## The grid -/

theorem onGrid_mul_twoPow {m : Nat} (h : m ≤ twoPow 53) (k : Nat) : OnGrid (m * twoPow k) := by
  unfold OnGrid
  by_cases hm : m = 0
  · simp [hm]
  · have hpos : m * twoPow k ≠ 0 :=
      Nat.ne_of_gt (Nat.mul_pos (Nat.pos_of_ne_zero hm) (twoPow_pos k))
    rcases Nat.lt_or_eq_of_le h with hlt | rfl
    · have hlog : (m * twoPow k).log2 < 53 + k := by
        rw [log2_lt hpos, twoPow_add]
        exact Nat.mul_lt_mul_of_pos_right hlt (twoPow_pos k)
      have hdvd : twoPow ((m * twoPow k).log2 - 52) ∣ twoPow k := twoPow_dvd (by omega)
      exact Nat.mod_eq_zero_of_dvd (Nat.dvd_trans hdvd (Nat.dvd_mul_left _ _))
    · have hlog : (twoPow 53 * twoPow k).log2 < 54 + k := by
        rw [log2_lt hpos, ← twoPow_add]
        exact twoPow_lt (by omega)
      rw [← twoPow_add] at hlog ⊢
      exact Nat.mod_eq_zero_of_dvd (twoPow_dvd (by omega))

theorem quantaPerUnit_pos : 0 < quantaPerUnit := twoPow_pos 1074

theorem quantaLimit_pos : 0 < quantaLimit := twoPow_pos 2098

theorem onGrid_mul_quantaPerUnit {m : Nat} (h : m ≤ twoPow 53) : OnGrid (m * quantaPerUnit) :=
  onGrid_mul_twoPow h 1074

theorem mul_twoPow_lt {m j k : Nat} (h : m ≤ twoPow 53) (hjk : 53 + j < k) :
    m * twoPow j < twoPow k := by
  refine Nat.lt_of_le_of_lt (Nat.mul_le_mul_right (twoPow j) h) ?_
  rw [← twoPow_add]
  exact twoPow_lt hjk

theorem mul_quantaPerUnit_lt {m : Nat} (h : m ≤ twoPow 53) : m * quantaPerUnit < quantaLimit :=
  mul_twoPow_lt h (by decide)

/-! ## Values -/

namespace Value

/-- The positive zero, or the negative one. -/
def zero (negative : Bool) : Value := ⟨negative, 0, by simp [OnGrid], quantaLimit_pos⟩

/-- The value of a whole number. The format has each of them up to 2^53; a greater one gives
that bound. -/
def ofNat (n : Nat) : Value :=
  ⟨false, min n (twoPow 53) * quantaPerUnit, onGrid_mul_quantaPerUnit (Nat.min_le_right n _),
    mul_quantaPerUnit_lt (Nat.min_le_right n _)⟩

/-- The value as a signed number of quanta. Both zeros give zero. -/
def signed (v : Value) : Int := if v.negative then -(v.quanta : Int) else v.quanta

/-- Whether the value is a whole number of units. -/
def isWhole (v : Value) : Bool := v.quanta % quantaPerUnit = 0

/-- The value of the opposite sign. -/
def neg (v : Value) : Value := { v with negative := !v.negative }

@[simp]
theorem signed_zero (negative : Bool) : (zero negative).signed = 0 := by
  cases negative <;> rfl

theorem quanta_ofNat {n : Nat} (h : n ≤ twoPow 53) : (ofNat n).quanta = n * quantaPerUnit := by
  simp [ofNat, Nat.min_eq_left h]

@[simp]
theorem signed_neg (v : Value) : v.neg.signed = -v.signed := by
  unfold neg signed
  cases v.negative <;> simp

theorem neg_neg (v : Value) : v.neg.neg = v := by simp [neg]

end Value

/-! ## Binary64 numbers -/

/-- A binary64 number: one that is no number, an infinity, or a finite value. -/
inductive Binary64
  | nan
  | infinity (negative : Bool)
  | finite (value : Value)
deriving DecidableEq

namespace Binary64

/-- The finite value, if the number is one. -/
def value? : Binary64 → Option Value
  | finite v => some v
  | _ => none

/-- Equality of numbers: the two zeros are equal, and what is no number equals nothing. -/
def equals : Binary64 → Binary64 → Bool
  | finite a, finite b => a.signed = b.signed
  | infinity a, infinity b => a = b
  | _, _ => false

/-- The strict order of numbers. -/
def less : Binary64 → Binary64 → Bool
  | finite a, finite b => a.signed < b.signed
  | finite _, infinity b => !b
  | infinity a, finite _ => a
  | infinity a, infinity b => a && !b
  | _, _ => false

/-- The order of numbers. -/
def atMost (a b : Binary64) : Bool := a.less b || a.equals b

end Binary64

end SpanishNumerals
