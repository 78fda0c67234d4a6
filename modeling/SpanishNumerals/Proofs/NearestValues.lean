-- Rounding is to the nearest number on the grid, and from the middle to the even one of the two
-- neighbours. This fixes the rounded number: there is no other with these properties.
import Mathlib.Data.Nat.Dist
import SpanishNumerals.Proofs.WholeNumbers

namespace SpanishNumerals

/-- The last of the 53 binary digits of a number on the grid. -/
def lastDigit (quanta : Nat) : Nat := quanta / twoPow (quanta.log2 - 52) % 2

/-- The number of quanta is on the grid, none on the grid is nearer to `num / den`, and when
another one is as near, its own last binary digit is zero and the other's is not. -/
structure IsNearest (num den quanta : Nat) : Prop where
  onGrid : OnGrid quanta
  near : ∀ other, OnGrid other → Nat.dist num (den * quanta) ≤ Nat.dist num (den * other)
  even : ∀ other, OnGrid other → other ≠ quanta →
    Nat.dist num (den * other) = Nat.dist num (den * quanta) →
      lastDigit quanta = 0 ∧ lastDigit other = 1

theorem IsNearest.unique {num den a b : Nat} (ha : IsNearest num den a)
    (hb : IsNearest num den b) : a = b := by
  by_contra hne
  have hdist := Nat.le_antisymm (hb.near a ha.onGrid) (ha.near b hb.onGrid)
  have hzero := (ha.even b hb.onGrid (Ne.symm hne) hdist).1
  have hone := (hb.even a ha.onGrid hne hdist.symm).2
  omega

/-! ## The nearest whole number -/

section Quotient

variable {num den c : Nat} (hden : 0 < den)

include hden

theorem dist_roundDiv_le (num c : Nat) :
    Nat.dist num (den * roundDiv num den) ≤ Nat.dist num (den * c) := by
  obtain ⟨hlow, hhigh⟩ := roundDiv_near num hden
  unfold Nat.dist
  rcases Nat.lt_trichotomy c (roundDiv num den) with hlt | rfl | hlt
  · have hstep : den * c + den ≤ den * roundDiv num den := Nat.mul_le_mul_left den hlt
    omega
  · exact Nat.le_refl _
  · have hstep : den * roundDiv num den + den ≤ den * c := Nat.mul_le_mul_left den hlt
    omega

theorem roundDiv_of_middle {t : Nat} (hnum : num = t + den * c) (ht : 2 * t = den) :
    roundDiv num den = c + c % 2 := by
  obtain ⟨hdiv, hmod⟩ := (Nat.div_mod_unique hden).mpr ⟨hnum.symm, (by omega : t < den)⟩
  simp only [roundDiv, hdiv, hmod, ht, Nat.lt_irrefl, if_false]

/-- When another whole number is as near, the rounded one is even and the other odd. -/
theorem roundDiv_even (hne : c ≠ roundDiv num den)
    (hdist : Nat.dist num (den * c) = Nat.dist num (den * roundDiv num den)) :
    roundDiv num den % 2 = 0 ∧ c % 2 = 1 := by
  obtain ⟨hlow, hhigh⟩ := roundDiv_near num hden
  unfold Nat.dist at hdist
  rcases Nat.lt_or_gt_of_ne hne with hlt | hlt
  · have hstep : den * c + den ≤ den * roundDiv num den := Nat.mul_le_mul_left den hlt
    have hmiddle : 2 * (num - den * c) = den := by omega
    have hround := roundDiv_of_middle hden (by omega : num = num - den * c + den * c) hmiddle
    omega
  · have hstep : den * roundDiv num den + den ≤ den * c := Nat.mul_le_mul_left den hlt
    have hmiddle : 2 * (num - den * roundDiv num den) = den := by omega
    have hround := roundDiv_of_middle hden
      (by omega : num = num - den * roundDiv num den + den * roundDiv num den) hmiddle
    have hnext : den * c = den * (roundDiv num den + 1) := by
      rw [Nat.mul_add]
      omega
    have := Nat.eq_of_mul_eq_mul_left hden hnext
    omega

end Quotient

/-! ## The nearest number on the grid -/

theorem lastDigit_twoPow {k : Nat} (hk : 53 ≤ k) : lastDigit (twoPow k) = 0 := by
  have hlog : (twoPow k).log2 = k := Nat.log2_two_pow
  have hsplit : twoPow k = 2 * twoPow 51 * twoPow (k - 52) := by
    have htwo : (2 : Nat) = twoPow 1 := rfl
    rw [htwo, ← twoPow_add, ← twoPow_add]
    congr 1
    omega
  rw [lastDigit, hlog]
  conv_lhs => rw [hsplit]
  rw [Nat.mul_div_cancel _ (twoPow_pos _), Nat.mul_mod_right]

/-- A coefficient of 53 binary digits, or of fewer without a power of two, begins at the last
digit. -/
theorem log2_coefficient {m k : Nat} (hm : m < twoPow 53) (hlow : twoPow 52 ≤ m ∨ k = 0) :
    (m * twoPow k).log2 - 52 = k := by
  rcases hlow with hlow | rfl
  · have hne : m * twoPow k ≠ 0 :=
      Nat.ne_of_gt (Nat.mul_pos (Nat.lt_of_lt_of_le (twoPow_pos 52) hlow) (twoPow_pos k))
    have hfrom : 52 + k ≤ (m * twoPow k).log2 := by
      rw [le_log2 hne, twoPow_add]
      exact Nat.mul_le_mul_right _ hlow
    have hto : (m * twoPow k).log2 < 53 + k := by
      rw [log2_lt hne, twoPow_add]
      exact Nat.mul_lt_mul_of_pos_right hm (twoPow_pos k)
    omega
  · by_cases hzero : m = 0
    · simp [hzero]
    · have hto : m.log2 < 53 := (log2_lt hzero).mpr hm
      have hone : m * twoPow 0 = m := Nat.mul_one m
      rw [hone]
      omega

/-- The last digit is that of the coefficient. One more than the greatest coefficient is a power
of two, and its last digit is zero too. -/
theorem lastDigit_mul {m k : Nat} (hm : m ≤ twoPow 53) (hlow : twoPow 52 ≤ m ∨ k = 0) :
    lastDigit (m * twoPow k) = m % 2 := by
  rcases Nat.lt_or_eq_of_le hm with hlt | rfl
  · rw [lastDigit, log2_coefficient hlt hlow, Nat.mul_div_cancel _ (twoPow_pos k)]
  · rw [← twoPow_add, lastDigit_twoPow (Nat.le_add_right 53 k)]
    decide

/-- From the greatest power of two within the quotient on, the numbers on the grid are multiples
of the spacing there. -/
theorem spacing_dvd {q other : Nat} (hgrid : OnGrid other)
    (hle : twoPow q.log2 ≤ other ∨ q.log2 ≤ 52) : twoPow (q.log2 - 52) ∣ other := by
  rcases hle with hle | hsmall
  · have hne : other ≠ 0 := Nat.ne_of_gt (Nat.lt_of_lt_of_le (twoPow_pos _) hle)
    have hlog : q.log2 ≤ other.log2 := (le_log2 hne).mpr hle
    exact Nat.dvd_trans (twoPow_dvd (by omega)) (Nat.dvd_of_mod_eq_zero hgrid)
  · rw [Nat.sub_eq_zero_of_le hsmall]
    exact Nat.one_dvd other

section Grid

variable (num : Nat) {den : Nat} (hden : 0 < den)

include hden

/-- In units of the spacing the quotient lies between the powers of two for 53 digits. -/
theorem bounds_of_spacing :
    num < den * twoPow ((num / den).log2 - 52) * twoPow 53 ∧
      (52 < (num / den).log2 → den * twoPow ((num / den).log2 - 52) * twoPow 52 ≤ num) := by
  constructor
  · calc num
        _ < den * (num / den + 1) := Nat.lt_mul_div_succ num hden
        _ ≤ den * twoPow (53 + ((num / den).log2 - 52)) :=
          Nat.mul_le_mul_left den (lt_twoPow_spacing _)
        _ = den * twoPow ((num / den).log2 - 52) * twoPow 53 := by
          rw [Nat.add_comm, twoPow_add, Nat.mul_assoc]
  · intro hlarge
    have hne : num / den ≠ 0 := by
      intro hzero
      simp [hzero] at hlarge
    have hexponent : (num / den).log2 - 52 + 52 = (num / den).log2 := by omega
    calc den * twoPow ((num / den).log2 - 52) * twoPow 52
        _ = den * twoPow (num / den).log2 := by rw [Nat.mul_assoc, ← twoPow_add, hexponent]
        _ ≤ den * (num / den) := Nat.mul_le_mul_left den (twoPow_log2_le hne)
        _ ≤ num := Nat.mul_div_le num den

/-- A number on the grid is a multiple of the spacing, or it is farther than the rounded one. -/
theorem multiple_or_farther {other : Nat} (hgrid : OnGrid other) :
    (∃ c, other = c * twoPow ((num / den).log2 - 52)) ∨
      Nat.dist num (den * nearest num den) < Nat.dist num (den * other) := by
  by_cases hle : twoPow (num / den).log2 ≤ other ∨ (num / den).log2 ≤ 52
  · obtain ⟨c, hc⟩ := spacing_dvd hgrid hle
    exact Or.inl ⟨c, by rw [hc, Nat.mul_comm]⟩
  · -- The power of two between it and the quotient is nearer already.
    right
    obtain ⟨hlt, hlarge⟩ := not_or.mp hle
    have hpower := (bounds_of_spacing num hden).2 (Nat.lt_of_not_le hlarge)
    have hspacing := Nat.mul_pos hden (twoPow_pos ((num / den).log2 - 52))
    have hbest := dist_roundDiv_le hspacing num (twoPow 52)
    have hexponent : (num / den).log2 - 52 + 52 = (num / den).log2 := by omega
    have hother : den * other <
        den * twoPow ((num / den).log2 - 52) * twoPow 52 := by
      rw [Nat.mul_assoc, ← twoPow_add, hexponent]
      exact Nat.mul_lt_mul_of_pos_left (Nat.lt_of_not_le hlt) hden
    have hnearest : den * nearest num den = den * twoPow ((num / den).log2 - 52) *
        roundDiv num (den * twoPow ((num / den).log2 - 52)) := by
      rw [nearest, Nat.mul_comm (roundDiv _ _), Nat.mul_assoc]
    rw [hnearest]
    refine Nat.lt_of_le_of_lt hbest ?_
    unfold Nat.dist
    omega

/-- A whole number that is nearest to the quotient in units of the spacing has 53 binary digits,
or is one past them, or there is no spacing. -/
theorem coefficient_bounds {m : Nat}
    (hlow : 2 * num ≤ 2 * (den * twoPow ((num / den).log2 - 52) * m) +
      den * twoPow ((num / den).log2 - 52))
    (hhigh : 2 * (den * twoPow ((num / den).log2 - 52) * m) ≤
      2 * num + den * twoPow ((num / den).log2 - 52)) :
    m ≤ twoPow 53 ∧ (twoPow 52 ≤ m ∨ (num / den).log2 - 52 = 0) := by
  obtain ⟨hlt, hle⟩ := bounds_of_spacing num hden
  have hpos := Nat.mul_pos hden (twoPow_pos ((num / den).log2 - 52))
  generalize den * twoPow ((num / den).log2 - 52) = unit at hlow hhigh hlt hle hpos
  constructor
  · have hmul : unit * m < unit * (twoPow 53 + 1) := by
      rw [Nat.mul_add]
      omega
    exact Nat.lt_succ_iff.mp (Nat.lt_of_mul_lt_mul_left hmul)
  · rcases Nat.lt_or_ge 52 (num / den).log2 with hlarge | hsmall
    · left
      have hpower := hle hlarge
      have hmul : unit * twoPow 52 < unit * (m + 1) := by
        rw [Nat.mul_add]
        omega
      exact Nat.lt_succ_iff.mp (Nat.lt_of_mul_lt_mul_left hmul)
    · exact Or.inr (Nat.sub_eq_zero_of_le hsmall)

/-- Rounding gives the nearest number on the grid, from the middle the even one. -/
theorem isNearest_nearest : IsNearest num den (nearest num den) := by
  have hfar := @multiple_or_farther num den hden
  have hbounds := @coefficient_bounds num den hden
  have hgrid := onGrid_nearest num hden
  have hpos := Nat.mul_pos hden (twoPow_pos ((num / den).log2 - 52))
  generalize hk : (num / den).log2 - 52 = k at hfar hbounds hpos
  have hnearest : nearest num den = roundDiv num (den * twoPow k) * twoPow k := by
    rw [nearest, hk]
  have hmul : ∀ c, den * (c * twoPow k) = den * twoPow k * c := fun c => by
    rw [Nat.mul_comm c, Nat.mul_assoc]
  refine ⟨hgrid, ?_, ?_⟩
  · intro other hother
    rcases hfar hother with ⟨c, rfl⟩ | hlt
    · rw [hnearest, hmul, hmul]
      exact dist_roundDiv_le hpos num c
    · exact Nat.le_of_lt hlt
  · intro other hother hne hdist
    rcases hfar hother with ⟨c, rfl⟩ | hlt
    · rw [hnearest] at hne hdist ⊢
      rw [hmul, hmul] at hdist
      have hcne : c ≠ roundDiv num (den * twoPow k) := fun heq => hne (heq ▸ rfl)
      obtain ⟨heven, hodd⟩ := roundDiv_even hpos hcne hdist
      obtain ⟨hhigh, hlow⟩ := roundDiv_near num hpos
      unfold Nat.dist at hdist
      -- Both coefficients are nearest, the rounded one and the other as far from the quotient.
      obtain ⟨hround, hround'⟩ := hbounds hlow hhigh
      obtain ⟨hc, hc'⟩ := @hbounds c (by omega) (by omega)
      rw [lastDigit_mul hround hround', lastDigit_mul hc hc']
      exact ⟨heven, hodd⟩
    · omega

end Grid

/-- Rounding does not fall below a number on the grid either. -/
theorem le_nearest {num den m : Nat} (hden : 0 < den) (hm : OnGrid m) (h : den * m ≤ num) :
    m ≤ nearest num den := by
  have hnear := (isNearest_nearest num hden).near m hm
  by_contra hlt
  have hstep := Nat.mul_lt_mul_of_pos_left (Nat.lt_of_not_le hlt) hden
  unfold Nat.dist at hnear
  omega

/-! ## The nearest value -/

namespace Value

section Rounded

variable {negative : Bool} {num den : Nat} {hden : 0 < den} {v : Value}

theorem round?_eq_some_iff_quanta :
    round? negative num den hden = some v ↔
      v.negative = negative ∧ v.quanta = nearest num den := by
  unfold round?
  constructor
  · intro h
    split at h
    · obtain rfl := Option.some.inj h
      exact ⟨rfl, rfl⟩
    · simp at h
  · rintro ⟨hnegative, hquanta⟩
    rw [dif_pos (hquanta ▸ v.bounded)]
    exact congrArg some (ext hnegative.symm hquanta.symm)

/-- A rounded value is the nearest one of its sign, and there is none when the nearest number is
past the greatest finite one. -/
theorem round?_eq_some_iff :
    round? negative num den hden = some v ↔
      v.negative = negative ∧ IsNearest num den v.quanta := by
  rw [round?_eq_some_iff_quanta]
  refine and_congr_right fun _ => ⟨fun h => h ▸ isNearest_nearest num hden, fun h => ?_⟩
  exact h.unique (isNearest_nearest num hden)

theorem round?_isSome_iff :
    (round? negative num den hden).isSome = true ↔ nearest num den < quantaLimit := by
  unfold round?
  split
  · rename_i h
    exact ⟨fun _ => h, fun _ => rfl⟩
  · rename_i h
    exact ⟨fun hsome => by simp at hsome, fun hlt => absurd hlt h⟩

end Rounded

/-! ### Sums and products between bounds -/

section Bounds

variable {a b v : Value} {low high : Nat}

/-- A finite number is below the limit by a step of the grid there. -/
theorem quanta_add_le (v : Value) : v.quanta + twoPow 2045 ≤ quantaLimit := by
  have hsum : twoPow 2097 + twoPow 2045 ≤ quantaLimit := by decide +kernel
  rcases Nat.lt_or_ge v.quanta (twoPow 2097) with hlt | hge
  · omega
  · have hne : v.quanta ≠ 0 := Nat.ne_of_gt (Nat.lt_of_lt_of_le (twoPow_pos 2097) hge)
    have hlow := (le_log2 hne).mpr hge
    have hhigh : v.quanta.log2 < 2098 := (log2_lt hne).mpr v.bounded
    have hspacing : v.quanta.log2 - 52 = 2045 := by omega
    obtain ⟨c, hc⟩ : twoPow 2045 ∣ v.quanta := by
      have hgrid := v.onGrid
      rw [OnGrid, hspacing] at hgrid
      exact Nat.dvd_of_mod_eq_zero hgrid
    have hlimit : quantaLimit = twoPow 2045 * twoPow 53 := by
      rw [quantaLimit, ← twoPow_add]
    have hlt : c < twoPow 53 := by
      rw [← Nat.mul_lt_mul_left (twoPow_pos 2045), ← hc, ← hlimit]
      exact v.bounded
    rw [hlimit, hc, ← Nat.mul_succ]
    exact Nat.mul_le_mul_left _ hlt

/-- A number that is not negative has a sum with a number below one. -/
theorem exists_add_of_lt_unit (ha : 0 ≤ a.signed) (hb : b.signed < quantaPerUnit) :
    ∃ v, a.add? b = some v := by
  have hasigned : a.signed = a.quanta := by
    have := natAbs_signed a
    omega
  unfold add?
  dsimp only
  split
  · exact ⟨_, rfl⟩
  · refine Option.isSome_iff_exists.mp (round?_isSome_iff.mpr ?_)
    have hnearest : ∀ g, OnGrid g → (a.signed + b.signed).natAbs ≤ g → g < quantaLimit →
        nearest (a.signed + b.signed).natAbs 1 < quantaLimit := fun g hgrid hle hlt =>
      Nat.lt_of_le_of_lt (nearest_le Nat.one_pos hgrid (by rwa [Nat.one_mul])) hlt
    rcases Int.lt_or_le 0 b.signed with hpos | hneg
    · -- The sum is nearer to the first number than the limit is.
      have hnear := (isNearest_nearest (a.signed + b.signed).natAbs Nat.one_pos).near _ a.onGrid
      have hlimit := a.quanta_add_le
      have hunits : 2 * quantaPerUnit < twoPow 2045 := by decide +kernel
      unfold Nat.dist at hnear
      omega
    · have hbsigned : b.signed.natAbs = b.quanta := natAbs_signed b
      rcases Nat.le_total a.quanta b.quanta with hle | hle
      · exact hnearest b.quanta b.onGrid (by omega) b.bounded
      · exact hnearest a.quanta a.onGrid (by omega) a.bounded

/-- A sum between whole numbers is rounded to a value between them. -/
theorem add?_between (hlow : low ≤ twoPow 53) (hhigh : high ≤ twoPow 53) (hv : a.add? b = some v)
    (hge : ((low * quantaPerUnit : Nat) : Int) ≤ a.signed + b.signed)
    (hle : a.signed + b.signed ≤ (high * quantaPerUnit : Nat)) :
    ((low * quantaPerUnit : Nat) : Int) ≤ v.signed ∧ v.signed ≤ (high * quantaPerUnit : Nat) := by
  unfold add? at hv
  dsimp only at hv
  split at hv
  · rename_i hzero
    obtain rfl := Option.some.inj hv
    rw [hzero] at hge hle
    rw [signed_zero]
    exact ⟨hge, hle⟩
  · obtain ⟨hnegative, hquanta⟩ := round?_eq_some_iff_quanta.mp hv
    rw [decide_eq_false (by omega)] at hnegative
    have hfrom := le_nearest Nat.one_pos (onGrid_mul_quantaPerUnit hlow)
      (by omega : 1 * (low * quantaPerUnit) ≤ (a.signed + b.signed).natAbs)
    have hto := nearest_le Nat.one_pos (onGrid_mul_quantaPerUnit hhigh)
      (by omega : (a.signed + b.signed).natAbs ≤ 1 * (high * quantaPerUnit))
    have hsigned : v.signed = nearest (a.signed + b.signed).natAbs 1 := by
      rw [signed, hnegative, hquanta, if_neg Bool.false_ne_true]
    omega

/-- A sum of no more than one is rounded to no more than one. -/
theorem add?_le_unit (hv : a.add? b = some v) (hle : a.signed + b.signed ≤ quantaPerUnit) :
    v.signed ≤ quantaPerUnit := by
  rcases Int.lt_or_le (a.signed + b.signed) 0 with hneg | hnonneg
  · have hnegative : v.negative = true := by
      rw [add?, if_neg (Int.ne_of_lt hneg)] at hv
      rw [(round?_eq_some_iff_quanta.mp hv).1]
      exact decide_eq_true hneg
    rw [signed, if_pos hnegative]
    omega
  · have hzero : ((0 * quantaPerUnit : Nat) : Int) ≤ a.signed + b.signed := by
      rw [Nat.zero_mul]
      exact hnonneg
    have hone : a.signed + b.signed ≤ (1 * quantaPerUnit : Nat) := by
      rw [Nat.one_mul]
      exact hle
    have hbounds := add?_between (by decide) (by decide) hv hzero hone
    rw [Nat.one_mul] at hbounds
    exact hbounds.2

theorem quanta_of_pos (h : 0 < b.signed) : b.negative = false ∧ b.signed = b.quanta := by
  unfold signed at h ⊢
  split at h
  · omega
  · rename_i hsign
    exact ⟨Bool.eq_false_iff.mpr hsign, if_neg hsign⟩

/-- A multiple of a value between whole numbers is rounded to a value between their multiples. -/
theorem mul?_between {n : Nat} (hn : n ≤ twoPow 53) (hpos : 0 < low) (hlow : n * low ≤ twoPow 53)
    (hhigh : n * high ≤ twoPow 53) (hv : (ofNat n).mul? b = some v)
    (hge : ((low * quantaPerUnit : Nat) : Int) ≤ b.signed)
    (hle : b.signed ≤ (high * quantaPerUnit : Nat)) :
    ((n * low * quantaPerUnit : Nat) : Int) ≤ v.signed ∧
      v.signed ≤ (n * high * quantaPerUnit : Nat) := by
  have hunits := Nat.mul_pos hpos quantaPerUnit_pos
  obtain ⟨hsign, hsigned⟩ := quanta_of_pos (by omega : 0 < b.signed)
  obtain ⟨hnegative, hquanta⟩ := round?_eq_some_iff_quanta.mp hv
  rw [hsign] at hnegative
  rw [quanta_ofNat hn] at hquanta
  rw [hsigned, Int.ofNat_le] at hge hle
  have hmul : ∀ m, quantaPerUnit * (n * m * quantaPerUnit) =
      n * quantaPerUnit * (m * quantaPerUnit) := by
    intro m
    ring
  have hfrom := le_nearest quantaPerUnit_pos (onGrid_mul_quantaPerUnit hlow)
    ((hmul low).trans_le (Nat.mul_le_mul_left _ hge))
  have hto := nearest_le quantaPerUnit_pos (onGrid_mul_quantaPerUnit hhigh)
    ((Nat.mul_le_mul_left _ hle).trans_eq (hmul high).symm)
  have hsigned : v.signed = v.quanta := by rw [signed, hnegative]; rfl
  rw [hsigned, hquanta, Int.ofNat_le, Int.ofNat_le]
  exact ⟨hfrom, hto⟩

end Bounds

end Value

end SpanishNumerals
