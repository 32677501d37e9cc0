import Mathlib.Algebra.Order.Field.Power
import Mathlib.Algebra.Order.Field.Rat
import Mathlib.Tactic.Linarith
import Mathlib.Tactic.Positivity
import Mathlib.Tactic.NormNum.Pow
import Mathlib.Tactic.Ring
import Lox.Number.Shortest

/-!
# The shortest decimal tells numbers apart

The intervals of two different binary64 numbers have no member in common, and the search for the
coarsest grid that meets an interval always ends at a member of it. So the value of a number's
shortest decimal lies in the interval of this number and of no other.
-/

namespace Lox.Number

/-- The number that a decimal stands for. -/
def Decimal.value (d : Decimal) : ℚ := d.digits * 10 ^ d.exponent

namespace Magnitude

/-- A quarter of the last binary place. -/
def quarter (v : Magnitude) : ℚ := 2 ^ (v.exponent - 2)

/-- A quarter of the last place is positive. -/
theorem quarter_pos (v : Magnitude) : 0 < v.quarter := by
  rw [quarter]
  positivity

/-- The members of the interval: its ends belong to it exactly when the significand is even. -/
def Owns (v : Magnitude) (x : ℚ) : Prop :=
  if v.significand % 2 = 0 then v.lower * v.quarter ≤ x ∧ x ≤ v.upper * v.quarter
  else v.lower * v.quarter < x ∧ x < v.upper * v.quarter

/-- The magnitudes of binary64 numbers. -/
structure IsBinary64 (v : Magnitude) : Prop where
  /-- The number is not zero. -/
  pos : 0 < v.significand
  /-- The significand has at most fifty-three bits. -/
  lt : v.significand < 2 ^ 53
  /-- No exponent is smaller than that of the numbers next to zero. -/
  le_exponent : -1074 ≤ v.exponent
  /-- No exponent is larger than that of the largest number. -/
  exponent_le : v.exponent ≤ 971
  /-- Above the smallest exponent the significand has all its bits. -/
  full : -1074 < v.exponent → 2 ^ 52 ≤ v.significand
  /-- The number below is close exactly at the first number of an exponent, the smallest apart. -/
  close : v.closeBelow = true ↔ v.significand = 2 ^ 52 ∧ -1074 < v.exponent

section Units

variable (v : Magnitude) (place : Int)

/-- A power with an integer exponent, freed of its denominator. -/
theorem zpow_mul_pow_toNat {b : ℚ} (hb : b ≠ 0) (z : Int) :
    b ^ z * b ^ (-z).toNat = b ^ z.toNat := by
  rw [← zpow_natCast, ← zpow_natCast, ← zpow_add₀ hb]
  congr 1
  omega

/-- The two units stand to each other as the decimal unit to a quarter of the last place. -/
theorem units_mul : ((v.units place).1 : ℚ) * v.quarter = (v.units place).2 * 10 ^ place := by
  have htwo := zpow_mul_pow_toNat (b := 2) (by norm_num) (v.exponent - 2)
  have hten := zpow_mul_pow_toNat (b := 10) (by norm_num) place
  simp only [units, quarter, Nat.pow_eq, Nat.cast_mul, Nat.cast_pow, Nat.cast_ofNat]
  calc (10 : ℚ) ^ place.toNat * 2 ^ (-(v.exponent - 2)).toNat * 2 ^ (v.exponent - 2)
      = 10 ^ place.toNat * (2 ^ (v.exponent - 2) * 2 ^ (-(v.exponent - 2)).toNat) := by ring
    _ = 2 ^ (v.exponent - 2).toNat * (10 ^ place * 10 ^ (-place).toNat) := by
      rw [htwo, hten, mul_comm]
    _ = 2 ^ (v.exponent - 2).toNat * 10 ^ (-place).toNat * 10 ^ place := by ring

/-- The units are not zero. -/
theorem units_pos : 0 < (v.units place).1 ∧ 0 < (v.units place).2 := by
  simp only [units, Nat.pow_eq]
  exact ⟨by positivity, by positivity⟩

/-- The two units measure a quarter of the last place and the decimal unit on one scale. -/
theorem exists_scale : ∃ r : ℚ, 0 < r ∧ (v.units place).2 * r = v.quarter ∧
    (v.units place).1 * r = 10 ^ place := by
  have htwo : (0 : ℚ) < (v.units place).2 := by exact_mod_cast (v.units_pos place).2
  have hunits := v.units_mul place
  refine ⟨v.quarter / (v.units place).2, div_pos v.quarter_pos htwo, ?_, ?_⟩
  · exact mul_div_cancel₀ _ htwo.ne'
  · rw [← mul_div_assoc, hunits, mul_div_cancel_left₀ _ htwo.ne']

/-- A decimal is owned exactly when its value is a member of the interval. -/
theorem owns_iff (digits : Nat) :
    v.owns place digits = true ↔ v.Owns (Decimal.mk digits place).value := by
  obtain ⟨r, hr, htwo, hten⟩ := v.exists_scale place
  simp only [owns, Owns, Decimal.value, beq_iff_eq, ← htwo, ← hten, ← mul_assoc,
    mul_le_mul_iff_left₀ hr, mul_lt_mul_iff_left₀ hr]
  norm_cast
  split
  · simp only [Bool.and_eq_true, decide_eq_true_eq]
  · simp only [Bool.and_eq_true, decide_eq_true_eq]

end Units

section Search

variable {v : Magnitude}

/-- An interval meets every grid that is as fine as a quarter of the last place. -/
theorem exists_nearestOn (h : v.IsBinary64) {place : Int}
    (hunits : (v.units place).1 ≤ (v.units place).2) : (v.nearestOn place).isSome = true := by
  obtain ⟨hten, htwo⟩ := v.units_pos place
  have hlower : v.lower + 1 ≤ v.centre := by
    have := h.pos
    simp only [lower, centre]
    split <;> omega
  have hbelow : v.owns place (v.centre * (v.units place).2 / (v.units place).1) = true := by
    generalize hu : v.units place = u at hunits hten htwo
    obtain ⟨ten, two⟩ := u
    simp only at hunits hten htwo
    have hup := Nat.div_mul_le_self (v.centre * two) ten
    have hdown := Nat.lt_div_mul_add (a := v.centre * two) hten
    have hleft : v.lower * two + two ≤ v.centre * two := by nlinarith
    have hright : v.centre * two < v.upper * two := by
      simp only [upper]
      nlinarith
    simp only [owns, hu]
    split
    · simp only [Bool.and_eq_true, decide_eq_true_eq]
      omega
    · simp only [Bool.and_eq_true, decide_eq_true_eq]
      omega
  simp only [nearestOn, hbelow]
  split <;> simp_all

/-- The search ends at a member of the interval if one of its grids meets it. -/
theorem owns_search {steps k : Nat} {place : Int} (hk : k < steps)
    (h : (v.nearestOn (place - k)).isSome = true) :
    v.Owns (v.search steps place).value := by
  induction steps generalizing place k with
  | zero => exact absurd hk (Nat.not_lt_zero k)
  | succ steps ih =>
    rw [search]
    split
    · next digits hd => exact (v.owns_iff place digits).mp (owns_of_nearestOn hd)
    · next hnone =>
      cases k with
      | zero =>
        rw [Nat.cast_zero, sub_zero, hnone] at h
        cases h
      | succ k =>
        refine ih (Nat.lt_of_succ_lt_succ hk) ?_
        rwa [Nat.cast_succ, ← sub_sub, sub_right_comm] at h

/-- A place whose grid is as fine as a quarter of the last place: ten is below sixteen above the
point, and above eight below it. -/
def finePlace (v : Magnitude) : Int :=
  if 2 ≤ v.exponent then (v.exponent - 2) / 4 else (v.exponent - 2) / 3

/-- The grid of that place is fine enough. -/
theorem units_finePlace_le (v : Magnitude) :
    (v.units v.finePlace).1 ≤ (v.units v.finePlace).2 := by
  simp only [units, Nat.pow_eq, finePlace]
  split
  · next h =>
    have hten : (-((v.exponent - 2) / 4)).toNat = 0 := by omega
    have htwo : (-(v.exponent - 2)).toNat = 0 := by omega
    rw [hten, htwo, pow_zero, pow_zero, mul_one, mul_one]
    calc 10 ^ ((v.exponent - 2) / 4).toNat
        ≤ (2 ^ 4) ^ ((v.exponent - 2) / 4).toNat := Nat.pow_le_pow_left (by decide) _
      _ = 2 ^ (4 * ((v.exponent - 2) / 4).toNat) := (pow_mul 2 4 _).symm
      _ ≤ 2 ^ (v.exponent - 2).toNat := Nat.pow_le_pow_right (by decide) (by omega)
  · next h =>
    have hten : ((v.exponent - 2) / 3).toNat = 0 := by omega
    have htwo : (v.exponent - 2).toNat = 0 := by omega
    rw [hten, htwo, pow_zero, pow_zero, one_mul, one_mul]
    calc 2 ^ (-(v.exponent - 2)).toNat
        ≤ 2 ^ (3 * (-((v.exponent - 2) / 3)).toNat) :=
          Nat.pow_le_pow_right (by decide) (by omega)
      _ = (2 ^ 3) ^ (-((v.exponent - 2) / 3)).toNat := pow_mul 2 3 _
      _ ≤ 10 ^ (-((v.exponent - 2) / 3)).toNat := Nat.pow_le_pow_left (by decide) _

/-- The value of the shortest decimal is a member of the interval. -/
theorem owns_shortest (h : v.IsBinary64) : v.Owns v.shortest.value := by
  have hle := h.le_exponent
  have hge := h.exponent_le
  have hplace : v.finePlace ≤ v.topPlace ∧ v.topPlace < v.finePlace + 80 := by
    simp only [finePlace, topPlace]
    split <;> omega
  have hk : v.topPlace - ((v.topPlace - v.finePlace).toNat : Int) = v.finePlace := by omega
  refine owns_search (k := (v.topPlace - v.finePlace).toNat) (by omega) ?_
  rw [hk]
  exact exists_nearestOn h v.units_finePlace_le

end Search

section Disjoint

variable {v w : Magnitude} {x y : ℚ}

/-- A member lies between the ends of the interval. -/
theorem Owns.bounds (h : v.Owns x) : v.lower * v.quarter ≤ x ∧ x ≤ v.upper * v.quarter := by
  rw [Owns] at h
  split at h
  · exact h
  · exact ⟨h.1.le, h.2.le⟩

/-- Strictly so if the significand is odd. -/
theorem Owns.strict (h : v.Owns x) (hodd : v.significand % 2 = 1) :
    v.lower * v.quarter < x ∧ x < v.upper * v.quarter := by
  rwa [Owns, if_neg (by omega)] at h

/-- The members are positive. -/
theorem Owns.pos (hv : v.IsBinary64) (h : v.Owns x) : 0 < x := by
  have hlower : 0 < v.lower := by
    have := hv.pos
    simp only [lower, centre]
    split <;> omega
  have hend : (0 : ℚ) < v.lower * v.quarter := mul_pos (by exact_mod_cast hlower) v.quarter_pos
  exact hend.trans_le h.bounds.1

/-- Where one interval ends before another starts, or both ends meet at a number that is odd, the
members of the one are smaller than those of the other. -/
theorem Owns.lt (h : v.Owns x) (h' : w.Owns y)
    (hends : (v.upper * v.quarter : ℚ) ≤ w.lower * w.quarter)
    (hmeet : v.significand % 2 = 1 ∨ w.significand % 2 = 1 ∨
      (v.upper * v.quarter : ℚ) < w.lower * w.quarter) : x < y := by
  obtain hodd | hodd | hlt := hmeet
  · exact (h.strict hodd).2.trans_le (hends.trans h'.bounds.1)
  · exact (h.bounds.2.trans hends).trans_lt (h'.strict hodd).1
  · exact (h.bounds.2.trans_lt hlt).trans_le h'.bounds.1

/-- With one exponent, the interval of the smaller significand lies below. -/
theorem Owns.lt_of_significand_lt (h : v.Owns x) (h' : w.Owns y)
    (hexponent : v.exponent = w.exponent) (hlt : v.significand < w.significand) : x < y := by
  have hquarter : v.quarter = w.quarter := by rw [quarter, quarter, hexponent]
  have hlower : 4 * w.significand ≤ w.lower + 2 := by
    simp only [lower, centre]
    split <;> omega
  have hends : v.upper ≤ w.lower := by
    simp only [upper, centre]
    omega
  refine h.lt h' ?_ ?_
  · rw [hquarter]
    exact mul_le_mul_of_nonneg_right (by exact_mod_cast hends) w.quarter_pos.le
  · by_cases hnext : w.significand = v.significand + 1
    · omega
    · have hgap : v.upper < w.lower := by
        simp only [upper, centre]
        omega
      rw [hquarter]
      exact .inr (.inr (mul_lt_mul_of_pos_right (by exact_mod_cast hgap) w.quarter_pos))

/-- The interval of the smaller exponent lies below. -/
theorem Owns.lt_of_exponent_lt (hv : v.IsBinary64) (hw : w.IsBinary64) (h : v.Owns x)
    (h' : w.Owns y) (hlt : v.exponent < w.exponent) : x < y := by
  have habove : -1074 < w.exponent := hv.le_exponent.trans_lt hlt
  have hfull := hw.full habove
  have hbits := hv.lt
  have hlower : 2 ^ 54 ≤ w.lower + 1 := by
    by_cases hfirst : w.significand = 2 ^ 52
    · have hclose := hw.close.mpr ⟨hfirst, habove⟩
      rw [lower, centre, hclose, hfirst]
      decide
    · simp only [lower, centre]
      split <;> omega
  have hquarter : 2 * v.quarter ≤ w.quarter := by
    rw [quarter, quarter, ← zpow_one_add₀ (by norm_num)]
    exact zpow_le_zpow_right₀ (by norm_num) (by omega)
  have hend : ((2 * w.lower : Nat) : ℚ) * v.quarter ≤ w.lower * w.quarter := by
    calc ((2 * w.lower : Nat) : ℚ) * v.quarter = w.lower * (2 * v.quarter) := by
          rw [Nat.cast_mul, Nat.cast_ofNat, mul_comm 2, mul_assoc]
      _ ≤ w.lower * w.quarter := mul_le_mul_of_nonneg_left hquarter (Nat.cast_nonneg _)
  have hupper : v.upper ≤ 2 * w.lower := by
    simp only [upper, centre]
    omega
  refine h.lt h' ((mul_le_mul_of_nonneg_right ?_ v.quarter_pos.le).trans hend) ?_
  · exact_mod_cast hupper
  -- The two intervals meet only after the last number of an exponent, which is odd.
  · by_cases hodd : v.significand % 2 = 1
    · exact .inl hodd
    · have hgap : v.upper < 2 * w.lower := by
        simp only [upper, centre]
        omega
      have hlt : (v.upper * v.quarter : ℚ) < (2 * w.lower : Nat) * v.quarter :=
        mul_lt_mul_of_pos_right (by exact_mod_cast hgap) v.quarter_pos
      exact .inr (.inr (hlt.trans_le hend))

/-- A number is a member of one interval only. -/
theorem Owns.unique (hv : v.IsBinary64) (hw : w.IsBinary64) (h : v.Owns x) (h' : w.Owns x) :
    v = w := by
  have hexponent : v.exponent = w.exponent := by
    obtain hlt | heq | hgt := lt_trichotomy v.exponent w.exponent
    · exact absurd (h.lt_of_exponent_lt hv hw h' hlt) (lt_irrefl x)
    · exact heq
    · exact absurd (h'.lt_of_exponent_lt hw hv h hgt) (lt_irrefl x)
  have hsignificand : v.significand = w.significand := by
    obtain hlt | heq | hgt := lt_trichotomy v.significand w.significand
    · exact absurd (h.lt_of_significand_lt h' hexponent hlt) (lt_irrefl x)
    · exact heq
    · exact absurd (h'.lt_of_significand_lt h hexponent.symm hgt) (lt_irrefl x)
  have hclose : v.closeBelow = w.closeBelow := by
    rw [Bool.eq_iff_iff, hv.close, hw.close, hexponent, hsignificand]
  cases v
  cases w
  simp only [mk.injEq]
  exact ⟨hsignificand, hexponent, hclose⟩

end Disjoint

end Magnitude

end Lox.Number
