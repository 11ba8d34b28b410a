import Mathlib
import LayerTiming.Number.Binary

/-!
# Rounding to doubles

A product or a quotient of doubles is exact until it is rounded once, to the nearest double, halves
to the even neighbour. So it is a given double whenever its exact value lies in the cell of the
double: not past halfway to a neighbour, and halfway itself only where the mantissa is even.
-/
namespace LayerTiming.Number
open Float.Model Float.Model.UnpackedFloat

/-- A quotient rounds to what is at most half away, halves to the even side. -/
theorem roundQuotient_eq {n d m : Nat} (positive : 0 < d) (low : 2 * m * d ≤ 2 * n + d)
    (high : 2 * n ≤ 2 * m * d + d)
    (ties : m % 2 = 1 → 2 * m * d ≠ 2 * n + d ∧ 2 * n ≠ 2 * m * d + d) :
    roundQuotient .toEven n d = m := by
  have split := Nat.div_add_mod n d
  have rest := Nat.mod_lt n positive
  rw [roundQuotient]
  generalize n / d = q at *
  generalize n % d = r at *
  subst split
  have cancel {a b : Nat} (below : d * a < d * b) : a < b := Nat.lt_of_mul_lt_mul_left below
  -- The bounds leave one neighbour, or both at an exact half, and there the parity decides.
  cases order : compare (2 * r) d with
  | lt =>
    have half := Nat.compare_eq_lt.mp order
    have upper : m < q + 1 := cancel (by linarith)
    have lower : q < m + 1 := cancel (by linarith)
    dsimp only
    omega
  | gt =>
    have half := Nat.compare_eq_gt.mp order
    have upper : 2 * m < 2 * q + 3 := cancel (by linarith)
    have lower : q < m := cancel (by linarith)
    dsimp only
    omega
  | eq =>
    have half := Nat.compare_eq_eq.mp order
    have upper : m < q + 2 := cancel (by linarith)
    have lower : q < m + 1 := cancel (by linarith)
    dsimp only
    split
    · by_contra other
      have next : m = q + 1 := by omega
      exact (ties (by omega)).1 (by rw [next]; linarith)
    · by_contra other
      have same : m = q := by omega
      exact (ties (by omega)).2 (by rw [same]; linarith)

/-- A quotient with what its rounding needs to know of its remainder. -/
def extended (n d : Nat) : ExtendedMantissa :=
  .ofMantissaAndAccuracy (n / d) (accuracyOfFraction (n % d) d)

/-- The bits behind a quotient: whether it is half past a whole number or more, and whether anything
is left behind that. -/
theorem extended_eq {n d : Nat} (positive : 0 < d) : extended n d =
    ⟨n / d, decide (d ≤ 2 * (n % d)), decide (n % d ≠ 0 ∧ 2 * (n % d) ≠ d)⟩ := by
  unfold extended accuracyOfFraction
  generalize n / d = q
  generalize n % d = r
  split
  next exact =>
    subst exact
    simp [ExtendedMantissa.ofMantissaAndAccuracy, positive.ne']
  next inexact =>
    cases order : compare (2 * r) d with
    | lt =>
      have half := Nat.compare_eq_lt.mp order
      simp [ExtendedMantissa.ofMantissaAndAccuracy, half, half.ne, inexact]
    | gt =>
      have half := Nat.compare_eq_gt.mp order
      simp [ExtendedMantissa.ofMantissaAndAccuracy, half.le, half.ne', inexact]
    | eq =>
      have half := Nat.compare_eq_eq.mp order
      simp [ExtendedMantissa.ofMantissaAndAccuracy, half]

/-- Its rounding is to the nearest whole number. -/
theorem roundedMantissa_extended {n d : Nat} (positive : 0 < d) :
    (extended n d).roundedMantissa = roundQuotient .toEven n d := by
  unfold extended accuracyOfFraction roundQuotient
  split
  next exact =>
    have below : compare (2 * (n % d)) d = .lt := by
      rw [exact]
      exact Nat.compare_eq_lt.mpr positive
    rw [below]
    rfl
  · cases compare (2 * (n % d)) d with
    | lt => rfl
    | gt => rfl
    | eq =>
      change n / d + n / d % 2 = if n / d % 2 = 0 then n / d else n / d + 1
      split <;> omega

/-- To drop a bit is to divide by two. -/
theorem shiftRightOne_extended {n d : Nat} (positive : 0 < d) :
    (extended n d).shiftRightOne = extended n (d * 2) := by
  have half : n % (d * 2) = n % d + d * (n / d % 2) := Nat.mod_mul
  have rest := Nat.mod_lt n positive
  rw [extended_eq positive, extended_eq (by omega), ExtendedMantissa.shiftRightOne,
    Nat.div_div_eq_div_mul, half]
  generalize n % d = r at rest
  rcases Nat.mod_two_eq_zero_or_one (n / d) with even | odd
  · rw [even]
    congr 1 <;> grind
  · rw [odd]
    congr 1 <;> grind

theorem extended_shiftRight {n d : Nat} (positive : 0 < d) (k : Nat) :
    extended n d >>> k = extended n (d * 2 ^ k) := by
  induction k with
  | zero => rw [pow_zero, Nat.mul_one]; rfl
  | succ k ih =>
    have still := Nat.mul_pos positive (Nat.two_pow_pos k)
    change (extended n d >>> k).shiftRightOne = _
    rw [ih, shiftRightOne_extended still, pow_succ, Nat.mul_assoc]

theorem targetExponent_def (total : Int) :
    Format.binary64.targetExponent total = max (total - 53) (-1074) := rfl

/-- The exponent that a value is rounded to. -/
theorem targetExponent_eq (m : Nat) (e : Int) :
    Format.binary64.targetExponent (totalExponent m e) = max (m.log2 + e - 52) (-1074) := by
  rw [targetExponent_def, totalExponent]
  congr 1
  omega

theorem shift_small {m : Nat} {e : Int} (small : m < 2 ^ 53) (least : -1074 ≤ e) :
    shiftToTargetExponent Format.binary64 m e .exact = (⟨m, false, false⟩, e) := by
  have bits : m.log2 ≤ 52 := by
    by_cases zero : m = 0
    · simp [zero]
    · have below := (Nat.log2_lt zero).mpr small
      omega
  have still : (max ((m.log2 : Int) + e - 52) (-1074) - e).toNat = 0 := by omega
  rw [shiftToTargetExponent, targetExponent_eq, shiftToExponent, still]
  simp only [Int.natCast_zero, Int.add_zero]
  rfl

/-- A mantissa that rounding has carried one bit too far. -/
theorem shift_carry {e : Int} (least : -1074 ≤ e) :
    shiftToTargetExponent Format.binary64 (2 ^ 53) e .exact = (⟨2 ^ 52, false, false⟩, e + 1) := by
  have one : (max (((2 ^ 53 : Nat).log2 : Int) + e - 52) (-1074) - e).toNat = 1 := by
    rw [Nat.log2_two_pow]
    omega
  rw [shiftToTargetExponent, targetExponent_eq, shiftToExponent, one]
  rfl

section RoundWithAccuracy

variable {s : Sign} {n d : Nat} {e t : Int}

theorem first_shift (positive : 0 < d)
    (target : max (((n / d).log2 : Int) + e - 52) (-1074) = t) (enough : e ≤ t) :
    shiftToTargetExponent Format.binary64 (n / d) e (accuracyOfFraction (n % d) d) =
      (extended n (d * 2 ^ (t - e).toNat), t) := by
  have there : e + ((t - e).toNat : Int) = t := by omega
  rw [shiftToTargetExponent, targetExponent_eq, target, shiftToExponent]
  rw [there, ← extended_shiftRight positive]
  rfl

theorem roundWithAccuracy_eq {r : Nat} (positive : 0 < d)
    (target : max (((n / d).log2 : Int) + e - 52) (-1074) = t) (enough : e ≤ t)
    (rounded : roundQuotient .toEven n (d * 2 ^ (t - e).toNat) = r) (some_bit : 0 < r)
    (small : r < 2 ^ 53) :
    roundWithAccuracy Format.binary64 s (n / d) e (accuracyOfFraction (n % d) d) =
      .finite s r t some_bit := by
  have still := Nat.mul_pos positive (Nat.two_pow_pos (t - e).toNat)
  have least : -1074 ≤ t := by omega
  rw [roundWithAccuracy, first_shift positive target enough]
  dsimp only
  rw [roundedMantissa_extended still, rounded, shift_small small least]
  dsimp only
  rw [dif_neg some_bit.ne']

theorem roundWithAccuracy_carry (positive : 0 < d)
    (target : max (((n / d).log2 : Int) + e - 52) (-1074) = t) (enough : e ≤ t)
    (rounded : roundQuotient .toEven n (d * 2 ^ (t - e).toNat) = 2 ^ 53) :
    roundWithAccuracy Format.binary64 s (n / d) e (accuracyOfFraction (n % d) d) =
      .finite s (2 ^ 52) (t + 1) (by decide) := by
  have still := Nat.mul_pos positive (Nat.two_pow_pos (t - e).toNat)
  have least : -1074 ≤ t := by omega
  rw [roundWithAccuracy, first_shift positive target enough]
  dsimp only
  rw [roundedMantissa_extended still, rounded, shift_carry least]
  rfl

end RoundWithAccuracy

/-- The one way to write a finite magnitude: with as small an exponent as there is, or as many bits
as there are. -/
structure IsCanonical (m : Nat) (e : Int) : Prop where
  small : m < 2 ^ 53
  least : -1074 ≤ e
  bits : 2 ^ 52 ≤ m ∨ e = -1074

/-- How far halfway to the next smaller magnitude is, in units of the last bit. -/
def halfBelow (m : Nat) (e : Int) : ℚ := if m = 2 ^ 52 ∧ -1074 < e then 1 / 4 else 1 / 2

/-- What rounds to a magnitude. -/
structure InCell (m : Nat) (e : Int) (x : ℚ) : Prop where
  low : (m - halfBelow m e) * 2 ^ e ≤ x
  high : x ≤ (m + 1 / 2) * 2 ^ e
  odd : m % 2 = 1 → (m - halfBelow m e) * 2 ^ e < x ∧ x < (m + 1 / 2) * 2 ^ e

theorem halfBelow_le (m : Nat) (e : Int) : halfBelow m e ≤ 1 / 2 := by
  unfold halfBelow
  split <;> norm_num

theorem halfBelow_of_odd {m : Nat} (odd : m % 2 = 1) (e : Int) : halfBelow m e = 1 / 2 := by
  rw [halfBelow, if_neg]
  rintro ⟨rfl, _⟩
  norm_num at odd

theorem roundQuotient_of_rat {n d r : Nat} (positive : 0 < d) (low : (r : ℚ) - 1 / 2 ≤ n / d)
    (high : (n : ℚ) / d ≤ r + 1 / 2)
    (odd : r % 2 = 1 → (r : ℚ) - 1 / 2 < n / d ∧ (n : ℚ) / d < r + 1 / 2) :
    roundQuotient .toEven n d = r := by
  have some_part : (0 : ℚ) < d := by exact_mod_cast positive
  rw [le_div_iff₀ some_part] at low
  rw [div_le_iff₀ some_part] at high
  rw [lt_div_iff₀ some_part, div_lt_iff₀ some_part] at odd
  refine roundQuotient_eq positive ?_ ?_ fun is_odd => ?_
  · have whole : 2 * (r : ℚ) * d ≤ 2 * n + d := by linarith
    exact_mod_cast whole
  · have whole : 2 * (n : ℚ) ≤ 2 * r * d + d := by linarith
    exact_mod_cast whole
  · obtain ⟨above, below⟩ := odd is_odd
    constructor
    · have whole : 2 * (r : ℚ) * d < 2 * n + d := by linarith
      exact (show 2 * r * d < 2 * n + d by exact_mod_cast whole).ne
    · have whole : 2 * (n : ℚ) < 2 * r * d + d := by linarith
      exact (show 2 * n < 2 * r * d + d by exact_mod_cast whole).ne

section Cells

variable {n d m : Nat} {e t : Int} {x : ℚ}

/-- A value in units of the exponent that it is rounded to. -/
theorem quotient_eq (value : x = n / d * 2 ^ e) (enough : e ≤ t) :
    (n : ℚ) / (d * 2 ^ (t - e).toNat : Nat) = x / 2 ^ t := by
  have parted : (2 : ℚ) ^ t = 2 ^ e * 2 ^ (t - e).toNat := by
    rw [← zpow_natCast, ← zpow_add₀ two_ne_zero]
    congr 1
    omega
  have unit_ne : (2 : ℚ) ^ e ≠ 0 := zpow_ne_zero _ two_ne_zero
  rw [value, parted]
  push_cast
  field_simp

/-- A value lies between the powers of two that its bits tell. -/
theorem between_powers (positive : 0 < d) (some_bit : n / d ≠ 0) (value : x = n / d * 2 ^ e) :
    (2 : ℚ) ^ (((n / d).log2 : Int) + e) ≤ x ∧ x < 2 ^ (((n / d).log2 : Int) + 1 + e) := by
  have some_part : (0 : ℚ) < d := by exact_mod_cast positive
  have unit_pos : (0 : ℚ) < 2 ^ e := zpow_pos two_pos _
  have least : 2 ^ (n / d).log2 * d ≤ n :=
    (Nat.le_div_iff_mul_le positive).mp (Nat.log2_self_le some_bit)
  have most : n < 2 ^ ((n / d).log2 + 1) * d :=
    (Nat.div_lt_iff_lt_mul positive).mp Nat.lt_log2_self
  rw [zpow_add₀ two_ne_zero, zpow_add₀ two_ne_zero, value]
  constructor
  · refine mul_le_mul_of_nonneg_right ((le_div_iff₀ some_part).mpr ?_) unit_pos.le
    exact_mod_cast least
  · refine mul_lt_mul_of_pos_right ((div_lt_iff₀ some_part).mpr ?_) unit_pos
    exact_mod_cast most

theorem two_zpow_lt {i j : Int} (below : (2 : ℚ) ^ i < 2 ^ j) : i < j :=
  (zpow_lt_zpow_iff_right₀ one_lt_two).mp below

/-- A magnitude is no more than the greatest of its bits. -/
theorem InCell.lt_power (cell : InCell m e x) (canonical : IsCanonical m e) :
    x < 2 ^ (53 + e) := by
  have unit_pos : (0 : ℚ) < 2 ^ e := zpow_pos two_pos _
  have small : (m : ℚ) + 1 ≤ 2 ^ 53 := by exact_mod_cast canonical.small
  rw [zpow_add₀ two_ne_zero]
  refine cell.high.trans_lt (mul_lt_mul_of_pos_right ?_ unit_pos)
  rw [zpow_ofNat]
  linarith

/-- What rounds to a magnitude from below its greatest bit rounds to a power of two. -/
theorem InCell.carry (cell : InCell m e x) (canonical : IsCanonical m e) (normal : -1074 < e)
    (under : x < 2 ^ (52 + e)) : m = 2 ^ 52 ∧ (2 ^ 53 - 1 / 2) * 2 ^ (e - 1) ≤ x := by
  have unit_pos : (0 : ℚ) < 2 ^ e := zpow_pos two_pos _
  have bits : 2 ^ 52 ≤ m := canonical.bits.resolve_right (by omega)
  rw [zpow_add₀ two_ne_zero, zpow_ofNat] at under
  have few : (m : ℚ) - halfBelow m e < 2 ^ 52 :=
    lt_of_mul_lt_mul_right (cell.low.trans_lt under) unit_pos.le
  have power : m = 2 ^ 52 := by
    by_contra other
    have more : (2 : ℚ) ^ 52 + 1 ≤ m := by exact_mod_cast (show 2 ^ 52 + 1 ≤ m by omega)
    have half := halfBelow_le m e
    linarith
  have low := cell.low
  rw [halfBelow, if_pos ⟨power, normal⟩, power] at low
  refine ⟨power, le_trans (le_of_eq ?_) low⟩
  rw [zpow_sub₀ two_ne_zero]
  push_cast
  ring

/-- A value in the cell of a magnitude is rounded to this magnitude. -/
theorem roundWithAccuracy_of_inCell {s : Sign} (canonical : IsCanonical m t) (some_bit : 0 < m)
    (cell : InCell m t x) (positive : 0 < d) (value : x = n / d * 2 ^ e)
    (enough : 2 ^ 52 ≤ n / d) :
    roundWithAccuracy Format.binary64 s (n / d) e (accuracyOfFraction (n % d) d) =
      .finite s m t some_bit := by
  have some_quotient : n / d ≠ 0 := by omega
  have many : 52 ≤ (n / d).log2 := (Nat.le_log2 some_quotient).mpr enough
  obtain ⟨least, most⟩ := between_powers positive some_quotient value
  have upper := two_zpow_lt (least.trans_lt (cell.lt_power canonical))
  have lowest := canonical.least
  by_cases whole : t = -1074 ∨ (2 : ℚ) ^ (52 + t) ≤ x
  · -- No bit is carried.
    have target : max (((n / d).log2 : Int) + e - 52) (-1074) = t := by
      rcases whole with rfl | above
      · omega
      · have lower := two_zpow_lt (above.trans_lt most)
        omega
    have still := Nat.mul_pos positive (Nat.two_pow_pos (t - e).toNat)
    have unit_pos : (0 : ℚ) < 2 ^ t := zpow_pos two_pos _
    have scaled := quotient_eq value (show e ≤ t by omega)
    refine roundWithAccuracy_eq positive target (by omega) ?_ some_bit canonical.small
    refine roundQuotient_of_rat still ?_ ?_ fun odd => ?_
    · rw [scaled, le_div_iff₀ unit_pos]
      have half := halfBelow_le m t
      exact le_trans (mul_le_mul_of_nonneg_right (by linarith) unit_pos.le) cell.low
    · rw [scaled, div_le_iff₀ unit_pos]
      exact cell.high
    · rw [scaled, lt_div_iff₀ unit_pos, div_lt_iff₀ unit_pos, ← halfBelow_of_odd odd t]
      exact halfBelow_of_odd odd t ▸ cell.odd odd
  · simp only [not_or, not_le] at whole
    obtain ⟨normal, under⟩ := whole
    -- The cell reaches below its power of two. There the unit is half as great, and rounding up to
    -- the power carries a bit.
    obtain ⟨rfl, low⟩ := cell.carry canonical (by omega) under
    have lower : 51 + t < (n / d).log2 + 1 + e := by
      refine two_zpow_lt (lt_of_le_of_lt ?_ most)
      refine le_trans ?_ low
      have parted : (51 : Int) + t = 52 + (t - 1) := by omega
      rw [parted, zpow_add₀ two_ne_zero, zpow_ofNat]
      have unit_pos : (0 : ℚ) < 2 ^ (t - 1) := zpow_pos two_pos _
      exact mul_le_mul_of_nonneg_right (by norm_num) unit_pos.le
    have fewer := two_zpow_lt (least.trans_lt under)
    have target : max (((n / d).log2 : Int) + e - 52) (-1074) = t - 1 := by omega
    have still := Nat.mul_pos positive (Nat.two_pow_pos (t - 1 - e).toNat)
    have unit_pos : (0 : ℚ) < 2 ^ (t - 1) := zpow_pos two_pos _
    have scaled := quotient_eq value (show e ≤ t - 1 by omega)
    have rounded : roundQuotient .toEven n (d * 2 ^ (t - 1 - e).toNat) = 2 ^ 53 := by
      refine roundQuotient_of_rat still ?_ ?_ (by norm_num)
      · rw [scaled, le_div_iff₀ unit_pos]
        exact_mod_cast low
      · rw [scaled, div_le_iff₀ unit_pos]
        have parted : (52 : Int) + t = 53 + (t - 1) := by omega
        rw [parted, zpow_add₀ two_ne_zero, zpow_ofNat] at under
        refine under.le.trans (mul_le_mul_of_nonneg_right ?_ unit_pos.le)
        norm_num
    rw [roundWithAccuracy_carry positive target (by omega) rounded]
    congr 1
    omega

end Cells

end LayerTiming.Number
