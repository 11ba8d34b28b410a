import Mathlib
import LayerTiming.Proofs.Number.Doubles

/-!
# Rounding to the nearest

What the operations on doubles round to is a magnitude that no other is nearer to than. So rounding
never goes past a magnitude: whatever bounds the exact value bounds the rounded one, as long as the
bound itself is the magnitude of a double.
-/
namespace LayerTiming.Number
open Float.Model Float.Model.UnpackedFloat

/-- The magnitude of a double, but for its upper limit. -/
def IsRepresentable (q : ℚ) : Prop := ∃ (m : Nat) (e : Int), m < 2 ^ 53 ∧ -1074 ≤ e ∧ q = m * 2 ^ e

/-- A representable magnitude that none is nearer to a value than. -/
structure IsNearest (x z : ℚ) : Prop where
  representable : IsRepresentable z
  nearest : ∀ w, IsRepresentable w → |x - z| ≤ |x - w|

theorem IsCanonical.isRepresentable {m : Nat} {e : Int} (canonical : IsCanonical m e) :
    IsRepresentable (m * 2 ^ e) :=
  ⟨m, e, canonical.small, canonical.least, rfl⟩

theorem isRepresentable_natCast {n : Nat} (small : n < 2 ^ 53) : IsRepresentable n :=
  ⟨n, 0, small, by decide, by simp⟩

/-- A power of two in units of a smaller one. -/
theorem zpow_in_units {k e : Int} (below : k ≤ e) : (2 : ℚ) ^ e = 2 ^ (e - k).toNat * 2 ^ k := by
  rw [← zpow_natCast, ← zpow_add₀ two_ne_zero]
  congr 1
  omega

/-- A magnitude is a multiple of a unit, or it lies below all mantissas of this unit. -/
theorem IsRepresentable.multiple_or_lt {w : ℚ} (representable : IsRepresentable w) (t : Int) :
    (∃ k : Nat, w = k * 2 ^ t) ∨ -1074 < t ∧ w < 2 ^ (52 + t) := by
  obtain ⟨m, e, small, least, rfl⟩ := representable
  rcases le_or_gt t e with above | below
  · refine .inl ⟨m * 2 ^ (e - t).toNat, ?_⟩
    rw [zpow_in_units above]
    push_cast
    ring
  · have few : (m : ℚ) < 2 ^ (53 : Int) := by exact_mod_cast small
    refine .inr ⟨by omega, ?_⟩
    calc (m : ℚ) * 2 ^ e < 2 ^ (53 : Int) * 2 ^ e := mul_lt_mul_of_pos_right few (zpow_pos two_pos _)
      _ = 2 ^ (53 + e) := (zpow_add₀ two_ne_zero _ _).symm
      _ ≤ 2 ^ (52 + t) := zpow_le_zpow_right₀ one_le_two (by omega)

theorem isRepresentable_zpow {k : Int} (least : -1074 ≤ k) : IsRepresentable (2 ^ k) :=
  ⟨1, k, by decide, least, by simp⟩

namespace IsNearest
variable {x z w : ℚ}

/-- Rounding does not go up past a magnitude. -/
theorem le (near : IsNearest x z) (bound : IsRepresentable w) (below : x ≤ w) : z ≤ w := by
  by_contra past
  have closer := near.nearest w bound
  rw [abs_of_nonpos (by linarith), abs_of_nonpos (by linarith)] at closer
  linarith

/-- Rounding does not go down past a magnitude. -/
theorem ge (near : IsNearest x z) (bound : IsRepresentable w) (above : w ≤ x) : w ≤ z := by
  by_contra past
  have closer := near.nearest w bound
  rw [abs_of_nonneg (by linarith), abs_of_nonneg (by linarith)] at closer
  linarith

/-- Of two values the greater one is not rounded to the smaller magnitude. -/
theorem mono {y z' : ℚ} (first : IsNearest x z) (second : IsNearest y z') (less : x < y) :
    z ≤ z' := by
  by_contra past
  have here := first.nearest z' second.representable
  have there := second.nearest z first.representable
  -- The values would lie on the wrong sides of the middle between the magnitudes.
  have low : (z + z') / 2 ≤ x := by
    by_contra below
    rw [abs_of_nonpos (by linarith)] at here
    rcases abs_cases (x - z') with ⟨size, _⟩ | ⟨size, _⟩ <;> linarith
  have high : y ≤ (z + z') / 2 := by
    by_contra above
    rw [abs_of_nonneg (by linarith)] at there
    rcases abs_cases (y - z) with ⟨size, _⟩ | ⟨size, _⟩ <;> linarith
  linarith

end IsNearest

/-- A whole number within a half is nearest among the whole numbers. -/
theorem abs_sub_le_of_half {y : ℚ} {r : Int} (half : |y - r| ≤ 1 / 2) (k : Int) :
    |y - r| ≤ |y - k| := by
  by_cases same : r = k
  · rw [same]
  · have apart : (1 : ℚ) ≤ |(r : ℚ) - k| := by exact_mod_cast Int.one_le_abs (sub_ne_zero.mpr same)
    have through := abs_sub_le (r : ℚ) y k
    rw [abs_sub_comm (r : ℚ) y] at through
    linarith

theorem roundQuotient_bounds (tie : Tie) {n d : Nat} (positive : 0 < d) :
    2 * (roundQuotient tie n d * d) ≤ 2 * n + d ∧ 2 * n ≤ 2 * (roundQuotient tie n d * d) + d := by
  have split := Nat.div_add_mod n d
  have rest := Nat.mod_lt n positive
  unfold roundQuotient
  generalize n / d = q at *
  generalize n % d = r at *
  subst split
  have next : (q + 1) * d = d * q + d := by ring
  have same : q * d = d * q := Nat.mul_comm q d
  -- The ways of rounding part at an exact half only, and there both neighbours are as near.
  cases order : compare (2 * r) d with
  | lt =>
    have half := Nat.compare_eq_lt.mp order
    dsimp only
    omega
  | gt =>
    have half := Nat.compare_eq_gt.mp order
    dsimp only
    omega
  | eq =>
    have half := Nat.compare_eq_eq.mp order
    dsimp only
    split
    · omega
    · split <;> omega

theorem abs_roundQuotient (tie : Tie) {n d : Nat} (positive : 0 < d) :
    |(n : ℚ) / d - roundQuotient tie n d| ≤ 1 / 2 := by
  have some_part : (0 : ℚ) < d := by exact_mod_cast positive
  obtain ⟨low, high⟩ := roundQuotient_bounds tie (n := n) positive
  have low : 2 * ((roundQuotient tie n d : ℚ) * d) ≤ 2 * n + d := by exact_mod_cast low
  have high : 2 * (n : ℚ) ≤ 2 * (roundQuotient tie n d * d) + d := by exact_mod_cast high
  generalize roundQuotient tie n d = r at low high ⊢
  rw [show (n : ℚ) / d - r = (n - r * d) / d by field_simp, abs_le, le_div_iff₀ some_part,
    div_le_iff₀ some_part]
  constructor <;> linarith

section Rounding
variable {s : Sign} {n d : Nat} {e t : Int} {x : ℚ}

/-- What is nearest among the multiples of a unit is nearest among all magnitudes, if the value has
as many bits above the unit as a mantissa, or the unit is the least. -/
theorem isNearest_of_half {r : Nat} (half : |x / 2 ^ t - r| ≤ 1 / 2)
    (many : t = -1074 ∨ (2 : ℚ) ^ (52 + t) ≤ x) (representable : IsRepresentable (r * 2 ^ t)) :
    IsNearest x (r * 2 ^ t) := by
  have unit_pos : (0 : ℚ) < 2 ^ t := zpow_pos two_pos _
  have units (k : Int) : |x - k * 2 ^ t| = |x / 2 ^ t - k| * 2 ^ t := by
    rw [← abs_of_pos unit_pos, ← abs_mul, abs_of_pos unit_pos, sub_mul, div_mul_cancel₀ _ unit_pos.ne']
  -- Among the multiples of the unit the nearest is the nearest whole number of units.
  have among (k : Int) : |x - r * 2 ^ t| ≤ |x - k * 2 ^ t| := by
    have closest := abs_sub_le_of_half (r := r) (by exact_mod_cast half) k
    have here := units r
    rw [Int.cast_natCast] at here closest
    rw [here, units k]
    exact mul_le_mul_of_nonneg_right closest unit_pos.le
  refine ⟨representable, fun w magnitude => ?_⟩
  rcases magnitude.multiple_or_lt t with ⟨k, rfl⟩ | ⟨normal, less⟩
  · exact_mod_cast among k
  · -- Any other lies below the power of two that the value reaches.
    have bits : (2 : ℚ) ^ (52 + t) ≤ x := many.resolve_left normal.ne'
    have power : (2 : ℚ) ^ (52 + t) = ((2 ^ 52 : Nat) : Int) * 2 ^ t := by
      rw [zpow_add₀ two_ne_zero]
      norm_num
    refine (among (2 ^ 52 : Nat)).trans ?_
    rw [← power, abs_of_nonneg (by linarith), abs_of_nonneg (by linarith)]
    linarith

/-- A value in units of the last bit that is kept. -/
theorem shifted_bounds (positive : 0 < d) (value : x = n / d * 2 ^ e)
    (target : max (((n / d).log2 : Int) + e - 52) (-1074) = t) (enough : e ≤ t) :
    x / 2 ^ t < 2 ^ 53 ∧ (t = -1074 ∨ (2 : ℚ) ^ (52 + t) ≤ x) := by
  have unit_pos : (0 : ℚ) < 2 ^ t := zpow_pos two_pos _
  by_cases nothing : n / d = 0
  · -- Less than one unit, and the unit is the least.
    have some_part : (0 : ℚ) < d := by exact_mod_cast positive
    have less : (n : ℚ) / d < 1 := by
      rw [div_lt_one some_part]
      exact_mod_cast (Nat.div_eq_zero_iff_lt positive).mp nothing
    have unit_le : (2 : ℚ) ^ e ≤ 2 ^ t := zpow_le_zpow_right₀ one_le_two enough
    have under : x < 2 ^ t :=
      calc x = n / d * 2 ^ e := value
        _ < 1 * 2 ^ e := mul_lt_mul_of_pos_right less (zpow_pos two_pos _)
        _ ≤ 2 ^ t := by rwa [one_mul]
    rw [nothing, Nat.log2_zero] at target
    refine ⟨((div_lt_one unit_pos).mpr under).trans (by norm_num), .inl (by omega)⟩
  · -- The value has the bits of the quotient, and the unit is 52 bits below the highest of them.
    obtain ⟨least, most⟩ := between_powers positive nothing value
    constructor
    · rw [div_lt_iff₀ unit_pos, ← zpow_ofNat, ← zpow_add₀ two_ne_zero]
      exact most.trans_le (zpow_le_zpow_right₀ one_le_two (by omega))
    · rcases le_or_gt (((n / d).log2 : Int) + e - 52) (-1074) with low | normal
      · exact .inl (by omega)
      · refine .inr (le_trans (le_of_eq ?_) least)
        congr 1
        omega

theorem roundWithAccuracy_small {r : Nat} (positive : 0 < d)
    (target : max (((n / d).log2 : Int) + e - 52) (-1074) = t) (enough : e ≤ t)
    (rounded : roundQuotient .toEven n (d * 2 ^ (t - e).toNat) = r) (small : r < 2 ^ 53) :
    roundWithAccuracy Format.binary64 s (n / d) e (accuracyOfFraction (n % d) d) =
      assembled s r t := by
  rcases Nat.eq_zero_or_pos r with rfl | some_bit
  · have still := Nat.mul_pos positive (Nat.two_pow_pos (t - e).toNat)
    rw [roundWithAccuracy, first_shift positive target enough]
    dsimp only
    rw [roundedMantissa_extended still, rounded, shift_small small (by omega)]
    rfl
  · rw [roundWithAccuracy_eq positive target enough rounded some_bit small,
      assembled_of_pos some_bit]

/-- What a value is rounded to: a magnitude that is nearest. -/
theorem exists_nearest (s : Sign) (positive : 0 < d) (value : x = n / d * 2 ^ e)
    (enough : e ≤ max (((n / d).log2 : Int) + e - 52) (-1074)) :
    ∃ m t, IsCanonical m t ∧ IsNearest x (m * 2 ^ t) ∧
      roundWithAccuracy Format.binary64 s (n / d) e (accuracyOfFraction (n % d) d) =
        assembled s m t := by
  obtain ⟨t, target⟩ : ∃ t, max (((n / d).log2 : Int) + e - 52) (-1074) = t := ⟨_, rfl⟩
  rw [target] at enough
  obtain ⟨few, many⟩ := shifted_bounds positive value target enough
  obtain ⟨r, rounded⟩ : ∃ r, roundQuotient .toEven n (d * 2 ^ (t - e).toNat) = r := ⟨_, rfl⟩
  have least : -1074 ≤ t := by omega
  have half : |x / 2 ^ t - r| ≤ 1 / 2 := by
    rw [← quotient_eq value enough, ← rounded]
    exact abs_roundQuotient .toEven (Nat.mul_pos positive (Nat.two_pow_pos _))
  obtain ⟨low, high⟩ := abs_le.mp half
  -- The rounded number of units is a mantissa, or has one bit too many.
  rcases Nat.lt_or_ge r (2 ^ 53) with small | carried
  · have bits : 2 ^ 52 ≤ r ∨ t = -1074 := by
      refine many.symm.imp_left fun reached => ?_
      have unit_pos : (0 : ℚ) < 2 ^ t := zpow_pos two_pos _
      rw [zpow_add₀ two_ne_zero, ← le_div_iff₀ unit_pos, zpow_ofNat] at reached
      have above : ((2 ^ 52 : Nat) : ℚ) < r + 1 := by push_cast; linarith
      exact Nat.lt_succ_iff.mp (by exact_mod_cast above)
    exact ⟨r, t, ⟨small, least, bits⟩, isNearest_of_half half many ⟨r, t, small, least, rfl⟩,
      roundWithAccuracy_small positive target enough rounded small⟩
  · -- One bit is carried, and the mantissa is a power of two.
    have below : (r : ℚ) < (2 ^ 53 + 1 : Nat) := by push_cast; linarith
    obtain rfl : r = 2 ^ 53 :=
      Nat.le_antisymm (Nat.lt_succ_iff.mp (by exact_mod_cast below)) carried
    have same : ((2 ^ 53 : Nat) : ℚ) * 2 ^ t = (2 ^ 52 : Nat) * 2 ^ (t + 1) := by
      rw [zpow_add_one₀ two_ne_zero]
      push_cast
      ring
    have canonical : IsCanonical (2 ^ 52) (t + 1) := ⟨by decide, by omega, .inl (Nat.le_refl _)⟩
    have near := isNearest_of_half half many (same ▸ canonical.isRepresentable)
    rw [same] at near
    exact ⟨2 ^ 52, t + 1, canonical, near,
      roundWithAccuracy_carry positive target enough rounded⟩

end Rounding

end LayerTiming.Number
