import LayerTiming.Proofs.Number.Errors

/-!
# Halves to the even neighbour

A value is rounded to a point of a grid that no other is nearer to, and where two are as near to the
even one. Doubles are rounded to whole numbers in this way, and the decimal that is chosen for a
double is rounded to the double in this way.
-/
namespace LayerTiming.Number
open Float.Model Float.Model.UnpackedFloat

/-- A value and the point of a grid that it is rounded to. No point is nearer, and another one is as
near only if this one counts as even. -/
structure RoundsHalfEven (grid : ℚ → Prop) (even : Prop) (v z : ℚ) : Prop where
  on_grid : grid z
  nearest : ∀ w, grid w → |v - z| ≤ |v - w|
  tie : ∀ w, grid w → w ≠ z → |v - w| = |v - z| → even

def IsWhole (w : ℚ) : Prop := ∃ n : Int, w = n

/-- A double, or what would be one if there were no greatest double. So what lies too far past the
greatest double is not rounded to it. -/
def IsDouble (w : ℚ) : Prop := IsRepresentable |w|

theorem IsWhole.neg {w : ℚ} (whole : IsWhole w) : IsWhole (-w) := by
  obtain ⟨n, rfl⟩ := whole
  exact ⟨-n, (Int.cast_neg n).symm⟩

theorem IsDouble.neg {w : ℚ} (double : IsDouble w) : IsDouble (-w) := by
  rwa [IsDouble, abs_neg]

namespace RoundsHalfEven
variable {grid : ℚ → Prop} {even even' : Prop} {v z : ℚ}

/-- A point of the grid is not moved. -/
theorem of_exact (even : Prop) (on_grid : grid z) : RoundsHalfEven grid even z z where
  on_grid := on_grid
  nearest w _ := by
    rw [sub_self, abs_zero]
    exact abs_nonneg _
  tie w _ other same := by
    rw [sub_self, abs_zero, abs_eq_zero, sub_eq_zero] at same
    exact absurd same.symm other

theorem neg (rounds : RoundsHalfEven grid even v z) (mirrored : ∀ {w}, grid w → grid (-w)) :
    RoundsHalfEven grid even (-v) (-z) := by
  have distance (w : ℚ) : |-v - w| = |v - -w| := by
    rw [← abs_neg]
    congr 1
    ring
  refine ⟨mirrored rounds.on_grid, fun w point => ?_, fun w point other same => ?_⟩
  · rw [distance, distance, neg_neg]
    exact rounds.nearest (-w) (mirrored point)
  · rw [distance, distance, neg_neg] at same
    exact rounds.tie (-w) (mirrored point) (fun equal => other (neg_eq_iff_eq_neg.mp equal)) same

theorem imp (rounds : RoundsHalfEven grid even v z) (implies : even → even') :
    RoundsHalfEven grid even' v z :=
  ⟨rounds.on_grid, rounds.nearest, fun w point other same => implies (rounds.tie w point other same)⟩

/-- Rounding does not depend on the sign. -/
theorem worth (rounds : RoundsHalfEven grid even v z) (mirrored : ∀ {w}, grid w → grid (-w))
    (s : Sign) : RoundsHalfEven grid even (worth s v) (worth s z) := by
  cases s with
  | negative => exact rounds.neg mirrored
  | positive => exact rounds

end RoundsHalfEven

/-! ### Whole numbers -/

section Whole
variable {v : ℚ} {n d : Nat}

theorem roundsHalfEven_whole {k : Int} {even : Prop} (half : |v - k| ≤ 1 / 2)
    (tie : |v - k| = 1 / 2 → even) : RoundsHalfEven IsWhole even v k := by
  refine ⟨⟨k, rfl⟩, ?_, ?_⟩
  · rintro w ⟨j, rfl⟩
    exact abs_sub_le_of_half half j
  · rintro w ⟨j, rfl⟩ other same
    -- Two whole numbers are at least one apart, so both are half of one away.
    have different : j - k ≠ 0 := sub_ne_zero.mpr fun equal => other (congrArg Int.cast equal)
    have apart : (1 : ℚ) ≤ |(j : ℚ) - k| := by exact_mod_cast Int.one_le_abs different
    have through := abs_sub_le (j : ℚ) v k
    rw [abs_sub_comm (j : ℚ) v, same] at through
    exact tie (by linarith)

/-- Only what is even is half of one away from the quotient. -/
theorem even_of_bounds_eq (positive : 0 < d)
    (tie : 2 * (roundQuotient .toEven n d * d) = 2 * n + d ∨
      2 * n = 2 * (roundQuotient .toEven n d * d) + d) :
    Even (roundQuotient .toEven n d) := by
  have split := Nat.div_add_mod n d
  have rest := Nat.mod_lt n positive
  unfold roundQuotient at tie ⊢
  generalize n / d = q at *
  generalize n % d = r at *
  subst split
  have next : (q + 1) * d = d * q + d := by ring
  have same : q * d = d * q := Nat.mul_comm q d
  -- Only a rest of exactly one half can be half of one away, and there the choice is the even one.
  cases order : compare (2 * r) d with
  | lt =>
    have half := Nat.compare_eq_lt.mp order
    simp only [order] at tie
    omega
  | gt =>
    have half := Nat.compare_eq_gt.mp order
    simp only [order] at tie
    omega
  | eq =>
    dsimp only
    split
    next even => exact Nat.even_iff.mpr even
    next odd => exact Nat.even_iff.mpr (by omega)

theorem even_roundQuotient (positive : 0 < d)
    (tie : |(n : ℚ) / d - roundQuotient .toEven n d| = 1 / 2) :
    Even (roundQuotient .toEven n d) := by
  have part_ne : (d : ℚ) ≠ 0 := by exact_mod_cast positive.ne'
  refine even_of_bounds_eq positive ?_
  generalize roundQuotient .toEven n d = r at tie ⊢
  rw [show (n : ℚ) / d - r = (n - r * d) / d by field_simp] at tie
  rcases eq_or_eq_neg_of_abs_eq tie with above | below
  · rw [div_eq_iff part_ne] at above
    have doubled : 2 * (n : ℚ) = 2 * (r * d) + d := by linarith
    exact .inr (by exact_mod_cast doubled)
  · rw [div_eq_iff part_ne] at below
    have doubled : 2 * ((r : ℚ) * d) = 2 * n + d := by linarith
    exact .inl (by exact_mod_cast doubled)

/-- A magnitude is rounded to a whole number. -/
theorem Binary.roundsHalfEven_nearest {value : Binary} (small : value.mantissa < 2 ^ 53) :
    RoundsHalfEven IsWhole (Even (value.nearest .toEven)) value.magnitude
      (value.nearest .toEven) := by
  obtain ⟨m, d, positive, _, magnitude, nearest⟩ := value.exists_quotient small
  rw [magnitude, nearest, ← Int.cast_natCast (R := ℚ) (roundQuotient _ _ _)]
  refine roundsHalfEven_whole ?_ fun tie => ?_
  · rw [Int.cast_natCast]
    exact abs_roundQuotient .toEven positive
  · rw [Int.cast_natCast] at tie
    exact even_roundQuotient positive tie

end Whole

/-! ### Doubles -/

section Doubles
variable {m : Nat} {e : Int} {x w : ℚ}

/-- What lies in the cell of a magnitude is nearest to it. -/
theorem InCell.isNearest (cell : InCell m e x) (canonical : IsCanonical m e) (some_bit : 0 < m) :
    IsNearest x (m * 2 ^ e) := by
  obtain ⟨n, d, i, positive, value, enough⟩ := exists_long_quotient (cell.positive some_bit)
  have many : 52 ≤ (n / d).log2 := (Nat.le_log2 (by omega)).mpr enough
  obtain ⟨m', t, canonical', near, rounded⟩ :=
    exists_nearest .positive positive value (by omega)
  -- The value is rounded in one way only.
  rw [roundWithAccuracy_of_inCell canonical some_bit cell positive value enough,
    ← assembled_of_pos some_bit] at rounded
  obtain ⟨_, rfl, rfl⟩ := assembled_inj canonical canonical' rounded
  exact near

/-- A whole number in the cell of a fraction would be a double itself. -/
theorem InCell.eq_natCast {n : Nat} (cell : InCell m e n) (canonical : IsCanonical m e)
    (some_bit : 0 < m) (fraction : e < 0) : (m : ℚ) * 2 ^ e = n := by
  have few : (m : ℚ) + 1 ≤ 2 ^ 53 := by exact_mod_cast canonical.small
  have unit_le : (2 : ℚ) ^ e ≤ 1 := zpow_le_one_of_nonpos₀ one_le_two fraction.le
  have below : (n : ℚ) < 2 ^ 53 :=
    calc (n : ℚ) ≤ (m + 1 / 2) * 2 ^ e := cell.high
      _ ≤ m + 1 / 2 := mul_le_of_le_one_right (by positivity) unit_le
      _ < 2 ^ 53 := by linarith
  exact (cell.isNearest canonical some_bit).eq (isRepresentable_natCast (by exact_mod_cast below))

/-- Another double is a whole unit away from one with an odd mantissa. -/
theorem unit_le_abs_sub (canonical : IsCanonical m e) (odd : m % 2 = 1) (double : IsDouble w)
    (other : w ≠ m * 2 ^ e) : 2 ^ e ≤ |w - m * 2 ^ e| := by
  have unit_pos : (0 : ℚ) < 2 ^ e := zpow_pos two_pos _
  rcases double.multiple_or_lt e with ⟨k, magnitude⟩ | ⟨normal, less⟩
  · -- Both are multiples of the unit, and not the same one.
    obtain ⟨j, rfl⟩ : ∃ j : Int, w = j * 2 ^ e := by
      rcases eq_or_eq_neg_of_abs_eq magnitude with positive | negative
      · exact ⟨k, by rw [positive, Int.cast_natCast]⟩
      · exact ⟨-k, by rw [negative]; push_cast; ring⟩
    have different : j - m ≠ 0 := by
      intro same
      refine other ?_
      rw [sub_eq_zero.mp same, Int.cast_natCast]
    have one_le : (1 : ℚ) ≤ |(j : ℚ) - m| := by exact_mod_cast Int.one_le_abs different
    rw [← sub_mul, abs_mul, abs_of_pos unit_pos]
    exact le_mul_of_one_le_left unit_pos.le one_le
  · -- Below the mantissas of this unit there is a unit left, as an odd mantissa is not the least.
    have bits : 2 ^ 52 ≤ m := canonical.bits.resolve_right (by omega)
    have more : (2 : ℚ) ^ 52 + 1 ≤ m := by exact_mod_cast (show 2 ^ 52 + 1 ≤ m by omega)
    have below : w < 2 ^ 52 * 2 ^ e := by
      rw [zpow_add₀ two_ne_zero, zpow_ofNat] at less
      exact (le_abs_self w).trans_lt less
    have room : (2 ^ 52 + 1) * 2 ^ e ≤ (m : ℚ) * 2 ^ e := mul_le_mul_of_nonneg_right more unit_pos.le
    rw [abs_sub_comm]
    exact le_trans (by linarith) (le_abs_self _)

/-- The cell of a magnitude holds what is rounded to it. -/
theorem InCell.roundsHalfEven (cell : InCell m e x) (canonical : IsCanonical m e)
    (some_bit : 0 < m) : RoundsHalfEven IsDouble (Even m) x (m * 2 ^ e) := by
  have positive := cell.positive some_bit
  have nonneg : (0 : ℚ) ≤ m * 2 ^ e := by positivity
  have near := cell.isNearest canonical some_bit
  refine ⟨by rw [IsDouble, abs_of_nonneg nonneg]; exact near.representable, ?_, ?_⟩
  · intro w double
    have flipped := abs_abs_sub_abs_le_abs_sub x w
    rw [abs_of_pos positive] at flipped
    exact (near.nearest |w| double).trans flipped
  · intro w double other same
    by_contra uneven
    have odd : m % 2 = 1 := Nat.odd_iff.mp (Nat.not_even_iff_odd.mp uneven)
    have unit := unit_le_abs_sub canonical odd double other
    obtain ⟨above, below⟩ := cell.odd odd
    rw [halfBelow_of_odd odd] at above
    -- An odd mantissa has no value at the ends of its cell, so both distances are less than half.
    have close : |x - m * 2 ^ e| < 2 ^ e / 2 := abs_lt.mpr ⟨by linarith, by linarith⟩
    have through := abs_sub_le w x (m * 2 ^ e)
    rw [abs_sub_comm w x, same] at through
    linarith

end Doubles

end LayerTiming.Number
