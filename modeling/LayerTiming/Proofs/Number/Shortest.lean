import LayerTiming.Number.Decimal
import LayerTiming.Proofs.Number.Doubles

/-!
# Shortest decimals

The decimal that is chosen for a double lies in the cell of the double. Each candidate was compared
with both ends of the cell, and what is tried last is the exact value, which lies in every cell.
-/
namespace LayerTiming.Number
open Text

/-- What a decimal is worth. -/
def Decimal.value (decimal : Decimal) : ℚ := decimal.digits * 10 ^ decimal.exponent

/-- A power with its negative part on the other side. -/
theorem zpow_mul_pow {b : ℚ} (nonzero : b ≠ 0) (i : Int) :
    b ^ i * b ^ (-i).toNat = b ^ i.toNat := by
  rw [← zpow_natCast, ← zpow_natCast, ← zpow_add₀ nonzero]
  congr 1
  omega

section Comparison

variable {a b : Nat} {i j : Int}

theorem scaled_sides (a b : Nat) (i j : Int) : ∃ unit : ℚ, 0 < unit ∧
    ((a * Nat.pow 10 i.toNat * Nat.pow 2 (-j).toNat : Nat) : ℚ) = a * 10 ^ i * unit ∧
    ((b * Nat.pow 2 j.toNat * Nat.pow 10 (-i).toNat : Nat) : ℚ) = b * 2 ^ j * unit := by
  have tens := zpow_mul_pow (b := 10) (by norm_num) i
  have twos := zpow_mul_pow (b := 2) two_ne_zero j
  refine ⟨10 ^ (-i).toNat * 2 ^ (-j).toNat, by positivity, ?_, ?_⟩
  · simp only [Nat.pow_eq]
    push_cast
    rw [← tens]
    ring
  · simp only [Nat.pow_eq]
    push_cast
    rw [← twos]
    ring

theorem compareScaled_gt :
    compareScaled a i b j = .gt ↔ (b : ℚ) * 2 ^ j < a * 10 ^ i := by
  obtain ⟨unit, positive, left, right⟩ := scaled_sides a b i j
  rw [compareScaled, Nat.compare_eq_gt, ← Nat.cast_lt (α := ℚ), left, right,
    mul_lt_mul_iff_left₀ positive]

theorem compareScaled_lt :
    compareScaled a i b j = .lt ↔ (a : ℚ) * 10 ^ i < b * 2 ^ j := by
  obtain ⟨unit, positive, left, right⟩ := scaled_sides a b i j
  rw [compareScaled, Nat.compare_eq_lt, ← Nat.cast_lt (α := ℚ), left, right,
    mul_lt_mul_iff_left₀ positive]

theorem compareScaled_eq :
    compareScaled a i b j = .eq ↔ (a : ℚ) * 10 ^ i = b * 2 ^ j := by
  obtain ⟨unit, positive, left, right⟩ := scaled_sides a b i j
  rw [compareScaled, Nat.compare_eq_eq, ← Nat.cast_inj (R := ℚ), left, right,
    mul_left_inj' positive.ne']

end Comparison

theorem Decimal.value_stripZeros (fuel : Nat) (decimal : Decimal) :
    (decimal.stripZeros fuel).value = decimal.value := by
  induction fuel generalizing decimal with
  | zero => rfl
  | succ fuel ih =>
    rw [stripZeros]
    split
    next zero =>
      have tenfold : (decimal.digits : ℚ) = (decimal.digits / 10 : Nat) * 10 := by
        exact_mod_cast (Nat.div_mul_cancel (Nat.dvd_of_mod_eq_zero zero.2)).symm
      rw [ih, value, value, tenfold, zpow_add_one₀ (by norm_num)]
      ring
    · rfl

namespace Binary

variable {value : Binary}

/-- A magnitude that knows the gap below it. -/
def IsGapped (value : Binary) : Prop :=
  value.narrowBelow = decide (value.mantissa = 2 ^ 52 ∧ -1074 < value.exponent)

theorem value_exact (value : Binary) :
    value.exact.value = value.mantissa * 2 ^ value.exponent := by
  rw [Decimal.value, exact]
  simp only [Nat.pow_eq]
  push_cast
  rcases Int.le_total 0 value.exponent with whole | part
  · obtain ⟨n, exponent⟩ := Int.eq_ofNat_of_zero_le whole
    rw [exponent]
    simp
  · obtain ⟨n, exponent⟩ := Int.eq_ofNat_of_zero_le (Int.neg_nonneg_of_nonpos part)
    have negated : value.exponent = -n := by omega
    have ten : (10 : ℚ) ^ n = 5 ^ n * 2 ^ n := by rw [← mul_pow]; norm_num
    rw [negated, min_eq_left (by omega), zpow_neg, zpow_neg, zpow_natCast, zpow_natCast, ten]
    have parted : (-(n : Int)).toNat = 0 := by omega
    rw [parted, neg_neg, Int.toNat_natCast]
    field_simp

/-- What reads back lies in the cell. -/
theorem inCell_of_readsBack (some_bit : 0 < value.mantissa) (gapped : value.IsGapped)
    {decimal : Decimal} (reads : value.readsBack decimal = true) :
    InCell value.mantissa value.exponent decimal.value := by
  -- The ends of the cell are halves of the last bit, or a quarter below a power of two, so they are
  -- compared in quarters.
  have quarter : (2 : ℚ) ^ (value.exponent - 2) = 2 ^ value.exponent / 4 := by
    rw [zpow_sub₀ two_ne_zero]
    norm_num
  have high : ((4 * value.mantissa + 2 : Nat) : ℚ) * 2 ^ (value.exponent - 2) =
      (value.mantissa + 1 / 2) * 2 ^ value.exponent := by
    rw [quarter]
    push_cast
    ring
  have low : ((if value.narrowBelow then 4 * value.mantissa - 1 else 4 * value.mantissa - 2 : Nat) :
      ℚ) * 2 ^ (value.exponent - 2) =
        (value.mantissa - halfBelow value.mantissa value.exponent) * 2 ^ value.exponent := by
    rw [quarter, halfBelow, gapped]
    by_cases narrow : value.mantissa = 2 ^ 52 ∧ -1074 < value.exponent
    · rw [decide_eq_true narrow, if_pos rfl, if_pos narrow, Nat.cast_sub (by omega)]
      push_cast
      ring
    · rw [decide_eq_false narrow, if_neg Bool.false_ne_true, if_neg narrow,
        Nat.cast_sub (by omega)]
      push_cast
      ring
  unfold readsBack at reads
  simp only [Bool.and_eq_true, Bool.or_eq_true, beq_iff_eq, compareScaled_gt, compareScaled_lt,
    compareScaled_eq, low, high] at reads
  obtain ⟨above, below⟩ := reads
  constructor
  case low => exact above.elim le_of_lt fun tie => tie.2.ge
  case high => exact below.elim le_of_lt fun tie => tie.2.le
  case odd =>
    intro odd
    exact ⟨above.resolve_right fun tie => by omega, below.resolve_right fun tie => by omega⟩

theorem roundQuotient_cases (tie : Tie) (n d : Nat) :
    roundQuotient tie n d = n / d ∨ roundQuotient tie n d = n / d + 1 := by
  unfold roundQuotient
  dsimp only
  split
  · exact .inl rfl
  · exact .inr rfl
  · split
    · exact .inr rfl
    · split
      · exact .inl rfl
      · exact .inr rfl

/-- A candidate is the exact value, or it was seen to read back. -/
theorem candidate?_cases {tie : Tie} {count : Nat} {found : Decimal}
    (candidate : value.candidate? tie count = some found) :
    found = value.exact ∨ value.readsBack found = true := by
  unfold candidate? at candidate
  dsimp only at candidate
  split at candidate
  · exact .inl (Option.some.inj candidate).symm
  · refine .inr ?_
    split at candidate
    · cases candidate
    next below _ => exact Option.some.inj candidate ▸ below
    next _ above => exact Option.some.inj candidate ▸ above
    next below above =>
      obtain rfl := Option.some.inj candidate
      rcases roundQuotient_cases tie value.exact.digits
        (Nat.pow 10 ((numeral value.exact.digits).length - count)) with same | next
      · rw [same]
        exact below
      · rw [next]
        exact above

/-- The decimal that is chosen for a magnitude rounds to it. -/
theorem inCell_shortest (some_bit : 0 < value.mantissa) (gapped : value.IsGapped) (tie : Tie) :
    InCell value.mantissa value.exponent (value.shortest tie).value := by
  rw [shortest, if_neg some_bit.ne', Decimal.value_stripZeros]
  have exactly : InCell value.mantissa value.exponent value.exact.value :=
    value_exact value ▸ inCell_self _ _
  cases search : (List.range 17).findSome? fun n => value.candidate? tie (n + 1) with
  | none => exact exactly
  | some found =>
    obtain ⟨n, _, candidate⟩ := List.exists_of_findSome?_eq_some search
    rcases candidate?_cases candidate with rfl | reads
    · exact exactly
    · exact inCell_of_readsBack some_bit gapped reads

end Binary

section Cells

variable {m n : Nat} {e t : Int} {x : ℚ}

theorem InCell.positive (cell : InCell m e x) (some_bit : 0 < m) : 0 < x := by
  have unit_pos : (0 : ℚ) < 2 ^ e := zpow_pos two_pos _
  have one : (1 : ℚ) ≤ m := by exact_mod_cast some_bit
  have half := halfBelow_le m e
  exact lt_of_lt_of_le (mul_pos (by linarith) unit_pos) cell.low

/-- A positive value as a quotient of whole numbers with as many bits as a mantissa. -/
theorem exists_long_quotient (positive : 0 < x) :
    ∃ (n d : Nat) (e : Int), 0 < d ∧ x = n / d * 2 ^ e ∧ 2 ^ 52 ≤ n / d := by
  have numerator : 0 < x.num := Rat.num_pos.mpr positive
  let k := 52 + x.den
  refine ⟨x.num.toNat * 2 ^ k, x.den, -(k : Int), x.den_pos, ?_, ?_⟩
  · have whole : (x.num.toNat : ℚ) = x.num := by exact_mod_cast Int.toNat_of_nonneg numerator.le
    have unit_ne : (2 : ℚ) ^ k ≠ 0 := pow_ne_zero _ two_ne_zero
    rw [zpow_neg, zpow_natCast]
    push_cast
    rw [whole]
    field_simp
    exact Rat.mul_den_eq_num x
  · refine (Nat.le_div_iff_mul_le x.den_pos).mpr ?_
    rw [pow_add]
    have bits : x.den ≤ 2 ^ x.den := Nat.lt_two_pow_self.le
    have least : 1 ≤ x.num.toNat := by omega
    exact (Nat.mul_le_mul_left _ bits).trans (Nat.le_mul_of_pos_left _ least)

/-- No value lies in the cells of two magnitudes, as it is rounded to one of them. -/
theorem InCell.unique (first : InCell m e x) (second : InCell n t x) (canonical : IsCanonical m e)
    (other_canonical : IsCanonical n t) (some_bit : 0 < m) (other_bit : 0 < n) :
    m = n ∧ e = t := by
  obtain ⟨a, d, i, positive, value, enough⟩ := exists_long_quotient (first.positive some_bit)
  have rounded := roundWithAccuracy_of_inCell (s := .positive) canonical some_bit first positive
    value enough
  rw [roundWithAccuracy_of_inCell other_canonical other_bit second positive value enough] at rounded
  cases rounded
  exact ⟨rfl, rfl⟩

end Cells

end LayerTiming.Number
