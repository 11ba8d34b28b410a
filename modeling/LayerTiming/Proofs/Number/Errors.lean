import Mathlib
import LayerTiming.Proofs.Number.Bounds
import LayerTiming.Proofs.Number.Counters

/-!
# Errors of rounding

A magnitude that is not subnormal is rounded with a relative error of at most two to the power minus
53. Whole numbers are rounded to whole numbers, and a sum of them, whose additions are rounded one by
one, is exact as long as no partial sum outgrows the mantissa.
-/
namespace LayerTiming.Number

/-- The greatest relative error of a rounding. -/
def unitError : ℚ := 1 / 2 ^ 53

theorem unitError_nonneg : 0 ≤ unitError := by
  unfold unitError
  positivity

/-- A mantissa with its last carry. -/
theorem isRepresentable_mul_zpow {n : Nat} {e : Int} (small : n ≤ 2 ^ 53) (least : -1074 ≤ e) :
    IsRepresentable (n * 2 ^ e) := by
  rcases small.lt_or_eq with fits | rfl
  · exact ⟨n, e, fits, least, rfl⟩
  · refine ⟨2 ^ 52, e + 1, by decide, by omega, ?_⟩
    rw [zpow_add_one₀ two_ne_zero]
    push_cast
    ring

/-- A magnitude from two to the power 53 on is a whole number. -/
theorem IsRepresentable.exists_nat {z : ℚ} (representable : IsRepresentable z)
    (great : 2 ^ 53 ≤ z) : ∃ n : Nat, z = n := by
  obtain ⟨m, e, small, least, rfl⟩ := representable
  rcases le_or_gt 0 e with whole | part
  · obtain ⟨k, rfl⟩ := Int.eq_ofNat_of_zero_le whole
    exact ⟨m * 2 ^ k, by push_cast; rw [zpow_natCast]⟩
  · have unit_le : (2 : ℚ) ^ e ≤ 1 := zpow_le_one_of_nonpos₀ one_le_two part.le
    have few : (m : ℚ) < 2 ^ 53 := by exact_mod_cast small
    have below : (m : ℚ) * 2 ^ e ≤ m := mul_le_of_le_one_right (Nat.cast_nonneg m) unit_le
    linarith

namespace IsNearest
variable {x z : ℚ}

/-- Between two powers of two the magnitudes are the multiples of a unit, and the nearest one is at
most half a unit away. -/
theorem half_unit (near : IsNearest x z) {k : Int} (least : -1022 ≤ k) (above : 2 ^ k ≤ x)
    (below : x < 2 ^ (k + 1)) : |x - z| ≤ 2 ^ (k - 53) := by
  obtain ⟨u, unit⟩ : ∃ u, k - 52 = u := ⟨_, rfl⟩
  have unit_pos : (0 : ℚ) < 2 ^ u := zpow_pos two_pos _
  have value : x / 2 ^ u * 2 ^ u = x := div_mul_cancel₀ x unit_pos.ne'
  have nonneg : 0 ≤ x / 2 ^ u := div_nonneg ((zpow_pos two_pos k).le.trans above) unit_pos.le
  have bound : x / 2 ^ u < 2 ^ 53 := by
    rw [div_lt_iff₀ unit_pos, ← zpow_ofNat, ← zpow_add₀ two_ne_zero]
    exact below.trans_eq (by congr 1; omega)
  -- The nearest whole number of units is representable, so the nearest magnitude is no farther
  -- away.
  have half : |x / 2 ^ u - round (x / 2 ^ u)| ≤ 1 / 2 := abs_sub_round _
  obtain ⟨low, high⟩ := abs_le.mp half
  obtain ⟨r, rounded⟩ : ∃ r : Nat, round (x / 2 ^ u) = r := by
    refine Int.eq_ofNat_of_zero_le (Int.lt_add_one_iff.mp ?_)
    have positive : (0 : ℚ) < (round (x / 2 ^ u) + 1 : Int) := by push_cast; linarith
    exact_mod_cast positive
  rw [rounded, Int.cast_natCast] at low high half
  have small : r ≤ 2 ^ 53 := by
    have next : (r : ℚ) < (2 ^ 53 + 1 : Nat) := by push_cast; linarith
    exact Nat.lt_succ_iff.mp (by exact_mod_cast next)
  have multiple : IsRepresentable (r * 2 ^ u) := isRepresentable_mul_zpow small (by omega)
  calc |x - z| ≤ |x - r * 2 ^ u| := near.nearest _ multiple
    _ = |x / 2 ^ u - r| * 2 ^ u := by
      rw [← abs_of_pos unit_pos, ← abs_mul, abs_of_pos unit_pos, sub_mul, value]
    _ ≤ 1 / 2 * 2 ^ u := mul_le_mul_of_nonneg_right half unit_pos.le
    _ = 2 ^ (k - 53) := by
      rw [show k - 53 = u - 1 by omega, zpow_sub_one₀ two_ne_zero]
      ring

/-- The relative error of a rounding. -/
theorem relative_error (near : IsNearest x z) (normal : 2 ^ (-1022 : Int) ≤ x) :
    |x - z| ≤ unitError * x := by
  have positive : 0 < x := (zpow_pos two_pos _).trans_le normal
  have above := Int.zpow_log_le_self (b := 2) (by decide) positive
  have below := Int.lt_zpow_succ_log_self (b := 2) (by decide) x
  have least := (Int.zpow_le_iff_le_log (b := 2) (by decide) positive).mp normal
  push_cast at above below
  calc |x - z| ≤ 2 ^ (Int.log 2 x - 53) := near.half_unit least above below
    _ = unitError * 2 ^ Int.log 2 x := by
      rw [unitError, zpow_sub₀ two_ne_zero]
      norm_num
      ring
    _ ≤ unitError * x := mul_le_mul_of_nonneg_left above unitError_nonneg

/-- A whole number is rounded to a whole number. -/
theorem exists_nat {n : Nat} (near : IsNearest n z) : ∃ m : Nat, z = m := by
  by_cases small : n < 2 ^ 53
  · exact ⟨n, near.eq (isRepresentable_natCast small)⟩
  · have great : (2 : ℚ) ^ 53 ≤ n := by exact_mod_cast not_lt.mp small
    exact near.representable.exists_nat (near.ge (isRepresentable_pow 53) great)

theorem relative_error_nat {n : Nat} (near : IsNearest n z) : |(n : ℚ) - z| ≤ unitError * n := by
  rcases Nat.eq_zero_or_pos n with rfl | positive
  · have exact : z = (0 : Nat) := near.eq (isRepresentable_natCast (by decide))
    simp [exact]
  · have one_le : (1 : ℚ) ≤ n := by exact_mod_cast positive
    exact near.relative_error ((zpow_le_one_of_nonpos₀ one_le_two (by decide)).trans one_le)

end IsNearest

/-! ### Sums of whole numbers -/

/-- A sum of whole numbers from left to right where each addition is rounded to a nearest double. -/
inductive RoundedSum : Nat → List Nat → Nat → Prop
  | nil (total : Nat) : RoundedSum total [] total
  | cons {start term next total : Nat} {rest : List Nat} (near : IsNearest (start + term : Nat) next)
    (later : RoundedSum next rest total) : RoundedSum start (term :: rest) total

namespace RoundedSum
variable {start total : Nat} {terms : List Nat}

/-- Partial sums that are doubles are not rounded. -/
theorem eq_sum (sum : RoundedSum start terms total)
    (exact : ∀ k, IsRepresentable (start + (terms.take k).sum : Nat)) :
    total = start + terms.sum := by
  induction sum with
  | nil => simp
  | @cons start term next total rest near later ih =>
    have here : IsRepresentable (start + term : Nat) := by simpa using exact 1
    have same : next = start + term := Nat.cast_injective (near.eq here)
    subst same
    rw [ih fun k => by simpa [add_assoc] using exact (k + 1), List.sum_cons, add_assoc]

/-- Each addition but an exact first one adds to the relative error. -/
theorem relative_error (sum : RoundedSum start terms total) :
    |(total : ℚ) - (start + terms.sum : Nat)| ≤
      ((1 + unitError) ^ terms.length - 1) * (start + terms.sum : Nat) := by
  induction sum with
  | nil => simp
  | @cons start term next total rest near later ih =>
    obtain ⟨exact, whole⟩ : ∃ exact, start + term = exact := ⟨_, rfl⟩
    rw [List.sum_cons, ← add_assoc, whole, List.length_cons]
    rw [whole] at near
    have here := near.relative_error_nat
    have growth : 0 ≤ (1 + unitError) ^ rest.length - 1 :=
      sub_nonneg.mpr (one_le_pow₀ (le_add_of_nonneg_right unitError_nonneg))
    generalize rest.sum = others at ih ⊢
    have grown : 0 ≤ unitError * others := mul_nonneg unitError_nonneg (Nat.cast_nonneg others)
    push_cast at ih ⊢
    -- The sum goes on from a start that differs little from the exact one.
    have moved : |(next + others : ℚ) - (exact + others)| ≤ unitError * (exact + others) := by
      rw [add_sub_add_right_eq_sub, abs_sub_comm]
      linarith
    have start_le : (next + others : ℚ) ≤ (1 + unitError) * (exact + others) := by
      linarith [(abs_sub_le_iff.mp moved).1]
    calc |(total : ℚ) - (exact + others)|
        ≤ |(total : ℚ) - (next + others)| + |(next + others : ℚ) - (exact + others)| :=
          abs_sub_le _ _ _
      _ ≤ ((1 + unitError) ^ rest.length - 1) * ((1 + unitError) * (exact + others)) +
            unitError * (exact + others) :=
          add_le_add (ih.trans (mul_le_mul_of_nonneg_left start_le growth)) moved
      _ = ((1 + unitError) ^ (rest.length + 1) - 1) * (exact + others) := by ring

/-- A sum that is begun with zero goes on from its first term. -/
theorem later_of_zero {first : Nat} (sum : RoundedSum 0 (first :: terms) total)
    (exact : IsRepresentable first) : RoundedSum first terms total := by
  cases sum with
  | cons near later =>
    rw [Nat.zero_add] at near
    have same := Nat.cast_injective (near.eq exact)
    rwa [← same]

end RoundedSum

/-! ### Whole doubles -/

section Whole
variable {x : Float} {value : Binary} {k n : Nat}

theorem eq_of_half {m n : Int} (half : |(m : ℚ) - n| ≤ 1 / 2) : m = n := by
  have close : |m - n| < 1 := by
    have less : |(m : ℚ) - n| < 1 := half.trans_lt (by norm_num)
    exact_mod_cast less
  exact Int.sub_eq_zero.mp (Int.abs_lt_one_iff.mp close)

theorem nat_eq_of_half {m n : Nat} (half : |(m : ℚ) - n| ≤ 1 / 2) : m = n :=
  Int.ofNat_inj.mp (eq_of_half (by exact_mod_cast half))

/-- What a double is rounded to is at most half away, and it is a double too. -/
theorem Binary.nearest_spec (small : value.mantissa < 2 ^ 53) (tie : Tie) :
    |value.magnitude - value.nearest tie| ≤ 1 / 2 ∧
      ((value.nearest tie : ℚ) = value.magnitude ∨ value.nearest tie < 2 ^ 53) := by
  obtain ⟨m, d, positive, short, magnitude, nearest⟩ := value.exists_quotient small
  have half := abs_roundQuotient tie (n := m) positive
  rw [← nearest tie, ← magnitude] at half
  refine ⟨half, ?_⟩
  rcases short with rfl | few
  · rw [Nat.cast_one, div_one] at magnitude
    rw [magnitude] at half ⊢
    exact .inl (by rw [nat_eq_of_half half])
  · have at_most : value.magnitude ≤ m := by
      rw [magnitude]
      exact div_le_self (Nat.cast_nonneg m) (by exact_mod_cast positive)
    have below : (value.nearest tie : ℚ) < (m + 1 : Nat) := by
      push_cast
      linarith [(abs_sub_le_iff.mp half).2]
    have le_m : value.nearest tie < m + 1 := by exact_mod_cast below
    exact .inr (by omega)

theorem Binary.nearest_of_natCast (small : value.mantissa < 2 ^ 53) (whole : value.magnitude = n)
    (tie : Tie) : value.nearest tie = n := by
  have half := (value.nearest_spec small tie).1
  rw [whole] at half
  exact (nat_eq_of_half half).symm

theorem IsMagnitude.kind_positive {q : ℚ} (holds : IsMagnitude x .positive q) :
    ∃ value, Number.kind x = .finite value ∧ value.negative = false ∧ value.magnitude = q ∧
      IsCanonical value.mantissa value.exponent := by
  obtain ⟨value, finite, sign, magnitude⟩ := holds.kind
  refine ⟨value, finite, ?_, magnitude.symm, (unpack_of_kind finite).1⟩
  cases negative : value.negative with
  | false => rfl
  | true =>
    rw [negative] at sign
    cases sign

theorem IsMagnitude.isRepresentable {s : Float.Model.UnpackedFloat.Sign} {q : ℚ}
    (holds : IsMagnitude x s q) : IsRepresentable q := by
  obtain ⟨m, e, canonical, _, _, rfl⟩ := holds
  exact canonical.isRepresentable

/-- A finite double is rounded to a whole double that has its sign. -/
theorem isMagnitude_roundEven (finite : kind x = .finite value) :
    IsMagnitude (roundEven x) (signOf value.negative) (value.nearest .toEven) := by
  obtain ⟨canonical, most, _⟩ := unpack_of_kind finite
  obtain ⟨_, exact⟩ := value.nearest_spec canonical.small .toEven
  have rounded : roundEven x =
      if value.negative then -Float.ofNat (value.nearest .toEven)
      else Float.ofNat (value.nearest .toEven) := by
    rw [roundEven, finite]
  generalize value.nearest .toEven = n at exact rounded ⊢
  -- The whole number is the magnitude itself, or it is no longer than a mantissa.
  have whole : IsMagnitude (Float.ofNat n) .positive n := by
    have bounded : IsRepresentable n ∧ (n : ℚ) < 2 ^ 1024 := by
      rcases exact with same | few
      · rw [same]
        exact ⟨canonical.isRepresentable, canonical.exponent_le_iff.mp most⟩
      · have less : (n : ℚ) < 2 ^ 53 := by exact_mod_cast few
        exact ⟨isRepresentable_natCast few, less.trans (pow_lt_limit (by decide))⟩
    obtain ⟨z, near, _, holds⟩ := (isRounded_ofNat n).isMagnitude bounded.1 bounded.2 le_rfl
    rwa [near.eq bounded.1] at holds
  rw [rounded]
  cases value.negative with
  | true => exact whole.neg
  | false => exact whole

/-- A double that is not negative is rounded to a whole number within the same bound. -/
theorem Within.exists_roundEven (within : Within x k) :
    ∃ n : Nat, n ≤ 2 ^ k ∧ IsMagnitude (roundEven x) .positive n := by
  obtain ⟨q, bound, holds⟩ := within
  obtain ⟨value, finite, positive, magnitude, canonical⟩ := holds.kind_positive
  have rounded := isMagnitude_roundEven finite
  rw [positive] at rounded
  obtain ⟨half, _⟩ := value.nearest_spec canonical.small .toEven
  refine ⟨_, ?_, rounded⟩
  have below : (value.nearest .toEven : ℚ) < (2 ^ k + 1 : Nat) := by
    push_cast
    linarith [(abs_sub_le_iff.mp half).2]
  exact Nat.lt_succ_iff.mp (by exact_mod_cast below)

/-- Whole doubles that are added one by one give a rounded sum of what they are worth, however many
they are. -/
theorem exists_roundedSum {xs : List Float} {counts : List Nat} {start : Float} {p : Nat}
    (terms : List.Forall₂ (fun x n => IsMagnitude x .positive (n : Nat) ∧ n ≤ 2 ^ k) xs counts)
    (begun : IsMagnitude start .positive p) (bound : p ≤ 2 ^ (k + 54)) (least : k + 55 < 1024) :
    ∃ total : Nat, IsMagnitude (xs.foldl (· + ·) start) .positive total ∧
      RoundedSum p counts total := by
  induction terms generalizing start p with
  | nil => exact ⟨p, begun, .nil p⟩
  | @cons x n xs counts first others ih =>
    obtain ⟨holds, little⟩ := first
    have p_le : (p : ℚ) ≤ 2 ^ (k + 54) := by exact_mod_cast bound
    have n_le : (n : ℚ) ≤ 2 ^ k := by exact_mod_cast little
    obtain ⟨z, near, absorbed, added⟩ := begun.add_absorb p_le holds n_le least
    rw [← Nat.cast_add] at near
    obtain ⟨next, rfl⟩ := near.exists_nat
    obtain ⟨total, result, later⟩ := ih added (by exact_mod_cast absorbed)
    exact ⟨total, result, .cons near later⟩

end Whole

end LayerTiming.Number
