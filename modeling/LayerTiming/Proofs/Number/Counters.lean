import Mathlib
import LayerTiming.Proofs.Number.Bounds
import LayerTiming.Proofs.Number.Shortest

/-!
# Doubles as whole numbers

A double is rounded to a whole number in two ways: to a counter value, with halves upwards and with
nothing past the greatest counter, or exactly, with halves to the even neighbour. Both give the same
number unless the double lies halfway above an even number or past the counters.
-/
namespace LayerTiming.Number

/-- What a finite double is worth, but for its sign. -/
def Binary.magnitude (value : Binary) : ℚ := value.mantissa * 2 ^ value.exponent

/-- A finite double that is rounded to the same whole number in both ways. -/
def RoundsAlike (x : Float) : Prop :=
  ∃ value, kind x = .finite value ∧ value.magnitude < 2 ^ 64 ∧
    ∀ k : Nat, value.magnitude ≠ 2 * k + 1 / 2

theorem Within.kind {x : Float} {k : Nat} (within : Within x k) :
    ∃ value, kind x = .finite value ∧ value.negative = false := by
  obtain ⟨q, _, holds⟩ := within
  obtain ⟨value, finite, sign, _⟩ := holds.kind
  refine ⟨value, finite, ?_⟩
  unfold signOf at sign
  split at sign
  · cases sign
  next positive => exact Bool.eq_false_iff.mpr positive

/-- What a quotient and a rest are that lie halfway above an even number. -/
theorem eq_half_iff {d q r k : Nat} (rest : r < d) :
    2 * (d * q + r) = (4 * k + 1) * d ↔ 2 * r = d ∧ q = 2 * k := by
  constructor
  · intro half
    -- Both sides bound the quotient, by numbers that only one even number lies between.
    have least : 2 * q * d ≤ (4 * k + 1) * d := by
      rw [← half]
      linarith [Nat.mul_comm d q]
    have most : (4 * k + 1) * d < (2 * q + 2) * d := by
      rw [← half]
      linarith [Nat.mul_comm d q]
    have above := Nat.le_of_mul_le_mul_right least (by omega)
    have below := Nat.lt_of_mul_lt_mul_right most
    obtain rfl : q = 2 * k := by omega
    exact ⟨by linarith, rfl⟩
  · rintro ⟨half, rfl⟩
    calc 2 * (d * (2 * k) + r) = d * (4 * k) + 2 * r := by ring
      _ = (4 * k + 1) * d := by rw [half]; ring

/-- The ways of rounding differ by the half above an even number only. -/
theorem roundQuotient_up_eq_iff {n d : Nat} (positive : 0 < d) :
    roundQuotient .up n d = roundQuotient .toEven n d ↔ ∀ k, 2 * n ≠ (4 * k + 1) * d := by
  have halves : (∀ k, 2 * n ≠ (4 * k + 1) * d) ↔ ∀ k, ¬ (2 * (n % d) = d ∧ n / d = 2 * k) := by
    refine forall_congr' fun k => not_congr ?_
    rw [← eq_half_iff (Nat.mod_lt n positive), Nat.div_add_mod]
  rw [halves]
  unfold roundQuotient
  cases order : compare (2 * (n % d)) d with
  | lt =>
    have half := Nat.compare_eq_lt.mp order
    dsimp only
    exact iff_of_true rfl fun k both => half.ne both.1
  | gt =>
    have half := Nat.compare_eq_gt.mp order
    dsimp only
    exact iff_of_true rfl fun k both => half.ne' both.1
  | eq =>
    have half := Nat.compare_eq_eq.mp order
    dsimp only
    split
    next even =>
      refine iff_of_false (Nat.succ_ne_self _) fun apart => ?_
      exact apart (n / d / 2) ⟨half, by omega⟩
    next odd =>
      exact iff_of_true rfl fun k both => odd (by omega)

namespace Binary
variable {value : Binary}

theorem magnitude_eq_div (value : Binary) :
    value.magnitude =
      (value.mantissa * 2 ^ value.exponent.toNat : Nat) / (2 ^ (-value.exponent).toNat : Nat) := by
  push_cast
  rw [← zpow_mul_pow two_ne_zero, magnitude]
  field_simp

/-- The magnitude as the quotient that is rounded. -/
theorem exists_quotient (value : Binary) (small : value.mantissa < 2 ^ 53) :
    ∃ n d : Nat, 0 < d ∧ (d = 1 ∨ n < 2 ^ 53) ∧ value.magnitude = n / d ∧
      ∀ tie, value.nearest tie = roundQuotient tie n d := by
  refine ⟨value.mantissa * 2 ^ value.exponent.toNat, 2 ^ (-value.exponent).toNat,
    Nat.two_pow_pos _, ?_, value.magnitude_eq_div, fun tie => ?_⟩
  · -- A double is a whole number, or has a mantissa over a power of two.
    rcases Int.le_total 0 value.exponent with whole | part
    · have none : (-value.exponent).toNat = 0 := by omega
      exact .inl (by rw [none, pow_zero])
    · have none : value.exponent.toNat = 0 := by omega
      exact .inr (by rwa [none, pow_zero, Nat.mul_one])
  · rw [nearest, scaled]
    simp only [Nat.pow_eq, pow_zero, Nat.mul_one]

theorem counter_eq_iff (small : value.mantissa < 2 ^ 53) :
    min (value.nearest .up) greatestCounter = value.nearest .toEven ↔
      value.magnitude < 2 ^ 64 ∧ ∀ k : Nat, value.magnitude ≠ 2 * k + 1 / 2 := by
  obtain ⟨n, d, positive, short, magnitude, nearest⟩ := value.exists_quotient small
  have limit : greatestCounter = 2 ^ 64 - 1 := rfl
  have some_part : (0 : ℚ) < d := by exact_mod_cast positive
  have under_iff : value.magnitude < 2 ^ 64 ↔ n < 2 ^ 64 * d := by
    rw [magnitude, div_lt_iff₀ some_part]
    exact_mod_cast Iff.rfl
  have halves : (∀ k : Nat, value.magnitude ≠ 2 * k + 1 / 2) ↔ ∀ k, 2 * n ≠ (4 * k + 1) * d := by
    refine forall_congr' fun k => not_congr ?_
    rw [magnitude, div_eq_iff some_part.ne', ← Nat.cast_inj (R := ℚ)]
    push_cast
    constructor <;> intro same <;> linarith
  -- Both sides now speak of one quotient of whole numbers.
  rw [under_iff, halves, nearest, nearest, ← roundQuotient_up_eq_iff positive]
  obtain ⟨low, _⟩ := roundQuotient_bounds .up (n := n) positive
  obtain ⟨_, high⟩ := roundQuotient_bounds .toEven (n := n) positive
  by_cases under : n < 2 ^ 64 * d
  · have most : roundQuotient .up n d ≤ greatestCounter := by
      rcases short with rfl | few
      · omega
      · by_contra past
        have many : 2 ^ 64 * d ≤ roundQuotient .up n d * d := Nat.mul_le_mul_right d (by omega)
        omega
    rw [Nat.min_eq_left most]
    exact (and_iff_right under).symm
  · -- Past the counters the exact number is greater than all of them.
    have many : 2 ^ 64 ≤ roundQuotient .toEven n d := by
      by_contra few
      have below : roundQuotient .toEven n d * d ≤ (2 ^ 64 - 1) * d :=
        Nat.mul_le_mul_right d (by omega)
      omega
    refine iff_of_false (fun same => ?_) fun both => under both.1
    have bounded := Nat.min_le_right (roundQuotient .up n d) greatestCounter
    omega

end Binary

end LayerTiming.Number
