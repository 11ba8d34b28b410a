import Mathlib
import LayerTiming.Proofs.Number.Magnitudes

/-!
# Bounds of computed doubles

Doubles that are not negative and lie within a power of two stay so under the operations on them. A
sum does too, however many terms it has: one that is large enough absorbs every further term.
-/
namespace LayerTiming.Number
open Float.Model Float.Model.UnpackedFloat

theorem isRepresentable_pow (k : Nat) : IsRepresentable (2 ^ k) := by
  rw [← zpow_natCast]
  exact isRepresentable_zpow (by omega)

theorem IsNearest.eq {x z : ℚ} (near : IsNearest x z) (exact : IsRepresentable x) : z = x :=
  le_antisymm (near.le exact le_rfl) (near.ge exact le_rfl)

/-- Magnitudes above a power of two keep a distance from it. -/
theorem IsRepresentable.add_le {z : ℚ} {k : Nat} (representable : IsRepresentable z)
    (above : 2 ^ (k + 52) < z) : 2 ^ (k + 52) + 2 ^ k ≤ z := by
  obtain ⟨m, e, small, _, rfl⟩ := representable
  by_cases fine : (k : Int) ≤ e
  · -- Both are multiples of the unit.
    obtain ⟨i, rfl⟩ : ∃ i : Nat, e = i + k := ⟨(e - k).toNat, by omega⟩
    have unit_pos : (0 : ℚ) < 2 ^ k := by positivity
    rw [zpow_add₀ two_ne_zero, zpow_natCast, zpow_natCast, ← mul_assoc] at above ⊢
    rw [pow_add, mul_comm (2 ^ k) (2 ^ 52), mul_lt_mul_iff_left₀ unit_pos] at above
    have next : 2 ^ 52 + 1 ≤ m * 2 ^ i := by exact_mod_cast above
    calc (2 : ℚ) ^ (k + 52) + 2 ^ k = (2 ^ 52 + 1) * 2 ^ k := by ring
      _ ≤ m * 2 ^ i * 2 ^ k := mul_le_mul_of_nonneg_right (by exact_mod_cast next) unit_pos.le
  · have few : (m : ℚ) ≤ 2 ^ (53 : Int) := by exact_mod_cast small.le
    refine absurd above (not_lt.mpr ?_)
    calc (m : ℚ) * 2 ^ e ≤ 2 ^ (53 : Int) * 2 ^ e :=
        mul_le_mul_of_nonneg_right few (zpow_pos two_pos _).le
      _ = 2 ^ (53 + e) := (zpow_add₀ two_ne_zero _ _).symm
      _ ≤ 2 ^ ((k + 52 : Nat) : Int) := zpow_le_zpow_right₀ one_le_two (by omega)
      _ = 2 ^ (k + 52) := zpow_natCast _ _

/-- What lies above a power of two by little is rounded down to it. -/
theorem IsNearest.absorb {v z : ℚ} {k : Nat} (near : IsNearest v z)
    (little : v ≤ 2 ^ (k + 54) + 2 ^ k) : z ≤ 2 ^ (k + 54) := by
  -- The next magnitude above lies four units up, and the value at most one.
  by_contra past
  have unit_pos : (0 : ℚ) < 2 ^ k := by positivity
  have far := near.representable.add_le (k := k + 2) (not_le.mp past)
  have units : (2 : ℚ) ^ (k + 2) = 4 * 2 ^ k := by ring
  rw [show k + 2 + 52 = k + 54 by omega, units] at far
  rcases le_total v (2 ^ (k + 54)) with below | above
  · exact past (near.le (isRepresentable_pow _) below)
  · have closest := near.nearest (2 ^ (k + 54)) (isRepresentable_pow _)
    rw [abs_of_nonpos (by linarith), abs_of_nonneg (by linarith)] at closest
    linarith

/-- A finite double that is not negative, nor greater than a power of two. -/
def Within (x : Float) (k : Nat) : Prop := ∃ q, q ≤ 2 ^ k ∧ IsMagnitude x .positive q

section Operations
variable {x y : Float} {j k n : Nat} {v : ℚ}

theorem pow_lt_limit (least : k < 1024) : (2 : ℚ) ^ k < 2 ^ 1024 :=
  pow_lt_pow_right₀ one_lt_two least

theorem IsRounded.within (rounded : IsRounded x .positive v) (below : v ≤ 2 ^ k)
    (least : k < 1024) : Within x k := by
  obtain ⟨z, _, bound, holds⟩ :=
    rounded.isMagnitude (isRepresentable_pow k) (pow_lt_limit least) below
  exact ⟨z, bound, holds⟩

theorem Within.mono (within : Within x j) (more : j ≤ k) : Within x k := by
  obtain ⟨q, bound, holds⟩ := within
  exact ⟨q, bound.trans (pow_le_pow_right₀ one_le_two more), holds⟩

theorem isMagnitude_of_kind {value : Binary} (finite : kind x = .finite value) :
    IsMagnitude x (signOf value.negative) (value.mantissa * 2 ^ value.exponent) := by
  obtain ⟨canonical, most, _, unpacked⟩ := unpack_of_kind finite
  exact ⟨_, _, canonical, most, unpacked, rfl⟩

theorem Within.isInf (within : Within x k) : x.isInf = false := by
  obtain ⟨q, _, m, e, _, _, unpacked, _⟩ := within
  change UnpackedFloat.isInf x.toModel.unpack = false
  rw [unpacked, assembled]
  split <;> rfl

theorem within_zero (k : Nat) : Within 0.0 k := by
  have parts : kind 0.0 = .finite ⟨false, 0, -1074, false⟩ := rfl
  exact ⟨_, by norm_num, isMagnitude_of_kind parts⟩

theorem within_toFloat (n : UInt64) : Within n.toFloat 64 := by
  apply (isRounded_toFloat n).within _ (by decide)
  exact_mod_cast n.toNat_lt.le

theorem Within.mul (first : Within x j) (second : Within y k) (least : j + k < 1024) :
    Within (x * y) (j + k) := by
  obtain ⟨p, bound, holds⟩ := first
  obtain ⟨q, bound', holds'⟩ := second
  apply (holds.mul holds').within _ least
  rw [pow_add]
  exact mul_le_mul bound bound' holds'.nonneg (by positivity)

/-- The square of a difference. -/
theorem Within.square_sub (first : Within x k) (second : Within y k) (least : 2 * k < 1024) :
    Within ((x - y) * (x - y)) (2 * k) := by
  obtain ⟨p, bound, holds⟩ := first
  obtain ⟨q, bound', holds'⟩ := second
  obtain ⟨s, rounded⟩ := holds.sub holds'
  have apart : |p - q| ≤ 2 ^ k := by
    have positive := holds.nonneg
    have positive' := holds'.nonneg
    exact abs_le.mpr ⟨by linarith, by linarith⟩
  obtain ⟨z, _, far, difference⟩ :=
    rounded.isMagnitude (isRepresentable_pow k) (pow_lt_limit (by omega)) apart
  have square := difference.mul difference
  have sign : s * s = .positive := by cases s <;> rfl
  rw [sign] at square
  apply square.within _ least
  rw [two_mul, pow_add]
  exact mul_le_mul far far difference.nonneg (by positivity)

theorem Within.sqrt (within : Within x (2 * k)) (least : k < 1024) : Within x.sqrt k := by
  obtain ⟨q, bound, holds⟩ := within
  obtain ⟨v, rounded, root⟩ := holds.sqrt
  apply rounded.within _ least
  rw [← zpow_natCast]
  apply root
  rw [show (2 : Int) * k = (2 * k : Nat) by push_cast; rfl, zpow_natCast]
  exact bound

end Operations

/-! ### Divisors -/

theorem isRounded_ofNat (n : Nat) : IsRounded (Float.ofNat n) .positive n := by
  by_cases small : n < 2 ^ 53
  · -- A short number is converted as a counter value and then multiplied by one.
    have as_product : Float.ofNat n = n.toUInt64.toFloat * Float.ofBits 0x3FF0000000000000 := by
      change Float.ofScientific n false 0 = _
      rw [Float.ofScientific, dif_pos ⟨small, by decide⟩]
      rfl
    have word : n.toUInt64.toNat = n := by
      rw [Nat.toUInt64_eq]
      exact UInt64.toNat_ofNat_of_lt (by rw [UInt64.size]; omega)
    have rounded := isRounded_toFloat n.toUInt64
    rw [word] at rounded
    have under : (n : ℚ) < 2 ^ 1024 :=
      lt_trans (by exact_mod_cast small) (pow_lt_limit (k := 53) (by decide))
    obtain ⟨z, near, _, holds⟩ :=
      rounded.isMagnitude (isRepresentable_natCast small) under le_rfl
    rw [near.eq (isRepresentable_natCast small)] at holds
    have one : kind (Float.ofBits 0x3FF0000000000000) = .finite ⟨false, 2 ^ 52, -52, true⟩ := rfl
    rw [as_product]
    exact isRounded_of_eq (holds.mul (isMagnitude_of_kind one)) (by norm_num)
  · have some_bit : 0 < n := by omega
    -- A long number is read as a numeral without an exponent, and rounded once.
    have log := log2_mul_pow some_bit 53
    obtain ⟨m, t, canonical, near, rounded⟩ :=
      exists_nearest_exact .positive (n := n * 2 ^ 53) (e := -53) (by rw [log]; omega)
    have value : ((n * 2 ^ 53 : Nat) : ℚ) * 2 ^ (-53 : Int) = n := by
      rw [zpow_neg]
      push_cast
      field_simp
    rw [value] at near
    refine ⟨m, t, canonical, near, ?_⟩
    change Float.ofScientific n false 0 = _
    rw [Float.ofScientific, dif_neg fun short => small short.1]
    change Float.ofModel (.pack (UnpackedFloat.ofScientific Format.binary64 n 0)) = _
    have in_range : ¬ (0 : Int) < -(2 ^ Format.binary64.exponentBits + n.log2) := by
      rw [show (2 : Int) ^ Format.binary64.exponentBits = 2048 from rfl]
      omega
    rw [UnpackedFloat.ofScientific, dif_neg some_bit.ne', if_neg (by decide), if_neg in_range,
      if_pos le_rfl, UnpackedFloat.mul, ← rounded]
    simp only [Nat.shiftLeft_eq, Int.toNat_zero, pow_zero, mul_one, add_zero]
    rfl

/-- A quotient by what is at least one is no greater than the dividend. The divisor may be
infinite. -/
theorem Within.div {x y : Float} {k : Nat} {v : ℚ} (within : Within x k)
    (divisor : IsRounded y .positive v) (at_least : 1 ≤ v) (least : k < 1024) :
    Within (x / y) k := by
  obtain ⟨q, bound, holds⟩ := within
  -- A divisor past all doubles makes the quotient zero.
  have one : IsRepresentable 1 := by simpa using isRepresentable_pow 0
  rcases divisor.isMagnitude_or_infinite with ⟨z, near, finite⟩ | ⟨_, infinite⟩
  · have at_least : 1 ≤ z := near.ge one at_least
    have quotient := holds.div finite (by linarith)
    rw [show Sign.positive / Sign.positive = Sign.positive from rfl] at quotient
    apply quotient.within _ least
    exact (div_le_self holds.nonneg at_least).trans bound
  · obtain ⟨m, e, canonical, _, unpacked, rfl⟩ := holds
    have nothing : x / y = 0.0 := by
      change Float.ofModel (.pack (UnpackedFloat.div Format.binary64 x.toModel.unpack
        y.toModel.unpack)) = _
      rw [unpacked, infinite, assembled]
      split <;> rfl
    rw [nothing]
    exact within_zero k

/-! ### Sums of any length -/

section Sums
variable {x y : Float} {k : Nat} {xs : List Float}

/-- A sum that is great enough absorbs a further term. -/
theorem IsMagnitude.add_absorb {p q : ℚ} (sum : IsMagnitude x .positive p)
    (bound : p ≤ 2 ^ (k + 54)) (term : IsMagnitude y .positive q) (little : q ≤ 2 ^ k)
    (least : k + 55 < 1024) :
    ∃ z, IsNearest (p + q) z ∧ z ≤ 2 ^ (k + 54) ∧ IsMagnitude (x + y) .positive z := by
  have exact : p + q ≤ 2 ^ (k + 54) + 2 ^ k := add_le_add bound little
  have doubled : (2 : ℚ) ^ (k + 54) + 2 ^ k ≤ 2 ^ (k + 55) := by
    rw [pow_succ _ (k + 54), mul_two]
    exact add_le_add_right (pow_le_pow_right₀ one_le_two (by omega)) _
  obtain ⟨z, near, _, result⟩ := (sum.add term).isMagnitude (isRepresentable_pow (k + 55))
    (pow_lt_limit (by omega)) (exact.trans doubled)
  exact ⟨z, near, near.absorb exact, result⟩

theorem Within.add (sum : Within x (k + 54)) (term : Within y k) (least : k + 55 < 1024) :
    Within (x + y) (k + 54) := by
  obtain ⟨p, bound, holds⟩ := sum
  obtain ⟨q, little, holds'⟩ := term
  obtain ⟨z, _, absorbed, result⟩ := holds.add_absorb bound holds' little least
  exact ⟨z, absorbed, result⟩

theorem Within.foldl (start : Within x (k + 54)) (terms : ∀ y ∈ xs, Within y k)
    (least : k + 55 < 1024) : Within (xs.foldl (· + ·) x) (k + 54) := by
  induction xs generalizing x with
  | nil => exact start
  | cons y ys ih =>
    have here := start.add (terms y List.mem_cons_self) least
    exact ih here fun z member => terms z (List.mem_cons_of_mem y member)

theorem within_total (terms : ∀ y ∈ xs, Within y k) (least : k + 55 < 1024) :
    Within (xs.foldl (· + ·) 0.0) (k + 54) :=
  (within_zero (k + 54)).foldl terms least

/-- The sum of some terms. Its first term is added to the negative zero. -/
theorem within_sum (some_term : xs ≠ []) (terms : ∀ y ∈ xs, Within y k) (least : k + 55 < 1024) :
    Within (sum xs) (k + 54) := by
  obtain ⟨y, ys, rfl⟩ := List.exists_cons_of_ne_nil some_term
  have first := terms y List.mem_cons_self
  have ⟨q, _, holds⟩ := first
  rw [sum, List.foldl_cons, negZero_add holds]
  refine Within.foldl (first.mono (by omega)) ?_ least
  intro z member
  exact terms z (List.mem_cons_of_mem y member)

end Sums

end LayerTiming.Number
