import Mathlib
import LayerTiming.Proofs.Number.Nearest

/-!
# Magnitudes of doubles

Each operation on finite doubles gives what is nearest to the exact result, with the sign that the
operation gives it. The result is finite unless it reaches two to the power 1024.
-/
namespace LayerTiming.Number
open Float.Model Float.Model.UnpackedFloat

/-- A finite double with a sign and a magnitude. -/
def IsMagnitude (x : Float) (s : Sign) (q : ℚ) : Prop :=
  ∃ m e, IsCanonical m e ∧ e ≤ 971 ∧ x.toModel.unpack = assembled s m e ∧ q = m * 2 ^ e

/-- A double with a sign that comes from rounding a magnitude, and that may be infinite. -/
def IsRounded (x : Float) (s : Sign) (v : ℚ) : Prop :=
  ∃ m e, IsCanonical m e ∧ IsNearest v (m * 2 ^ e) ∧ x = .ofModel (.pack (assembled s m e))

theorem assembled_zero (s : Sign) (e : Int) : assembled s 0 e = .zero s := dif_pos rfl

theorem unpack_pack_zero (s : Sign) : (Float.Model.pack (.zero s)).unpack = .zero s := by
  cases s <;> rfl

theorem unpack_pack_infinity (s : Sign) :
    (Float.Model.pack (.infinity s)).unpack = .infinity s := by
  cases s <;> rfl

/-- A canonical magnitude that is not too great is packed without loss. -/
theorem unpack_pack_assembled {s : Sign} {m : Nat} {e : Int} (canonical : IsCanonical m e)
    (most : e ≤ 971) : (Float.Model.pack (assembled s m e)).unpack = assembled s m e := by
  rcases Nat.eq_zero_or_pos m with rfl | some_bit
  · rw [assembled_zero, unpack_pack_zero]
  · rw [assembled_of_pos some_bit, unpack_pack canonical most some_bit]

/-- One that is too great is packed as infinity. -/
theorem unpack_pack_past {s : Sign} {m : Nat} {e : Int} (some_bit : 0 < m) (past : 971 < e) :
    (Float.Model.pack (assembled s m e)).unpack = .infinity s := by
  have shift : e + Format.binary64.exponentBias + Format.binary64.mantissaBitsWithoutImplicit =
    e + 1075 := by rw [Int.add_assoc]; rfl
  have out_of_range : 2 ^ Format.binary64.exponentBits ≤ (e + 1075).toNat + 1 := by
    rw [show 2 ^ Format.binary64.exponentBits = 2048 from rfl]
    omega
  rw [assembled_of_pos some_bit, ← unpack_pack_infinity s]
  change UnpackedFloat.unpack Format.binary64 (UnpackedFloat.pack Format.binary64 _) =
    UnpackedFloat.unpack Format.binary64 (UnpackedFloat.pack Format.binary64 _)
  congr 1
  unfold UnpackedFloat.pack
  dsimp only
  rw [shift, if_pos out_of_range]

/-- The exponents of finite doubles are told by their magnitudes. -/
theorem IsCanonical.exponent_le_iff {m : Nat} {e : Int} (canonical : IsCanonical m e) :
    e ≤ 971 ↔ (m : ℚ) * 2 ^ e < 2 ^ 1024 := by
  have unit_pos : (0 : ℚ) < 2 ^ e := zpow_pos two_pos _
  constructor
  · intro most
    have few : (m : ℚ) < 2 ^ (53 : Int) := by exact_mod_cast canonical.small
    calc (m : ℚ) * 2 ^ e < 2 ^ (53 : Int) * 2 ^ e := mul_lt_mul_of_pos_right few unit_pos
      _ = 2 ^ (53 + e) := (zpow_add₀ two_ne_zero _ _).symm
      _ ≤ 2 ^ (1024 : Int) := zpow_le_zpow_right₀ one_le_two (by omega)
      _ = 2 ^ 1024 := zpow_ofNat _ _
  · intro under
    by_contra past
    have bits : 2 ^ 52 ≤ m := canonical.bits.resolve_right (by omega)
    have many : (2 : ℚ) ^ (52 : Int) ≤ m := by exact_mod_cast bits
    refine absurd under (not_lt.mpr ?_)
    calc (2 : ℚ) ^ 1024 = 2 ^ (1024 : Int) := (zpow_ofNat _ _).symm
      _ ≤ 2 ^ (52 + e) := zpow_le_zpow_right₀ one_le_two (by omega)
      _ = 2 ^ (52 : Int) * 2 ^ e := zpow_add₀ two_ne_zero _ _
      _ ≤ m * 2 ^ e := mul_le_mul_of_nonneg_right many unit_pos.le

theorem IsMagnitude.nonneg {x : Float} {s : Sign} {q : ℚ} (holds : IsMagnitude x s q) : 0 ≤ q := by
  obtain ⟨m, e, _, _, _, rfl⟩ := holds
  positivity

namespace IsRounded
variable {x : Float} {s : Sign} {v w : ℚ}

theorem isMagnitude_or_infinite (rounded : IsRounded x s v) :
    (∃ z, IsNearest v z ∧ IsMagnitude x s z) ∨
      (∃ z, IsNearest v z ∧ 2 ^ 1024 ≤ z) ∧ x.toModel.unpack = .infinity s := by
  obtain ⟨m, e, canonical, near, rfl⟩ := rounded
  by_cases most : e ≤ 971
  · exact .inl ⟨_, near, m, e, canonical, most, unpack_pack_assembled canonical most, rfl⟩
  · have bits : 2 ^ 52 ≤ m := canonical.bits.resolve_right (by omega)
    refine .inr ⟨⟨_, near, not_lt.mp (canonical.exponent_le_iff.not.mp most)⟩, ?_⟩
    exact unpack_pack_past (by omega) (by omega)

/-- What is bounded by a magnitude is rounded to one within the same bound. -/
theorem isMagnitude (rounded : IsRounded x s v) (bound : IsRepresentable w) (under : w < 2 ^ 1024)
    (below : v ≤ w) : ∃ z, IsNearest v z ∧ z ≤ w ∧ IsMagnitude x s z := by
  rcases rounded.isMagnitude_or_infinite with ⟨z, near, holds⟩ | ⟨⟨z, near, past⟩, _⟩
  · exact ⟨z, near, near.le bound below, holds⟩
  · exact absurd ((near.le bound below).trans_lt under) (not_lt.mpr past)

end IsRounded

/-! ### The roundings of exact results -/

theorem exists_nearest_exact (s : Sign) {n : Nat} {e : Int}
    (enough : e ≤ max ((n.log2 : Int) + e - 52) (-1074)) :
    ∃ m t, IsCanonical m t ∧ IsNearest (n * 2 ^ e) (m * 2 ^ t) ∧
      roundWithAccuracy Format.binary64 s n e .exact = assembled s m t := by
  have value : (n : ℚ) * 2 ^ e = n / (1 : Nat) * 2 ^ e := by rw [Nat.cast_one, div_one]
  have found := exists_nearest s Nat.one_pos value (by rwa [Nat.div_one])
  rwa [Nat.div_one, Nat.mod_one] at found

theorem log2_mul_pow {n : Nat} (some_bit : 0 < n) (k : Nat) : (n * 2 ^ k).log2 = n.log2 + k := by
  refine (Nat.log2_eq_iff (by positivity)).mpr ⟨?_, ?_⟩
  · rw [pow_add]
    exact Nat.mul_le_mul_right _ (Nat.log2_self_le some_bit.ne')
  · rw [Nat.add_right_comm, pow_add]
    exact Nat.mul_lt_mul_of_pos_right Nat.lt_log2_self (Nat.two_pow_pos k)

/-- A value with any exponent is first given bits enough. -/
theorem exists_nearest_round (s : Sign) {n : Nat} (some_bit : 0 < n) (e : Int) :
    ∃ m t, IsCanonical m t ∧ IsNearest (n * 2 ^ e) (m * 2 ^ t) ∧
      UnpackedFloat.round Format.binary64 s n e = assembled s m t := by
  obtain ⟨k, shift⟩ : ∃ k, (e - max ((n.log2 : Int) + e - 52) (-1074)).toNat = k := ⟨_, rfl⟩
  have bits := log2_mul_pow some_bit k
  have same : ((n * 2 ^ k : Nat) : ℚ) * 2 ^ (e - k) = n * 2 ^ e := by
    rw [zpow_sub₀ two_ne_zero, zpow_natCast]
    push_cast
    field_simp
  have found := exists_nearest_exact s (n := n * 2 ^ k) (e := e - k) (by rw [bits]; omega)
  rw [same] at found
  rw [UnpackedFloat.round, targetExponent_eq, decreaseExponent, shift]
  dsimp only
  rwa [Nat.shiftLeft_eq]

section Operations
variable {a b : Float} {s t : Sign} {p q : ℚ}

theorem isRounded_zero (s : Sign) : IsRounded (.ofModel (.pack (.zero s))) s 0 := by
  refine ⟨0, -1074, ⟨by decide, by decide, .inr rfl⟩, ⟨?_, ?_⟩, by rw [assembled_zero]⟩
  · exact ⟨0, 0, by decide, by decide, by simp⟩
  · intro w _
    simp

theorem isRounded_assembled {m : Nat} {e : Int} (canonical : IsCanonical m e) :
    IsRounded (.ofModel (.pack (assembled s m e))) s (m * 2 ^ e) := by
  refine ⟨m, e, canonical, ⟨canonical.isRepresentable, fun w _ => ?_⟩, rfl⟩
  rw [sub_self, abs_zero]
  exact abs_nonneg _

theorem isRounded_of_nearest {m : Nat} {e : Int} {v : ℚ} {found : UnpackedFloat}
    (canonical : IsCanonical m e) (near : IsNearest v (m * 2 ^ e)) (same : found = assembled s m e) :
    IsRounded (.ofModel (.pack found)) s v :=
  ⟨m, e, canonical, near, same ▸ rfl⟩

theorem isRounded_of_eq {x : Float} {v w : ℚ} (rounded : IsRounded x s v) (same : v = w) :
    IsRounded x s w := same ▸ rounded

theorem isRounded_round (s : Sign) {n : Nat} (some_bit : 0 < n) (e : Int) :
    IsRounded (.ofModel (.pack (UnpackedFloat.round Format.binary64 s n e))) s (n * 2 ^ e) := by
  obtain ⟨m, t, canonical, near, rounded⟩ := exists_nearest_round s some_bit e
  exact isRounded_of_nearest canonical near rounded

/-- A signed whole number of units, rounded. Zero is positive. -/
theorem isRounded_normalize (k e : Int) : ∃ s, (0 ≤ k → s = .positive) ∧ (k < 0 → s = .negative) ∧
    IsRounded (.ofModel (.pack (UnpackedFloat.normalize Format.binary64 k e .positive))) s
      (|k| * 2 ^ e) := by
  rw [UnpackedFloat.normalize]
  -- The sign is taken off, so that only magnitudes are rounded.
  cases order : compare k 0 with
  | lt =>
    have negative := Int.compare_eq_lt.mp order
    have magnitude : (((-k).toNat : Nat) : ℚ) = |k| := by
      rw [abs_of_neg negative]
      exact_mod_cast Int.toNat_of_nonneg (by omega : 0 ≤ -k)
    have rounded := isRounded_round .negative (n := (-k).toNat) (by omega) e
    rw [magnitude] at rounded
    exact ⟨.negative, fun nonneg => absurd negative (by omega), fun _ => rfl, rounded⟩
  | eq =>
    obtain rfl := Int.compare_eq_eq.mp order
    exact ⟨.positive, fun _ => rfl, fun below => absurd below (lt_irrefl 0),
      isRounded_of_eq (isRounded_zero .positive) (by simp)⟩
  | gt =>
    have positive := Int.compare_eq_gt.mp order
    have magnitude : ((k.toNat : Nat) : ℚ) = |k| := by
      rw [abs_of_pos positive]
      exact_mod_cast Int.toNat_of_nonneg positive.le
    have rounded := isRounded_round .positive (n := k.toNat) (by omega) e
    rw [magnitude] at rounded
    exact ⟨.positive, fun _ => rfl, fun below => absurd below (by omega), rounded⟩

theorem isRounded_toFloat (n : UInt64) : IsRounded n.toFloat .positive n.toNat := by
  obtain ⟨s, sign, _, rounded⟩ := isRounded_normalize n.toNat 0
  rw [sign (by omega)] at rounded
  exact isRounded_of_eq rounded (by simp)

theorem IsMagnitude.mul (first : IsMagnitude a s p) (second : IsMagnitude b t q) :
    IsRounded (a * b) (s * t) (p * q) := by
  obtain ⟨m, e, canonical, _, unpacked, rfl⟩ := first
  obtain ⟨m', e', canonical', _, unpacked', rfl⟩ := second
  change IsRounded (.ofModel (.pack (UnpackedFloat.mul Format.binary64 a.toModel.unpack
    b.toModel.unpack))) _ _
  rw [unpacked, unpacked']
  -- A zero has no exponent, so zeros are told apart before the mantissas are used.
  rcases Nat.eq_zero_or_pos m with rfl | some_bit
  · rcases Nat.eq_zero_or_pos m' with rfl | some_bit'
    · rw [assembled_zero, assembled_zero]
      exact isRounded_of_eq (isRounded_zero (s * t)) (by simp)
    · rw [assembled_zero, assembled_of_pos some_bit']
      exact isRounded_of_eq (isRounded_zero (s * t)) (by simp)
  rcases Nat.eq_zero_or_pos m' with rfl | some_bit'
  · rw [assembled_zero, assembled_of_pos some_bit]
    exact isRounded_of_eq (isRounded_zero (s * t)) (by simp)
  rw [assembled_of_pos some_bit, assembled_of_pos some_bit']
  -- A factor with all its bits leaves the product no fewer; else both are near the least.
  have enough : e + e' ≤ max (((m * m').log2 : Int) + (e + e') - 52) (-1074) := by
    rcases canonical.bits with full | least
    · have bits := (Nat.le_log2 (by positivity)).mpr
        (full.trans (Nat.le_mul_of_pos_right m some_bit'))
      omega
    · rcases canonical'.bits with full | least'
      · have bits := (Nat.le_log2 (by positivity)).mpr
          (full.trans (Nat.le_mul_of_pos_left m' some_bit))
        omega
      · omega
  obtain ⟨r, u, found, near, rounded⟩ := exists_nearest_exact (s * t) enough
  have product : (m : ℚ) * 2 ^ e * (m' * 2 ^ e') = (m * m' : Nat) * 2 ^ (e + e') := by
    rw [zpow_add₀ two_ne_zero]
    push_cast
    ring
  rw [product]
  exact isRounded_of_nearest found near rounded

/-- A dividend that is shifted far enough leaves a quotient all the bits that it needs. -/
theorem le_quotient {m m' shift : Nat} (some_bit : 0 < m) (some_bit' : 0 < m')
    (far : 53 + m'.log2 ≤ m.log2 + shift) : 2 ^ 52 ≤ m * 2 ^ shift / m' := by
  refine (Nat.le_div_iff_mul_le some_bit').mpr ?_
  calc 2 ^ 52 * m' ≤ 2 ^ 52 * 2 ^ (m'.log2 + 1) := Nat.mul_le_mul_left _ Nat.lt_log2_self.le
    _ = 2 ^ (53 + m'.log2) := by rw [← pow_add]; congr 1; omega
    _ ≤ 2 ^ (m.log2 + shift) := Nat.pow_le_pow_right (by decide) far
    _ = 2 ^ m.log2 * 2 ^ shift := pow_add _ _ _
    _ ≤ m * 2 ^ shift := Nat.mul_le_mul_right _ (Nat.log2_self_le some_bit.ne')

/-- A quotient by what is not zero. -/
theorem IsMagnitude.div (first : IsMagnitude a s p) (second : IsMagnitude b t q) (divisor : 0 < q) :
    IsRounded (a / b) (s / t) (p / q) := by
  obtain ⟨m, e, canonical, _, unpacked, rfl⟩ := first
  obtain ⟨m', e', canonical', _, unpacked', rfl⟩ := second
  have some_bit' : 0 < m' := by
    by_contra nothing
    obtain rfl : m' = 0 := by omega
    simp at divisor
  change IsRounded (.ofModel (.pack (UnpackedFloat.div Format.binary64 a.toModel.unpack
    b.toModel.unpack))) _ _
  rw [unpacked, unpacked', assembled_of_pos some_bit']
  rcases Nat.eq_zero_or_pos m with rfl | some_bit
  · rw [assembled_zero]
    exact isRounded_of_eq (isRounded_zero (s / t)) (by simp)
  rw [assembled_of_pos some_bit, UnpackedFloat.div, divCore]
  obtain ⟨k, target⟩ : ∃ k, min (e - e') (Format.binary64.targetExponent
    (totalExponent m e - totalExponent m' e')) = k := ⟨_, rfl⟩
  obtain ⟨shift, shifted⟩ : ∃ shift, (e - e' - k).toNat = shift := ⟨_, rfl⟩
  dsimp only
  rw [target, shifted, Nat.shiftLeft_eq]
  rw [targetExponent_def, totalExponent, totalExponent] at target
  -- The shift is chosen for a quotient with all bits, unless the unit is already the least.
  have enough : k ≤ max (((m * 2 ^ shift / m').log2 : Int) + k - 52) (-1074) := by
    by_cases least : k ≤ -1074
    · omega
    · have bits : 2 ^ 52 ≤ m * 2 ^ shift / m' := le_quotient some_bit some_bit' (by omega)
      have many := (Nat.le_log2 (by omega)).mpr bits
      omega
  have quotient : (m : ℚ) * 2 ^ e / (m' * 2 ^ e') = (m * 2 ^ shift : Nat) / m' * 2 ^ k := by
    have parted : (2 : ℚ) ^ e = 2 ^ shift * 2 ^ k * 2 ^ e' := by
      rw [← zpow_natCast, ← zpow_add₀ two_ne_zero, ← zpow_add₀ two_ne_zero]
      congr 1
      omega
    have unit_ne : (2 : ℚ) ^ e' ≠ 0 := zpow_ne_zero _ two_ne_zero
    rw [parted]
    push_cast
    field_simp
  obtain ⟨r, u, found, near, rounded⟩ := exists_nearest (s / t) some_bit' quotient enough
  exact isRounded_of_nearest found near rounded

/-- Both terms in units of the smaller exponent. -/
theorem decreased_value {m : Nat} {e least : Int} (below : least ≤ e) :
    (((decreaseExponent m e least).1 : Nat) : ℚ) * 2 ^ least = m * 2 ^ e := by
  rw [decreaseExponent, zpow_in_units below, Nat.shiftLeft_eq]
  push_cast
  ring

/-- What a sign and a magnitude are worth. -/
def worth : Sign → ℚ → ℚ
  | .negative, q => -q
  | .positive, q => q

theorem worth_zero (s : Sign) : worth s 0 = 0 := by
  cases s <;> simp [worth]

theorem worth_units (s : Sign) (m : Nat) (unit : ℚ) :
    worth s (m * unit) = (s.apply m : Int) * unit := by
  cases s <;> simp [worth, Sign.apply]

theorem abs_worth (s : Sign) {q : ℚ} (nonneg : 0 ≤ q) : |worth s q| = q := by
  cases s <;> simp [worth, abs_of_nonneg nonneg]

theorem worth_neg (s : Sign) (q : ℚ) : worth (-s) q = -worth s q := by
  cases s with
  | negative => exact (neg_neg q).symm
  | positive => rfl

/-- A sign is that of what it makes a magnitude worth. -/
theorem eq_of_worth (s : Sign) {q : ℚ} (nonneg : 0 ≤ q) :
    (0 < worth s q → s = .positive) ∧ (worth s q < 0 → s = .negative) := by
  cases s with
  | negative => exact ⟨fun above => absurd above (by simpa [worth] using nonneg), fun _ => rfl⟩
  | positive => exact ⟨fun _ => rfl, fun below => absurd below (by simpa [worth] using nonneg)⟩

/-- A double that is rounded from a number and has its sign. Zero may have either sign. -/
def IsRoundedFrom (x : Float) (s : Sign) (v : ℚ) : Prop :=
  IsRounded x s |v| ∧ (0 < v → s = .positive) ∧ (v < 0 → s = .negative)

theorem isRoundedFrom_zero (s : Sign) : IsRoundedFrom (.ofModel (.pack (.zero s))) s 0 :=
  ⟨isRounded_of_eq (isRounded_zero s) abs_zero.symm, fun above => absurd above (lt_irrefl 0),
    fun below => absurd below (lt_irrefl 0)⟩

theorem isRoundedFrom_assembled {m : Nat} {e : Int} (s : Sign) (canonical : IsCanonical m e) :
    IsRoundedFrom (.ofModel (.pack (assembled s m e))) s (worth s (m * 2 ^ e)) := by
  have nonneg : (0 : ℚ) ≤ m * 2 ^ e := by positivity
  exact ⟨isRounded_of_eq (isRounded_assembled canonical) (abs_worth s nonneg).symm,
    eq_of_worth s nonneg⟩

/-- A sum is rounded once. Two positive zeros have a positive sum. -/
theorem isRoundedFrom_add {m m' : Nat} {e e' : Int} (s t : Sign) (canonical : IsCanonical m e)
    (canonical' : IsCanonical m' e') :
    ∃ r, (s = .positive → t = .positive → r = .positive) ∧
      IsRoundedFrom (.ofModel (.pack (UnpackedFloat.add Format.binary64 (assembled s m e)
        (assembled t m' e')))) r (worth s (m * 2 ^ e) + worth t (m' * 2 ^ e')) := by
  have zero (s : Sign) (e : Int) : worth s ((0 : Nat) * 2 ^ e) = 0 := by
    rw [Nat.cast_zero, zero_mul, worth_zero]
  have alone := isRoundedFrom_assembled s canonical
  have alone' := isRoundedFrom_assembled t canonical'
  rcases Nat.eq_zero_or_pos m with rfl | some_bit
  · rw [zero, zero_add]
    rcases Nat.eq_zero_or_pos m' with rfl | some_bit'
    · rw [assembled_zero, assembled_zero, zero]
      -- Two zeros of one sign keep it, and any others have a positive sum.
      cases s with
      | negative =>
        cases t with
        | negative => exact ⟨.negative, fun _ same => same, isRoundedFrom_zero .negative⟩
        | positive => exact ⟨.positive, fun _ _ => rfl, isRoundedFrom_zero .positive⟩
      | positive => cases t <;> exact ⟨.positive, fun _ _ => rfl, isRoundedFrom_zero .positive⟩
    · rw [assembled_of_pos some_bit'] at alone' ⊢
      rw [assembled_zero]
      exact ⟨t, fun _ same => same, alone'⟩
  rcases Nat.eq_zero_or_pos m' with rfl | some_bit'
  · rw [assembled_of_pos some_bit] at alone ⊢
    rw [assembled_zero, zero, add_zero]
    exact ⟨s, fun same _ => same, alone⟩
  rw [assembled_of_pos some_bit, assembled_of_pos some_bit', UnpackedFloat.add]
  have value := decreased_value (m := m) (min_le_left e e')
  have value' := decreased_value (m := m') (min_le_right e e')
  dsimp only
  generalize (decreaseExponent m e (min e e')).1 = n at value ⊢
  generalize (decreaseExponent m' e' (min e e')).1 = n' at value' ⊢
  obtain ⟨r, not_below, below, rounded⟩ :=
    isRounded_normalize (s.apply n + t.apply n') (min e e')
  have unit_pos : (0 : ℚ) < 2 ^ min e e' := zpow_pos two_pos _
  have total : worth s (m * 2 ^ e) + worth t (m' * 2 ^ e') =
      (s.apply n + t.apply n' : Int) * 2 ^ min e e' := by
    rw [← value, ← value', worth_units, worth_units, ← add_mul]
    push_cast
    rfl
  rw [total]
  refine ⟨r, ?_, isRounded_of_eq rounded ?_, fun above => ?_, fun under => ?_⟩
  · rintro rfl rfl
    exact not_below (Int.add_nonneg (Int.natCast_nonneg n) (Int.natCast_nonneg n'))
  · rw [abs_mul, abs_of_pos unit_pos]
    push_cast
    rfl
  · have positive := (mul_pos_iff_of_pos_right unit_pos).mp above
    exact not_below (by exact_mod_cast positive.le)
  · have negative := neg_of_mul_neg_left under unit_pos.le
    exact below (by exact_mod_cast negative)

/-- A difference is the sum with the opposite. -/
theorem sub_assembled (s t : Sign) (m m' : Nat) (e e' : Int) :
    UnpackedFloat.sub Format.binary64 (assembled s m e) (assembled t m' e') =
      UnpackedFloat.add Format.binary64 (assembled s m e) (assembled (-t) m' e') := by
  have opposite (n : Int) : (-t).apply n = -t.apply n := by
    cases t with
    | negative => exact (neg_neg n).symm
    | positive => rfl
  unfold assembled
  split
  · split <;> rfl
  · split
    · rfl
    · simp only [UnpackedFloat.sub, UnpackedFloat.add, opposite, ← sub_eq_add_neg]

theorem IsMagnitude.add_worth (first : IsMagnitude a s p) (second : IsMagnitude b t q) :
    ∃ r, (s = .positive → t = .positive → r = .positive) ∧
      IsRoundedFrom (a + b) r (worth s p + worth t q) := by
  obtain ⟨m, e, canonical, _, unpacked, rfl⟩ := first
  obtain ⟨m', e', canonical', _, unpacked', rfl⟩ := second
  have added := isRoundedFrom_add s t canonical canonical'
  rwa [← unpacked, ← unpacked'] at added

theorem IsMagnitude.sub_worth (first : IsMagnitude a s p) (second : IsMagnitude b t q) :
    ∃ r, IsRoundedFrom (a - b) r (worth s p - worth t q) := by
  obtain ⟨m, e, canonical, _, unpacked, rfl⟩ := first
  obtain ⟨m', e', canonical', _, unpacked', rfl⟩ := second
  obtain ⟨r, _, added⟩ := isRoundedFrom_add s (-t) canonical canonical'
  rw [← sub_assembled, ← unpacked, ← unpacked', worth_neg, ← sub_eq_add_neg] at added
  exact ⟨r, added⟩

/-- A sum of positive doubles. -/
theorem IsMagnitude.add (first : IsMagnitude a .positive p) (second : IsMagnitude b .positive q) :
    IsRounded (a + b) .positive (p + q) := by
  obtain ⟨r, sign, rounded, _⟩ := first.add_worth second
  rw [sign rfl rfl] at rounded
  exact isRounded_of_eq rounded (abs_of_nonneg (add_nonneg first.nonneg second.nonneg))

/-- A difference of positive doubles. -/
theorem IsMagnitude.sub (first : IsMagnitude a .positive p) (second : IsMagnitude b .positive q) :
    ∃ s, IsRounded (a - b) s |p - q| := by
  obtain ⟨r, rounded, _⟩ := first.sub_worth second
  exact ⟨r, rounded⟩

/-- Adding a zero changes nothing, unless a positive zero is added to a negative one. -/
theorem IsMagnitude.add_to_zero {r : Sign} (holds : IsMagnitude a s p)
    (signs : r = .negative ∨ s = .positive) :
    Float.ofModel (.pack (UnpackedFloat.add Format.binary64 (.zero r) a.toModel.unpack)) = a := by
  obtain ⟨m, e, canonical, _, unpacked, rfl⟩ := holds
  have whole := pack_unpack_toModel a
  rw [unpacked] at whole ⊢
  rcases Nat.eq_zero_or_pos m with rfl | some_bit
  · rw [assembled_zero] at whole ⊢
    rw [← whole]
    rcases signs with rfl | rfl
    · cases s <;> rfl
    · cases r <;> rfl
  · rw [assembled_of_pos some_bit] at whole ⊢
    exact whole

theorem negZero_add (holds : IsMagnitude a s p) : -0.0 + a = a :=
  holds.add_to_zero (r := .negative) (.inl rfl)

theorem posZero_add (holds : IsMagnitude a .positive p) : 0.0 + a = a :=
  holds.add_to_zero (r := .positive) (.inr rfl)

/-- The accuracy of a root, as that of a fraction of four. -/
theorem accuracy_of_root (root rest : Nat) : ∃ c, c < 4 ∧ (rest = 0 → c = 0) ∧
    (if rest = 0 then Accuracy.exact else .inexact (if rest ≤ root then .lt else .gt)) =
      accuracyOfFraction c 4 := by
  by_cases exact : rest = 0
  · exact ⟨0, by decide, fun _ => rfl, by rw [if_pos exact]; rfl⟩
  · by_cases under : rest ≤ root
    · exact ⟨1, by decide, fun zero => absurd zero exact, by rw [if_neg exact, if_pos under]; rfl⟩
    · exact ⟨3, by decide, fun zero => absurd zero exact, by rw [if_neg exact, if_neg under]; rfl⟩

/-- A root with a fraction of four is bounded by any power of two that the root is bounded by. -/
theorem root_le {n c : Nat} {j : Nat} (fraction : c < 4) (bound : n ≤ 2 ^ (2 * j))
    (exact : n - n.sqrt * n.sqrt = 0 → c = 0) : 4 * n.sqrt + c ≤ 4 * 2 ^ j := by
  have square : 2 ^ (2 * j) = 2 ^ j * 2 ^ j := by rw [two_mul, pow_add]
  have most : n.sqrt ≤ 2 ^ j := by
    have monotone := Nat.sqrt_le_sqrt (square ▸ bound)
    rwa [Nat.sqrt_eq] at monotone
  -- Only a root that is the power itself could go past it, and then nothing is left.
  rcases most.lt_or_eq with under | whole
  · omega
  · rw [exact (by rw [whole, ← square]; omega), whole]
    omega

/-- The same in units, half of whose exponent is that of the root. -/
theorem root_units_le {n c : Nat} {u k : Int} (some_n : 1 ≤ n) (fraction : c < 4)
    (exact : n - n.sqrt * n.sqrt = 0 → c = 0) (bound : (n : ℚ) * 2 ^ (2 * u) ≤ 2 ^ (2 * k)) :
    ((4 * n.sqrt + c : Nat) : ℚ) / (4 : Nat) * 2 ^ u ≤ 2 ^ k := by
  have within : u ≤ k := by
    by_contra past
    have less : (2 : ℚ) ^ (2 * k) < 2 ^ (2 * u) := zpow_lt_zpow_right₀ one_lt_two (by omega)
    have unit_le : (1 : ℚ) * 2 ^ (2 * u) ≤ n * 2 ^ (2 * u) :=
      mul_le_mul_of_nonneg_right (by exact_mod_cast some_n) (zpow_pos two_pos _).le
    linarith
  obtain ⟨j, rfl⟩ : ∃ j : Nat, k = j + u := ⟨(k - u).toNat, by omega⟩
  have whole : n ≤ 2 ^ (2 * j) := by
    rw [mul_add, zpow_add₀ two_ne_zero, mul_le_mul_iff_left₀ (zpow_pos two_pos _)] at bound
    exact_mod_cast bound
  have root : ((4 * n.sqrt + c : Nat) : ℚ) ≤ 4 * 2 ^ j := by
    exact_mod_cast root_le fraction whole exact
  rw [zpow_add₀ two_ne_zero, zpow_natCast]
  refine mul_le_mul_of_nonneg_right ?_ (zpow_pos two_pos _).le
  push_cast at root ⊢
  linarith

/-- Twice the bits of a mantissa leave a root with all of them. -/
theorem le_root {m shift : Nat} (some_bit : 0 < m) (far : 2 * 52 ≤ m.log2 + shift) :
    2 ^ 52 ≤ (m * 2 ^ shift).sqrt := by
  rw [Nat.le_sqrt, ← pow_add, ← two_mul]
  calc 2 ^ (2 * 52) ≤ 2 ^ (m.log2 + shift) := Nat.pow_le_pow_right (by decide) far
    _ = 2 ^ m.log2 * 2 ^ shift := pow_add _ _ _
    _ ≤ m * 2 ^ shift := Nat.mul_le_mul_right _ (Nat.log2_self_le some_bit.ne')

/-- A root is rounded from a value within every power of two whose square bounds the radicand. -/
theorem IsMagnitude.sqrt (holds : IsMagnitude a .positive p) :
    ∃ v, IsRounded a.sqrt .positive v ∧ ∀ k : Int, p ≤ 2 ^ (2 * k) → v ≤ 2 ^ k := by
  obtain ⟨m, e, canonical, _, unpacked, rfl⟩ := holds
  change ∃ v, IsRounded (.ofModel (.pack (UnpackedFloat.sqrt Format.binary64
    a.toModel.unpack))) _ _ ∧ _
  rw [unpacked]
  rcases Nat.eq_zero_or_pos m with rfl | some_bit
  · rw [assembled_zero]
    exact ⟨0, isRounded_zero .positive, fun k _ => (zpow_pos two_pos _).le⟩
  rw [assembled_of_pos some_bit, UnpackedFloat.sqrt, sqrtCore]
  obtain ⟨u, target⟩ : ∃ u, min (e.ediv 2) (Format.binary64.targetExponent
    ((totalExponent m e + 1).ediv 2)) = u := ⟨_, rfl⟩
  obtain ⟨shift, shifted⟩ : ∃ shift, (e - 2 * u).toNat = shift := ⟨_, rfl⟩
  dsimp only
  rw [target, shifted, Nat.shiftLeft_eq]
  have halved (i : Int) : i.ediv 2 = i / 2 := rfl
  rw [targetExponent_def, totalExponent, halved, halved] at target
  have even : 2 * u ≤ e := by omega
  obtain ⟨n, radicand⟩ : ∃ n, m * 2 ^ shift = n := ⟨_, rfl⟩
  rw [radicand]
  -- What the root leaves is only known to be nothing, or below or above half a unit. Quarters of a
  -- unit tell these apart, so the root is rounded as a fraction of four.
  obtain ⟨c, fraction, exact, accuracy⟩ := accuracy_of_root n.sqrt (n - n.sqrt * n.sqrt)
  rw [accuracy]
  have quotient : (4 * n.sqrt + c) / 4 = n.sqrt := by omega
  have rest : (4 * n.sqrt + c) % 4 = c := by omega
  have enough : u ≤ max (((n.sqrt).log2 : Int) + u - 52) (-1074) := by
    by_cases low : u ≤ -1074
    · omega
    · have bits : 2 ^ 52 ≤ n.sqrt := radicand ▸ le_root some_bit (by omega)
      have log := (Nat.le_log2 (by omega)).mpr bits
      omega
  have found := exists_nearest .positive (n := 4 * n.sqrt + c) (d := 4) (by decide) rfl
    (by rwa [quotient])
  rw [quotient, rest] at found
  obtain ⟨r, t, canonical', near, rounded⟩ := found
  refine ⟨_, isRounded_of_nearest canonical' near rounded, ?_⟩
  intro k bound
  have value : (n : ℚ) * 2 ^ (2 * u) = m * 2 ^ e := by
    rw [zpow_in_units even, shifted, ← radicand]
    push_cast
    ring
  have some_n : 1 ≤ n := radicand ▸ Nat.mul_pos some_bit (Nat.two_pow_pos shift)
  exact root_units_le some_n fraction exact (value ▸ bound)

end Operations

/-! ### The kinds of doubles -/

theorem neg_assembled (s : Sign) (m : Nat) (e : Int) :
    UnpackedFloat.neg (assembled s m e) = assembled (-s) m e := by
  unfold assembled
  split <;> rfl

theorem IsMagnitude.neg {x : Float} {s : Sign} {q : ℚ} (holds : IsMagnitude x s q) :
    IsMagnitude (-x) (-s) q := by
  obtain ⟨m, e, canonical, most, unpacked, rfl⟩ := holds
  refine ⟨m, e, canonical, most, ?_, rfl⟩
  change (Float.Model.pack (UnpackedFloat.neg x.toModel.unpack)).unpack = _
  rw [unpacked, neg_assembled, unpack_pack_assembled canonical most]

theorem assembled_inj {s s' : Sign} {m m' : Nat} {e e' : Int} (canonical : IsCanonical m e)
    (canonical' : IsCanonical m' e') (same : assembled s m e = assembled s' m' e') :
    s = s' ∧ m = m' ∧ e = e' := by
  -- Zero has a canonical exponent too, which is lost when it is assembled.
  have least : m = 0 → e = -1074 := by
    rintro rfl
    exact canonical.bits.resolve_left (by decide)
  have least' : m' = 0 → e' = -1074 := by
    rintro rfl
    exact canonical'.bits.resolve_left (by decide)
  unfold assembled at same
  split at same
  next nothing =>
    split at same
    next nothing' =>
      cases same
      exact ⟨rfl, nothing.trans nothing'.symm, (least nothing).trans (least' nothing').symm⟩
    next => cases same
  next =>
    split at same
    next => cases same
    next =>
      cases same
      exact ⟨rfl, rfl, rfl⟩

/-- With all bits of the exponent set a double is unpacked to infinity or to no number. -/
theorem unpack_ne_assembled {b : BitVec Format.binary64.numBits}
    (full : (unpackExponent b).toNat = 2047) (s : Sign) (m : Nat) (e : Int) :
    UnpackedFloat.unpack Format.binary64 b ≠ assembled s m e := by
  have exponent : unpackExponent b = -1#11 := BitVec.eq_of_toNat_eq full
  unfold UnpackedFloat.unpack assembled
  dsimp only
  rw [if_pos exponent]
  split
  all_goals
    split
    all_goals
      intro same
      cases same

/-- A finite double is told by its parts, and no other double has a magnitude. -/
theorem IsMagnitude.kind {x : Float} {s : Sign} {q : ℚ} (holds : IsMagnitude x s q) :
    ∃ value, Number.kind x = .finite value ∧ signOf value.negative = s ∧
      q = value.mantissa * 2 ^ value.exponent := by
  obtain ⟨m, e, canonical, _, unpacked, rfl⟩ := holds
  have finite : ∃ value, Number.kind x = .finite value := by
    unfold Number.kind Kind.ofBits
    dsimp only
    split
    next full =>
      have exponent := (toNat_unpackExponent x.toModel.toBits.toBitVec).trans full
      exact absurd unpacked (unpack_ne_assembled exponent s m e)
    · split
      · exact ⟨_, rfl⟩
      · exact ⟨_, rfl⟩
  obtain ⟨value, found⟩ := finite
  obtain ⟨canonical', _, _, unpacked'⟩ := unpack_of_kind found
  obtain ⟨rfl, rfl, rfl⟩ := assembled_inj canonical' canonical (unpacked'.symm.trans unpacked)
  exact ⟨value, found, rfl, rfl⟩

end LayerTiming.Number
