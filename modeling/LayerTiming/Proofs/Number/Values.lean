import Mathlib
import LayerTiming.Proofs.Number.Bounds
import LayerTiming.Proofs.Number.Errors
import LayerTiming.Proofs.Number.Order

/-!
# Values of doubles

A finite double is a number with a sign. Each operation gives a double that is nearest to the exact
result and never past a double that bounds it, so a chain of operations is followed by what bounds
its exact results, and a result that is a double itself is exact.
-/
namespace LayerTiming.Number
open Float.Model Float.Model.UnpackedFloat

/-- A finite double and the number that it is. -/
def Denotes (x : Float) (v : ℚ) : Prop := ∃ s q, IsMagnitude x s q ∧ v = worth s q

/-- A number and a nearest double to it, on the same side of zero. -/
structure RoundsTo (v z : ℚ) : Prop where
  near : IsNearest |v| |z|
  nonneg : 0 ≤ v → 0 ≤ z
  nonpos : v ≤ 0 → z ≤ 0

namespace RoundsTo
variable {v z w : ℚ}

theorem neg (rounded : RoundsTo v z) : RoundsTo (-v) (-z) where
  near := by rw [abs_neg, abs_neg]; exact rounded.near
  nonneg above := neg_nonneg.mpr (rounded.nonpos (neg_nonneg.mp above))
  nonpos below := neg_nonpos.mpr (rounded.nonneg (neg_nonpos.mp below))

/-- Rounding does not go up past a double. -/
theorem le (rounded : RoundsTo v z) (bound : IsRepresentable |w|) (below : v ≤ w) : z ≤ w := by
  rcases le_total 0 v with positive | negative
  · have nonneg := rounded.nonneg positive
    have magnitudes := rounded.near
    rw [abs_of_nonneg positive, abs_of_nonneg nonneg] at magnitudes
    rw [abs_of_nonneg (positive.trans below)] at bound
    exact magnitudes.le bound below
  · have nonpos := rounded.nonpos negative
    rcases le_total 0 w with above | under
    · exact nonpos.trans above
    · have magnitudes := rounded.near
      rw [abs_of_nonpos negative, abs_of_nonpos nonpos] at magnitudes
      rw [abs_of_nonpos under] at bound
      exact neg_le_neg_iff.mp (magnitudes.ge bound (neg_le_neg below))

/-- Rounding does not go down past a double. -/
theorem ge (rounded : RoundsTo v z) (bound : IsRepresentable |w|) (above : w ≤ v) : w ≤ z := by
  have bound_neg : IsRepresentable |(-w)| := by rwa [abs_neg]
  exact neg_le_neg_iff.mp (rounded.neg.le bound_neg (neg_le_neg above))

theorem eq (rounded : RoundsTo v z) (exact : IsRepresentable |v|) : z = v :=
  le_antisymm (rounded.le exact le_rfl) (rounded.ge exact le_rfl)

/-- Of two numbers the greater one is not rounded to the smaller double. -/
theorem mono {y : ℚ} (first : RoundsTo v y) (second : RoundsTo w z) (less : v < w) : y ≤ z := by
  rcases le_or_gt 0 v with positive | negative
  · have positive' : 0 ≤ w := positive.trans less.le
    have near := first.near
    have near' := second.near
    rw [abs_of_nonneg positive, abs_of_nonneg (first.nonneg positive)] at near
    rw [abs_of_nonneg positive', abs_of_nonneg (second.nonneg positive')] at near'
    exact near.mono near' less
  rcases le_or_gt 0 w with positive' | negative'
  · exact (first.nonpos negative.le).trans (second.nonneg positive')
  · have near := first.near
    have near' := second.near
    rw [abs_of_nonpos negative.le, abs_of_nonpos (first.nonpos negative.le)] at near
    rw [abs_of_nonpos negative'.le, abs_of_nonpos (second.nonpos negative'.le)] at near'
    exact neg_le_neg_iff.mp (near'.mono near (neg_lt_neg less))

theorem abs_sub_le {k : Int} (rounded : RoundsTo v z) (normal : -1022 ≤ k) (above : 2 ^ k ≤ v) :
    |v - z| ≤ unitError * v := by
  have positive : 0 ≤ v := (zpow_pos two_pos _).le.trans above
  have magnitudes := rounded.near
  rw [abs_of_nonneg positive, abs_of_nonneg (rounded.nonneg positive)] at magnitudes
  exact magnitudes.relative_error ((zpow_le_zpow_right₀ one_le_two normal).trans above)

theorem abs_sub_le_nat {n : Nat} (rounded : RoundsTo n z) : |(n : ℚ) - z| ≤ unitError * n := by
  have positive : (0 : ℚ) ≤ n := Nat.cast_nonneg n
  have near := rounded.near
  rw [abs_of_nonneg positive, abs_of_nonneg (rounded.nonneg positive)] at near
  exact near.relative_error_nat

/-- Rounding does not go down past a whole number that is a double. -/
theorem ge_nat {n : Nat} (rounded : RoundsTo v z) (small : n < 2 ^ 53) (above : n ≤ v) : n ≤ z :=
  rounded.ge (by rw [Nat.abs_cast]; exact isRepresentable_natCast small) above

/-- Rounding does not go up past a power of two. -/
theorem le_pow {k : Nat} (rounded : RoundsTo v z) (below : v ≤ 2 ^ k) : z ≤ 2 ^ k :=
  rounded.le (by rw [abs_of_nonneg (by positivity)]; exact isRepresentable_pow k) below

end RoundsTo

/-- What is not subnormal can be halved. -/
theorem IsRepresentable.half {z : ℚ} (representable : IsRepresentable z)
    (normal : 2 ^ (-1021 : Int) ≤ z) : IsRepresentable (z / 2) := by
  obtain ⟨m, e, small, least, rfl⟩ := representable
  have few : (m : ℚ) < 2 ^ (53 : Int) := by exact_mod_cast small
  have some_unit : -1074 < e := by
    by_contra lowest
    have below : (2 : ℚ) ^ (53 + e) ≤ 2 ^ (-1021 : Int) := zpow_le_zpow_right₀ one_le_two (by omega)
    rw [zpow_add₀ two_ne_zero] at below
    exact absurd normal (not_le.mpr
      ((mul_lt_mul_of_pos_right few (zpow_pos two_pos e)).trans_le below))
  refine ⟨m, e - 1, small, by omega, ?_⟩
  rw [zpow_sub_one₀ two_ne_zero]
  ring

section Operations
variable {a b x : Float} {p q v z : ℚ} {k : Nat} {s t : Sign}

theorem IsMagnitude.denotes (holds : IsMagnitude x s q) : Denotes x (worth s q) := ⟨s, q, holds, rfl⟩

theorem Denotes.isRepresentable (holds : Denotes x v) : IsRepresentable |v| := by
  obtain ⟨s, q, magnitude, rfl⟩ := holds
  rw [abs_worth s magnitude.nonneg]
  exact magnitude.isRepresentable

theorem Denotes.isRepresentable_half (holds : Denotes x v) (normal : 2 ^ (-64 : Int) ≤ v) :
    IsRepresentable |v / 2| := by
  have exact := holds.isRepresentable
  rw [abs_of_nonneg ((zpow_pos two_pos _).le.trans normal)] at exact
  rw [abs_div, abs_two, abs_of_nonneg ((zpow_pos two_pos _).le.trans normal)]
  exact exact.half ((zpow_le_zpow_right₀ one_le_two (by decide)).trans normal)

/-- A number that is rounded and not past all doubles. -/
theorem IsRoundedFrom.denotes (rounded : IsRoundedFrom x s v) (bound : |v| ≤ 2 ^ k)
    (least : k < 1024) : ∃ z, RoundsTo v z ∧ Denotes x z := by
  obtain ⟨rounded, positive, negative⟩ := rounded
  obtain ⟨z, near, _, holds⟩ :=
    rounded.isMagnitude (isRepresentable_pow k) (pow_lt_limit least) bound
  have nonneg : 0 ≤ z := holds.nonneg
  have nothing : v = 0 → z = 0 := by
    rintro rfl
    rw [abs_zero] at near
    exact near.eq (by simpa using isRepresentable_natCast (n := 0) (by decide))
  -- Only zero may be rounded to a double with the other sign, which then is zero.
  refine ⟨worth s z, ⟨by rwa [abs_worth s nonneg], fun above => ?_, fun below => ?_⟩, holds.denotes⟩
  · rcases above.eq_or_lt with zero | above
    · rw [nothing zero.symm, worth_zero]
    · rw [positive above]
      exact nonneg
  · rcases below.eq_or_lt with zero | below
    · rw [nothing zero, worth_zero]
    · rw [negative below]
      exact neg_nonpos.mpr nonneg

theorem Denotes.add (first : Denotes a p) (second : Denotes b q) (bound : |p + q| ≤ 2 ^ k)
    (least : k < 1024) : ∃ z, RoundsTo (p + q) z ∧ Denotes (a + b) z := by
  obtain ⟨s, p, holds, rfl⟩ := first
  obtain ⟨t, q, holds', rfl⟩ := second
  obtain ⟨r, _, rounded⟩ := holds.add_worth holds'
  exact rounded.denotes bound least

theorem Denotes.sub (first : Denotes a p) (second : Denotes b q) (bound : |p - q| ≤ 2 ^ k)
    (least : k < 1024) : ∃ z, RoundsTo (p - q) z ∧ Denotes (a - b) z := by
  obtain ⟨s, p, holds, rfl⟩ := first
  obtain ⟨t, q, holds', rfl⟩ := second
  obtain ⟨r, rounded⟩ := holds.sub_worth holds'
  exact rounded.denotes bound least

theorem Denotes.mul (first : Denotes a p) (second : Denotes b q) (bound : |p * q| ≤ 2 ^ k)
    (least : k < 1024) : ∃ z, RoundsTo (p * q) z ∧ Denotes (a * b) z := by
  obtain ⟨s, p, holds, rfl⟩ := first
  obtain ⟨t, q, holds', rfl⟩ := second
  have nonneg : 0 ≤ p * q := mul_nonneg holds.nonneg holds'.nonneg
  have product : worth s p * worth t q = worth (s * t) (p * q) := by
    cases s with
    | negative =>
      cases t with
      | negative => exact neg_mul_neg p q
      | positive => exact neg_mul p q
    | positive =>
      cases t with
      | negative => exact mul_neg p q
      | positive => rfl
  rw [product] at bound ⊢
  have rounded : IsRoundedFrom (a * b) (s * t) (worth (s * t) (p * q)) :=
    ⟨isRounded_of_eq (holds.mul holds') (abs_worth _ nonneg).symm, eq_of_worth _ nonneg⟩
  exact rounded.denotes bound least

theorem Denotes.div (first : Denotes a p) (second : Denotes b q) (divisor : q ≠ 0)
    (bound : |p / q| ≤ 2 ^ k) (least : k < 1024) :
    ∃ z, RoundsTo (p / q) z ∧ Denotes (a / b) z := by
  obtain ⟨s, p, holds, rfl⟩ := first
  obtain ⟨t, q, holds', rfl⟩ := second
  have positive : 0 < q := holds'.nonneg.lt_of_ne fun zero => divisor (by rw [← zero, worth_zero])
  have nonneg : 0 ≤ p / q := div_nonneg holds.nonneg positive.le
  have quotient : worth s p / worth t q = worth (s / t) (p / q) := by
    cases s with
    | negative =>
      cases t with
      | negative => exact neg_div_neg_eq p q
      | positive => exact neg_div q p
    | positive =>
      cases t with
      | negative => exact div_neg p
      | positive => rfl
  rw [quotient] at bound ⊢
  have rounded : IsRoundedFrom (a / b) (s / t) (worth (s / t) (p / q)) :=
    ⟨isRounded_of_eq (holds.div holds' positive) (abs_worth _ nonneg).symm, eq_of_worth _ nonneg⟩
  exact rounded.denotes bound least

/-! ### Exact results -/

/-- A whole number of halves that no mantissa is too short for. -/
def IsHalves (v : ℚ) : Prop := ∃ n : Int, v = n / 2 ∧ |n| < 2 ^ 53

theorem isHalves_of (n : Int) (value : v = n / 2) (least : -2 ^ 53 < n) (most : n < 2 ^ 53) :
    IsHalves v :=
  ⟨n, value, abs_lt.mpr ⟨least, most⟩⟩

theorem IsHalves.isRepresentable (halves : IsHalves v) : IsRepresentable |v| := by
  obtain ⟨n, rfl, small⟩ := halves
  have few : n.natAbs < 2 ^ 53 := by
    rw [← Int.natCast_natAbs] at small
    exact_mod_cast small
  refine ⟨n.natAbs, -1, few, by decide, ?_⟩
  rw [abs_div, abs_two, Nat.cast_natAbs, Int.cast_abs, zpow_neg_one, div_eq_mul_inv]

theorem IsHalves.abs_le (halves : IsHalves v) : |v| ≤ 2 ^ 53 := by
  obtain ⟨n, rfl, small⟩ := halves
  have bound : |(n : ℚ)| < 2 ^ 53 := by exact_mod_cast small
  rw [abs_div, abs_two]
  linarith [abs_nonneg (n : ℚ)]

theorem Denotes.add_halves (first : Denotes a p) (second : Denotes b q) (exact : IsHalves (p + q)) :
    Denotes (a + b) (p + q) := by
  obtain ⟨z, rounded, holds⟩ := first.add second exact.abs_le (by decide)
  rwa [rounded.eq exact.isRepresentable] at holds

theorem Denotes.sub_halves (first : Denotes a p) (second : Denotes b q) (exact : IsHalves (p - q)) :
    Denotes (a - b) (p - q) := by
  obtain ⟨z, rounded, holds⟩ := first.sub second exact.abs_le (by decide)
  rwa [rounded.eq exact.isRepresentable] at holds

theorem Denotes.div_halves (first : Denotes a p) (second : Denotes b q) (divisor : q ≠ 0)
    (exact : IsHalves (p / q)) : Denotes (a / b) (p / q) := by
  obtain ⟨z, rounded, holds⟩ := first.div second divisor exact.abs_le (by decide)
  rwa [rounded.eq exact.isRepresentable] at holds

end Operations

/-! ### Conversions -/

theorem denotes_of_kind {x : Float} {value : Binary} (finite : kind x = .finite value) :
    Denotes x (worth (signOf value.negative) (value.mantissa * 2 ^ value.exponent)) :=
  (isMagnitude_of_kind finite).denotes

/-- A positive literal and the number that it stands for. -/
theorem denotes_literal {x : Float} {v : ℚ} {b : Bool} (m : Nat) (e : Int)
    (parts : kind x = .finite ⟨false, m, e, b⟩) (value : m * 2 ^ e = v) : Denotes x v :=
  value ▸ denotes_of_kind parts

theorem denotes_zero : Denotes 0.0 0 := denotes_literal 0 (-1074) rfl (by norm_num)

theorem Within.denotes {x : Float} {k : Nat} (within : Within x k) :
    ∃ v, 0 ≤ v ∧ v ≤ 2 ^ k ∧ Denotes x v := by
  obtain ⟨q, bound, holds⟩ := within
  exact ⟨q, holds.nonneg, bound, holds.denotes⟩

theorem denotes_toFloat {n : UInt64} (small : n.toNat < 2 ^ 53) : Denotes n.toFloat n.toNat := by
  have exact := isRepresentable_natCast small
  have under : (n.toNat : ℚ) < 2 ^ 1024 :=
    lt_trans (by exact_mod_cast small) (pow_lt_limit (k := 53) (by decide))
  obtain ⟨z, near, _, holds⟩ := (isRounded_toFloat n).isMagnitude exact under le_rfl
  rw [near.eq exact] at holds
  exact holds.denotes

theorem exists_denotes_ofNat {n k : Nat} (bound : n ≤ 2 ^ k) (least : k < 1024) :
    ∃ z, RoundsTo n z ∧ Denotes (Float.ofNat n) z := by
  have nonneg : (0 : ℚ) ≤ n := Nat.cast_nonneg n
  have rounded : IsRoundedFrom (Float.ofNat n) .positive n :=
    ⟨isRounded_of_eq (isRounded_ofNat n) (abs_of_nonneg nonneg).symm, fun _ => rfl,
      fun below => absurd below (not_lt.mpr nonneg)⟩
  refine rounded.denotes (k := k) ?_ least
  rw [abs_of_nonneg nonneg]
  exact_mod_cast bound

/-! ### Order -/

section Order
variable {a b : Float} {p q : ℚ} {m m' : Nat} {e e' : Int} {s t : Sign}

/-- A step on the line of doubles is a greater magnitude. -/
theorem lt_of_stepsOf_lt (canonical : IsCanonical m e) (canonical' : IsCanonical m' e')
    (less : stepsOf m e < stepsOf m' e') : (m : ℚ) * 2 ^ e < m' * 2 ^ e' := by
  obtain ⟨small, least, bits⟩ := canonical
  obtain ⟨small', least', bits'⟩ := canonical'
  have hidden : hiddenBit = 2 ^ 52 := rfl
  simp only [stepsOf, hidden] at less
  -- A greater exponent leaves room for all bits of the mantissa, so it decides.
  rcases lt_trichotomy e e' with below | rfl | above
  · have full : 2 ^ 52 ≤ m' := by omega
    have few : (m : ℚ) < 2 ^ (53 : Int) := by exact_mod_cast small
    have many : (2 : ℚ) ^ (52 : Int) ≤ m' := by exact_mod_cast full
    calc (m : ℚ) * 2 ^ e < 2 ^ (53 : Int) * 2 ^ e := mul_lt_mul_of_pos_right few (zpow_pos two_pos _)
      _ = 2 ^ (53 + e) := (zpow_add₀ two_ne_zero _ _).symm
      _ ≤ 2 ^ (52 + e') := zpow_le_zpow_right₀ one_le_two (by omega)
      _ = 2 ^ (52 : Int) * 2 ^ e' := zpow_add₀ two_ne_zero _ _
      _ ≤ m' * 2 ^ e' := mul_le_mul_of_nonneg_right many (zpow_pos two_pos _).le
  · have fewer : (m : ℚ) < m' := by exact_mod_cast (show m < m' by omega)
    exact mul_lt_mul_of_pos_right fewer (zpow_pos two_pos _)
  · omega

theorem eq_of_stepsOf_eq (canonical : IsCanonical m e) (canonical' : IsCanonical m' e')
    (same : stepsOf m e = stepsOf m' e') : m = m' ∧ e = e' := by
  obtain ⟨small, least, bits⟩ := canonical
  obtain ⟨small', least', bits'⟩ := canonical'
  have hidden : hiddenBit = 2 ^ 52 := rfl
  simp only [stepsOf, hidden] at same
  omega

/-- Places on the line stand in the order of the numbers. -/
theorem worth_lt_of_apply_lt (canonical : IsCanonical m e) (canonical' : IsCanonical m' e')
    (less : s.apply (stepsOf m e) < t.apply (stepsOf m' e')) :
    worth s (m * 2 ^ e) < worth t (m' * 2 ^ e') := by
  have zero_iff := stepsOf_eq_zero_iff canonical
  have zero_iff' := stepsOf_eq_zero_iff canonical'
  have nonneg : (0 : ℚ) ≤ m * 2 ^ e := by positivity
  have nonneg' : (0 : ℚ) ≤ m' * 2 ^ e' := by positivity
  cases s with
  | positive =>
    cases t with
    | positive => exact lt_of_stepsOf_lt canonical canonical' (Int.ofNat_lt.mp less)
    | negative =>
      simp only [Sign.apply] at less
      omega
  | negative =>
    cases t with
    | positive =>
      -- One of them is not zero, and they lie on different sides of it.
      simp only [Sign.apply] at less
      simp only [worth]
      rcases Nat.eq_zero_or_pos m with rfl | some_bit
      · have some_bit' : 0 < m' := by omega
        have positive : (0 : ℚ) < m' * 2 ^ e' := by positivity
        linarith
      · have positive : (0 : ℚ) < m * 2 ^ e := by positivity
        linarith
    | negative =>
      simp only [Sign.apply] at less
      exact neg_lt_neg (lt_of_stepsOf_lt canonical' canonical (by omega))

/-- Only the two zeros share a place, and they are the same number. -/
theorem worth_eq_of_apply_eq (canonical : IsCanonical m e) (canonical' : IsCanonical m' e')
    (same : s.apply (stepsOf m e) = t.apply (stepsOf m' e')) :
    worth s (m * 2 ^ e) = worth t (m' * 2 ^ e') := by
  have steps : stepsOf m e = stepsOf m' e' := by
    cases s <;> cases t <;> simp only [Sign.apply] at same <;> omega
  obtain ⟨rfl, rfl⟩ := eq_of_stepsOf_eq canonical canonical' steps
  rcases Nat.eq_zero_or_pos m with rfl | some_bit
  · rw [Nat.cast_zero, zero_mul, worth_zero, worth_zero]
  · have some_step : stepsOf m e ≠ 0 := (stepsOf_eq_zero_iff canonical).not.mpr some_bit.ne'
    have same_sign : s = t := by
      cases s <;> cases t <;> simp only [Sign.apply] at same <;> first | rfl | omega
    rw [same_sign]

theorem Denotes.lt_iff (first : Denotes a p) (second : Denotes b q) : a < b ↔ p < q := by
  obtain ⟨s, p, holds, rfl⟩ := first
  obtain ⟨t, q, holds', rfl⟩ := second
  obtain ⟨value, finite, rfl, rfl⟩ := holds.kind
  obtain ⟨value', finite', rfl, rfl⟩ := holds'.kind
  have canonical := (unpack_of_kind finite).1
  have canonical' := (unpack_of_kind finite').1
  rw [lt_iff_place, finite, finite']
  constructor
  · rintro ⟨_, _, ⟨⟩, ⟨⟩, less⟩
    exact worth_lt_of_apply_lt canonical canonical' less
  · intro less
    refine ⟨_, _, rfl, rfl, ?_⟩
    by_contra order
    rcases (not_lt.mp order).lt_or_eq with above | same
    · exact absurd less (worth_lt_of_apply_lt canonical' canonical above).not_gt
    · exact absurd less (worth_eq_of_apply_eq canonical' canonical same).not_gt

theorem Denotes.unique (first : Denotes a p) (second : Denotes a q) : p = q := by
  have none_less : ¬ a < a := (first.lt_iff first).not.mpr (lt_irrefl p)
  exact le_antisymm (not_lt.mp ((second.lt_iff first).not.mp none_less))
    (not_lt.mp ((first.lt_iff second).not.mp none_less))

theorem worth_inj {s t : Sign} (nonneg : 0 ≤ p) (nonneg' : 0 ≤ q) (some_value : worth s p ≠ 0)
    (same : worth t q = worth s p) : t = s ∧ q = p := by
  cases s <;> cases t <;> simp only [worth, neg_inj, ne_eq, neg_eq_zero] at same some_value
  all_goals first | exact ⟨rfl, same⟩ | exact absurd (by linarith) some_value

theorem Denotes.le_iff (first : Denotes a p) (second : Denotes b q) : a ≤ b ↔ p ≤ q := by
  have placed {x : Float} {v : ℚ} (holds : Denotes x v) : ∃ i, (kind x).place? = some i := by
    obtain ⟨s, r, magnitude, _⟩ := holds
    obtain ⟨value, finite, _⟩ := magnitude.kind
    exact ⟨_, congrArg Kind.place? finite⟩
  obtain ⟨i, here⟩ := placed first
  obtain ⟨j, there⟩ := placed second
  rw [← not_lt, ← second.lt_iff first, le_iff_place, lt_iff_place, here, there]
  simp

/-- Only zero is the number of two doubles. -/
theorem Denotes.eq (first : Denotes a v) (second : Denotes b v) (some_value : v ≠ 0) : a = b := by
  obtain ⟨s, p, holds, rfl⟩ := first
  obtain ⟨t, q, holds', same⟩ := second
  obtain ⟨rfl, rfl⟩ := worth_inj holds.nonneg holds'.nonneg some_value same.symm
  obtain ⟨m, e, canonical, _, unpacked, rfl⟩ := holds
  obtain ⟨m', e', canonical', _, unpacked', same⟩ := holds'
  have steps : stepsOf m e = stepsOf m' e' := by
    rcases Nat.lt_trichotomy (stepsOf m e) (stepsOf m' e') with fewer | same_steps | more
    · exact absurd same (lt_of_stepsOf_lt canonical canonical' fewer).ne
    · exact same_steps
    · exact absurd same (lt_of_stepsOf_lt canonical' canonical more).ne'
  obtain ⟨rfl, rfl⟩ := eq_of_stepsOf_eq canonical canonical' steps
  rw [← pack_unpack_toModel a, ← pack_unpack_toModel b, unpacked, unpacked']

/-- An operation on doubles keeps an order that its exact results have. -/
theorem Denotes.le_of_rounds {f : Float → Float} {g : ℚ → ℚ} {y z : ℚ} (first : Denotes a p)
    (second : Denotes b q) (here : RoundsTo (g p) y) (result : Denotes (f a) y)
    (there : RoundsTo (g q) z) (result' : Denotes (f b) z) (origin : IsRepresentable |g 0|)
    (order : p = q ∨ g p < g q) : y ≤ z := by
  rcases order with rfl | less
  · by_cases zero : p = 0
    · -- The zeros may have different signs, but then both results are exact.
      subst zero
      rw [here.eq origin, there.eq origin]
    · obtain rfl := first.eq second zero
      exact (result.unique result').le
  · exact here.mono there less

end Order

section Sums
variable {x y : Float} {k : Nat} {xs : List Float}

/-- What is added to a sum does not make it smaller. -/
theorem Within.le_add (sum : Within x (k + 54)) (term : Within y k) (least : k + 55 < 1024) :
    x ≤ x + y := by
  obtain ⟨p, bound, holds⟩ := sum
  obtain ⟨q, little, holds'⟩ := term
  obtain ⟨z, near, _, result⟩ := holds.add_absorb bound holds' little least
  have grown : p ≤ z :=
    near.ge holds.isRepresentable (le_add_of_nonneg_right holds'.nonneg)
  exact (holds.denotes.le_iff result.denotes).mpr grown

theorem Within.le_self (within : Within x k) : x ≤ x := by
  obtain ⟨v, _, _, holds⟩ := within.denotes
  exact (holds.le_iff holds).mpr le_rfl

/-- Further terms do not make a sum smaller. -/
theorem Within.le_foldl (start : Within x (k + 54)) (terms : ∀ y ∈ xs, Within y k)
    (least : k + 55 < 1024) : x ≤ xs.foldl (· + ·) x := by
  induction xs generalizing x with
  | nil => exact start.le_self
  | cons y ys ih =>
    obtain ⟨here, there⟩ := List.forall_mem_cons.mp terms
    exact le_trans_number (start.le_add here least) (ih (start.add here least) there)

/-- Both zeros that a sum may begin with give the same number. -/
theorem denotes_sum {t : ℚ} (within : ∀ x ∈ xs, Within x k)
    (total : Denotes (xs.foldl (· + ·) 0.0) t) : Denotes (sum xs) t := by
  cases xs with
  | nil =>
    have parts : kind (-0.0) = .finite ⟨true, 0, -1074, false⟩ := rfl
    obtain rfl := total.unique denotes_zero
    change Denotes (-0.0) 0
    simpa [signOf, worth] using denotes_of_kind parts
  | cons y ys =>
    obtain ⟨q, _, first⟩ := within y List.mem_cons_self
    rwa [sum, List.foldl_cons, negZero_add first, ← posZero_add first]

end Sums

end LayerTiming.Number
