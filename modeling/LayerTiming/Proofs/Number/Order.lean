import Mathlib
import LayerTiming.Number.Double
import LayerTiming.Proofs.Number.Magnitudes

/-!
# The order of doubles

Doubles stand on a line, and the bits of a double count its steps from zero. As numbers they are
compared by their places on the line, where both zeros stand at one place and what is no number has
none. The total order goes by the bits themselves, the negative ones in reverse. It tells the zeros
apart, puts what is no number behind the infinity of its sign, and otherwise agrees with the order
of the numbers.
-/
namespace LayerTiming.Number
open Float.Model Float.Model.UnpackedFloat

/-! ### Steps from zero -/

/-- How many magnitudes there are below a canonical one. -/
def stepsOf (m : Nat) (e : Int) : Nat := (e + 1074).toNat * hiddenBit + m

/-- How many finite magnitudes there are. -/
def stepsToInfinity : Nat := 2047 * hiddenBit

def Binary.steps (value : Binary) : Nat := stepsOf value.mantissa value.exponent

/-- The place of a double of some kind on the line, in steps from zero. -/
def Kind.place? : Kind → Option Int
  | .nan => none
  | .infinite negative => some ((signOf negative).apply stepsToInfinity)
  | .finite value => some ((signOf value.negative).apply value.steps)

/-- Canonical magnitudes are compared by their exponents first, as their steps are. -/
theorem compare_stepsOf {m m' : Nat} {e e' : Int} (canonical : IsCanonical m e)
    (canonical' : IsCanonical m' e') :
    (compare e e').then (compare m m') = compare (stepsOf m e : Int) (stepsOf m' e') := by
  obtain ⟨small, least, bits⟩ := canonical
  obtain ⟨small', least', bits'⟩ := canonical'
  have hidden : hiddenBit = 2 ^ 52 := rfl
  simp only [stepsOf, hidden]
  cases order : compare e e' with
  | lt =>
    have below := Int.compare_eq_lt.mp order
    exact (Int.compare_eq_lt.mpr (by omega)).symm
  | gt =>
    have above := Int.compare_eq_gt.mp order
    exact (Int.compare_eq_gt.mpr (by omega)).symm
  | eq =>
    obtain rfl := Int.compare_eq_eq.mp order
    rcases Nat.lt_trichotomy m m' with below | rfl | above
    · rw [Nat.compare_eq_lt.mpr below, Int.compare_eq_lt.mpr (by omega)]
      rfl
    · rw [Nat.compare_eq_eq.mpr rfl, Int.compare_eq_eq.mpr rfl]
      rfl
    · rw [Nat.compare_eq_gt.mpr above, Int.compare_eq_gt.mpr (by omega)]
      rfl

/-- Only zero takes no steps. -/
theorem stepsOf_eq_zero_iff {m : Nat} {e : Int} (canonical : IsCanonical m e) :
    stepsOf m e = 0 ↔ m = 0 := by
  obtain ⟨small, least, bits⟩ := canonical
  have hidden : hiddenBit = 2 ^ 52 := rfl
  simp only [stepsOf, hidden]
  omega

theorem stepsOf_lt {m : Nat} {e : Int} (small : m < 2 ^ 53) (most : e ≤ 971) :
    stepsOf m e < stepsToInfinity := by
  have hidden : hiddenBit = 2 ^ 52 := rfl
  simp only [stepsOf, stepsToInfinity, hidden]
  omega

section Kinds
variable {x y z : Float} {value : Binary}

/-! ### Comparison as numbers -/

/-- What a double of some kind is unpacked to. -/
def Kind.unpacked : Kind → UnpackedFloat
  | .nan => .notANumber
  | .infinite negative => .infinity (signOf negative)
  | .finite value => assembled (signOf value.negative) value.mantissa value.exponent

theorem fields_of_nan {bits : Nat} (nan : Kind.ofBits bits = .nan) :
    bits / hiddenBit % 2048 = 2047 ∧ bits % hiddenBit ≠ 0 := by
  unfold Kind.ofBits at nan
  grind

theorem unpack_of_nan {bits : UInt64} (nan : Kind.ofBits bits.toNat = .nan) :
    UnpackedFloat.unpack Format.binary64 bits.toBitVec = .notANumber := by
  have fields := fields_of_nan nan
  unfold UnpackedFloat.unpack
  dsimp only
  rw [if_pos (by rw [eq_iff_toNat, toNat_unpackExponent]; exact fields.1),
    if_neg (by rw [eq_iff_toNat, toNat_unpackMantissa]; exact fields.2)]

theorem unpack_eq (x : Float) : x.toModel.unpack = (kind x).unpacked := by
  cases found : kind x with
  | finite value => exact (unpack_of_kind found).2.2.2
  | nan => exact unpack_of_nan found
  | infinite negative =>
    have fields : x.toBits.toNat / hiddenBit % 2048 = 2047 ∧ x.toBits.toNat % hiddenBit = 0 ∧
        decide (x.toBits.toNat / signBit % 2 = 1) = negative := by
      unfold kind Kind.ofBits at found
      grind
    change UnpackedFloat.unpack Format.binary64 x.toModel.toBits.toBitVec = _
    unfold UnpackedFloat.unpack
    dsimp only
    rw [if_pos (by rw [eq_iff_toNat, toNat_unpackExponent]; exact fields.1),
      if_pos (by rw [eq_iff_toNat, toNat_unpackMantissa]; exact fields.2.1), ofBitVec_unpackSign]
    exact congrArg (fun sign => UnpackedFloat.infinity (signOf sign)) fields.2.2

theorem isNaN_iff : x.isNaN = true ↔ kind x = .nan := by
  change x.toModel.unpack.isNaN = true ↔ _
  rw [unpack_eq]
  cases kind x with
  | nan => exact iff_of_true rfl rfl
  | infinite negative => simp [Kind.unpacked, UnpackedFloat.isNaN]
  | finite value =>
    simp only [Kind.unpacked, assembled, reduceCtorEq, iff_false]
    split <;> simp [UnpackedFloat.isNaN]

@[simp]
theorem apply_zero (s : Sign) : s.apply 0 = 0 := by
  cases s <;> rfl

theorem negative_apply_neg {n : Nat} (some_step : 0 < n) : Sign.negative.apply n < 0 := by
  simpa [Sign.apply] using some_step

theorem positive_apply_pos {n : Nat} (some_step : 0 < n) : 0 < Sign.positive.apply n := by
  simpa [Sign.apply] using some_step

/-- Of two negative numbers the one with more steps is the smaller. -/
theorem compare_neg_neg (i j : Int) : compare (-i) (-j) = (compare i j).swap := by
  rw [Int.compare_swap]
  rcases Int.lt_trichotomy i j with below | rfl | above
  · rw [Int.compare_eq_gt.mpr (by omega), Int.compare_eq_gt.mpr below]
  · rw [Int.compare_eq_eq.mpr rfl, Int.compare_eq_eq.mpr rfl]
  · rw [Int.compare_eq_lt.mpr (by omega), Int.compare_eq_lt.mpr above]

/-- Signed magnitudes are compared as their signed steps are. -/
theorem compare_assembled {s s' : Sign} {m m' : Nat} {e e' : Int} (canonical : IsCanonical m e)
    (canonical' : IsCanonical m' e') :
    (assembled s m e).compare (assembled s' m' e') =
      some (compare (s.apply (stepsOf m e)) (s'.apply (stepsOf m' e'))) := by
  have magnitudes := compare_stepsOf canonical canonical'
  have zero_iff := stepsOf_eq_zero_iff canonical
  have zero_iff' := stepsOf_eq_zero_iff canonical'
  have below {i j : Int} (order : i < j) : some Ordering.lt = some (compare i j) :=
    congrArg some (Int.compare_eq_lt.mpr order).symm
  have above {i j : Int} (order : j < i) : some Ordering.gt = some (compare i j) :=
    congrArg some (Int.compare_eq_gt.mpr order).symm
  generalize stepsOf m e = steps at *
  generalize stepsOf m' e' = steps' at *
  -- A zero has no sign that counts, so zeros are told apart before the signs are.
  rcases Nat.eq_zero_or_pos m with rfl | some_bit
  · obtain rfl := zero_iff.mpr rfl
    rw [assembled_zero, Nat.cast_zero, apply_zero]
    rcases Nat.eq_zero_or_pos m' with rfl | some_bit'
    · obtain rfl := zero_iff'.mpr rfl
      rw [assembled_zero, Nat.cast_zero, apply_zero]
      rfl
    · rw [assembled_of_pos some_bit']
      cases s' with
      | negative => exact above (negative_apply_neg (by omega))
      | positive => exact below (positive_apply_pos (by omega))
  rw [assembled_of_pos some_bit]
  have some_step : 0 < steps := by omega
  rcases Nat.eq_zero_or_pos m' with rfl | some_bit'
  · obtain rfl := zero_iff'.mpr rfl
    rw [assembled_zero, Nat.cast_zero, apply_zero]
    cases s with
    | negative => exact below (negative_apply_neg some_step)
    | positive => exact above (positive_apply_pos some_step)
  rw [assembled_of_pos some_bit']
  have some_step' : 0 < steps' := by omega
  cases s with
  | positive =>
    cases s' with
    | positive => exact congrArg some magnitudes
    | negative => exact above ((negative_apply_neg some_step').trans (positive_apply_pos some_step))
  | negative =>
    cases s' with
    | positive => exact below ((negative_apply_neg some_step).trans (positive_apply_pos some_step'))
    | negative =>
      refine congrArg some ((congrArg Ordering.swap magnitudes).trans ?_)
      exact (compare_neg_neg steps steps').symm

theorem apply_bounds (s : Sign) (n : Nat) : -(n : Int) ≤ s.apply n ∧ s.apply n ≤ n := by
  cases s
  all_goals
    dsimp only [Sign.apply]
    omega

/-- Infinity is greater than every finite number, and its opposite is smaller. -/
theorem compare_infinity {s : Sign} {m : Nat} {e : Int} (small : m < 2 ^ 53) (most : e ≤ 971)
    (negative : Bool) :
    (UnpackedFloat.infinity (signOf negative)).compare (assembled s m e) =
        some (compare ((signOf negative).apply stepsToInfinity) (s.apply (stepsOf m e))) ∧
      (assembled s m e).compare (.infinity (signOf negative)) =
        some (compare (s.apply (stepsOf m e)) ((signOf negative).apply stepsToInfinity)) := by
  have near := stepsOf_lt small most
  obtain ⟨low, high⟩ := apply_bounds s (stepsOf m e)
  cases negative with
  | true =>
    have left : (signOf true).apply stepsToInfinity < s.apply (stepsOf m e) := by
      change -(stepsToInfinity : Int) < _
      omega
    rw [Int.compare_eq_lt.mpr left, Int.compare_eq_gt.mpr left, assembled]
    split
    all_goals exact ⟨rfl, by cases s <;> rfl⟩
  | false =>
    have right : s.apply (stepsOf m e) < (signOf false).apply stepsToInfinity := by
      change _ < (stepsToInfinity : Int)
      omega
    rw [Int.compare_eq_gt.mpr right, Int.compare_eq_lt.mpr right, assembled]
    split
    all_goals exact ⟨rfl, by cases s <;> rfl⟩

/-- Doubles are compared as their places on the line are, if both have one. -/
theorem compare_unpack (x y : Float) :
    x.toModel.unpack.compare y.toModel.unpack =
      (kind x).place?.bind fun i => (kind y).place?.map fun j => compare i j := by
  rw [unpack_eq, unpack_eq]
  cases here : kind x with
  | nan => rfl
  | infinite negative =>
    cases there : kind y with
    | nan => cases negative <;> rfl
    | infinite other => cases negative <;> cases other <;> rfl
    | finite value =>
      obtain ⟨canonical, most, _⟩ := unpack_of_kind there
      exact (compare_infinity canonical.small most negative).1
  | finite value =>
    obtain ⟨canonical, most, _⟩ := unpack_of_kind here
    cases there : kind y with
    | nan =>
      unfold Kind.unpacked assembled
      dsimp only
      split <;> rfl
    | infinite negative => exact (compare_infinity canonical.small most negative).2
    | finite other => exact compare_assembled canonical (unpack_of_kind there).1

theorem lt_iff_place : x < y ↔
    ∃ i j, (kind x).place? = some i ∧ (kind y).place? = some j ∧ i < j := by
  change decide ((x.toModel.unpack.compare y.toModel.unpack == some .lt) = true) = true ↔ _
  rw [decide_eq_true_eq, compare_unpack]
  cases (kind x).place? <;> cases (kind y).place? <;> simp [Int.compare_eq_lt]

theorem le_iff_place : x ≤ y ↔
    ∃ i j, (kind x).place? = some i ∧ (kind y).place? = some j ∧ i ≤ j := by
  change decide ((x.toModel.unpack.compare y.toModel.unpack).any (·.isLE) = true) = true ↔ _
  rw [decide_eq_true_eq, compare_unpack]
  cases (kind x).place? <;> cases (kind y).place? <;> simp [Std.isLE_compare]

theorem le_trans_number (first : x ≤ y) (second : y ≤ z) : x ≤ z := by
  rw [le_iff_place] at *
  obtain ⟨i, j, here, there, below⟩ := first
  obtain ⟨j', k, again, last, above⟩ := second
  cases there.symm.trans again
  exact ⟨i, k, here, last, below.trans above⟩

theorem not_lt_of_le_number (order : x ≤ y) : ¬ y < x := by
  rw [le_iff_place] at order
  rw [lt_iff_place]
  obtain ⟨i, j, here, there, at_most⟩ := order
  rintro ⟨j', i', there', here', less⟩
  cases here.symm.trans here'
  cases there.symm.trans there'
  exact absurd less (not_lt.mpr at_most)

/-- All doubles that are no number are the same. -/
theorem eq_of_nan (nan : kind x = .nan) (nan' : kind y = .nan) : x = y := by
  rw [← pack_unpack_toModel x, ← pack_unpack_toModel y, unpack_eq, unpack_eq, nan, nan']

theorem not_lt_of_nan (nan : kind y = .nan) : ¬ x < y := by
  rw [lt_iff_place, nan]
  rintro ⟨i, j, _, there, _⟩
  cases there

end Kinds

/-! ### Stored doubles -/

namespace Double
variable {x y : Double}

@[simp]
theorem toFloat_ofFloat (x : Float) : (ofFloat x).toFloat = x := Float.ofBits_toBits x

theorem kind_ofFloat (x : Float) : Kind.ofBits (ofFloat x).bits.toNat = kind x := rfl

/-- A stored double that is a number is the only one for this number. -/
theorem ofFloat_toFloat (number : Kind.ofBits x.bits.toNat ≠ .nan) : ofFloat x.toFloat = x := by
  -- The bits are those of a double, because they are not the bits of what is no number.
  have valid : Format.binary64.Valid x.bits.toBitVec := by
    constructor
    intro exponent fraction
    rw [eq_iff_toNat, toNat_unpackExponent] at exponent
    rw [Ne, eq_iff_toNat, toNat_unpackMantissa] at fraction
    refine absurd ?_ number
    rw [Kind.ofBits]
    exact (if_pos exponent).trans (if_neg fraction)
  have same : x.toFloat = .ofModel ⟨x.bits, valid⟩ :=
    Float.ofBits_toBits (.ofModel ⟨x.bits, valid⟩)
  rw [same]
  rfl

/-- What a stored double is can be told from its bits. -/
theorem kind_toFloat (x : Double) : kind x.toFloat = Kind.ofBits x.bits.toNat := by
  by_cases nan : Kind.ofBits x.bits.toNat = .nan
  · have same : x.toFloat = .ofModel (Float.Model.pack .notANumber) :=
      congrArg (fun unpacked => Float.ofModel (Float.Model.pack unpacked)) (unpack_of_nan nan)
    rw [nan, same]
    rfl
  · rw [← kind_ofFloat, ofFloat_toFloat nan]

/-! ### Sums -/

variable (rule : NaNRule)

/-- Whatever bits a sum gets that is no number, as a number it is the sum of the numbers. -/
theorem toFloat_add (x y : Double) : (rule.add x y).toFloat = x.toFloat + y.toFloat := by
  unfold NaNRule.add
  extract_lets sum
  split
  next nan => exact eq_of_nan (isNaN_iff.mp (rule.isNaN_bitsOf x y)) (isNaN_iff.mp nan)
  · exact toFloat_ofFloat sum

theorem toFloat_total (values : List Double) :
    (rule.total values).toFloat = (values.map toFloat).foldl (· + ·) 0.0 := by
  -- The run starts from any double, not only from zero.
  suffices run : ∀ start : Double, (values.foldl rule.add start).toFloat =
      (values.map toFloat).foldl (· + ·) start.toFloat by
    rw [NaNRule.total, run, toFloat_ofFloat]
  induction values with
  | nil => exact fun start => rfl
  | cons x rest ih =>
    intro start
    rw [List.foldl_cons, ih, toFloat_add, List.map_cons, List.foldl_cons]

/-! ### The total order -/

theorem key_inj : x.key = y.key ↔ x = y := by
  refine ⟨fun same => ?_, congrArg key⟩
  obtain ⟨bits⟩ := x
  obtain ⟨bits'⟩ := y
  rw [mk.injEq, ← UInt64.toNat_inj]
  simp only [key] at same
  split at same <;> split at same <;> omega

theorem key_of_steps {negative : Bool} {n : Nat} (within : n ≤ stepsToInfinity)
    (shape : x.bits.toNat = (if negative then signBit else 0) + n) :
    x.key = (signOf negative).apply n - if negative then 1 else 0 := by
  have sign : signBit = 2 ^ 63 := rfl
  have limit : stepsToInfinity < 2 ^ 63 := by decide
  rw [key, shape, sign]
  cases negative
  all_goals
    simp only [signOf, Sign.apply, Bool.false_eq_true, if_true, if_false]
    split <;> omega

end Double

/-- The bits of a number are its sign and its steps from zero. -/
theorem bits_of_place {bits : Nat} {i : Int} (limit : bits < 2 ^ 64)
    (placed : (Kind.ofBits bits).place? = some i) : ∃ (negative : Bool) (n : Nat),
      n ≤ stepsToInfinity ∧ bits = (if negative then signBit else 0) + n ∧
        (signOf negative).apply n = i := by
  have hidden : hiddenBit = 2 ^ 52 := rfl
  have sign : signBit = 2 ^ 63 := rfl
  have infinity : stepsToInfinity = 2047 * 2 ^ 52 := rfl
  rw [Kind.ofBits, hidden, sign] at placed
  rw [sign, infinity]
  have shape : bits = (if bits / 2 ^ 63 % 2 = 1 then 2 ^ 63 else 0) + bits % 2 ^ 63 := by
    split <;> omega
  -- In each kind of number the steps are what the sign leaves of the bits.
  suffices steps : ∃ n ≤ 2047 * 2 ^ 52, n = bits % 2 ^ 63 ∧
      (signOf (decide (bits / 2 ^ 63 % 2 = 1))).apply n = i by
    obtain ⟨n, within, rfl, applied⟩ := steps
    exact ⟨_, _, within, by simpa using shape, applied⟩
  split at placed
  next last =>
    split at placed
    next nothing => exact ⟨stepsToInfinity, le_rfl, by omega, Option.some.inj placed⟩
    next => cases placed
  next before =>
    split at placed
    next first =>
      refine ⟨stepsOf (bits % 2 ^ 52) (-1074), ?_, ?_, Option.some.inj placed⟩
      all_goals
        rw [stepsOf, hidden]
        omega
    next later =>
      refine ⟨stepsOf (2 ^ 52 + bits % 2 ^ 52) (_ - 1075), ?_, ?_, Option.some.inj placed⟩
      all_goals
        rw [stepsOf, hidden]
        omega

namespace Double
variable {x y : Double}

/-- A number stands in the total order where it stands on the line, or one further to the left if it
has the negative sign. -/
theorem key_of_place {i : Int} (placed : (kind x.toFloat).place? = some i) :
    x.key = i ∧ 0 ≤ i ∧ i ≤ stepsToInfinity ∨
      x.key = i - 1 ∧ -stepsToInfinity ≤ i ∧ i ≤ 0 := by
  rw [kind_toFloat] at placed
  obtain ⟨negative, n, within, shape, rfl⟩ := bits_of_place x.bits.toNat_lt placed
  rw [key_of_steps within shape]
  cases negative with
  | true =>
    have left : (signOf true).apply n = -(n : Int) := rfl
    exact .inr ⟨rfl, by omega⟩
  | false =>
    have right : (signOf false).apply n = n := rfl
    exact .inl ⟨sub_zero _, by omega⟩

/-- The total order puts numbers in the order of the numbers. -/
theorem key_lt_of_lt (less : x.toFloat < y.toFloat) : x.key < y.key := by
  obtain ⟨i, j, here, there, below⟩ := lt_iff_place.mp less
  have key := key_of_place here
  have key' := key_of_place there
  omega

/-- What is no number stands outside of the numbers, in front of the negative infinity or behind the
positive one. -/
theorem isNaN_iff_key : x.toFloat.isNaN = true ↔
    x.key < -(stepsToInfinity : Int) - 1 ∨ stepsToInfinity < x.key := by
  rw [isNaN_iff]
  constructor
  · intro nan
    rw [kind_toFloat] at nan
    have fields := fields_of_nan nan
    have limit : x.bits.toNat < 2 ^ 64 := x.bits.toNat_lt
    have hidden : hiddenBit = 2 ^ 52 := rfl
    have sign : signBit = 2 ^ 63 := rfl
    rw [hidden] at fields
    rw [key, stepsToInfinity, hidden, sign]
    split <;> omega
  · intro outside
    cases found : kind x.toFloat with
    | nan => rfl
    | infinite negative =>
      have inside := key_of_place (congrArg Kind.place? found)
      omega
    | finite value =>
      have inside := key_of_place (congrArg Kind.place? found)
      omega

end Double
end LayerTiming.Number
