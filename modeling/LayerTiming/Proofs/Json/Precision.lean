import LayerTiming.Proofs.Json.Numbers
import LayerTiming.Proofs.Number.Shortest
import LayerTiming.Proofs.Text.Digits

/-!
# Doubles read back exactly

A number is read by rounding twice or more: its digits are rounded to a double, which is scaled by a
power of ten that was rounded as well. Where the digits are no longer than a mantissa and the power
of ten is a double, both are exact, the scaling rounds once, and the double that was written is the
one that is read.
-/
namespace LayerTiming.Json.Scientific
open Number Text

/-- Digits that fit are all taken up. -/
theorem takeUp_eq {start : Nat} {digits : List Char} (fits : continued start digits < wordLimit) :
    takeUp start digits = (continued start digits, []) := by
  induction digits generalizing start with
  | nil => rfl
  | cons c rest ih =>
    have next : start * 10 + digitValue c < wordLimit :=
      Nat.lt_of_le_of_lt (le_continued _ rest) fits
    rw [takeUp, if_pos next, ih fits]
    rfl

/-- The digits of a number without its point. -/
def significand (number : Scientific) : Nat := digitsValue (number.whole ++ number.fraction)

/-- The power of ten that scales the digits of a number. -/
def power (number : Scientific) : Int := number.exponent.getD 0 - number.fraction.length

/-- A number whose digits are no longer than a mantissa and whose power of ten is a double, or the
reciprocal of one. -/
structure IsShort (number : Scientific) : Prop where
  significand : number.significand < 2 ^ 53
  power : number.power.natAbs ≤ 22

instance (number : Scientific) : Decidable number.IsShort :=
  decidable_of_iff (number.significand < 2 ^ 53 ∧ number.power.natAbs ≤ 22)
    ⟨fun ⟨digits, power⟩ => ⟨digits, power⟩, fun short => ⟨short.significand, short.power⟩⟩

variable {number : Scientific} {value : Binary} {x : Float}

theorem parts_eq (short : number.IsShort) : number.parts = (number.significand, number.power) := by
  have limit : wordLimit = 2 ^ 64 := rfl
  have fits := short.significand
  have joined : number.significand =
      continued (continued 0 number.whole) number.fraction := continued_append _ _ _
  have leading := le_continued (continued 0 number.whole) number.fraction
  rw [parts, takeUp_eq (by omega)]
  dsimp only
  rw [takeUp_eq (by omega), ← joined, power]
  dsimp only [List.length_nil]
  congr 1
  omega

/-- The powers of ten that are doubles. -/
theorem tenTo_exact : ∀ k ≤ 22, ∃ value, kind (tenTo k) = .finite value ∧ value.negative = false ∧
    2 ^ 52 ≤ value.mantissa ∧ (-52 ≤ value.exponent ∧ value.exponent ≤ 52) ∧
    value.mantissa * 2 ^ (value.exponent + 52).toNat = 10 ^ k * 2 ^ 52 := by
  have checked : ∀ k < 23, ∃ value ∈ (kind (tenTo k)).value?, value.negative = false ∧
      2 ^ 52 ≤ value.mantissa ∧ (-52 ≤ value.exponent ∧ value.exponent ≤ 52) ∧
      value.mantissa * 2 ^ (value.exponent + 52).toNat = 10 ^ k * 2 ^ 52 := by decide +kernel
  intro k small
  obtain ⟨value, finite, parts⟩ := checked k (by omega)
  exact ⟨value, Kind.value?_eq_some.mp finite, parts⟩

theorem isWorth_tenTo {k : Nat} (small : k ≤ 22) : IsWorth (tenTo k) (10 ^ k) := by
  obtain ⟨value, finite, positive, least, bounds, worth⟩ := tenTo_exact k small
  refine isWorth_of_kind finite positive least bounds ?_
  have scaled : (value.mantissa : ℚ) * 2 ^ (value.exponent + 52) = 10 ^ k * 2 ^ (52 : Int) := by
    have exponent : value.exponent + 52 = ((value.exponent + 52).toNat : Int) := by omega
    rw [exponent, zpow_natCast, zpow_ofNat]
    exact_mod_cast worth
  rw [zpow_add₀ two_ne_zero, ← mul_assoc] at scaled
  exact_mod_cast mul_right_cancel₀ (zpow_ne_zero _ two_ne_zero) scaled

/-- A short number is rounded once. -/
theorem magnitude?_eq_packed {m : Nat} {e : Int} (short : number.IsShort)
    (some_digit : 0 < number.significand)
    (written : (number.exponent.getD 0).natAbs ≤ greatestExponent) (canonical : IsCanonical m e)
    (most : e ≤ 971) (some_bit : 0 < m)
    (cell : InCell m e (number.significand * 10 ^ number.power)) :
    number.magnitude? = some (packed m e some_bit) := by
  -- Digits and power of ten are both exact doubles, so only their product or quotient is rounded.
  have digits := isWorth_ofNat some_digit short.significand
  have tens := isWorth_tenTo short.power
  have bound := short.power
  rw [magnitude?, parts_eq short]
  dsimp only
  rw [if_neg (Nat.not_lt.mpr written), scale?]
  by_cases divides : number.power < 0
  · have negated : number.power = -(number.power.natAbs : Int) := by omega
    have no_step : (number.power.natAbs - 1) / greatestPower = 0 :=
      Nat.div_eq_of_lt (by rw [greatestPower]; omega)
    rw [negated, zpow_neg, zpow_natCast, ← div_eq_mul_inv] at cell
    rw [if_pos divides, shrink, no_step, Nat.zero_mul, Nat.sub_zero, Nat.zero_min]
    exact congrArg some (div_eq_packed digits tens canonical some_bit (by exact_mod_cast cell))
  · have whole : number.power = (number.power.toNat : Int) := by omega
    have same : number.power.natAbs = number.power.toNat := by omega
    rw [same] at tens
    rw [whole, zpow_natCast] at cell
    rw [if_neg divides, if_pos (by rw [greatestPower]; omega)]
    extract_lets scaled
    have product : scaled = packed m e some_bit :=
      mul_eq_packed digits tens canonical some_bit (by exact_mod_cast cell)
    rw [product, isInf_packed canonical most some_bit]
    rfl

/-- A number with the digits of a decimal, and zeros behind them or not. -/
def Writes (number : Scientific) (decimal : Decimal) : Prop :=
  ∃ zeros : Nat, number.significand = decimal.digits * 10 ^ zeros ∧
    number.power = decimal.exponent - zeros ∧
    (number.exponent = none ∨ number.fraction.length ≤ (numeral decimal.digits).length)

theorem writes_ofBinary (some_digit : (value.shortest .toEven).digits ≠ 0) :
    (ofBinary value).Writes (value.shortest .toEven) := by
  unfold ofBinary
  extract_lets shortest digits point negative
  change Writes _ shortest
  have read : digitsValue digits = shortest.digits := digitsValue_numeral _
  have some_length : digits.length ≠ 0 := fun nothing =>
    numeral_ne_nil _ (List.length_eq_zero_iff.mp nothing)
  rw [if_neg some_digit]
  -- The digits stand before the point, around it, behind it, or in front of an exponent.
  split
  next bounds =>
    refine ⟨shortest.exponent.toNat + 1, ?_, ?_, .inl rfl⟩
    · rw [significand, List.append_assoc, ← List.replicate_succ', digitsValue_append, read,
        digitsValue_zeros, List.length_replicate, Nat.add_zero]
    · rw [power, Option.getD_none, List.length_singleton]
      omega
  split
  next bounds =>
    refine ⟨0, ?_, ?_, .inl rfl⟩
    · rw [significand, List.take_append_drop, read, pow_zero, Nat.mul_one]
    · rw [power, Option.getD_none, List.length_drop]
      omega
  split
  next bounds =>
    refine ⟨0, ?_, ?_, .inl rfl⟩
    · rw [significand, List.singleton_append, ← List.cons_append, ← List.replicate_succ,
        digitsValue_append, digitsValue_zeros, read, Nat.zero_mul, Nat.zero_add, pow_zero,
        Nat.mul_one]
    · rw [power, Option.getD_none, List.length_append, List.length_replicate]
      omega
  · refine ⟨0, ?_, ?_, .inr ?_⟩
    · rw [significand, List.take_append_drop, read, pow_zero, Nat.mul_one]
    · rw [power, Option.getD_some, List.length_drop]
      omega
    · rw [List.length_drop]
      exact Nat.sub_le _ _

theorem negative_ofBinary (value : Binary) : (ofBinary value).negative = value.negative := by
  unfold ofBinary
  dsimp only
  repeat' split
  all_goals rfl

theorem Writes.worth {decimal : Decimal} (writes : number.Writes decimal) :
    (number.significand : ℚ) * 10 ^ number.power = decimal.value := by
  obtain ⟨zeros, digits, power, _⟩ := writes
  rw [digits, power, Decimal.value, zpow_sub₀ (by norm_num), zpow_natCast]
  push_cast
  field_simp

/-- A short number of a double has no exponent out of range. -/
theorem Writes.written {decimal : Decimal} (writes : number.Writes decimal)
    (short : number.IsShort) : (number.exponent.getD 0).natAbs ≤ greatestExponent := by
  have limit : greatestExponent = 2147483647 := rfl
  have bound := short.power
  obtain ⟨zeros, digits, _, none | few⟩ := writes
  · rw [none, limit]
    decide
  · have small : decimal.digits < 10 ^ 16 := by
      have least : decimal.digits ≤ number.significand :=
        digits ▸ Nat.le_mul_of_pos_right _ (Nat.pow_pos (by decide))
      have most := short.significand
      omega
    have count : (numeral decimal.digits).length ≤ 16 :=
      Nat.toDigits_length 10 _ 16 (by decide) small
    have exponent : number.exponent.getD 0 = number.power + number.fraction.length := by
      rw [power]
      omega
    omega

theorem float?_zero (negative : Bool) : float? { negative, whole := ['0'], fraction := ['0'] } =
    some (if negative then -0.0 else 0.0) := by
  have quotient : shrink (Float.ofNat 0) 1 = 0.0 := rfl
  have magnitude : magnitude? { negative, whole := ['0'], fraction := ['0'] } = some 0.0 :=
    congrArg some quotient
  rw [float?, magnitude]
  rfl

/-- The number of a double other than zero lies in the cell of the double. -/
theorem inCell_ofBinary (finite : kind x = .finite value) (some_bit : 0 < value.mantissa) :
    (ofBinary value).Writes (value.shortest .toEven) ∧ 0 < (ofBinary value).significand ∧
      InCell value.mantissa value.exponent
        ((ofBinary value).significand * 10 ^ (ofBinary value).power) := by
  obtain ⟨_, _, gapped, _⟩ := unpack_of_kind finite
  have cell := Binary.inCell_shortest some_bit gapped .toEven
  have some_digit : (value.shortest .toEven).digits ≠ 0 := by
    intro zero
    have positive := cell.positive some_bit
    rw [Decimal.value, zero] at positive
    simp at positive
  have writes := writes_ofBinary some_digit
  rw [← writes.worth] at cell
  refine ⟨writes, ?_, cell⟩
  obtain ⟨zeros, digits, _⟩ := writes
  rw [digits]
  exact Nat.mul_pos (Nat.pos_of_ne_zero some_digit) (Nat.pow_pos (by decide))

theorem ofBinary_zero (nothing : value.mantissa = 0) : ofBinary value =
    { negative := value.negative, whole := ['0'], fraction := ['0'] } := by
  have digits : value.shortest .toEven = ⟨0, 0⟩ := if_pos nothing
  rw [ofBinary, digits]
  rfl

/-- A double whose number is short is read back from its text. -/
theorem float?_ofBinary (finite : kind x = .finite value) (short : (ofBinary value).IsShort) :
    (ofBinary value).float? = some x := by
  by_cases nothing : value.mantissa = 0
  · rw [ofBinary_zero nothing, float?_zero, eq_zero finite nothing]
  · have some_bit := Nat.pos_of_ne_zero nothing
    obtain ⟨canonical, most, _⟩ := unpack_of_kind finite
    obtain ⟨writes, some_digit, cell⟩ := inCell_ofBinary finite some_bit
    rw [float?, magnitude?_eq_packed short some_digit (writes.written short) canonical most some_bit
      cell, Option.map_some, negative_ofBinary]
    exact congrArg some (eq_packed finite some_bit)

theorem mantissa_eq_zero_iff (finite : kind x = .finite value) :
    value.mantissa = 0 ↔ (ofBinary value).significand = 0 := by
  constructor
  · intro nothing
    rw [ofBinary_zero nothing]
    rfl
  · intro no_digit
    by_contra some_bit
    exact (inCell_ofBinary finite (Nat.pos_of_ne_zero some_bit)).2.1.ne' no_digit

/-- Different doubles have different numbers. -/
theorem eq_of_ofBinary_eq {y : Float} {other : Binary} (finite : kind x = .finite value)
    (other_finite : kind y = .finite other) (same : ofBinary value = ofBinary other) : x = y := by
  have negative : value.negative = other.negative := by
    rw [← negative_ofBinary value, same, negative_ofBinary]
  by_cases nothing : value.mantissa = 0
  · have other_nothing : other.mantissa = 0 := by
      rwa [mantissa_eq_zero_iff other_finite, ← same, ← mantissa_eq_zero_iff finite]
    rw [← eq_zero finite nothing, ← eq_zero other_finite other_nothing, negative]
  · have some_bit := Nat.pos_of_ne_zero nothing
    have other_bit : 0 < other.mantissa := by
      rw [mantissa_eq_zero_iff finite, same, ← mantissa_eq_zero_iff other_finite] at nothing
      exact Nat.pos_of_ne_zero nothing
    obtain ⟨canonical, _⟩ := unpack_of_kind finite
    obtain ⟨other_canonical, _⟩ := unpack_of_kind other_finite
    obtain ⟨_, _, cell⟩ := inCell_ofBinary finite some_bit
    obtain ⟨_, _, other_cell⟩ := inCell_ofBinary other_finite other_bit
    rw [← same] at other_cell
    obtain ⟨mantissa, exponent⟩ :=
      cell.unique other_cell canonical other_canonical some_bit other_bit
    rw [← eq_packed finite some_bit, ← eq_packed other_finite other_bit]
    simp only [negative, mantissa, exponent]

end LayerTiming.Json.Scientific
