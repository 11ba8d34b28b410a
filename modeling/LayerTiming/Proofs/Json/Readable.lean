import LayerTiming.Proofs.Json.Precision
import LayerTiming.Proofs.Number.Bounds

/-!
# Doubles that have a value when they are read

Reading a number may give another double than the one that was written, and past the greatest double
it gives nothing. The number of a double that is not near the greatest is always read as some double.
-/
namespace LayerTiming.Json.Scientific
open Number Text

/-! ### Digits -/

/-- What is taken up of some digits: no more than they are worth, and something if they are worth
anything. -/
theorem takeUp_bounds {start : Nat} (fits : start < wordLimit) (digits : List Char) :
    (takeUp start digits).1 < wordLimit ∧ (takeUp start digits).2.length ≤ digits.length ∧
      (takeUp start digits).1 * 10 ^ (takeUp start digits).2.length ≤ continued start digits ∧
      (0 < continued start digits → 0 < (takeUp start digits).1) := by
  induction digits generalizing start with
  | nil => exact ⟨fits, Nat.le_refl _, by simp [takeUp, continued], id⟩
  | cons c rest ih =>
    rw [takeUp]
    by_cases next : start * 10 + digitValue c < wordLimit
    · rw [if_pos next]
      obtain ⟨small, left, below, some_digit⟩ := ih next
      exact ⟨small, Nat.le_succ_of_le left, below, some_digit⟩
    · rw [if_neg next]
      refine ⟨fits, Nat.le_refl _, ?_, fun _ => ?_⟩
      · rw [continued_eq]
        exact Nat.le_add_right _ _
      · have limit : wordLimit = 2 ^ 64 := rfl
        have code : digitValue c < 2 ^ 32 := Nat.lt_of_le_of_lt (Nat.sub_le _ _) c.val.toNat_lt
        change 0 < start
        omega

variable {number : Scientific} {value : Binary} {x : Float}

/-- The parts of a number whose digits before the point all fit. -/
theorem exists_parts (fits : digitsValue number.whole < wordLimit)
    (some_digit : 0 < number.significand) : ∃ s left : Nat,
      number.parts = (s, number.power + left) ∧ 0 < s ∧ s < wordLimit ∧
        s * 10 ^ left ≤ number.significand := by
  have joined : number.significand = continued (digitsValue number.whole) number.fraction :=
    continued_append _ _ _
  have leading : takeUp 0 number.whole = (digitsValue number.whole, []) := takeUp_eq fits
  obtain ⟨small, left, below, taken⟩ := takeUp_bounds fits number.fraction
  rw [← joined] at below taken
  refine ⟨_, _, ?_, taken some_digit, small, below⟩
  rw [parts, leading]
  dsimp only
  rw [power, List.length_nil]
  congr 1
  omega

/-- What stands before the point is short, and is not zero in front of an exponent. -/
theorem whole_ofBinary (some_digit : (value.shortest .toEven).digits ≠ 0) :
    (ofBinary value).whole.length ≤ 16 ∧
      ((ofBinary value).exponent ≠ none → 0 < digitsValue (ofBinary value).whole) := by
  obtain ⟨c, rest, shape, leading⟩ := head?_numeral (Nat.pos_of_ne_zero some_digit)
  -- One way of writing after the other; an exponent is written in the last only.
  unfold ofBinary
  extract_lets shortest digits point negative
  have begins : digits = c :: rest := shape
  rw [if_neg some_digit]
  split
  next bounds =>
    refine ⟨?_, fun written => absurd rfl written⟩
    rw [List.length_append, List.length_replicate]
    omega
  split
  next bounds =>
    refine ⟨?_, fun written => absurd rfl written⟩
    rw [List.length_take]
    omega
  split
  next bounds => exact ⟨by simp, fun written => absurd rfl written⟩
  · refine ⟨?_, fun _ => ?_⟩
    · rw [List.length_take]
      omega
    · have digit := isAsciiDigit_of_mem_numeral shortest.digits c (shape ▸ List.mem_cons_self)
      have bounds := (isAsciiDigit_iff c).mp digit
      have not_zero : c.toNat ≠ 48 := fun same => leading (Char.ext (UInt32.toNat_inj.mp same))
      rw [begins]
      change 0 < 0 * 10 + (c.toNat - 48)
      omega

theorem within_tenTo {k : Nat} (small : k ≤ 58) : Within (tenTo k) 194 := by
  -- There are few powers within the bound, so they are looked at one by one.
  have checked : ∀ k < 59, ∃ value ∈ (kind (tenTo k)).value?, value.negative = false ∧
      value.mantissa * 2 ^ value.exponent.toNat ≤ 2 ^ 194 := by decide +kernel
  obtain ⟨value, found, positive, bound⟩ := checked k (by omega)
  have holds := isMagnitude_of_kind (Kind.value?_eq_some.mp found)
  rw [positive] at holds
  refine ⟨_, ?_, holds⟩
  have above : (2 : ℚ) ^ value.exponent ≤ 2 ^ value.exponent.toNat := by
    rw [← zpow_natCast]
    exact zpow_le_zpow_right₀ one_le_two (Int.self_le_toNat _)
  calc (value.mantissa : ℚ) * 2 ^ value.exponent
      ≤ value.mantissa * 2 ^ value.exponent.toNat :=
        mul_le_mul_of_nonneg_left above (Nat.cast_nonneg _)
    _ ≤ 2 ^ 194 := by exact_mod_cast bound

/-- A power of ten that a bounded value has room for. -/
theorem exponent_lt {s : Nat} {k : Int} (some_digit : 0 < s) (bound : (s : ℚ) * 10 ^ k < 10 ^ 59) :
    k < 59 := by
  have one_le : (1 : ℚ) ≤ s := by exact_mod_cast some_digit
  have alone : (10 : ℚ) ^ k < 10 ^ (59 : Int) :=
    calc (10 : ℚ) ^ k ≤ s * 10 ^ k :=
        le_mul_of_one_le_left (zpow_pos (by norm_num) _).le one_le
      _ < 10 ^ 59 := bound
      _ = 10 ^ (59 : Int) := (zpow_ofNat _ _).symm
  exact (zpow_lt_zpow_iff_right₀ (by norm_num)).mp alone

theorem isSome_scale? {s : Nat} {k : Int} (some_digit : 0 < s) (small : s < wordLimit)
    (bound : (s : ℚ) * 10 ^ k < 10 ^ 59) : (scale? (Float.ofNat s) k).isSome = true := by
  have least := exponent_lt some_digit bound
  unfold scale?
  split
  · rfl
  · rw [if_pos (by rw [greatestPower]; omega)]
    extract_lets scaled
    have digits : Within (Float.ofNat s) 64 := by
      apply (isRounded_ofNat s).within _ (by decide)
      have limit : wordLimit = 2 ^ 64 := rfl
      exact_mod_cast (limit ▸ small).le
    have product : Within scaled 258 := digits.mul (within_tenTo (by omega)) (by decide)
    rw [product.isInf, if_neg Bool.false_ne_true]
    rfl

/-- The exponent that is written is no greater than that of the value. -/
theorem written_lt {e : Int} (written : number.exponent = some e)
    (some_digit : 0 < digitsValue number.whole)
    (bound : (number.significand : ℚ) * 10 ^ number.power < 10 ^ 59) : e < 59 := by
  apply exponent_lt some_digit
  refine lt_of_le_of_lt ?_ bound
  have parted : (10 : ℚ) ^ e = 10 ^ number.fraction.length * 10 ^ number.power := by
    rw [power, written, Option.getD_some, ← zpow_natCast, ← zpow_add₀ (by norm_num)]
    congr 1
    omega
  have least : digitsValue number.whole * 10 ^ number.fraction.length ≤ number.significand := by
    rw [significand, digitsValue_append]
    exact Nat.le_add_right _ _
  rw [parted, ← mul_assoc]
  refine mul_le_mul_of_nonneg_right ?_ (zpow_pos (by norm_num) _).le
  exact_mod_cast least

theorem isSome_magnitude? (fits : digitsValue number.whole < wordLimit)
    (some_digit : 0 < number.significand)
    (leading : number.exponent ≠ none → 0 < digitsValue number.whole)
    (bound : (number.significand : ℚ) * 10 ^ number.power < 10 ^ 59) :
    number.magnitude?.isSome = true := by
  obtain ⟨s, left, parted, positive, small, below⟩ := exists_parts fits some_digit
  -- An exponent past the limit would give no value, unless it is negative.
  have written : number.exponent.getD 0 < 59 := by
    cases exponent : number.exponent with
    | none => decide
    | some e => exact written_lt exponent (leading (by rw [exponent]; exact Option.some_ne_none e)) bound
  have lowered : (s : ℚ) * 10 ^ (number.power + left) < 10 ^ 59 := by
    refine lt_of_le_of_lt ?_ bound
    rw [add_comm, zpow_add₀ (by norm_num), zpow_natCast, ← mul_assoc]
    refine mul_le_mul_of_nonneg_right ?_ (zpow_pos (by norm_num) _).le
    exact_mod_cast below
  have limit : greatestExponent = 2147483647 := rfl
  rw [magnitude?, parted]
  dsimp only
  split
  next far =>
    rw [if_neg (by omega)]
    rfl
  · exact isSome_scale? positive small lowered

/-- The number of a double within two to the power 192 has a value. -/
theorem isSome_float?_ofBinary (finite : kind x = .finite value)
    (bound : (value.mantissa : ℚ) * 2 ^ value.exponent ≤ 2 ^ 192) :
    (ofBinary value).float?.isSome = true := by
  by_cases nothing : value.mantissa = 0
  · rw [ofBinary_zero nothing, float?_zero]
    rfl
  · have some_bit := Nat.pos_of_ne_zero nothing
    obtain ⟨writes, some_digit, cell⟩ := inCell_ofBinary finite some_bit
    have digits : (value.shortest .toEven).digits ≠ 0 := by
      intro zero
      obtain ⟨zeros, worth, _⟩ := writes
      rw [zero, Nat.zero_mul] at worth
      omega
    obtain ⟨short, leading⟩ := whole_ofBinary digits
    have fits : digitsValue (ofBinary value).whole < wordLimit := by
      have limit : wordLimit = 2 ^ 64 := rfl
      have few := digitsValue_lt (isProper_ofBinary value).whole_digits
      have most : 10 ^ (ofBinary value).whole.length ≤ 10 ^ 16 := Nat.pow_le_pow_right (by decide) short
      omega
    -- Half a gap above the double is at most the double again.
    have one_le : (1 : ℚ) ≤ value.mantissa := by exact_mod_cast some_bit
    have worth : ((ofBinary value).significand : ℚ) * 10 ^ (ofBinary value).power < 10 ^ 59 :=
      calc ((ofBinary value).significand : ℚ) * 10 ^ (ofBinary value).power
          ≤ (value.mantissa + 1 / 2) * 2 ^ value.exponent := cell.high
        _ ≤ 2 * value.mantissa * 2 ^ value.exponent :=
          mul_le_mul_of_nonneg_right (by linarith) (zpow_pos two_pos _).le
        _ ≤ 2 * 2 ^ 192 := by linarith
        _ < 10 ^ 59 := by norm_num
    rw [float?, Option.isSome_map]
    exact isSome_magnitude? fits some_digit leading worth

end LayerTiming.Json.Scientific
