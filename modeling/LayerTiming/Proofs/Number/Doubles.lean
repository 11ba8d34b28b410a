import Mathlib
import LayerTiming.Proofs.Number.Rounding

/-!
# Doubles from their parts

A finite double is packed from its sign and its canonical magnitude, so two doubles with the same
parts are the same double.
-/
namespace LayerTiming.Number
open Float.Model Float.Model.UnpackedFloat

def signOf (negative : Bool) : Sign := if negative then .negative else .positive

/-- A signed magnitude as the operations on doubles take it. -/
def assembled (s : Sign) (m : Nat) (e : Int) : UnpackedFloat :=
  if no_bit : m = 0 then .zero s else .finite s m e (Nat.pos_of_ne_zero no_bit)

theorem assembled_of_pos {s : Sign} {m : Nat} {e : Int} (some_bit : 0 < m) :
    assembled s m e = .finite s m e some_bit := dif_neg some_bit.ne'

theorem toNat_unpackMantissa (b : BitVec Format.binary64.numBits) :
    (unpackMantissa b).toNat = b.toNat % hiddenBit := by
  rw [unpackMantissa_def, BitVec.extractLsb'_toNat, Nat.shiftRight_zero]
  rfl

theorem toNat_unpackExponent (b : BitVec Format.binary64.numBits) :
    (unpackExponent b).toNat = b.toNat / hiddenBit % 2048 := by
  rw [unpackExponent_def, BitVec.extractLsb'_toNat, Nat.shiftRight_eq_div_pow]
  rfl

theorem toNat_unpackSign (b : BitVec Format.binary64.numBits) :
    (unpackSign b).toNat = b.toNat / signBit % 2 := by
  rw [unpackSign_def, BitVec.extractLsb'_toNat, Nat.shiftRight_eq_div_pow]
  rfl

theorem ofBitVec_unpackSign (b : BitVec Format.binary64.numBits) :
    Sign.ofBitVec (unpackSign b) = signOf (decide (b.toNat / signBit % 2 = 1)) := by
  have bit := toNat_unpackSign b
  rcases Nat.mod_two_eq_zero_or_one (b.toNat / signBit) with even | odd
  · have zero : unpackSign b = 0#1 := BitVec.eq_of_toNat_eq (by rw [bit, even]; rfl)
    rw [zero, even]
    rfl
  · have one : unpackSign b = 1#1 := BitVec.eq_of_toNat_eq (by rw [bit, odd]; rfl)
    rw [one, odd]
    rfl

theorem toNat_append_hidden (m : BitVec 52) : (1#1 ++ m).toNat = hiddenBit + m.toNat := by
  rw [BitVec.toNat_append, ← Nat.shiftLeft_add_eq_or_of_lt m.isLt]
  rfl

theorem eq_iff_toNat {n : Nat} {a b : BitVec n} : a = b ↔ a.toNat = b.toNat :=
  BitVec.toNat_inj.symm

/-- What a bit pattern is unpacked to, by its fields. -/
theorem unpack_of_fields {b : BitVec Format.binary64.numBits} {s : Sign} {exponent fraction : Nat}
    (sign : Sign.ofBitVec (unpackSign b) = s) (has_exponent : (unpackExponent b).toNat = exponent)
    (has_fraction : (unpackMantissa b).toNat = fraction) :
    (exponent = 0 →
      UnpackedFloat.unpack Format.binary64 b = assembled s fraction (-1074)) ∧
    (exponent ≠ 0 → exponent ≠ 2047 →
      UnpackedFloat.unpack Format.binary64 b =
        assembled s (hiddenBit + fraction) (exponent - 1075)) := by
  have shift : (Format.binary64.exponentBias : Int) + Format.binary64.mantissaBitsWithoutImplicit =
    1075 := rfl
  unfold UnpackedFloat.unpack
  dsimp only
  rw [sign]
  constructor
  · rintro rfl
    -- Without a bit in the exponent there is no hidden bit, and the unit is the least.
    have least : unpackExponent b = 0#11 := BitVec.eq_of_toNat_eq has_exponent
    rw [if_neg (by rw [least]; decide), if_pos least, assembled]
    by_cases nothing : fraction = 0
    · rw [dif_pos (by rw [eq_iff_toNat, has_fraction, nothing]; rfl), dif_pos nothing]
    · rw [dif_neg fun zero => nothing (has_fraction.symm.trans (congrArg BitVec.toNat zero)),
        dif_neg nothing]
      simp only [has_fraction, has_exponent, shift]
      rfl
  · intro some_exponent finite
    rw [if_neg (by rw [eq_iff_toNat, has_exponent]; exact finite),
      if_neg (by rw [eq_iff_toNat, has_exponent]; exact some_exponent),
      assembled_of_pos (Nat.add_pos_left (by decide) fraction)]
    simp only [toNat_append_hidden, has_fraction, has_exponent, shift]

/-- The value of a finite double. -/
def Kind.value? : Kind → Option Binary
  | .finite value => some value
  | _ => none

theorem Kind.value?_eq_some {found : Kind} {value : Binary} :
    found.value? = some value ↔ found = .finite value := by
  cases found <;> simp [value?]

variable {x : Float} {value : Binary}

/-- A finite double has a canonical magnitude, and its parts are those that it is unpacked to. -/
theorem unpack_of_kind (finite : kind x = .finite value) :
    IsCanonical value.mantissa value.exponent ∧
      value.exponent ≤ 971 ∧
      value.narrowBelow = decide (value.mantissa = 2 ^ 52 ∧ -1074 < value.exponent) ∧
      x.toModel.unpack = assembled (signOf value.negative) value.mantissa value.exponent := by
  have bound : x.toBits.toNat % hiddenBit < 2 ^ 52 := Nat.mod_lt _ (by decide)
  have limit : x.toBits.toNat / hiddenBit % 2048 < 2048 := Nat.mod_lt _ (by decide)
  have hidden : hiddenBit = 2 ^ 52 := rfl
  unfold kind Kind.ofBits at finite
  dsimp only at finite
  split at finite
  · split at finite <;> cases finite
  next finite_exponent =>
    have unpacked := unpack_of_fields (ofBitVec_unpackSign x.toModel.toBits.toBitVec)
      (toNat_unpackExponent _) (toNat_unpackMantissa _)
    split at finite
    next least =>
      cases finite
      have small : x.toBits.toNat % hiddenBit < 2 ^ 53 := by omega
      have under : (-1074 : Int) ≤ 971 := by decide
      exact ⟨⟨small, Int.le_refl _, .inr rfl⟩, under, by simp, unpacked.1 least⟩
    next some_exponent =>
      cases finite
      refine ⟨⟨?_, ?_, .inl ?_⟩, ?_, ?_, unpacked.2 some_exponent finite_exponent⟩
      all_goals dsimp only
      case refine_5 =>
        -- The gap below is narrow behind a power of two, except the least.
        grind
      all_goals omega

theorem pack_unpack_toModel (x : Float) : Float.ofModel (Float.Model.pack x.toModel.unpack) = x := by
  have bits : (unpack Format.binary64 x.toModel.toBits.toBitVec).pack Format.binary64 =
    x.toModel.toBits.toBitVec := pack_unpack_of_valid x.toModel.valid
  exact Float.toBits_inj.mp (UInt64.toBitVec_inj.mp bits)

section Packing

variable {s : Sign} {m : Nat} {e : Int}

theorem pack_finite (small : m < 2 ^ 53) (finite : e ≤ 971) (some_bit : 0 < m) :
    UnpackedFloat.pack Format.binary64 (.finite s m e some_bit) =
      packComponents Format.binary64 s
        (if 2 ^ 52 ≤ m then BitVec.ofNat 11 (e + 1075).toNat else 0#11) (BitVec.ofNat 52 m) := by
  have shift : e + Format.binary64.exponentBias + Format.binary64.mantissaBitsWithoutImplicit =
    e + 1075 := by rw [Int.add_assoc]; rfl
  have in_range : ¬ 2 ^ Format.binary64.exponentBits ≤ (e + 1075).toNat + 1 := by
    rw [show 2 ^ Format.binary64.exponentBits = 2048 from rfl]
    omega
  have normal : m.log2 + 1 = Format.binary64.mantissaBits ↔ 2 ^ 52 ≤ m := by
    rw [show Format.binary64.mantissaBits = 52 + 1 from rfl, Nat.add_right_cancel_iff,
      Nat.log2_eq_iff some_bit.ne']
    exact and_iff_left small
  unfold UnpackedFloat.pack
  dsimp only
  rw [shift, if_neg in_range]
  by_cases bits : 2 ^ 52 ≤ m
  · rw [if_pos (normal.mpr bits), if_pos bits]
  · rw [if_neg (fun full => bits (normal.mp full)), if_neg bits]

theorem unpack_packComponents (s : Sign) (exponent : BitVec 11) (fraction : BitVec 52) :
    (exponent.toNat = 0 →
      UnpackedFloat.unpack Format.binary64 (packComponents Format.binary64 s exponent fraction) =
        assembled s fraction.toNat (-1074)) ∧
    (exponent.toNat ≠ 0 → exponent.toNat ≠ 2047 →
      UnpackedFloat.unpack Format.binary64 (packComponents Format.binary64 s exponent fraction) =
        assembled s (hiddenBit + fraction.toNat) (exponent.toNat - 1075)) := by
  refine unpack_of_fields ?_ ?_ ?_
  · rw [unpackSign_packComponents, Sign.ofBitVec_toBitVec]
  · rw [unpackExponent_packComponents]
  · rw [unpackMantissa_packComponents]

/-- A canonical magnitude that is not too great is packed without loss. -/
theorem unpack_pack (canonical : IsCanonical m e) (finite : e ≤ 971) (some_bit : 0 < m) :
    (Float.Model.pack (.finite s m e some_bit)).unpack = .finite s m e some_bit := by
  obtain ⟨small, least, bits⟩ := canonical
  have hidden : hiddenBit = 2 ^ 52 := rfl
  change UnpackedFloat.unpack Format.binary64 (UnpackedFloat.pack Format.binary64 _) = _
  rw [pack_finite small finite some_bit]
  by_cases normal : 2 ^ 52 ≤ m
  · rw [if_pos normal]
    have exponent : (BitVec.ofNat 11 (e + 1075).toNat).toNat = (e + 1075).toNat := by
      rw [BitVec.toNat_ofNat]
      exact Nat.mod_eq_of_lt (by omega)
    have fraction : (BitVec.ofNat 52 m).toNat = m - 2 ^ 52 := by
      rw [BitVec.toNat_ofNat]
      omega
    rw [(unpack_packComponents _ _ _).2 (by omega) (by omega), assembled_of_pos (by omega)]
    congr 1 <;> omega
  · rw [if_neg normal]
    have fraction : (BitVec.ofNat 52 m).toNat = m := by
      rw [BitVec.toNat_ofNat]
      exact Nat.mod_eq_of_lt (by omega)
    rw [(unpack_packComponents _ _ _).1 rfl, fraction, assembled_of_pos some_bit,
      bits.resolve_left normal]

end Packing

/-- The positive double with these parts. -/
def packed (m : Nat) (e : Int) (some_bit : 0 < m) : Float :=
  .ofModel (.pack (.finite .positive m e some_bit))

theorem unpack_packed {m : Nat} {e : Int} (canonical : IsCanonical m e) (most : e ≤ 971)
    (some_bit : 0 < m) : (packed m e some_bit).toModel.unpack = .finite .positive m e some_bit :=
  unpack_pack canonical most some_bit

theorem isInf_packed {m : Nat} {e : Int} (canonical : IsCanonical m e) (most : e ≤ 971)
    (some_bit : 0 < m) : (packed m e some_bit).isInf = false := by
  change UnpackedFloat.isInf (packed m e some_bit).toModel.unpack = false
  rw [unpack_packed canonical most some_bit]
  rfl

/-- A finite double is its magnitude with its sign. -/
theorem eq_packed (finite : kind x = .finite value) (some_bit : 0 < value.mantissa) :
    (if value.negative then -packed value.mantissa value.exponent some_bit
      else packed value.mantissa value.exponent some_bit) = x := by
  obtain ⟨canonical, most, _, unpacked⟩ := unpack_of_kind finite
  rw [assembled_of_pos some_bit] at unpacked
  have whole := pack_unpack_toModel x
  rw [unpacked] at whole
  cases negative : value.negative with
  | true =>
    rw [negative] at whole
    rw [if_pos rfl, ← whole]
    change Float.ofModel (.pack (UnpackedFloat.neg _)) = _
    rw [unpack_packed canonical most some_bit]
    rfl
  | false =>
    rw [negative] at whole
    exact whole

theorem eq_zero (finite : kind x = .finite value) (nothing : value.mantissa = 0) :
    (if value.negative then -0.0 else 0.0) = x := by
  obtain ⟨_, _, _, unpacked⟩ := unpack_of_kind finite
  have whole := pack_unpack_toModel x
  rw [← whole, unpacked, assembled, dif_pos nothing]
  cases value.negative <;> rfl

/-- A double that is a positive whole number, with all its bits. -/
def IsWorth (x : Float) (n : Nat) : Prop :=
  ∃ m e some_bit, x.toModel.unpack = .finite .positive m e some_bit ∧
    (2 ^ 52 ≤ m ∧ m < 2 ^ 53) ∧ (-52 ≤ e ∧ e ≤ 52) ∧ (m : ℚ) * 2 ^ e = n

section Arithmetic

variable {a b : Float} {m n k : Nat} {e t : Int} {s : Sign}

theorem inCell_self (m : Nat) (e : Int) : InCell m e (m * 2 ^ e) := by
  have unit_pos : (0 : ℚ) < 2 ^ e := zpow_pos two_pos _
  have half : 0 < halfBelow m e := by
    unfold halfBelow
    split <;> norm_num
  have below : (m - halfBelow m e) * 2 ^ e < m * 2 ^ e :=
    mul_lt_mul_of_pos_right (by linarith) unit_pos
  have above : (m : ℚ) * 2 ^ e < (m + 1 / 2) * 2 ^ e :=
    mul_lt_mul_of_pos_right (by linarith) unit_pos
  exact ⟨below.le, above.le, fun _ => ⟨below, above⟩⟩

theorem roundWithAccuracy_exact (canonical : IsCanonical m t) (some_bit : 0 < m)
    (cell : InCell m t (n * 2 ^ e)) (enough : 2 ^ 52 ≤ n) :
    roundWithAccuracy Format.binary64 s n e .exact = .finite s m t some_bit := by
  have value : (n : ℚ) * 2 ^ e = n / (1 : Nat) * 2 ^ e := by rw [Nat.cast_one, div_one]
  have rounded := roundWithAccuracy_of_inCell (s := s) canonical some_bit cell Nat.one_pos value
    (by rwa [Nat.div_one])
  rwa [Nat.div_one, Nat.mod_one] at rounded

/-- A product of whole numbers is rounded once. -/
theorem mul_eq_packed (first : IsWorth a n) (second : IsWorth b k) (canonical : IsCanonical m e)
    (some_bit : 0 < m) (cell : InCell m e (n * k)) : a * b = packed m e some_bit := by
  obtain ⟨ma, ea, pa, unpacked_a, ⟨low_a, _⟩, _, worth_a⟩ := first
  obtain ⟨mb, eb, pb, unpacked_b, ⟨low_b, _⟩, _, worth_b⟩ := second
  have product : (n : ℚ) * k = (ma * mb : Nat) * 2 ^ (ea + eb) := by
    rw [← worth_a, ← worth_b, zpow_add₀ two_ne_zero]
    push_cast
    ring
  rw [product] at cell
  change Float.ofModel (.pack (UnpackedFloat.mul Format.binary64 a.toModel.unpack
    b.toModel.unpack)) = _
  rw [unpacked_a, unpacked_b, UnpackedFloat.mul, roundWithAccuracy_exact canonical some_bit cell]
  · rfl
  · exact Nat.le_trans low_a (Nat.le_mul_of_pos_right _ pb)

/-- A quotient of whole numbers is rounded once. -/
theorem div_eq_packed (first : IsWorth a n) (second : IsWorth b k) (canonical : IsCanonical m e)
    (some_bit : 0 < m) (cell : InCell m e (n / k)) : a / b = packed m e some_bit := by
  obtain ⟨ma, ea, pa, unpacked_a, ⟨low_a, high_a⟩, bounds_a, worth_a⟩ := first
  obtain ⟨mb, eb, pb, unpacked_b, ⟨low_b, high_b⟩, bounds_b, worth_b⟩ := second
  have log_a : ma.log2 = 52 := (Nat.log2_eq_iff pa.ne').mpr ⟨low_a, high_a⟩
  have log_b : mb.log2 = 52 := (Nat.log2_eq_iff pb.ne').mpr ⟨low_b, high_b⟩
  -- Fifty-three more bits of the dividend leave the quotient all the bits that it needs.
  have target : min (ea - eb) (Format.binary64.targetExponent
      (totalExponent ma ea - totalExponent mb eb)) = ea - eb - 53 := by
    rw [targetExponent_def, totalExponent, totalExponent, log_a, log_b]
    omega
  have shift : (ea - eb - (ea - eb - 53)).toNat = 53 := by omega
  have enough : 2 ^ 52 ≤ ma * 2 ^ 53 / mb :=
    (Nat.le_div_iff_mul_le pb).mpr (Nat.mul_le_mul low_a high_b.le)
  have quotient : (n : ℚ) / k = (ma * 2 ^ 53 : Nat) / mb * 2 ^ (ea - eb - 53) := by
    have some_part : (mb : ℚ) ≠ 0 := Nat.cast_ne_zero.mpr pb.ne'
    rw [← worth_a, ← worth_b, zpow_sub₀ two_ne_zero, zpow_sub₀ two_ne_zero]
    have unit_ne : (2 : ℚ) ^ eb ≠ 0 := zpow_ne_zero _ two_ne_zero
    push_cast
    field_simp
  change Float.ofModel (.pack (UnpackedFloat.div Format.binary64 a.toModel.unpack
    b.toModel.unpack)) = _
  rw [unpacked_a, unpacked_b, UnpackedFloat.div, divCore]
  dsimp only
  rw [target, shift, Nat.shiftLeft_eq,
    roundWithAccuracy_of_inCell canonical some_bit cell pb quotient enough]
  rfl

/-- A whole number that is no longer than a mantissa, filled up to one. -/
theorem isCanonical_filled (positive : 0 < n) (small : n < 2 ^ 53) :
    IsCanonical (n * 2 ^ (52 - n.log2)) (n.log2 - 52) ∧ 2 ^ 52 ≤ n * 2 ^ (52 - n.log2) ∧
      ((n * 2 ^ (52 - n.log2) : Nat) : ℚ) * 2 ^ ((n.log2 : Int) - 52) = n := by
  have log : n.log2 < 53 := (Nat.log2_lt positive.ne').mpr small
  have parted : 2 ^ n.log2 * 2 ^ (52 - n.log2) = 2 ^ 52 := by
    rw [← pow_add]
    congr 1
    omega
  have least : 2 ^ 52 ≤ n * 2 ^ (52 - n.log2) :=
    parted ▸ Nat.mul_le_mul_right _ (Nat.log2_self_le positive.ne')
  have most : n * 2 ^ (52 - n.log2) < 2 ^ 53 := by
    have doubled : 2 ^ (n.log2 + 1) * 2 ^ (52 - n.log2) = 2 ^ 53 := by
      rw [pow_succ, Nat.mul_right_comm, parted]
      rfl
    exact doubled ▸ Nat.mul_lt_mul_of_pos_right Nat.lt_log2_self (Nat.two_pow_pos _)
  refine ⟨⟨most, by omega, .inl least⟩, least, ?_⟩
  have exponent : (n.log2 : Int) - 52 = -((52 - n.log2 : Nat) : Int) := by omega
  have unit_ne : (2 : ℚ) ^ (52 - n.log2) ≠ 0 := pow_ne_zero _ two_ne_zero
  rw [exponent, zpow_neg, zpow_natCast]
  push_cast
  field_simp

theorem isWorth_filled (positive : 0 < n) (small : n < 2 ^ 53)
    (some_bit : 0 < n * 2 ^ (52 - n.log2)) : IsWorth (packed _ (n.log2 - 52) some_bit) n := by
  obtain ⟨canonical, least, worth⟩ := isCanonical_filled positive small
  have log : n.log2 < 53 := (Nat.log2_lt positive.ne').mpr small
  exact ⟨_, _, some_bit, unpack_packed canonical (by omega) some_bit, ⟨least, canonical.small⟩,
    ⟨by omega, by omega⟩, worth⟩

theorem isWorth_toFloat (positive : 0 < n) (small : n < 2 ^ 53) : IsWorth n.toUInt64.toFloat n := by
  obtain ⟨canonical, least, worth⟩ := isCanonical_filled positive small
  have log : n.log2 < 53 := (Nat.log2_lt positive.ne').mpr small
  have some_bit : 0 < n * 2 ^ (52 - n.log2) := Nat.mul_pos positive (Nat.two_pow_pos _)
  have word : n.toUInt64.toNat = n := by
    rw [Nat.toUInt64_eq]
    exact UInt64.toNat_ofNat_of_lt (by rw [UInt64.size]; omega)
  have target : max ((n.log2 : Int) + 0 - 52) (-1074) = n.log2 - 52 := by omega
  have shift : (0 - ((n.log2 : Int) - 52)).toNat = 52 - n.log2 := by omega
  have exponent : (0 : Int) - (52 - n.log2 : Nat) = n.log2 - 52 := by omega
  have rounded : n.toUInt64.toFloat = packed _ (n.log2 - 52) some_bit := by
    change Float.ofModel (.pack (UnpackedFloat.normalize Format.binary64 n.toUInt64.toNat 0 _)) = _
    rw [word, UnpackedFloat.normalize, Int.compare_eq_gt.mpr (by omega)]
    dsimp only
    rw [Int.toNat_natCast, UnpackedFloat.round, targetExponent_eq, target, decreaseExponent, shift]
    dsimp only
    rw [exponent, Nat.shiftLeft_eq,
      roundWithAccuracy_exact canonical some_bit (inCell_self _ _) least]
    rfl
  exact rounded ▸ isWorth_filled positive small some_bit

theorem isWorth_of_kind (finite : kind x = .finite value) (positive : value.negative = false)
    (least : 2 ^ 52 ≤ value.mantissa) (bounds : -52 ≤ value.exponent ∧ value.exponent ≤ 52)
    (worth : (value.mantissa : ℚ) * 2 ^ value.exponent = n) : IsWorth x n := by
  obtain ⟨canonical, _, _, unpacked⟩ := unpack_of_kind finite
  have some_bit : 0 < value.mantissa := by omega
  rw [positive, assembled_of_pos some_bit] at unpacked
  exact ⟨_, _, some_bit, unpacked, ⟨least, canonical.small⟩, bounds, worth⟩

/-- A whole number with no more bits than a mantissa is a double. -/
theorem isWorth_ofNat (positive : 0 < n) (small : n < 2 ^ 53) : IsWorth (Float.ofNat n) n := by
  obtain ⟨canonical, _, worth⟩ := isCanonical_filled positive small
  have some_bit : 0 < n * 2 ^ (52 - n.log2) := Nat.mul_pos positive (Nat.two_pow_pos _)
  have kind_one : kind (Float.ofBits 0x3FF0000000000000) = .finite ⟨false, 2 ^ 52, -52, true⟩ := rfl
  have one : IsWorth (Float.ofBits 0x3FF0000000000000) 1 :=
    isWorth_of_kind kind_one rfl (Nat.le_refl _) (by decide) (by norm_num)
  have cell : InCell (n * 2 ^ (52 - n.log2)) (n.log2 - 52) (n * (1 : Nat)) := by
    rw [Nat.cast_one, mul_one, ← worth]
    exact inCell_self _ _
  -- The conversion multiplies by the first power of ten.
  have as_product : Float.ofNat n = n.toUInt64.toFloat * Float.ofBits 0x3FF0000000000000 := by
    change Float.ofScientific n false 0 = _
    rw [Float.ofScientific, dif_pos ⟨small, by decide⟩]
    rfl
  rw [as_product, mul_eq_packed (isWorth_toFloat positive small) one canonical some_bit cell]
  exact isWorth_filled positive small some_bit

end Arithmetic

end LayerTiming.Number
