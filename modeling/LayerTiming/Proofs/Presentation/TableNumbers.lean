import LayerTiming.Presentation.Table
import LayerTiming.Proofs.Number.Decimals
import LayerTiming.Proofs.Number.HalfEven

/-!
# Numbers in the cells of the layer table

A finite double is written in two ways: as a nearest whole number, of which nothing below zero is
shown, and as a decimal with a point that reads back to the double. Either way the cell is right as
a number, however great or little the double is.

## Main result

`cells_of_double`: this holds for every finite double, and one that was rounded before is written as
the same whole number.
-/
namespace LayerTiming
open Number Text

namespace Number.Binary
variable {value : Binary}

/-- What a finite double is worth, with its sign. -/
def number (value : Binary) : ℚ := worth (signOf value.negative) value.magnitude

theorem magnitude_nonneg (value : Binary) : 0 ≤ value.magnitude := by
  unfold magnitude
  positivity

theorem isWhole_iff : value.isWhole = true ↔ IsWhole value.magnitude := by
  have part_ne : ((2 ^ (-value.exponent).toNat : Nat) : ℚ) ≠ 0 := by positivity
  simp only [isWhole, Nat.pow_eq, beq_iff_eq, ← Nat.dvd_iff_mod_eq_zero, magnitude_eq_div]
  generalize value.mantissa * 2 ^ value.exponent.toNat = n at *
  generalize 2 ^ (-value.exponent).toNat = d at *
  constructor
  · rintro ⟨k, rfl⟩
    exact ⟨k, by push_cast; field_simp⟩
  · rintro ⟨k, same⟩
    rw [div_eq_iff part_ne] at same
    have multiple : (n : Int) = k * d := by exact_mod_cast same
    exact Int.natCast_dvd_natCast.mp ⟨k, by rw [multiple, Int.mul_comm]⟩

theorem mantissa_pos_of_fraction (part : ¬ IsWhole value.magnitude) : 0 < value.mantissa := by
  refine Nat.pos_of_ne_zero fun nothing => part ⟨0, ?_⟩
  rw [magnitude, nothing, Nat.cast_zero, zero_mul, Int.cast_zero]

/-- The decimal that is chosen for a double with a fraction has digits behind the point: a whole
number in the cell of the double would be a double itself. -/
theorem exponent_shortest_neg (canonical : IsCanonical value.mantissa value.exponent)
    (gapped : value.IsGapped) (part : ¬ IsWhole value.magnitude) (tie : Tie) :
    (value.shortest tie).exponent < 0 := by
  have some_bit := mantissa_pos_of_fraction part
  have negative : value.exponent < 0 := by
    by_contra whole
    obtain ⟨k, exponent⟩ := Int.eq_ofNat_of_zero_le (not_lt.mp whole)
    exact part ⟨value.mantissa * 2 ^ k, by rw [magnitude, exponent, zpow_natCast]; push_cast; rfl⟩
  by_contra whole
  obtain ⟨k, exponent⟩ := Int.eq_ofNat_of_zero_le (not_lt.mp whole)
  have chosen : (value.shortest tie).value = ((value.shortest tie).digits * 10 ^ k : Nat) := by
    rw [Decimal.value, exponent, zpow_natCast]
    push_cast
    rfl
  have cell := inCell_shortest some_bit gapped tie
  rw [chosen] at cell
  exact part ⟨_, (cell.eq_natCast canonical some_bit negative).trans (Int.cast_natCast _).symm⟩

end Number.Binary

namespace TableRow
variable {x : Float} {value : Binary}

/-- A cell that holds a nearest whole number of a value: its numeral without a zero in front, or
zero in the place of what is not positive. -/
structure TellsCount (cell : List Char) (v : ℚ) (n : Int) : Prop where
  rounds : RoundsHalfEven IsWhole (Even n) v n
  numeral : 0 < n → IsNumeral cell n.toNat ∧ cell.head? ≠ some '0'
  zero : n ≤ 0 → cell = ['0']

/-- A cell that holds a decimal of a double: a minus for a negative one, digits, a point and digits,
which are rounded to the double. -/
structure TellsDecimal (cell : List Char) (value : Binary) : Prop where
  shape : ∃ whole fraction, cell = signed value.negative (whole ++ '.' :: fraction) ∧
    (whole ≠ [] ∧ ∀ c ∈ whole, '0' ≤ c ∧ c ≤ '9') ∧
    (fraction ≠ [] ∧ ∀ c ∈ fraction, '0' ≤ c ∧ c ≤ '9')
  rounds : ∃ r, readDecimal? cell = some r ∧
    RoundsHalfEven IsDouble (Even value.mantissa) r value.number

theorem tellsCount (finite : kind x = .finite value) :
    ∃ n, TellsCount (count x) value.number n := by
  obtain ⟨canonical, _⟩ := unpack_of_kind finite
  have rounds := (value.roundsHalfEven_nearest canonical.small).worth IsWhole.neg
    (signOf value.negative)
  have text : count x = if value.negative then ['0'] else Text.numeral (value.nearest .toEven) := by
    rw [count, finite]
  rw [Binary.number, text]
  generalize value.nearest .toEven = k at rounds ⊢
  generalize value.negative = negative at rounds ⊢
  cases negative with
  | true =>
    -- The nearest number is not positive, also if the double is the zero with a sign.
    have negated : worth (signOf true) (k : ℚ) = (-k : Int) := by
      push_cast
      rfl
    refine ⟨-k, ?_, fun above => absurd above (by omega), fun _ => rfl⟩
    rw [← negated]
    exact rounds.imp fun even => by simpa using even
  | false =>
    have same : worth (signOf false) (k : ℚ) = (k : Int) := rfl
    refine ⟨k, ?_, fun above => ⟨?_, ?_⟩, fun below => ?_⟩
    · rw [← same]
      exact rounds.imp fun even => by simpa using even
    · exact isNumeral_numeral k
    · obtain ⟨c, rest, shape, leading⟩ := head?_numeral (n := k) (by omega)
      rw [if_neg Bool.false_ne_true, shape]
      simpa using leading
    · obtain rfl : k = 0 := by omega
      rfl

theorem count_roundEven (finite : kind x = .finite value) : count (roundEven x) = count x := by
  obtain ⟨rounded, whole, sign, magnitude⟩ := (isMagnitude_roundEven finite).kind
  have small := (unpack_of_kind whole).1.small
  have same : rounded.nearest .toEven = value.nearest .toEven :=
    Binary.nearest_of_natCast small magnitude.symm .toEven
  have same_sign : rounded.negative = value.negative := by
    cases first : rounded.negative <;> cases second : value.negative <;>
      simp_all [signOf]
  rw [count, whole, count, finite]
  simp only [same, same_sign]

/-- A double is written with as many places as there are digits in the decimal that is chosen for
it, and with one if it is whole. -/
theorem exists_decimal_eq (finite : kind x = .finite value) :
    ∃ n places, places ≠ 0 ∧ decimal x = signed value.negative (pointed n places) ∧
      RoundsHalfEven IsDouble (Even value.mantissa) (n / 10 ^ places) value.magnitude := by
  obtain ⟨canonical, _, gapped, _⟩ := unpack_of_kind finite
  cases whole : value.isWhole with
  | true =>
    -- A whole number is its own text in tenths.
    obtain ⟨k, magnitude⟩ := Binary.isWhole_iff.mp whole
    have tenths := value.abs_scaled .toEven 1
    rw [magnitude, pow_one] at tenths
    have exact : k * 10 = (value.scaled .toEven 1 : Int) := eq_of_half (by exact_mod_cast tenths)
    refine ⟨value.scaled .toEven 1, 1, one_ne_zero, ?_, ?_⟩
    · rw [decimal, finite, fixed, finite]
      simp only [whole, if_true]
    · have read : (value.scaled .toEven 1 : ℚ) / 10 ^ 1 = value.magnitude := by
        rw [magnitude, pow_one, div_eq_iff (by norm_num)]
        exact_mod_cast exact.symm
      have double : IsDouble value.magnitude := by
        rw [IsDouble, abs_of_nonneg value.magnitude_nonneg]
        exact canonical.isRepresentable
      rw [read]
      exact .of_exact _ double
  | false =>
    have part : ¬ IsWhole value.magnitude := fun integral => by
      rw [Binary.isWhole_iff.mpr integral] at whole
      cases whole
    -- The decimal that is chosen has places behind the point, and they are those that are written.
    have some_bit := Binary.mantissa_pos_of_fraction part
    have exponent := Binary.exponent_shortest_neg canonical gapped part .up
    refine ⟨(value.shortest .up).digits, (-(value.shortest .up).exponent).toNat, by omega, ?_, ?_⟩
    · rw [decimal, finite, plain, finite]
      simp only [whole, Decimal.positional, if_neg (not_le.mpr exponent), Bool.false_eq_true, if_false]
    · have read : ((value.shortest .up).digits : ℚ) / 10 ^ (-(value.shortest .up).exponent).toNat =
          (value.shortest .up).value := by
        rw [Decimal.value, div_eq_mul_inv, ← zpow_natCast, ← zpow_neg]
        congr 2
        omega
      rw [read]
      exact (Binary.inCell_shortest some_bit gapped .up).roundsHalfEven canonical some_bit

theorem tellsDecimal (finite : kind x = .finite value) : TellsDecimal (decimal x) value := by
  obtain ⟨n, places, some_place, text, rounds⟩ := exists_decimal_eq finite
  constructor
  case shape =>
    obtain ⟨whole, fraction, parts, some_digit, length, latin, _⟩ := pointed_eq_append n some_place
    obtain ⟨latin_whole, latin_fraction⟩ := List.forall_mem_append.mp latin
    have some_digit' : fraction ≠ [] := by
      rintro rfl
      exact some_place length.symm
    have digit (c : Char) (latin : isAsciiDigit c = true) : '0' ≤ c ∧ c ≤ '9' := by
      simpa [isAsciiDigit] using latin
    exact ⟨whole, fraction, text.trans (congrArg _ parts),
      ⟨some_digit, fun c member => digit c (latin_whole c member)⟩,
      ⟨some_digit', fun c member => digit c (latin_fraction c member)⟩⟩
  case rounds =>
    rw [text, readDecimal?_signed_pointed]
    exact ⟨_, rfl, rounds.worth IsDouble.neg _⟩

/-- Whatever finite double is written, its cells are right. -/
theorem cells_of_double {x : Float} {value : Binary} (finite : kind x = .finite value) :
    (∃ n, TellsCount (count x) value.number n) ∧ count (roundEven x) = count x ∧
      TellsDecimal (decimal x) value :=
  ⟨tellsCount finite, count_roundEven finite, tellsDecimal finite⟩

/-- A half above an even number. -/
theorem cells_of_half :
    kind 2.5 = .finite ⟨false, 5 * 2 ^ 50, -51, false⟩ ∧
      (∃ n, TellsCount (count 2.5) (Binary.number ⟨false, 5 * 2 ^ 50, -51, false⟩) n) ∧
      count (roundEven 2.5) = count 2.5 ∧
      TellsDecimal (decimal 2.5) ⟨false, 5 * 2 ^ 50, -51, false⟩ := by
  have finite : kind 2.5 = .finite ⟨false, 5 * 2 ^ 50, -51, false⟩ := rfl
  exact ⟨finite, cells_of_double finite⟩

end TableRow

end LayerTiming
