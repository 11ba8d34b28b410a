import Mathlib
import LayerTiming.Proofs.Number.Counters
import LayerTiming.Proofs.Number.Texts
import LayerTiming.Proofs.Number.Values
import LayerTiming.Proofs.Text.Cutting
import LayerTiming.Proofs.Text.Digits

/-!
# Printed numbers read back

A text with digits and perhaps a point is read as the rational that it stands for. The text of a
finite double with a fixed number of places is read as a nearest multiple of its last place, so it
is exact for a double that is such a multiple itself.
-/
namespace LayerTiming.Number
open Text

/-- The rational of a text without a sign: digits, and digits behind a point if there is one. -/
def readUnsigned? (text : List Char) : Option ℚ :=
  match pieces '.' text with
  | [whole] => (readNumeral? whole).bind fun n => some (n : ℚ)
  | [whole, fraction] =>
    (readNumeral? whole).bind fun n => (readNumeral? fraction).bind fun k =>
      some (n + k / 10 ^ fraction.length)
  | _ => none

/-- The rational of a text in decimal notation. -/
def readDecimal? : List Char → Option ℚ
  | '-' :: text => (readUnsigned? text).bind fun q => some (-q)
  | text => readUnsigned? text

/-- A number and a nearest multiple of a decimal place. -/
def PrintsAs (places : Nat) (v r : ℚ) : Prop :=
  ∃ n : Int, r = n / 10 ^ places ∧ |v * 10 ^ places - n| ≤ 1 / 2

namespace PrintsAs
variable {places : Nat} {v r : ℚ}

theorem abs_sub_le (printed : PrintsAs places v r) : |v - r| ≤ 1 / (2 * 10 ^ places) := by
  obtain ⟨n, rfl, half⟩ := printed
  have unit_pos : (0 : ℚ) < 10 ^ places := by positivity
  rw [show v - n / 10 ^ places = (v * 10 ^ places - n) / 10 ^ places by field_simp, abs_div,
    abs_of_pos unit_pos, ← div_div]
  exact div_le_div_of_nonneg_right half unit_pos.le

theorem nonneg (printed : PrintsAs places v r) (above : 0 ≤ v) : 0 ≤ r := by
  obtain ⟨n, rfl, half⟩ := printed
  have scaled : 0 ≤ v * 10 ^ places := by positivity
  have whole : (0 : ℚ) < (n + 1 : Int) := by
    push_cast
    linarith [(abs_le.mp half).2]
  have least : 0 ≤ n := Int.lt_add_one_iff.mp (by exact_mod_cast whole)
  have least : (0 : ℚ) ≤ n := by exact_mod_cast least
  positivity

theorem neg (printed : PrintsAs places v r) : PrintsAs places (-v) (-r) := by
  obtain ⟨n, rfl, half⟩ := printed
  refine ⟨-n, by push_cast; ring, ?_⟩
  rwa [show -v * 10 ^ places - ((-n : Int) : ℚ) = -(v * 10 ^ places - n) by push_cast; ring, abs_neg]

/-- A multiple of the place is printed as it is. -/
theorem eq (printed : PrintsAs places v r) {k : Int} (multiple : v * 10 ^ places = k) : r = v := by
  obtain ⟨n, rfl, half⟩ := printed
  have unit_ne : (10 : ℚ) ^ places ≠ 0 := by positivity
  rw [multiple] at half
  rw [div_eq_iff unit_ne, multiple, eq_of_half half]

end PrintsAs

/-! ### Reading -/

theorem readUnsigned?_numeral (n : Nat) : readUnsigned? (numeral n) = some (n : ℚ) := by
  have free : '.' ∉ numeral n := not_mem_numeral n '.' (by decide)
  rw [readUnsigned?, pieces_eq_singleton _ _ free]
  dsimp only
  rw [readNumeral?_numeral, Option.bind_some]

theorem readUnsigned?_pointed (n places : Nat) :
    readUnsigned? (pointed n places) = some (n / 10 ^ places : ℚ) := by
  by_cases some_place : places = 0
  · rw [some_place, pointed_zero, readUnsigned?_numeral, pow_zero, div_one]
  · obtain ⟨whole, fraction, text, some_digit, length, latin, value⟩ :=
      pointed_eq_append n some_place
    obtain ⟨latin_whole, latin_fraction⟩ := List.forall_mem_append.mp latin
    have free {digits : List Char} (latin : ∀ c ∈ digits, isAsciiDigit c = true) : '.' ∉ digits :=
      fun member => absurd (latin '.' member) (by decide)
    have some_digit' : fraction ≠ [] := by
      rintro rfl
      exact some_place length.symm
    rw [text, readUnsigned?, pieces_append_cons, pieces_eq_singleton _ _ (free latin_whole),
      pieces_eq_singleton _ _ (free latin_fraction), List.singleton_append]
    dsimp only
    rw [readNumeral?_digits some_digit latin_whole,
      readNumeral?_digits some_digit' latin_fraction, Option.bind_some, Option.bind_some,
      ← value, digitsValue_append, length]
    have unit_ne : (10 : ℚ) ^ places ≠ 0 := by positivity
    push_cast
    rw [add_div, mul_div_cancel_right₀ _ unit_ne]

theorem readDecimal?_of_digit {text : List Char} {c : Char} {rest : List Char}
    (begins : text = c :: rest) (digit : isAsciiDigit c = true) :
    readDecimal? text = readUnsigned? text := by
  have unsigned : c ≠ '-' := by
    rintro rfl
    cases digit
  subst begins
  unfold readDecimal?
  split
  · simp_all
  · rfl

theorem readDecimal?_numeral (n : Nat) : readDecimal? (numeral n) = some (n : ℚ) := by
  obtain ⟨c, rest, begins, digit⟩ := exists_numeral_eq_cons n
  rw [readDecimal?_of_digit begins digit, readUnsigned?_numeral]

theorem readDecimal?_pointed (n places : Nat) :
    readDecimal? (pointed n places) = some (n / 10 ^ places : ℚ) := by
  rw [← readUnsigned?_pointed]
  by_cases some_place : places = 0
  · obtain ⟨c, rest, begins, digit⟩ := exists_numeral_eq_cons n
    rw [some_place, pointed_zero]
    exact readDecimal?_of_digit begins digit
  · obtain ⟨whole, fraction, text, some_digit, _, latin, _⟩ := pointed_eq_append n some_place
    obtain ⟨c, rest, rfl⟩ := List.exists_cons_of_ne_nil some_digit
    exact readDecimal?_of_digit text (latin c List.mem_cons_self)

/-- The sign in front of a text is the minus of what is read. -/
theorem readDecimal?_signed_pointed (negative : Bool) (n places : Nat) :
    readDecimal? (signed negative (pointed n places)) =
      some (worth (signOf negative) (n / 10 ^ places)) := by
  cases negative with
  | true =>
    change (readUnsigned? (pointed n places)).bind _ = _
    rw [readUnsigned?_pointed, Option.bind_some]
    rfl
  | false => exact readDecimal?_pointed n places

/-- The magnitude in units of the last place, and the whole number that is printed. -/
theorem Binary.abs_scaled (value : Binary) (tie : Tie) (places : Nat) :
    |value.magnitude * 10 ^ places - value.scaled tie places| ≤ 1 / 2 := by
  have half := abs_roundQuotient tie (n := value.mantissa * 10 ^ places * 2 ^ value.exponent.toNat)
    (Nat.two_pow_pos (-value.exponent).toNat)
  have quotient : value.magnitude * 10 ^ places =
      ((value.mantissa * 10 ^ places * 2 ^ value.exponent.toNat : Nat) : ℚ) /
        (2 ^ (-value.exponent).toNat : Nat) := by
    rw [value.magnitude_eq_div]
    push_cast
    ring
  rwa [← quotient] at half

/-- A double with a fixed number of places is read as what it is printed as. -/
theorem readDecimal?_fixed {x : Float} {v : ℚ} (places : Nat) (holds : Denotes x v) :
    ∃ r, readDecimal? (fixed places x) = some r ∧ PrintsAs places v r := by
  obtain ⟨s, q, magnitude, rfl⟩ := holds
  obtain ⟨value, finite, rfl, rfl⟩ := magnitude.kind
  have printed : PrintsAs places value.magnitude (value.scaled .toEven places / 10 ^ places) :=
    ⟨value.scaled .toEven places, by rw [Int.cast_natCast], by
      rw [Int.cast_natCast]; exact value.abs_scaled .toEven places⟩
  have text : fixed places x =
      signed value.negative (pointed (value.scaled .toEven places) places) := by
    rw [fixed, finite]
  rw [text, readDecimal?_signed_pointed]
  refine ⟨_, rfl, ?_⟩
  cases value.negative with
  | true => exact printed.neg
  | false => exact printed

end LayerTiming.Number
