import LayerTiming.Number.Binary
import LayerTiming.Text.Numeral

/-!
# Decimal text of doubles

Two ways to write a double. With a fixed number of places, its exact value is rounded, halves to the
even neighbour. Otherwise the fewest digits are chosen that still read back to the same double, and
of those the ones nearest to it.
-/
namespace LayerTiming.Number
open Text

/-- The value `digits · 10 ^ exponent`. -/
structure Decimal where
  digits : Nat
  exponent : Int
  deriving DecidableEq, Repr, Inhabited

/-- Compare `a · 10 ^ i` with `b · 2 ^ j`. -/
def compareScaled (a : Nat) (i : Int) (b : Nat) (j : Int) : Ordering :=
  compare (a * Nat.pow 10 i.toNat * Nat.pow 2 (-j).toNat)
    (b * Nat.pow 2 j.toNat * Nat.pow 10 (-i).toNat)

namespace Binary

/-- The exact decimal value of the magnitude. -/
def exact (value : Binary) : Decimal :=
  { digits := value.mantissa * Nat.pow 2 value.exponent.toNat * Nat.pow 5 (-value.exponent).toNat
    exponent := min value.exponent 0 }

/-- Whether a decimal lies among the reals that round to the magnitude: not past halfway to either
neighbour, and halfway itself only where the mantissa is even. -/
def readsBack (value : Binary) (decimal : Decimal) : Bool :=
  let low := if value.narrowBelow then 4 * value.mantissa - 1 else 4 * value.mantissa - 2
  let high := 4 * value.mantissa + 2
  let even := value.mantissa % 2 == 0
  let toLow := compareScaled decimal.digits decimal.exponent low (value.exponent - 2)
  let toHigh := compareScaled decimal.digits decimal.exponent high (value.exponent - 2)
  (toLow == .gt || even && toLow == .eq) && (toHigh == .lt || even && toHigh == .eq)

/-- The better of the two neighbours of the magnitude among the decimals with `count` leading
digits, if either reads back. -/
def candidate? (value : Binary) (tie : Tie) (count : Nat) : Option Decimal :=
  let exact := value.exact
  let length := (numeral exact.digits).length
  if length ≤ count then some exact
  else
    let unit := Nat.pow 10 (length - count)
    let exponent := exact.exponent + (length - count : Nat)
    let below : Decimal := ⟨exact.digits / unit, exponent⟩
    let above : Decimal := ⟨exact.digits / unit + 1, exponent⟩
    match value.readsBack below, value.readsBack above with
    | false, false => none
    | true, false => some below
    | false, true => some above
    | true, true => some ⟨roundQuotient tie exact.digits unit, exponent⟩

end Binary

/-- Move the zeros at the end of the digits into the exponent, as far as the fuel reaches. -/
def Decimal.stripZeros : Nat → Decimal → Decimal
  | 0, decimal => decimal
  | fuel + 1, decimal =>
    if decimal.digits ≠ 0 ∧ decimal.digits % 10 = 0 then
      stripZeros fuel ⟨decimal.digits / 10, decimal.exponent + 1⟩
    else decimal

/-- The shortest decimal that reads back to the magnitude, without zeros at the end. Seventeen
digits always suffice; if they did not, the exact value would be given. -/
def Binary.shortest (value : Binary) (tie : Tie) : Decimal :=
  if value.mantissa = 0 then ⟨0, 0⟩
  else
    let found := ((List.range 17).findSome? fun n => value.candidate? tie (n + 1)).getD value.exact
    found.stripZeros (numeral found.digits).length

/-- A sign in front of the text of a magnitude. -/
def signed (negative : Bool) (text : List Char) : List Char :=
  if negative then '-' :: text else text

/-- The digits of a number with a point before the last `places` of them, and zeros in front as
needed for at least one digit before the point. -/
def pointed (n places : Nat) : List Char :=
  let digits := numeral n
  let padded := List.replicate (places + 1 - digits.length) '0' ++ digits
  let whole := padded.take (padded.length - places)
  if places = 0 then whole else whole ++ '.' :: padded.drop (padded.length - places)

/-- The text of a double with a fixed number of places. -/
def fixed (places : Nat) (x : Float) : List Char :=
  match kind x with
  | .nan => "NaN".toList
  | .infinite negative => signed negative "inf".toList
  | .finite value => signed value.negative (pointed (value.scaled .toEven places) places)

/-- A decimal written out without an exponent. -/
def Decimal.positional (decimal : Decimal) : List Char :=
  if decimal.exponent ≥ 0 then
    numeral decimal.digits ++ List.replicate decimal.exponent.toNat '0'
  else pointed decimal.digits (-decimal.exponent).toNat

/-- The shortest text of a double that reads back, without an exponent. Of two equally near decimals
the greater is taken. -/
def plain (x : Float) : List Char :=
  match kind x with
  | .nan => "NaN".toList
  | .infinite negative => signed negative "inf".toList
  | .finite value => signed value.negative (value.shortest .up).positional

end LayerTiming.Number
