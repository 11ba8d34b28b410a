import LayerTiming.Number.Decimal

/-!
# Numbers of documents

A number as it is written: a sign, digits before and after a point, and an exponent. What a number
is worth depends on who reads it. As a counter it must be a plain numeral. As a double its digits
are taken up into a significand of sixty-four bits, which is then scaled by one power of ten.
-/
namespace LayerTiming.Json
open Number Text

/-- A number as it is written. No digits after the point means that there is no point. -/
structure Scientific where
  negative : Bool := false
  whole : List Char
  fraction : List Char := []
  exponent : Option Int := none
  deriving DecidableEq, Repr, Inhabited

namespace Scientific

/-- An exponent with its sign, which is always written. -/
def exponentText (n : Int) : List Char := (if n < 0 then '-' else '+') :: numeral n.natAbs

def write (number : Scientific) : List Char :=
  signed number.negative (number.whole
    ++ (if number.fraction = [] then [] else '.' :: number.fraction)
    ++ match number.exponent with
      | none => []
      | some exponent => 'e' :: exponentText exponent)

def splitSign : List Char → Bool × List Char
  | '-' :: rest => (true, rest)
  | text => (false, text)

/-- Read the exponent of a number: a sign is optional, a digit is not. -/
def readExponent? : List Char → Option Int
  | '+' :: digits => (readNumeral? digits).map fun n => (n : Int)
  | '-' :: digits => (readNumeral? digits).map fun n => -(n : Int)
  | digits => (readNumeral? digits).map fun n => (n : Int)

/-- Read what follows the fraction of a number. -/
def readTail? : List Char → Option (Option Int)
  | [] => some none
  | c :: rest => if c = 'e' ∨ c = 'E' then (readExponent? rest).map some else none

/-- Whether digits may stand before the point: at least one, and no zero in front of others. -/
def isWhole : List Char → Bool
  | [] => false
  | ['0'] => true
  | '0' :: _ => false
  | _ => true

def read? (text : List Char) : Option Scientific :=
  let (negative, body) := splitSign text
  let whole := body.takeWhile isAsciiDigit
  if isWhole whole then
    match body.dropWhile isAsciiDigit with
    | '.' :: rest =>
      let fraction := rest.takeWhile isAsciiDigit
      if fraction = [] then none
      else (readTail? (rest.dropWhile isAsciiDigit)).map fun exponent =>
        { negative, whole, fraction, exponent }
    | rest => (readTail? rest).map fun exponent => { negative, whole, exponent }
  else none

def ofNat (n : Nat) : Scientific where
  whole := numeral n

/-- The counter value of a number without sign, point and exponent. -/
def counter? (number : Scientific) : Option Nat :=
  match number with
  | ⟨false, whole, [], none⟩ =>
    let n := digitsValue whole
    if n < wordLimit then some n else none
  | _ => none

/-- Take digits up into a significand until the next one would not fit. Gives the significand and
the digits that are left. -/
def takeUp (significand : Nat) : List Char → Nat × List Char
  | [] => (significand, [])
  | c :: rest =>
    let next := significand * 10 + digitValue c
    if next < wordLimit then takeUp next rest else (significand, c :: rest)

/-- The significand of a number and the exponent of its power of ten. Digits before the point that
do not fit raise the exponent; digits after it that do not fit are left out. -/
def parts (number : Scientific) : Nat × Int :=
  let (leading, wholeLeft) := takeUp 0 number.whole
  let (significand, fractionLeft) := takeUp leading number.fraction
  (significand, (wholeLeft.length : Int) - (number.fraction.length - fractionLeft.length : Nat)
    + number.exponent.getD 0)

/-- A power of ten as the nearest double. -/
def tenTo (exponent : Nat) : Float := Float.ofScientific 1 false exponent

/-- The greatest power of ten that is a double. -/
def greatestPower : Nat := 308

/-- Divide by a power of ten, in steps of the greatest power. Two such steps bring every
significand to zero, so no more are taken. -/
def shrink (x : Float) (exponent : Nat) : Float :=
  let steps := (exponent - 1) / greatestPower
  Nat.repeat (· / tenTo greatestPower) (min steps 2) x
    / tenTo (exponent - steps * greatestPower)

/-- Multiply by a power of ten. There is no result past the doubles. -/
def scale? (x : Float) (exponent : Int) : Option Float :=
  if exponent < 0 then some (shrink x exponent.natAbs)
  else if exponent ≤ greatestPower then
    let scaled := x * tenTo exponent.toNat
    if scaled.isInf then none else some scaled
  else if x == 0.0 then some x else none

/-- The greatest exponent that may be written. -/
def greatestExponent : Nat := Nat.pow 2 31 - 1

/-- The magnitude of a number as a double. A written exponent past the greatest one leaves no value
unless the number is zero, and one past its negative leaves zero. -/
def magnitude? (number : Scientific) : Option Float :=
  let (significand, exponent) := number.parts
  let written := number.exponent.getD 0
  if written.natAbs > greatestExponent then
    if written > 0 ∧ significand ≠ 0 then none else some 0.0
  else scale? (Float.ofNat significand) exponent

/-- The value of a number as a double, if it has one. -/
def float? (number : Scientific) : Option Float :=
  number.magnitude?.map fun x => if number.negative then -x else x

/-- The number of a finite double: the fewest digits that read back, of two equally near choices the
even one. From `10 ^ -5` up to `10 ^ 16` it has a point and no exponent. -/
def ofBinary (value : Binary) : Scientific :=
  let shortest := value.shortest .toEven
  let digits := numeral shortest.digits
  let point : Int := digits.length + shortest.exponent
  let negative := value.negative
  if shortest.digits = 0 then { negative, whole := ['0'], fraction := ['0'] }
  else if 0 ≤ shortest.exponent ∧ point ≤ 16 then
    { negative, whole := digits ++ List.replicate shortest.exponent.toNat '0', fraction := ['0'] }
  else if 0 < point ∧ point ≤ 16 then
    { negative, whole := digits.take point.toNat, fraction := digits.drop point.toNat }
  else if -5 < point ∧ point ≤ 0 then
    { negative, whole := ['0'], fraction := List.replicate (-point).toNat '0' ++ digits }
  else { negative, whole := digits.take 1, fraction := digits.drop 1, exponent := some (point - 1) }

end Scientific
end LayerTiming.Json
