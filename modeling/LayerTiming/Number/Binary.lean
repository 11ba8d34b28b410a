/-!
# Binary fractions

A finite double is a sign and a magnitude `mantissa · 2 ^ exponent`. Everything that is printed of a
double, and every rounding to a whole number, is computed on these exact parts and not on doubles.
-/
namespace LayerTiming.Number

/-- The exact value of a finite double. -/
structure Binary where
  negative : Bool
  mantissa : Nat
  exponent : Int
  /-- Whether the gap to the next smaller magnitude is half the gap to the next greater one. -/
  narrowBelow : Bool
  deriving DecidableEq, Repr, Inhabited

/-- What a double is. -/
inductive Kind
  | nan
  | infinite (negative : Bool)
  | finite (value : Binary)
  deriving DecidableEq, Repr, Inhabited

/-- The value of the bit that holds the sign. -/
def signBit : Nat := Nat.pow 2 63

/-- The value of the leading bit of a mantissa, which is not stored. -/
def hiddenBit : Nat := Nat.pow 2 52

/-- The kind of a bit pattern: one bit of sign, eleven of exponent, fifty-two of fraction. -/
def Kind.ofBits (bits : Nat) : Kind :=
  let negative := decide (bits / signBit % 2 = 1)
  let exponent := bits / hiddenBit % 2048
  let fraction := bits % hiddenBit
  if exponent = 2047 then
    if fraction = 0 then .infinite negative else .nan
  else if exponent = 0 then .finite ⟨negative, fraction, -1074, false⟩
  else
    .finite
      ⟨negative, hiddenBit + fraction, (exponent : Int) - 1075, fraction == 0 && exponent > 1⟩

def kind (x : Float) : Kind := Kind.ofBits x.toBits.toNat

/-- Where a value goes that lies halfway between its neighbours. -/
inductive Tie
  | toEven
  | up
  deriving DecidableEq, Repr

/-- A quotient rounded to the nearest whole number. -/
def roundQuotient (tie : Tie) (numerator denominator : Nat) : Nat :=
  let quotient := numerator / denominator
  match compare (2 * (numerator % denominator)) denominator with
  | .lt => quotient
  | .gt => quotient + 1
  | .eq =>
    match tie with
    | .up => quotient + 1
    | .toEven => if quotient % 2 = 0 then quotient else quotient + 1

namespace Binary

/-- The magnitude times a power of ten, rounded to a whole number. -/
def scaled (value : Binary) (tie : Tie) (places : Nat) : Nat :=
  roundQuotient tie (value.mantissa * Nat.pow 10 places * Nat.pow 2 value.exponent.toNat)
    (Nat.pow 2 (-value.exponent).toNat)

/-- The magnitude rounded to a whole number. -/
def nearest (value : Binary) (tie : Tie) : Nat := value.scaled tie 0

/-- Whether the magnitude is a whole number. -/
def isWhole (value : Binary) : Bool :=
  value.mantissa * Nat.pow 2 value.exponent.toNat % Nat.pow 2 (-value.exponent).toNat == 0

end Binary

/-- A double rounded to a whole double, halves to the even neighbour. The sign is kept, also of
zero; what is not finite stays. -/
def roundEven (x : Float) : Float :=
  match kind x with
  | .finite value =>
    let rounded := Float.ofNat (value.nearest .toEven)
    if value.negative then -rounded else rounded
  | _ => x

/-- The greatest counter value. -/
def greatestCounter : Nat := Nat.pow 2 64 - 1

/-- A double rounded to a counter value, halves away from zero. What lies below zero and what is no
number gives zero; what lies past the counters gives the greatest counter value. -/
def toCounter (x : Float) : Nat :=
  match kind x with
  | .nan => 0
  | .infinite negative => if negative then 0 else greatestCounter
  | .finite value => if value.negative then 0 else min (value.nearest .up) greatestCounter

/-- The sum of doubles from left to right, begun with the negative zero, which every double leaves
as it is when it is added. -/
def sum (values : List Float) : Float := values.foldl (· + ·) (-0.0)

end LayerTiming.Number
