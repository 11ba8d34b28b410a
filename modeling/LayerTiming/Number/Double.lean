import LayerTiming.Number.Binary

/-!
# Doubles by their bits

As numbers, all doubles that are no number are alike. Their bits tell them apart by a sign and a
payload, and the total order of doubles goes by these. Which bits a sum has that is no number is
left to the machine. So it is a parameter wherever sums are put in order.
-/
namespace LayerTiming.Number

/-- A double as it is stored. Each of the bit patterns is one. -/
structure Double where
  bits : UInt64
  deriving DecidableEq, Repr, Inhabited

namespace Double

/-- What a stored double is as a number. -/
def toFloat (x : Double) : Float := Float.ofBits x.bits

def ofFloat (x : Float) : Double := ⟨x.toBits⟩

/-- The place in the total order: the bits as a whole number, and in reverse under the negative
sign. What is no number has no place of its own kind; it stands where its bits put it. -/
def key (x : Double) : Int :=
  if x.bits.toNat < signBit then x.bits.toNat else (signBit : Int) - 1 - x.bits.toNat

end Double

/-- The bits that a machine gives to a sum of two doubles that is no number, the same ones whenever it
adds these two. -/
structure NaNRule where
  bitsOf : Double → Double → Double
  isNaN_bitsOf : ∀ x y, (bitsOf x y).toFloat.isNaN = true

namespace NaNRule
variable (rule : NaNRule)

/-- Two stored doubles added. Any sum that is a number has bits of its own. -/
def add (x y : Double) : Double :=
  let sum := x.toFloat + y.toFloat
  if sum.isNaN then rule.bitsOf x y else .ofFloat sum

/-- Stored doubles added from left to right, begun with zero. -/
def total (values : List Double) : Double := values.foldl rule.add (.ofFloat 0.0)

/-- An operand that is no number is passed on, the second before the first. Without one the sum gets
the negative sign and the least payload that is quiet. -/
def passingOn : NaNRule where
  bitsOf x y :=
    if y.toFloat.isNaN then y
    else if x.toFloat.isNaN then x
    else ⟨0xFFF8000000000000⟩
  isNaN_bitsOf x y := by
    split
    · assumption
    split
    · assumption
    · decide

end NaNRule
end LayerTiming.Number
