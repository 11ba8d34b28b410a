import LayerTiming.Number.Decimal

/-!
# Clock and statistics

A profiling counter ticks once in a fixed number of cycles, and the processor runs at an assumed
frequency. Both belong to the target board.
-/
namespace LayerTiming
open Number

/-- The constants behind every conversion. -/
structure Clock where
  /-- Processor cycles in one profiling tick. -/
  cyclesPerTick : UInt64 := 1024
  /-- Processor cycles in one second. -/
  frequency : UInt64 := 50000000
  deriving DecidableEq, Repr, Inhabited

/-- A constant that is zero and would make conversions meaningless. -/
inductive ClockFault
  | zeroCyclesPerTick
  | zeroFrequency
  deriving DecidableEq, Repr, Inhabited

/-- What is wrong with a clock, in words. -/
def ClockFault.message : ClockFault → String
  | .zeroCyclesPerTick => "cycles_per_tick must be greater than 0"
  | .zeroFrequency => "cpu_freq_hz must be greater than 0"

namespace Clock

/-- The first constant of a clock that is zero. -/
def fault? (clock : Clock) : Option ClockFault :=
  if clock.cyclesPerTick = 0 then some .zeroCyclesPerTick
  else if clock.frequency = 0 then some .zeroFrequency
  else none

def cyclesOfTicks (clock : Clock) (ticks : Float) : Float := ticks * clock.cyclesPerTick.toFloat

def msOfCycles (clock : Clock) (cycles : Float) : Float :=
  cycles / clock.frequency.toFloat * 1000.0

def msOfTicks (clock : Clock) (ticks : Float) : Float :=
  clock.msOfCycles (clock.cyclesOfTicks ticks)

/-- The frequency in millions of cycles a second. -/
def megahertz (clock : Clock) : Float := clock.frequency.toFloat / 1000000.0

end Clock

/-- The arithmetic mean of counter values, and zero of none. -/
def mean (values : List UInt64) : Float :=
  if values.isEmpty then 0.0
  else sum (values.map UInt64.toFloat) / Float.ofNat values.length

/-- The standard deviation of counter values as a whole population, and zero of none. -/
def deviation (values : List UInt64) : Float :=
  if values.isEmpty then 0.0
  else
    let center := mean values
    let squares := values.map fun value => (value.toFloat - center) * (value.toFloat - center)
    (sum squares / Float.ofNat values.length).sqrt

end LayerTiming
