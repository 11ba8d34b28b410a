/-!
# Points in time

A point in time is counted in seconds since the start of the year 1970 in universal time. Its text
is a date and a time of day of the Gregorian calendar.
-/
namespace LayerTiming

/-- A point in time. -/
structure Instant where
  seconds : Nat
  nanoseconds : Nat := 0
  deriving DecidableEq, Repr, Inhabited

namespace Instant

/-- A date. -/
structure Date where
  year : Nat
  month : Nat
  day : Nat
  deriving DecidableEq, Repr, Inhabited

/-- The date of a day counted from the start of the year 1970. Years are counted from March here, so
that a leap day ends a year; four hundred of them have 146097 days. -/
def dateOfDay (day : Nat) : Date :=
  let shifted := day + 719468
  let inEra := shifted % 146097
  let yearOfEra := (inEra - inEra / 1460 + inEra / 36524 - inEra / 146096) / 365
  let dayOfYear := inEra - (365 * yearOfEra + yearOfEra / 4 - yearOfEra / 100)
  let monthFromMarch := (5 * dayOfYear + 2) / 153
  let month := if monthFromMarch < 10 then monthFromMarch + 3 else monthFromMarch - 9
  let year := yearOfEra + shifted / 146097 * 400
  { year := if month ≤ 2 then year + 1 else year
    month
    day := dayOfYear - (153 * monthFromMarch + 2) / 5 + 1 }

example : dateOfDay 0 = ⟨1970, 1, 1⟩ := by decide
example : dateOfDay 11016 = ⟨2000, 2, 29⟩ := by decide
example : dateOfDay 47541 = ⟨2100, 3, 1⟩ := by decide

/-- A number with zeros in front up to a width. -/
def padded (width n : Nat) : String :=
  let digits := toString n
  "".pushn '0' (width - digits.length) ++ digits

/-- The fraction of a second, in as few groups of three digits as hold it. -/
def fractionText (nanoseconds : Nat) : String :=
  if nanoseconds = 0 then ""
  else if nanoseconds % 1000000 = 0 then "." ++ padded 3 (nanoseconds / 1000000)
  else if nanoseconds % 1000 = 0 then "." ++ padded 6 (nanoseconds / 1000)
  else "." ++ padded 9 nanoseconds

def text (instant : Instant) : String :=
  let date := dateOfDay (instant.seconds / 86400)
  let second := instant.seconds % 86400
  padded 4 date.year ++ "-" ++ padded 2 date.month ++ "-" ++ padded 2 date.day ++ "T"
    ++ padded 2 (second / 3600) ++ ":" ++ padded 2 (second / 60 % 60) ++ ":"
    ++ padded 2 (second % 60) ++ fractionText instant.nanoseconds ++ "+00:00"

end Instant
end LayerTiming
