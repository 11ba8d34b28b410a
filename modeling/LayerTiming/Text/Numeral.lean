import LayerTiming.Text.CharClass

/-!
# Numerals

Decimal numerals of natural numbers: written, read, and written with commas between groups of three
digits. Only the digits of the basic Latin block count when a numeral is read.
-/
namespace LayerTiming.Text

/-- The least number past the machine's counters: ticks, cycles, ids and sizes lie below it. -/
def wordLimit : Nat := Nat.pow 2 64

def digitValue (c : Char) : Nat := c.toNat - '0'.toNat

/-- The value of a string of digits, most significant first. -/
def digitsValue (digits : List Char) : Nat :=
  digits.foldl (fun value c => value * 10 + digitValue c) 0

/-- The digits of a number, most significant first, without leading zeros. -/
def numeral (n : Nat) : List Char := Nat.toDigits 10 n

/-- Read a numeral: one or more digits. Leading zeros are allowed. -/
def readNumeral? (text : List Char) : Option Nat :=
  if text ≠ [] ∧ text.all isAsciiDigit then some (digitsValue text) else none

/-- Read a numeral of a counter value. A value past the limit is refused, whatever its length. -/
def readWord? (text : List Char) : Option UInt64 :=
  match readNumeral? text with
  | some n => if n < wordLimit then some (UInt64.ofNat n) else none
  | none => none

/-- Put a comma before each group of three digits that has a digit in front of it. -/
def groupDigits : List Char → List Char
  | [] => []
  | c :: rest =>
    if rest ≠ [] ∧ rest.length % 3 = 0 then c :: ',' :: groupDigits rest
    else c :: groupDigits rest

/-- Without its commas a grouped string of digits is the string itself. -/
theorem filter_groupDigits (digits : List Char) (free : ',' ∉ digits) :
    (groupDigits digits).filter (· ≠ ',') = digits := by
  induction digits with
  | nil => rfl
  | cons c rest ih =>
    have kept : c ≠ ',' := fun same => free (by simp [same])
    have tail_free : ',' ∉ rest := fun member => free (List.mem_cons_of_mem c member)
    simp only [groupDigits]
    split <;> simpa [kept] using ih tail_free

/-- A number with its digits in groups of three. -/
def grouped (n : Nat) : List Char := groupDigits (numeral n)

end LayerTiming.Text
