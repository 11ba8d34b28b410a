import LayerTiming.Number.Decimal
import LayerTiming.Text.Lines
import LayerTiming.Toml.Value

/-!
# Bare scalars of TOML

Numbers, truth values, dates and times are written without quotes. Each is one word, but for a date
and a time of day with a blank between them.
-/
namespace LayerTiming.Toml
open Number Text

def isScalarChar (c : Char) : Bool :=
  isAsciiDigit c || ('a' ≤ c && c ≤ 'z') || ('A' ≤ c && c ≤ 'Z')
    || c == '_' || c == '+' || c == '-' || c == '.' || c == ':'

/-- The digits of a numeral, where underscores may part digits. -/
def digitsOf? (isDigit : Char → Bool) (text : List Char) : Option (List Char) :=
  let groups := pieces '_' text
  if groups.all fun group => !group.isEmpty && group.all isDigit then some groups.flatten else none

/-- The digits of a decimal numeral without zeros in front. -/
def decimalDigits? (text : List Char) : Option (List Char) := do
  let digits ← digitsOf? isAsciiDigit text
  if digits.head? = some '0' ∧ digits ≠ ['0'] then none else some digits

def splitSign : List Char → Bool × List Char
  | '+' :: rest => (false, rest)
  | '-' :: rest => (true, rest)
  | text => (false, text)

/-- The greatest integer. -/
def greatestInteger : Nat := Nat.pow 2 63 - 1

def valueInBase (base : Nat) (digits : List Char) : Nat :=
  digits.foldl (fun value c =>
    value * base + (if isAsciiDigit c then digitValue c else c.toUpper.toNat - 'A'.toNat + 10)) 0

def isDigitOf (base : Nat) (c : Char) : Bool :=
  isAsciiDigit c && digitValue c < base
    || base == 16 && ('a' ≤ c && c ≤ 'f' || 'A' ≤ c && c ≤ 'F')

/-- An integer in a base other than ten. It has no sign. -/
def integerInBase? (base : Nat) (text : List Char) : Option Int := do
  let digits ← digitsOf? (isDigitOf base) text
  let n := valueInBase base digits
  if n ≤ greatestInteger then some n else none

/-- An integer in base ten. -/
def decimalInteger? (text : List Char) : Option Int := do
  let (negative, body) := splitSign text
  let n := digitsValue (← decimalDigits? body)
  if negative then
    if n ≤ greatestInteger + 1 then some (-(n : Int)) else none
  else if n ≤ greatestInteger then some n
  else none

def integer? : List Char → Option Int
  | '0' :: 'x' :: rest => integerInBase? 16 rest
  | '0' :: 'o' :: rest => integerInBase? 8 rest
  | '0' :: 'b' :: rest => integerInBase? 2 rest
  | text => decimalInteger? text

/-- Whether `digits · 10 ^ exponent` rounds to infinity. Only magnitudes next to the greatest double
are computed. -/
def overflows (digits : Nat) (exponent : Int) : Bool :=
  let length : Int := (numeral digits).length + exponent
  if digits = 0 ∨ length < 309 then false
  else if length > 309 then true
  else compareScaled digits exponent (Nat.pow 2 54 - 1) 970 != .lt

/-- The exponent of a float: nothing, or a mark, a sign and digits. -/
def floatExponent? : List Char → Option Int
  | [] => some 0
  | c :: rest =>
    if c = 'e' ∨ c = 'E' then
      let (negative, body) := splitSign rest
      (digitsOf? isAsciiDigit body).map fun digits =>
        if negative then -(digitsValue digits : Int) else digitsValue digits
    else none

/-- Whether a text without its sign is a float with digits. It has a point or an exponent, and must
not be too great unless it is negative. -/
def isDigitFloat (negative : Bool) (text : List Char) : Bool :=
  let isMark (c : Char) : Bool := c == 'e' || c == 'E'
  let mantissa := text.takeWhile (!isMark ·)
  let mark := text.dropWhile (!isMark ·)
  match pieces '.' mantissa, floatExponent? mark with
  | [whole], some exponent =>
    match decimalDigits? whole with
    | some digits => mark ≠ [] && (negative || !overflows (digitsValue digits) exponent)
    | none => false
  | [whole, fraction], some exponent =>
    match decimalDigits? whole, digitsOf? isAsciiDigit fraction with
    | some digits, some places =>
      negative || !overflows (digitsValue (digits ++ places)) (exponent - places.length)
    | _, _ => false
  | _, _ => false

def isFloat (text : List Char) : Bool :=
  let (negative, body) := splitSign text
  body = "inf".toList || body = "nan".toList || isDigitFloat negative body

/-- The value of a string of digits of a fixed length. -/
def fixedDigits? (length : Nat) (text : List Char) : Option (Nat × List Char) :=
  let digits := text.take length
  if digits.length = length ∧ digits.all isAsciiDigit then
    some (digitsValue digits, text.drop length)
  else none

/-- Drop one character that must stand at the start. -/
def expect? (c : Char) : List Char → Option (List Char)
  | d :: rest => if c = d then some rest else none
  | [] => none

def daysIn (year month : Nat) : Nat :=
  if month = 2 then if year % 4 = 0 ∧ (year % 100 ≠ 0 ∨ year % 400 = 0) then 29 else 28
  else if month = 4 ∨ month = 6 ∨ month = 9 ∨ month = 11 then 30
  else 31

/-- Read a date. Gives what follows it. -/
def afterDate? (text : List Char) : Option (List Char) := do
  let (year, text) ← fixedDigits? 4 text
  let (month, text) ← fixedDigits? 2 (← expect? '-' text)
  let (day, text) ← fixedDigits? 2 (← expect? '-' text)
  if 1 ≤ month ∧ month ≤ 12 ∧ 1 ≤ day ∧ day ≤ daysIn year month then some text else none

/-- Read an hour and a minute. Gives what follows them. -/
def afterMinute? (text : List Char) : Option (List Char) := do
  let (hour, text) ← fixedDigits? 2 text
  let (minute, text) ← fixedDigits? 2 (← expect? ':' text)
  if hour < 24 ∧ minute < 60 then some text else none

/-- Leave out the fraction of a second. It needs a digit. -/
def afterFraction? : List Char → Option (List Char)
  | '.' :: rest =>
    if rest.takeWhile isAsciiDigit = [] then none else some (rest.dropWhile isAsciiDigit)
  | text => some text

/-- Read a time of day. A minute may have a leap second. Gives what follows it. -/
def afterTime? (text : List Char) : Option (List Char) := do
  let (second, text) ← fixedDigits? 2 (← expect? ':' (← afterMinute? text))
  if second ≤ 60 then afterFraction? text else none

/-- Whether a text is an offset from universal time, or nothing. -/
def isOffset : List Char → Bool
  | [] => true
  | c :: rest =>
    if c = 'Z' ∨ c = 'z' then rest = []
    else (c == '+' || c == '-') && afterMinute? rest == some []

/-- Whether a text is a time of day, with an offset or not. -/
def isTimeWithOffset (text : List Char) : Bool :=
  match afterTime? text with
  | some rest => isOffset rest
  | none => false

/-- Whether a text is a date, a time, or a date and a time with a letter between them. -/
def isMoment (text : List Char) : Bool :=
  match afterDate? text with
  | some [] => true
  | some (c :: rest) => (c == 'T' || c == 't') && isTimeWithOffset rest
  | none => afterTime? text == some []

def scalarOf? (word : List Char) : Option Value :=
  if word = "true".toList then some (.boolean true)
  else if word = "false".toList then some (.boolean false)
  else if isMoment word then some .moment
  else if isFloat word then some .float
  else (integer? word).map .integer

/-- The time of day that follows a date behind one blank, taken off the text. -/
def dropTime (word text : List Char) : List Char :=
  match afterDate? word, text with
  | some [], ' ' :: rest =>
    if isTimeWithOffset (rest.takeWhile isScalarChar) then rest.dropWhile isScalarChar else text
  | _, _ => text

def readScalar? (text : List Char) : Option (Value × List Char) :=
  let word := text.takeWhile isScalarChar
  (scalarOf? word).map fun value => (value, dropTime word (text.dropWhile isScalarChar))

end LayerTiming.Toml
