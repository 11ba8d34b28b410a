import LayerTiming.Json.Scientific
import LayerTiming.Text.Lines

/-!
# Tokens of documents

The lexer is a state machine over decoded characters. A gap, where bytes decode to no character, may
stand in a string and nowhere else. A string that holds a gap or half of a surrogate pair is a token
without a text.
-/
namespace LayerTiming.Json
open Text

/-- The smallest parts of a document. -/
inductive Token
  | openArray
  | closeArray
  | openObject
  | closeObject
  | comma
  | colon
  | null
  | bool (truth : Bool)
  | number (written : Scientific)
  | string (text : Option String)
  deriving DecidableEq, Repr, Inhabited

/-- A unit of a string: a character, half of a surrogate pair, or a gap. -/
inductive StringUnit
  | char (c : Char)
  | half (code : Nat)
  | gap
  deriving DecidableEq, Repr, Inhabited

/-- The unit of a sixteen-bit code. -/
def StringUnit.ofCode (code : Nat) : StringUnit :=
  if 0xD800 ≤ code ∧ code < 0xE000 then .half code else .char (Char.ofNat code)

/-- The character of a surrogate pair. -/
def pairedChar (high low : Nat) : Char :=
  Char.ofNat (0x10000 + (high - 0xD800) * 0x400 + (low - 0xDC00))

/-- The text of units: halves must come in pairs, and there must be no gap. -/
def textOfUnits? : List StringUnit → Option (List Char)
  | [] => some []
  | .char c :: rest => (textOfUnits? rest).map (c :: ·)
  | .half high :: .half low :: rest =>
    if high < 0xDC00 ∧ 0xDC00 ≤ low then (textOfUnits? rest).map (pairedChar high low :: ·)
    else none
  | _ => none

/-- Where the lexer stands. What has been read of an unfinished token is held latest first. -/
inductive LexState
  | between
  | inWord (letters : List Char)
  | inNumber (chars : List Char)
  | inString (units : List StringUnit)
  | inEscape (units : List StringUnit)
  /-- Inside an escape by code, with this many hexadecimal digits to come. -/
  | inCode (units : List StringUnit) (owed code : Nat)
  deriving DecidableEq, Repr, Inhabited

def isBlank (c : Char) : Bool := c == ' ' || c == '\t' || c == '\n' || c == '\r'

/-- A character that may stand in a number. -/
def isNumberChar (c : Char) : Bool :=
  isAsciiDigit c || c == '-' || c == '+' || c == '.' || c == 'e' || c == 'E'

def isLetter (c : Char) : Bool := 'a' ≤ c && c ≤ 'z'

def hexDigit? (c : Char) : Option Nat :=
  if isAsciiDigit c then some (digitValue c)
  else if 'a' ≤ c ∧ c ≤ 'f' then some (c.toNat - 'a'.toNat + 10)
  else if 'A' ≤ c ∧ c ≤ 'F' then some (c.toNat - 'A'.toNat + 10)
  else none

/-- The character that a one-letter escape stands for. -/
def escaped? : Char → Option Char
  | '"' => some '"'
  | '\\' => some '\\'
  | '/' => some '/'
  | 'b' => some '\x08'
  | 'f' => some '\x0c'
  | 'n' => some '\n'
  | 'r' => some '\r'
  | 't' => some '\t'
  | _ => none

def Token.ofWord? (word : List Char) : Option Token :=
  if word = "null".toList then some .null
  else if word = "true".toList then some (.bool true)
  else if word = "false".toList then some (.bool false)
  else none

/-- The token of a string with these units. -/
def Token.ofUnits (units : List StringUnit) : Token :=
  .string ((textOfUnits? units).map String.ofList)

def punctuation? : Char → Option Token
  | '[' => some .openArray
  | ']' => some .closeArray
  | '\x7b' => some .openObject
  | '\x7d' => some .closeObject
  | ',' => some .comma
  | ':' => some .colon
  | _ => none

namespace LexState

def start? (c : Char) : Option (List Token × LexState) :=
  if isBlank c then some ([], .between)
  else if c = '"' then some ([], .inString [])
  else if isAsciiDigit c ∨ c = '-' then some ([], .inNumber [c])
  else if isLetter c then some ([], .inWord [c])
  else (punctuation? c).map fun token => ([token], .between)

/-- End a word or a number before a character, which begins the next token. -/
def endBefore? (token : Option Token) (c : Char) : Option (List Token × LexState) := do
  let found ← token
  let (tokens, next) ← start? c
  pure (found :: tokens, next)

/-- One character or gap: what tokens it completes, and where the lexer stands after it. -/
def step? : LexState → Option Char → Option (List Token × LexState)
  | .inString units, none => some ([], .inString (.gap :: units))
  | _, none => none
  | .between, some c => start? c
  | .inWord letters, some c =>
    if isLetter c then some ([], .inWord (c :: letters))
    else endBefore? (Token.ofWord? letters.reverse) c
  | .inNumber chars, some c =>
    if isNumberChar c then some ([], .inNumber (c :: chars))
    else endBefore? ((Scientific.read? chars.reverse).map .number) c
  | .inString units, some c =>
    if c = '"' then some ([.ofUnits units.reverse], .between)
    else if c = '\\' then some ([], .inEscape units)
    else if c < ' ' then none
    else some ([], .inString (.char c :: units))
  | .inEscape units, some c =>
    if c = 'u' then some ([], .inCode units 4 0)
    else (escaped? c).map fun plain => ([], .inString (.char plain :: units))
  | .inCode units owed code, some c => do
    let digit ← hexDigit? c
    let code := code * 16 + digit
    if owed ≤ 1 then pure ([], .inString (.ofCode code :: units))
    else pure ([], .inCode units (owed - 1) code)

/-- The token that the end of the text completes. Nothing else may be unfinished. -/
def finish? : LexState → Option (List Token)
  | .between => some []
  | .inWord letters => (Token.ofWord? letters.reverse).map ([·])
  | .inNumber chars => (Scientific.read? chars.reverse).map fun written => [.number written]
  | _ => none

/-- The tokens from a state to the end of the text. -/
def run? : LexState → List (Option Char) → Option (List Token)
  | state, [] => finish? state
  | state, c :: rest => do
    let (tokens, next) ← step? state c
    let others ← run? next rest
    pure (tokens ++ others)

end LexState

def tokens? (text : List (Option Char)) : Option (List Token) := LexState.run? .between text

end LayerTiming.Json
