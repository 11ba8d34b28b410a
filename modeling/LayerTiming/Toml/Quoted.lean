import LayerTiming.Text.CharClass

/-!
# Quoted text of TOML

Text in double quotes knows escapes, text in single quotes does not. Either kind may go over several
lines in tripled quotes. All line breaks are line feeds here. The end of a text is found first and
its escapes are resolved after that.
-/
namespace LayerTiming.Toml

/-- A character that may stand in a comment, and in a text unless it has a meaning there. -/
def isPrintable (c : Char) : Bool := c == '\t' || (' ' ≤ c && c != '\x7f')

/-- A text up to a quote that is not escaped, and what follows the quote. The text keeps its
escapes. -/
def upToQuote (quote : Char) (escapes : Bool) : List Char → Option (List Char × List Char)
  | [] => none
  | c :: rest =>
    if c = quote then some ([], rest)
    else if escapes && c == '\\' then
      match rest with
      | [] => none
      | d :: rest => (upToQuote quote escapes rest).map fun found => (c :: d :: found.1, found.2)
    else (upToQuote quote escapes rest).map fun found => (c :: found.1, found.2)

/-- The quotes at the start of a text that still belong to the quoted text before it: up to two may
stand directly before the three that end it. -/
def takeExtra (quote : Char) : List Char → List Char × List Char
  | c :: d :: rest =>
    if c = quote then
      if d = quote then ([c, d], rest) else ([c], d :: rest)
    else ([], c :: d :: rest)
  | [c] => if c = quote then ([c], []) else ([], [c])
  | [] => ([], [])

/-- A text up to three quotes that are not escaped, and what follows them. The text keeps its
escapes. -/
def upToTripleQuote (quote : Char) (escapes : Bool) : List Char → Option (List Char × List Char)
  | [] => none
  | c :: rest =>
    match rest with
    | d :: e :: tail =>
      if c = quote ∧ d = quote ∧ e = quote then some (takeExtra quote tail)
      else if escapes && c == '\\' then
        (upToTripleQuote quote escapes (e :: tail)).map fun found => (c :: d :: found.1, found.2)
      else (upToTripleQuote quote escapes (d :: e :: tail)).map fun found => (c :: found.1, found.2)
    | _ => none

def hexDigit? (c : Char) : Option Nat :=
  if '0' ≤ c ∧ c ≤ '9' then some (c.toNat - '0'.toNat)
  else if 'a' ≤ c ∧ c ≤ 'f' then some (c.toNat - 'a'.toNat + 10)
  else if 'A' ≤ c ∧ c ≤ 'F' then some (c.toNat - 'A'.toNat + 10)
  else none

/-- The character that a one-letter escape stands for. -/
def escaped? : Char → Option Char
  | 'b' => some '\x08'
  | 't' => some '\t'
  | 'n' => some '\n'
  | 'f' => some '\x0c'
  | 'r' => some '\r'
  | '"' => some '"'
  | '\\' => some '\\'
  | _ => none

/-- The character with a code. Codes of surrogates and codes past the last character have none. -/
def charOfCode? (code : Nat) : Option Char :=
  if code.isValidChar then some (Char.ofNat code) else none

/-- Where the resolution of escapes stands. -/
inductive EscapeState
  | plain
  /-- Behind a backslash. -/
  | escape
  /-- Inside an escape by code, with this many hexadecimal digits to come. -/
  | code (owed value : Nat)
  /-- Behind a backslash and blanks, before the line break that must follow. -/
  | lineEnd
  /-- Behind an escaped line break, where white space is left out. -/
  | skipping
  deriving DecidableEq, Repr, Inhabited

namespace EscapeState

/-- A character where none is escaped. -/
def plainStep? (multiline : Bool) (c : Char) : Option (List Char × EscapeState) :=
  if c = '\\' then some ([], .escape)
  else if isPrintable c || multiline && c == '\n' then some ([c], .plain)
  else none

/-- One character of a text with escapes: what it stands for, and where the resolution stands after
it. -/
def step? (multiline : Bool) : EscapeState → Char → Option (List Char × EscapeState)
  | .plain, c => plainStep? multiline c
  | .escape, c =>
    if c = 'u' then some ([], .code 4 0)
    else if c = 'U' then some ([], .code 8 0)
    else if multiline && c == '\n' then some ([], .skipping)
    else if multiline && (c == ' ' || c == '\t') then some ([], .lineEnd)
    else (escaped? c).map fun plain => ([plain], .plain)
  | .code owed value, c => do
    let digit ← hexDigit? c
    let value := value * 16 + digit
    if owed ≤ 1 then (charOfCode? value).map fun plain => ([plain], .plain)
    else pure ([], .code (owed - 1) value)
  | .lineEnd, c =>
    if c = '\n' then some ([], .skipping)
    else if c = ' ' ∨ c = '\t' then some ([], .lineEnd)
    else none
  | .skipping, c =>
    if c = ' ' ∨ c = '\t' ∨ c = '\n' then some ([], .skipping) else plainStep? multiline c

/-- Resolve the escapes of a text from a state on. No escape may be cut off. -/
def run? (multiline : Bool) : EscapeState → List Char → Option (List Char)
  | .plain, [] => some []
  | .skipping, [] => some []
  | _, [] => none
  | state, c :: rest => do
    let (chars, next) ← step? multiline state c
    let others ← run? multiline next rest
    pure (chars ++ others)

end EscapeState

/-- Drop a line feed at the start of a text. -/
def dropLineFeed : List Char → List Char
  | '\n' :: rest => rest
  | text => text

/-- Check a text without escapes. -/
def literal? (multiline : Bool) (text : List Char) : Option (List Char) :=
  if text.all fun c => isPrintable c || multiline && c == '\n' then some text else none

/-- The content of a raw text in quotes of one kind. -/
def contentOf? (quote : Char) (multiline : Bool) (raw : List Char) : Option (List Char) :=
  if quote = '"' then EscapeState.run? multiline .plain raw else literal? multiline raw

/-- Read a text in single or double quotes that stands on one line. -/
def readQuoted? : List Char → Option (String × List Char)
  | [] => none
  | quote :: rest =>
    if quote = '"' ∨ quote = '\x27' then do
      let (raw, rest) ← upToQuote quote (quote == '"') rest
      let content ← contentOf? quote false raw
      pure (String.ofList content, rest)
    else none

/-- Read a text in quotes, single or tripled. A line feed right behind tripled quotes is left
out. -/
def readText? : List Char → Option (String × List Char)
  | a :: b :: c :: rest =>
    if (a = '"' ∨ a = '\x27') ∧ a = b ∧ b = c then do
      let (raw, rest) ← upToTripleQuote a (a == '"') (dropLineFeed rest)
      let content ← contentOf? a true raw
      pure (String.ofList content, rest)
    else readQuoted? (a :: b :: c :: rest)
  | text => readQuoted? text

end LayerTiming.Toml
