import LayerTiming.Toml.Quoted
import LayerTiming.Toml.Scalar

/-!
# Reading TOML

A settings file is read statement by statement: headers and pairs, with blank lines and comments
between them. The statements then build its table.
-/
namespace LayerTiming.Toml
open Text

/-- Write each line break as a line feed. A carriage return that stands alone is kept, and is
nowhere allowed. -/
def unifyLineBreaks : List Char → List Char
  | [] => []
  | c :: rest =>
    if c = '\r' ∧ rest.head? = some '\n' then unifyLineBreaks rest else c :: unifyLineBreaks rest

def isBlank (c : Char) : Bool := c == ' ' || c == '\t'

def dropBlanks (text : List Char) : List Char := text.dropWhile isBlank

/-- Drop blanks, line feeds and comments at the start, with the text inside a comment or not. -/
def dropFiller (inComment : Bool) : List Char → List Char
  | [] => []
  | c :: rest =>
    if inComment && isPrintable c then dropFiller true rest
    else if isBlank c || c == '\n' then dropFiller false rest
    else if c = '#' then dropFiller true rest
    else c :: rest

/-- Read the end of a line: blanks, a comment or none, and a line feed or the end of the text. -/
def endOfLine? (text : List Char) : Option (List Char) :=
  let text := dropBlanks text
  let text := if text.head? = some '#' then text.dropWhile isPrintable else text
  match text with
  | [] => some []
  | '\n' :: rest => some rest
  | _ => none

/-- A character of a key without quotes. -/
def isKeyChar (c : Char) : Bool :=
  isAsciiDigit c || ('a' ≤ c && c ≤ 'z') || ('A' ≤ c && c ≤ 'Z') || c == '_' || c == '-'

def readSimpleKey? (text : List Char) : Option (String × List Char) :=
  let bare := text.takeWhile isKeyChar
  if bare = [] then readQuoted? text
  else some (String.ofList bare, text.dropWhile isKeyChar)

/-- Read keys with dots between them and blanks around them, at most `limit` of them. -/
def readKeys? : Nat → List Char → Option (List String × List Char)
  | 0, _ => none
  | limit + 1, text => do
    let (key, rest) ← readSimpleKey? (dropBlanks text)
    match dropBlanks rest with
    | '.' :: rest => do
      let (others, rest) ← readKeys? limit rest
      pure (key :: others, rest)
    | rest => pure ([key], rest)

/-- The number of parts that a dotted key may have, and one more than the number of brackets around
a value. -/
def nestingLimit : Nat := 79

/-- Read a dotted key with the blanks around it. -/
def readKey? (text : List Char) : Option (DottedKey × List Char) := do
  let (keys, rest) ← readKeys? nestingLimit text
  let last ← keys.getLast?
  pure ({ path := keys.dropLast, last }, rest)

/-- Read the items of an array and its closing bracket. A comma may stand behind the last item. The
fuel bounds the number of items. -/
def readItems? (readItem : List Char → Option (Value × List Char)) :
    Nat → List Char → Option (List Value × List Char)
  | 0, _ => none
  | fuel + 1, text =>
    match dropFiller false text with
    | ']' :: rest => some ([], rest)
    | text => do
      let (item, rest) ← readItem text
      match dropFiller false rest with
      | ']' :: rest => pure ([item], rest)
      | ',' :: rest => do
        let (others, rest) ← readItems? readItem fuel rest
        pure (item :: others, rest)
      | _ => none

/-- Read a key, an equals sign, and a value. -/
def readPair? (readValue : List Char → Option (Value × List Char)) (text : List Char) :
    Option ((DottedKey × Value) × List Char) := do
  let (key, rest) ← readKey? text
  let (value, rest) ← readValue (dropBlanks (← expect? '=' rest))
  pure ((key, value), rest)

/-- Read the pairs of a table in braces and its closing brace. The fuel bounds the number of
pairs. -/
def readPairs? (readValue : List Char → Option (Value × List Char)) :
    Nat → List Char → Option (List (DottedKey × Value) × List Char)
  | 0, _ => none
  | fuel + 1, text => do
    let (pair, rest) ← readPair? readValue text
    match dropBlanks rest with
    | '\x7d' :: rest => pure ([pair], rest)
    | ',' :: rest => do
      let (others, rest) ← readPairs? readValue fuel rest
      pure (pair :: others, rest)
    | _ => none

/-- Read a table in braces behind its opening brace. -/
def readInlineTable? (readValue : List Char → Option (Value × List Char)) (text : List Char) :
    Option (Value × List Char) :=
  match dropBlanks text with
  | '\x7d' :: rest => some (.table .inline [], rest)
  | text => do
    let (pairs, rest) ← readPairs? readValue (text.length + 1) text
    pure (← Value.ofPairs? pairs, rest)

/-- Read a value that may be nested so deep. -/
def readValue? : Nat → List Char → Option (Value × List Char)
  | depth, '[' :: text =>
    match depth with
    | 0 => none
    | depth + 1 =>
      (readItems? (readValue? depth) (text.length + 1) text).map fun found =>
        (.array found.1, found.2)
  | depth, '\x7b' :: text =>
    match depth with
    | 0 => none
    | depth + 1 => readInlineTable? (readValue? depth) text
  | _, text =>
    if text.head? = some '"' ∨ text.head? = some '\x27' then
      (readText? text).map fun found => (.text found.1, found.2)
    else readScalar? text

/-- Read a header behind its opening brackets, up to the end of its line. -/
def readHeader? (closing : List Char) (text : List Char) : Option (DottedKey × List Char) := do
  let (key, rest) ← readKey? text
  pure (key, ← endOfLine? (← after? closing rest))

def readStatement? (text : List Char) : Option (List Statement × List Char) :=
  match dropBlanks text with
  | [] => some ([], [])
  | '\n' :: rest => some ([], rest)
  | '#' :: rest => (endOfLine? ('#' :: rest)).map ([], ·)
  | '[' :: '[' :: rest =>
    (readHeader? [']', ']'] rest).map fun found => ([.repeatedHeader found.1], found.2)
  | '[' :: rest => (readHeader? [']'] rest).map fun found => ([.header found.1], found.2)
  | text => do
    let (pair, rest) ← readPair? (readValue? nestingLimit) text
    pure ([.pair pair.1 pair.2], ← endOfLine? rest)

/-- Read all statements. The fuel bounds the number of lines. -/
def readStatements? : Nat → List Char → Option (List Statement)
  | _, [] => some []
  | 0, _ => none
  | fuel + 1, text => do
    let (found, rest) ← readStatement? text
    let others ← readStatements? fuel rest
    pure (found ++ others)

/-- Drop a byte order mark at the start. -/
def dropMark : List Char → List Char
  | c :: rest => if c = '\ufeff' then rest else c :: rest
  | [] => []

def statements? (text : List Char) : Option (List Statement) :=
  let text := unifyLineBreaks (dropMark text)
  readStatements? text.length text

def read? (text : List Char) : Option Entries :=
  (statements? text).bind (Entries.ofStatements? [] [])

end LayerTiming.Toml
