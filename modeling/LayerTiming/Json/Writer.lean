import LayerTiming.Json.Value

/-!
# Writing documents

Each item of an array and each member of an object stands on a line of its own, indented by two
blanks for each array and object around it. Empty arrays and objects take one line.
-/
namespace LayerTiming.Json
open Text

/-- A control character as an escape by code. -/
def codeEscape (c : Char) : List Char :=
  "\\u00".toList ++ [Nat.digitChar (c.toNat / 16), Nat.digitChar (c.toNat % 16)]

/-- A character of a string as it is written. -/
def escapeChar (c : Char) : List Char :=
  if c = '"' then ['\\', '"']
  else if c = '\\' then ['\\', '\\']
  else if c = '\x08' then ['\\', 'b']
  else if c = '\t' then ['\\', 't']
  else if c = '\n' then ['\\', 'n']
  else if c = '\x0c' then ['\\', 'f']
  else if c = '\r' then ['\\', 'r']
  else if c < ' ' then codeEscape c
  else [c]

/-- The content of a string as it is written. Half of a surrogate pair stands for a string that has
no text. -/
def stringContent : Option String → List Char
  | some text => text.toList.flatMap escapeChar
  | none => "\\ud800".toList

def writeString (text : Option String) : List Char := '"' :: stringContent text ++ ['"']

def newLine (depth : Nat) : List Char := '\n' :: List.replicate (2 * depth) ' '

namespace Value

mutual

/-- The text of a document that stands at a depth. -/
def writeAt (depth : Nat) : Value → List Char
  | .null => "null".toList
  | .bool truth => if truth then "true".toList else "false".toList
  | .number written => written.write
  | .string text => writeString text
  | .array [] => ['[', ']']
  | .array (item :: rest) =>
    '[' :: newLine (depth + 1) ++ writeAt (depth + 1) item ++ writeItems (depth + 1) rest
      ++ newLine depth ++ [']']
  | .object [] => ['\x7b', '\x7d']
  | .object ((key, value) :: rest) =>
    '\x7b' :: newLine (depth + 1) ++ writeString key ++ ':' :: ' ' :: writeAt (depth + 1) value
      ++ writeMembers (depth + 1) rest ++ newLine depth ++ ['\x7d']

/-- The text of the items after the first. -/
def writeItems (depth : Nat) : List Value → List Char
  | [] => []
  | item :: rest => ',' :: newLine depth ++ writeAt depth item ++ writeItems depth rest

/-- The text of the members after the first. -/
def writeMembers (depth : Nat) : List (Option String × Value) → List Char
  | [] => []
  | (key, value) :: rest =>
    ',' :: newLine depth ++ writeString key ++ ':' :: ' ' :: writeAt depth value
      ++ writeMembers depth rest

end

def write (value : Value) : List Char := writeAt 0 value

end Value
end LayerTiming.Json
