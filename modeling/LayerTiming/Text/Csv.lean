/-!
# Comma-separated values

A record is a line of cells with commas between them. A cell that holds a comma, a quote or a line
break stands in quotes, and a quote in it is written twice.
-/
namespace LayerTiming.Csv

/-- A character that a cell may hold only in quotes. -/
def isSpecial (c : Char) : Bool := c == ',' || c == '"' || c == '\n' || c == '\r'

/-- Write each quote twice. -/
def doubleQuotes : List Char → List Char
  | [] => []
  | c :: rest =>
    if c = '"' then '"' :: '"' :: doubleQuotes rest else c :: doubleQuotes rest

def cell (text : List Char) : List Char :=
  if text.any isSpecial then '"' :: doubleQuotes text ++ ['"'] else text

/-- The written form of a record without its line break. -/
def cells : List (List Char) → List Char
  | [] => []
  | [last] => cell last
  | first :: rest => cell first ++ ',' :: cells rest

/-- The written form of records, each ended by a line feed. -/
def write (records : List (List (List Char))) : List Char :=
  records.flatMap fun record => cells record ++ ['\n']

end LayerTiming.Csv
