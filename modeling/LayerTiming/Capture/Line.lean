import LayerTiming.Text.Lines
import LayerTiming.Text.Numeral

/-!
# Lines of a capture

A capture is the console text of a test session. A line of it is a header, which opens a run, an
event of a run, an end-to-end sample, or noise.
-/
namespace LayerTiming
open Text

/-- One `id,OPERATION,ticks` line of a run. -/
structure Event where
  /-- The number printed with the event. It tells events of one run apart. -/
  id : UInt64
  /-- The operation tag. -/
  operation : String
  /-- The hardware ticks spent in the event. -/
  ticks : UInt64
  deriving DecidableEq, Repr, Inhabited

/-- The line that stands before the events of every run. -/
def headerText : List Char := "\"Event\",\"Tag\",\"Ticks\"".toList

/-- The words that end an end-to-end marker. -/
def markerWords : List Char := "cycles total".toList

def isTagChar (c : Char) : Bool := 'A' ≤ c && c ≤ 'Z' || isAsciiDigit c || c == '_'

/-- Read an event: two counter values with a tag between them, parted by commas, and nothing
else. -/
def Event.read? (text : List Char) : Option Event :=
  match pieces ',' text with
  | [id, tag, ticks] =>
    if tag ≠ [] ∧ tag.all isTagChar then do
      let id ← readWord? id
      let ticks ← readWord? ticks
      pure { id, operation := String.ofList tag, ticks }
    else none
  | _ => none

/-- The digits of an end-to-end marker that begins here: decimal digits of any script in
parentheses, padded with white space, then white space and the marker's words. -/
def markerHere? : List Char → Option (List Char)
  | '(' :: rest =>
    let inner := rest.dropWhile isSpace
    let digits := inner.takeWhile isDecimalDigit
    match (inner.dropWhile isDecimalDigit).dropWhile isSpace with
    | ')' :: tail =>
      if digits = [] ∨ tail.takeWhile isSpace = [] then none
      else (after? markerWords (tail.dropWhile isSpace)).map fun _ => digits
    | _ => none
  | _ => none

/-- The cycles of the leftmost end-to-end marker. If they are no counter value there is no sample,
whatever stands to the right. -/
def readSample? (text : List Char) : Option UInt64 :=
  (leftmost? markerHere? text).bind readWord?

/-- What a line of a capture says. -/
inductive Line
  | header
  | event (event : Event)
  | sample (cycles : UInt64)
  | noise
  deriving DecidableEq, Repr, Inhabited

/-- Classify a line without the white space around it. -/
def Line.ofTrimmed (text : List Char) : Line :=
  if text = headerText then .header
  else match Event.read? text with
    | some found => .event found
    | none =>
      if occurs markerWords text then
        match readSample? text with
        | some cycles => .sample cycles
        | none => .noise
      else .noise

/-- Classify a line. White space around it does not matter. -/
def Line.ofText (text : List Char) : Line := Line.ofTrimmed (trim text)

end LayerTiming
