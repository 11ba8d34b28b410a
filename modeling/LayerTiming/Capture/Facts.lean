import LayerTiming.Text.Lines

/-!
# Facts about a capture

The model that the test menu announces, the verdict of the golden tests, and the part of a capture
that belongs to the last boot of the board.
-/
namespace LayerTiming
open Text

/-- The verdict of the golden tests. -/
inductive Verdict
  | passed
  | failed
  | unknown
  deriving DecidableEq, Repr, Inhabited

/-- The word for a verdict in reports and printed text. -/
def Verdict.word : Verdict → String
  | .passed => "passed"
  | .failed => "failed"
  | .unknown => "unknown"

/-- What a capture says besides its timings. -/
structure CaptureFacts where
  model : Option String := none
  golden : Verdict := .unknown
  deriving DecidableEq, Repr, Inhabited

namespace Capture

/-- The line that the board prints on every boot holds this. -/
def bootMarker : List Char := "Liftoff!".toList

/-- The word of an announcement that begins here. -/
def announcedHere? (text : List Char) : Option (List Char) := do
  let tail ← after? "Tests for ".toList text
  let word := tail.takeWhile isWordChar
  if word = [] then none
  else (after? " model".toList (tail.dropWhile isWordChar)).map fun _ => word

/-- The model of the leftmost announcement. -/
def announcedModel? (text : List Char) : Option String :=
  (leftmost? announcedHere? text).map String.ofList

/-- The verdict that a capture holds. A failure anywhere outweighs a pass. -/
def verdict (text : List Char) : Verdict :=
  if occurs "Golden tests failed".toList text then .failed
  else if occurs "Golden tests passed".toList text then .passed
  else .unknown

def facts (text : List Char) : CaptureFacts where
  model := announcedModel? text
  golden := verdict text

/-- The text from the start of the last line that holds the boot marker, or all of it if no line
does. -/
def sinceLastBoot (text : List Char) : List Char :=
  match fromLast? (occurs bootMarker) (pieces '\n' text) with
  | some kept => joinPieces '\n' kept
  | none => text

end Capture
end LayerTiming
