import LayerTiming.Presentation.Palette
import LayerTiming.Ranking
import LayerTiming.Text.Columns

/-!
# The text summary

The summary that is printed after an analysis: totals, executions, the ranked layers and the ranked
operations. It is built as a list of lines, and only the writing of a line knows about colour.
-/
namespace LayerTiming
open Number Text

/-- The share of all ticks that the summary and the chart mark, in percent. -/
def coverageMark : Float := 80.0

/-- A line of the summary. -/
inductive SummaryLine
  | text (words : List Char)
  /-- One execution, counted from one. -/
  | execution (number : Nat) (cycles : UInt64) (ms : Float)
  /-- How many positions were dropped. -/
  | dropped (count expected : Nat)
  | bottleneck (layer : RankedLayer)
  /-- Some of the ranked layers are not shown. -/
  | truncated (shown total : Nat)
  | operation (entry : OperationTotal)
  deriving Repr, Inhabited

namespace SummaryLine

/-- A double rounded to a counter value, its digits in groups. -/
def counter (x : Float) : List Char := grouped (toCounter x)

def words (text : String) : SummaryLine := .text text.toList

def blank : SummaryLine := .text []
def rule : SummaryLine := .text (List.replicate 70 '=')
def thinRule : SummaryLine := .text (List.replicate 70 '-')

/-- A share with one place, at the right edge of its column. -/
def share (percentage : Float) : List Char := alignRight 7 (fixed 1 percentage) ++ ['%']

def render (color : Bool) : SummaryLine → List Char
  | .text words => words
  | .execution number cycles ms =>
    "  Run ".toList ++ numeral number ++ ": ".toList ++ grouped cycles.toNat
      ++ " cycles  |  ".toList ++ fixed 3 ms ++ " ms".toList
  | .dropped count expected =>
    "Dropped positions (runs disagree): ".toList ++ numeral count ++ " of ".toList
      ++ numeral expected
  | .bottleneck layer =>
    alignRight 3 (numeral layer.id.toNat) ++ ' '
      :: painted color layer.operation.toList (alignLeft 20 layer.operation.toList)
      ++ ' ' :: alignRight 12 (counter layer.meanTicks)
      ++ ' ' :: share layer.percentage ++ ' ' :: share layer.cumulativePercentage
  | .truncated shown total =>
    "   (Showing top ".toList ++ numeral shown ++ " of ".toList ++ numeral total
      ++ " layers)".toList
  | .operation entry =>
    painted color entry.operation.toList (alignLeft 20 entry.operation.toList)
      ++ ' ' :: alignRight 12 (counter entry.totalTicks)
      ++ ' ' :: alignRight 8 (numeral entry.count)
      ++ ' ' :: alignRight 12 (counter entry.meanTicks)

end SummaryLine

namespace Profile
open SummaryLine

/-- The lines on the totals of all layers. -/
def totalLines (profile : Profile) : List SummaryLine :=
  [ .text ("Layers: ".toList ++ numeral profile.layers.length ++ " (from ".toList
      ++ numeral profile.runCount ++ " runs)".toList),
    .text ("Total ticks (layer-summed): ".toList ++ counter profile.totalTicks),
    .text ("Total cycles (layer-summed): ".toList ++ counter profile.totalCycles) ]

def executionLines (profile : Profile) : List SummaryLine :=
  let found := profile.endToEnd
  if found.samples.isEmpty then [words "End-to-end cycles (avg over runs): n/a"]
  else
    [ .text ("End-to-end cycles (avg over runs): ".toList ++ counter found.meanCycles),
      .text ("End-to-end time (avg): ".toList ++ fixed 3 found.meanMs ++ " ms @ ".toList
        ++ plain profile.clock.megahertz ++ " MHz".toList),
      words "Runs (cycles/ms):" ]
    ++ (found.samples.zip found.samplesMs).mapIdx fun index sample =>
      .execution (index + 1) sample.1 sample.2

/-- The line on dropped positions, if there are any. -/
def droppedLines (profile : Profile) : List SummaryLine :=
  if profile.dropped.isEmpty then []
  else [.dropped profile.dropped.length profile.expectedLayers]

/-- The table of the first ranked layers. -/
def bottleneckLines (profile : Profile) (limit : Nat) : List SummaryLine :=
  let ranked := rankLayers profile.layers
  [ words "Top bottlenecks (by ticks):", thinRule,
    .text (alignRight 3 "ID".toList ++ ' ' :: alignLeft 20 "Operation".toList
      ++ ' ' :: alignRight 12 "Ticks".toList ++ ' ' :: alignRight 8 "%".toList
      ++ ' ' :: alignRight 8 "Cumsum".toList),
    thinRule ]
  ++ (ranked.take limit).map .bottleneck
  ++ if ranked.length > limit then [.truncated limit ranked.length] else []

/-- The table of the ranked operations, and how many of them reach the coverage mark. -/
def operationLines (profile : Profile) : List SummaryLine :=
  let totals := operationTotals profile.layers
  [ words "Operation summary:", thinRule,
    .text (alignLeft 20 "Operation".toList ++ ' ' :: alignRight 12 "Total".toList
      ++ ' ' :: alignRight 8 "Count".toList ++ ' ' :: alignRight 12 "Average".toList),
    thinRule ]
  ++ totals.map .operation
  ++ [ thinRule,
    .text (numeral (coverageCount totals coverageMark) ++ " of ".toList
      ++ numeral totals.length ++ " operations cover ".toList ++ fixed 0 coverageMark
      ++ "% of layer ticks".toList) ]

/-- The lines of the summary, with at most `limit` of the ranked layers. -/
def summaryLines (profile : Profile) (limit : Nat) : List SummaryLine :=
  if profile.isEmpty then [words "No layer data found!"]
  else
    [rule, words "LAYER PROFILING SUMMARY", rule, blank]
      ++ profile.totalLines ++ profile.executionLines ++ profile.droppedLines
      ++ blank :: profile.bottleneckLines limit
      ++ [blank, rule, blank] ++ profile.operationLines ++ [blank, rule]

def summaryText (profile : Profile) (limit : Nat) (color : Bool) : List Char :=
  joinPieces '\n' ((profile.summaryLines limit).map (SummaryLine.render color))

end Profile
end LayerTiming
