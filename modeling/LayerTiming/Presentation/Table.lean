import LayerTiming.Files.Output
import LayerTiming.Text.Csv
import LayerTiming.Timing.Profile

/-!
# The layer table

One record for each layer, between a record of column names and two records of totals. Cells that do
not apply are empty.
-/
namespace LayerTiming
open Number Text

/-- A record of the layer table. -/
structure TableRow where
  id : List Char := []
  operation : List Char := []
  ticks : List Char := []
  cycles : List Char := []
  std : List Char := []
  ticksList : List Char := []
  endToEndCycles : List Char := []
  endToEndMs : List Char := []
  deriving DecidableEq, Repr, Inhabited

namespace TableRow

/-- The cells of a record in the order of the columns. -/
def cells (row : TableRow) : List (List Char) :=
  [row.id, row.operation, row.ticks, row.cycles, row.std, row.ticksList, row.endToEndCycles,
    row.endToEndMs]

/-- A double as a whole number, halves to the even neighbour. What is not positive, and what is no
number, is written as zero. -/
def count (x : Float) : List Char :=
  match kind x with
  | .nan => ['0']
  | .infinite negative => if negative then ['0'] else "inf".toList
  | .finite value => if value.negative then ['0'] else numeral (value.nearest .toEven)

/-- A double that is written with a point even where it is whole. -/
def decimal (x : Float) : List Char :=
  match kind x with
  | .finite value => if value.isWhole then fixed 1 x else plain x
  | _ => plain x

def ticksCell (ticks : List UInt64) : List Char :=
  '[' :: ", ".toList.intercalate (ticks.map fun n => numeral n.toNat) ++ [']']

def columnNames : TableRow where
  id := "id".toList
  operation := "operation".toList
  ticks := "ticks".toList
  cycles := "cycles".toList
  std := "std".toList
  ticksList := "ticks_list".toList
  endToEndCycles := "end_to_end_cycles".toList
  endToEndMs := "end_to_end_ms".toList

def ofLayer (layer : Layer) : TableRow where
  id := numeral layer.id.toNat
  operation := layer.operation.toList
  ticks := count layer.meanTicks
  cycles := count (roundEven layer.meanCycles)
  std := fixed 2 layer.stdTicks
  ticksList := ticksCell layer.ticks

/-- The record of the cycles of all layers, each rounded before they are added. -/
def ofTotal (layers : List Layer) : TableRow where
  operation := "TOTAL_LAYERS".toList
  cycles := count ((layers.map fun layer => roundEven layer.meanCycles).foldl (· + ·) 0.0)

/-- The record of the mean execution, if there was one. -/
def ofEndToEnd (found : Executions) : TableRow where
  operation := "END_TO_END".toList
  endToEndCycles := if found.samples.isEmpty then [] else count found.meanCycles
  endToEndMs := if found.samples.isEmpty then [] else decimal found.meanMs

end TableRow

def Profile.tableRows (profile : Profile) : List TableRow :=
  TableRow.columnNames :: profile.layers.map TableRow.ofLayer
    ++ [TableRow.ofTotal profile.layers, TableRow.ofEndToEnd profile.endToEnd]

/-- The layer table as text. Without a layer there is none. -/
def Profile.csv (profile : Profile) : Except OutputFault (List Char) :=
  if profile.isEmpty then .error .noLayers
  else .ok (Csv.write (profile.tableRows.map TableRow.cells))

end LayerTiming
