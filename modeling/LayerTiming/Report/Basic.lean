import LayerTiming.Capture.Facts
import LayerTiming.Ranking

/-!
# Reports

A report holds everything that one analysis finds, together with what the capture says of itself and
the constants behind every derived figure.
-/
namespace LayerTiming

def reportVersion : String := "1.0.0"

/-- The report of an analysis. -/
structure Report where
  version : String := reportVersion
  /-- The capture that was analysed. -/
  source : String
  model : Option String := none
  golden : Verdict := .unknown
  clock : Clock := {}
  runCount : Nat := 0
  /-- The length of the first run. -/
  expectedLayers : Nat := 0
  layers : List Layer := []
  /-- The positions that are left out of `layers`. -/
  dropped : List DroppedPosition := []
  endToEnd : Executions := {}
  /-- The totals of the operations, the greatest first. -/
  operations : List OperationTotal := []
  /-- When the report was made. -/
  generatedAt : String
  deriving Repr, Inhabited

def Profile.report (profile : Profile) (source : String) (facts : CaptureFacts)
    (generatedAt : String) : Report where
  source
  model := facts.model
  golden := facts.golden
  clock := profile.clock
  runCount := profile.runCount
  expectedLayers := profile.expectedLayers
  layers := profile.layers
  dropped := profile.dropped
  endToEnd := profile.endToEnd
  operations := operationTotals profile.layers
  generatedAt

end LayerTiming
