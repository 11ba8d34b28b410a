import LayerTiming.Presentation.Summary
import LayerTiming.Presentation.Table
import LayerTiming.Report.Encode
import LayerTiming.Session.Basic

/-!
# Analysis of a capture

An analysis reads a capture, aligns its runs, prints the summary, and writes the report, the table
and the chart that were asked for. Without a layer neither table nor chart is written.
-/
namespace LayerTiming

/-- What an analysis is to do. -/
structure Analysis where
  /-- The capture. -/
  input : Path
  reportPath : Option Path := none
  tablePath : Option Path := none
  chartPath : Option Path := none
  chart : ChartStyle := {}
  settings : Settings := {}
  /-- Whether only the last boot of the board counts. -/
  lastBootOnly : Bool := false
  printSummary : Bool := true
  /-- How many of the ranked layers the summary shows. -/
  summaryRows : Nat := 50
  color : Bool := false
  deriving Repr, Inhabited

namespace Analysis

/-- The paths of the outputs that were asked for. -/
def outputPaths (analysis : Analysis) : List Path :=
  [analysis.reportPath, analysis.tablePath, analysis.chartPath].filterMap id

/-- The paths of report, table and chart beside a capture. -/
def defaultOutputs (input : Path) : Path × Path × Path :=
  (input.withExtension "json", input.withExtension "csv", input.withExtension "svg")

/-- Ask for every output. Those that were not asked for go beside the capture. -/
def withDefaultOutputs (analysis : Analysis) : Analysis :=
  let (report, table, chart) := defaultOutputs analysis.input
  { analysis with
    reportPath := some (analysis.reportPath.getD report)
    tablePath := some (analysis.tablePath.getD table)
    chartPath := some (analysis.chartPath.getD chart) }

/-- The first thing that speaks against an analysis before it is begun. -/
def refusal? (analysis : Analysis) (files : FileSystem) : Option Failure :=
  if analysis.input.isEmpty then some .emptyInput
  else if !files.isFile analysis.input then some (.captureMissing analysis.input)
  else if analysis.outputPaths.any (·.same analysis.input) then some .overwritesInput
  else if analysis.summaryRows = 0 then some .noRows
  else if analysis.summaryRows > greatestRows then some .tooManyRows
  else match analysis.settings.checked with
    | .error fault => some (.invalidSettings fault)
    | .ok _ =>
      if analysis.chartPath.isSome then analysis.chart.fault?.map .invalidChart else none

/-- Fail if something speaks against an analysis. -/
def check (analysis : Analysis) : Command Unit := do
  match analysis.refusal? (← get).files with
  | some failure => throw failure
  | none => pure ()

/-- The part of a capture that counts. -/
def relevantText (analysis : Analysis) (capture : List Char) : List Char :=
  if analysis.lastBootOnly then Capture.sinceLastBoot capture else capture

/-- The facts of a capture, with the model taken from its path if it names none. -/
def facts (analysis : Analysis) (text : List Char) : CaptureFacts :=
  let found := Capture.facts text
  { found with model := found.model <|> analysis.input.impliedModel? }

def profile (analysis : Analysis) (text : List Char) : Profile :=
  Profile.ofRecording analysis.settings.clock
    (Recording.ofText analysis.settings.leadingEvents text)

/-- Speak of positions that were dropped. Under strict settings they are a failure. -/
def tellDropped (analysis : Analysis) (profile : Profile) : Command Unit := do
  match profile.inconsistency? with
  | none => pure ()
  | some found =>
    if analysis.settings.strict then throw (.inconsistentRuns found)
    Command.warn ("Dropped " ++ toString profile.dropped.length ++ " of "
      ++ toString profile.expectedLayers ++ " layer positions where runs disagree")

/-- Write the report, if it was asked for. -/
def saveReport (analysis : Analysis) (profile : Profile) (facts : CaptureFacts) :
    Command Unit := do
  match analysis.reportPath with
  | none => pure ()
  | some path =>
    let report := profile.report analysis.input.toString facts (← get).now
    Command.writeOutput .unwrittenReport path report.write

/-- Write the table, if it was asked for. -/
def saveTable (analysis : Analysis) (profile : Profile) : Command Unit := do
  match analysis.tablePath with
  | none => pure ()
  | some path =>
    Command.writeOutput .unwrittenTable path (← Command.require .unwrittenTable profile.csv)

/-- Draw and write the chart, if it was asked for. -/
def saveChart (analysis : Analysis) (profile : Profile) (facts : CaptureFacts) :
    Command Unit := do
  match analysis.chartPath with
  | none => pure ()
  | some path =>
    let style := { analysis.chart with model := facts.model }
    Command.writeOutput .unwrittenChart path
      (← Command.require .undrawnChart (profile.chart style))

/-- Write the table and the chart, if they were asked for and there is a layer. -/
def saveFigures (analysis : Analysis) (profile : Profile) (facts : CaptureFacts) :
    Command Unit := do
  if profile.isEmpty then
    if analysis.tablePath.isSome || analysis.chartPath.isSome then
      Command.warn "No data to export, skipping CSV and chart"
  else
    analysis.saveTable profile
    analysis.saveChart profile facts

/-- Analyse a capture. Gives the profile that was reported on. -/
def execute (analysis : Analysis) : Command Profile := do
  let capture ← Command.require .unreadCapture (Capture.load (← get).files analysis.input)
  let text := analysis.relevantText capture
  let facts := analysis.facts text
  let profile := analysis.profile text
  analysis.tellDropped profile
  if profile.isEmpty then
    Command.warn ("No layer data found in " ++ analysis.input.toString)
  if analysis.printSummary then
    Command.print ('\n' :: profile.summaryText analysis.summaryRows analysis.color ++ ['\n'])
  analysis.saveReport profile facts
  analysis.saveFigures profile facts
  pure profile

end Analysis
end LayerTiming
