import LayerTiming.Invocation.Basic
import LayerTiming.Session.Analysis
import LayerTiming.Session.Inspection

/-!
# Running an invocation

Options of the command line go before the settings of a file, and those before the defaults.
-/
namespace LayerTiming

namespace AnalysisRequest

/-- The settings of the file that is named, or the defaults. -/
def baseSettings (request : AnalysisRequest) (files : FileSystem) : Except Failure Settings :=
  match request.settingsPath with
  | none => .ok {}
  | some path => (Settings.load files path).mapError (.noSettings (some path))

/-- The clock with the constants that are given by options. -/
def effectiveClock (request : AnalysisRequest) (base : Clock) : Except Failure Clock :=
  if request.cyclesPerTick.isSome || request.frequency.isSome then
    (Clock.checked (request.cyclesPerTick.getD base.cyclesPerTick)
      (request.frequency.getD base.frequency)).mapError (.noSettings none)
  else .ok base

/-- The settings with what is given by options. -/
def effectiveSettings (request : AnalysisRequest) (files : FileSystem) :
    Except Failure Settings := do
  let base ← request.baseSettings files
  let clock ← request.effectiveClock base.clock
  pure {
    clock
    leadingEvents := if request.leadingRun then .ownRun else base.leadingEvents
    strict := base.strict || request.strict }

/-- The look of the chart with what is given by options. -/
def chart (request : AnalysisRequest) : ChartStyle :=
  { title := request.title.getD ({} : ChartStyle).title
    width := request.width.getD ({} : ChartStyle).width }

/-- The analysis that is asked for, under these settings. -/
def analysis (request : AnalysisRequest) (settings : Settings) : Analysis :=
  let analysis : Analysis := {
    input := request.input
    reportPath := request.reportPath
    tablePath := request.tablePath
    chartPath := request.chartPath
    chart := request.chart
    settings
    lastBootOnly := request.lastBootOnly
    printSummary := !request.quiet
    summaryRows := (request.rows.map UInt64.toNat).getD 50
    color := request.color }
  if request.everyOutput then analysis.withDefaultOutputs else analysis

/-- Check and run the analysis that is asked for. -/
def run (request : AnalysisRequest) : Command Unit := do
  let settings ← Command.require id (request.effectiveSettings (← get).files)
  let analysis := request.analysis settings
  analysis.check
  let _ ← analysis.execute

end AnalysisRequest

namespace Invocation

def run : Invocation → Command Unit
  | .analyze request => request.run
  | .check file => checkReport file
  | .schema detailed => showSchema detailed
  | .version => showVersion
  | .banner => Command.printLine ("cfu-profile " ++ programVersion)

/-- The paths that are used where something is asked for. -/
def paths : Invocation → List Path
  | .analyze request =>
    request.settingsPath.toList ++ request.input :: (request.analysis {}).outputPaths
  | .check file => [file]
  | _ => []

/-- How a command line ends. -/
inductive Outcome
  | done
  | failed (failure : Failure)
  /-- The command line cannot be understood. -/
  | misused
  deriving Repr, Inhabited

def Outcome.code : Outcome → Nat
  | .done => 0
  | .failed _ => 1
  | .misused => 2

def runArguments (arguments : List String) (session : Session) : Outcome × Session :=
  match ofArguments? arguments with
  | none => (.misused, session)
  | some invocation =>
    match invocation.run.runOn session with
    | (.ok _, session) => (.done, session)
    | (.error failure, session) => (.failed failure, session)

end Invocation
end LayerTiming
