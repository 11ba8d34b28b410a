import LayerTiming.Report.File
import LayerTiming.Session.Basic

/-!
# Inspection of reports

A report file is checked and described in a few lines. The report format and the program describe
themselves.
-/
namespace LayerTiming

def programVersion : String := "0.1.0"

/-- The lines that describe a valid report. -/
def Report.description (report : Report) : List String :=
  [ "✓ Valid report JSON",
    "  Version: " ++ report.version,
    "  Source: " ++ report.source,
    "  Model: " ++ report.model.getD "unknown",
    "  Golden tests: " ++ report.golden.word,
    "  Runs: " ++ toString report.runCount,
    "  Layers: " ++ toString report.layers.length ++ " of " ++ toString report.expectedLayers
      ++ " positions",
    "  End-to-end samples: " ++ toString report.endToEnd.samples.length ]

/-- Read a report file and describe it. A report of another version is described all the same. -/
def checkReport (file : Path) : Command Unit := do
  Command.printLine ("Validating report: " ++ file.toString)
  let report ← Command.require (.invalidReport file) (Report.load (← get).files file)
  if report.version != reportVersion then
    Command.warn ("Report schema v" ++ report.version ++ " differs from current v"
      ++ reportVersion)
  report.description.forM Command.printLine

/-- The members of a report and what they hold. -/
def schemaDetails : List String :=
  [ "Schema Structure:",
    "  version: string            - Schema version (e.g., '1.0.0')",
    "  source: string             - Capture file analyzed",
    "  model: string?             - Model under test",
    "  golden: string             - passed | failed | unknown",
    "  clock: object              - cycles_per_tick, cpu_freq_hz",
    "  run_count: number          - Runs aligned",
    "  expected_layers: number    - Length of the first run",
    "  layers: array              - Averaged layers in position order",
    "    id: number               - Event id",
    "    operation: string        - Operation tag",
    "    mean_ticks: number       - Mean ticks across runs",
    "    std_ticks: number        - Population std of ticks",
    "    mean_cycles: number      - mean_ticks x cycles_per_tick",
    "    mean_ms: number          - mean_cycles / cpu_freq_hz x 1000",
    "    ticks: array             - Per-run ticks",
    "  dropped_layers: array      - Positions where runs disagree",
    "  end_to_end: object         - samples, mean_cycles, mean_ms, samples_ms",
    "  operations: array          - Per-operation totals",
    "  generated_at: string       - ISO 8601 timestamp" ]

/-- Describe the report format, in detail or not. -/
def showSchema (detailed : Bool) : Command Unit :=
  List.forM
    (["CFU Layer Profiler Report Schema", "Current Version: " ++ reportVersion, ""]
      ++ if detailed then schemaDetails else ["Use --show for detailed schema information"])
    Command.printLine

/-- Tell the versions of the program and of the report format. -/
def showVersion : Command Unit :=
  List.forM
    [ "CFU Layer Profiler v" ++ programVersion, "Report Schema: v" ++ reportVersion, "",
      "Per-layer profiling analysis for CFU Playground golden test captures." ]
    Command.printLine

end LayerTiming
