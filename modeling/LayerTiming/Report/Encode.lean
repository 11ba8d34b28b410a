import LayerTiming.Json.Writer
import LayerTiming.Report.Basic

/-!
# Reports as documents

Every part of a report is an object whose members are its fields in a fixed order. A model that is
not known is left out.
-/
namespace LayerTiming
open Json

def ofWord (n : UInt64) : Value := .ofNat n.toNat

def Clock.toValue (clock : Clock) : Value :=
  .ofMembers
    [("cycles_per_tick", ofWord clock.cyclesPerTick), ("cpu_freq_hz", ofWord clock.frequency)]

def Layer.toValue (layer : Layer) : Value :=
  .ofMembers
    [("id", ofWord layer.id), ("operation", .ofText layer.operation),
      ("mean_ticks", .ofFloat layer.meanTicks), ("std_ticks", .ofFloat layer.stdTicks),
      ("mean_cycles", .ofFloat layer.meanCycles), ("mean_ms", .ofFloat layer.meanMs),
      ("ticks", .ofList ofWord layer.ticks)]

/-- The kind of a reason is a member beside its data. -/
def Disagreement.toValue : Disagreement → Value
  | .tooShort runs =>
    .ofMembers [("kind", .ofText "missing_in_runs"), ("runs", .ofList .ofNat runs)]
  | .differentIds ids => .ofMembers [("kind", .ofText "id_mismatch"), ("ids", .ofList ofWord ids)]
  | .differentOperations operations =>
    .ofMembers
      [("kind", .ofText "operation_mismatch"), ("operations", .ofList .ofText operations)]

def DroppedPosition.toValue (drop : DroppedPosition) : Value :=
  .ofMembers [("position", .ofNat drop.position), ("reason", drop.reason.toValue)]

def Executions.toValue (found : Executions) : Value :=
  .ofMembers
    [("samples", .ofList ofWord found.samples), ("mean_cycles", .ofFloat found.meanCycles),
      ("mean_ms", .ofFloat found.meanMs), ("samples_ms", .ofList .ofFloat found.samplesMs)]

def OperationTotal.toValue (entry : OperationTotal) : Value :=
  .ofMembers
    [("operation", .ofText entry.operation), ("total_ticks", .ofFloat entry.totalTicks),
      ("count", .ofNat entry.count), ("mean_ticks", .ofFloat entry.meanTicks)]

namespace Report

/-- The member for a model, if there is one. -/
def modelMember : Option String → List (String × Value)
  | some model => [("model", .ofText model)]
  | none => []

def toValue (report : Report) : Value :=
  .ofMembers
    ([("version", .ofText report.version), ("source", .ofText report.source)]
      ++ modelMember report.model
      ++ [("golden", .ofText report.golden.word), ("clock", report.clock.toValue),
        ("run_count", .ofNat report.runCount), ("expected_layers", .ofNat report.expectedLayers),
        ("layers", .ofList Layer.toValue report.layers),
        ("dropped_layers", .ofList DroppedPosition.toValue report.dropped),
        ("end_to_end", report.endToEnd.toValue),
        ("operations", .ofList OperationTotal.toValue report.operations),
        ("generated_at", .ofText report.generatedAt)])

def write (report : Report) : List Char := report.toValue.write

end Report
end LayerTiming
