import LayerTiming.Json.Reader
import LayerTiming.Json.Record
import LayerTiming.Report.Basic

/-!
# Reading reports

A report is read by the names of its members. Members that are not known are passed over. The model,
the dropped layers and the constants of the clock may be missing.
-/
namespace LayerTiming
open Json

def Verdict.ofWord? (word : String) : Option Verdict :=
  [passed, failed, unknown].find? fun status => status.word == word

/-- A verdict is its word, or an object with nothing under its word. -/
def Verdict.ofValue? : Value → Option Verdict
  | .string (some word) => ofWord? word
  | .object [(some word, .null)] => ofWord? word
  | _ => none

def Clock.ofValue? (value : Value) : Option Clock := do
  let fields ← value.record? ["cycles_per_tick", "cpu_freq_hz"]
  pure {
    cyclesPerTick := ← fields.getD? "cycles_per_tick" Value.word? ({} : Clock).cyclesPerTick
    frequency := ← fields.getD? "cpu_freq_hz" Value.word? ({} : Clock).frequency }

def Layer.ofValue? (value : Value) : Option Layer := do
  let fields ← value.record?
    ["id", "operation", "mean_ticks", "std_ticks", "mean_cycles", "mean_ms", "ticks"]
  pure {
    id := ← fields.need? "id" Value.word?
    operation := ← fields.need? "operation" Value.text?
    meanTicks := ← fields.need? "mean_ticks" Value.float?
    stdTicks := ← fields.need? "std_ticks" Value.float?
    meanCycles := ← fields.need? "mean_cycles" Value.float?
    meanMs := ← fields.need? "mean_ms" Value.float?
    ticks := ← fields.need? "ticks" (Value.list? Value.word?) }

namespace Disagreement

/-- The name of the data of each kind of reason, and how it is read. -/
def dataOf? : String → Option (String × (Value → Option Disagreement))
  | "missing_in_runs" => some ("runs", fun value => (value.list? Value.counter?).map tooShort)
  | "id_mismatch" => some ("ids", fun value => (value.list? Value.word?).map differentIds)
  | "operation_mismatch" =>
    some ("operations", fun value => (value.list? Value.text?).map differentOperations)
  | _ => none

/-- How deep the arrays and objects of a reason may be nested. -/
def nestingLimit : Nat := 124

/-- The reason of an object with one kind and one member for the data of that kind. -/
def ofFields? (fields : Fields) : Option Disagreement :=
  match Value.valuesOf "kind" fields with
  | [.string (some kind)] => do
    let (name, decode) ← dataOf? kind
    match Value.valuesOf name fields with
    | [value] => decode value
    | _ => none
  | _ => none

/-- A reason is an object, or an array of its kind and its data. Which members belong to it is known
only when its kind is, so all of it must be loadable. -/
def ofValue? (value : Value) : Option Disagreement :=
  if value.isLoadable nestingLimit then
    match value with
    | .object members => (Value.namedMembers? members).bind ofFields?
    | .array [.string (some kind), found] => do
      let (_, decode) ← dataOf? kind
      decode found
    | _ => none
  else none

end Disagreement

def DroppedPosition.ofValue? (value : Value) : Option DroppedPosition := do
  let fields ← value.record? ["position", "reason"]
  pure {
    position := ← fields.need? "position" Value.counter?
    reason := ← fields.need? "reason" Disagreement.ofValue? }

def Executions.ofValue? (value : Value) : Option Executions := do
  let fields ← value.record? ["samples", "mean_cycles", "mean_ms", "samples_ms"]
  pure {
    samples := ← fields.need? "samples" (Value.list? Value.word?)
    meanCycles := ← fields.need? "mean_cycles" Value.float?
    meanMs := ← fields.need? "mean_ms" Value.float?
    samplesMs := ← fields.need? "samples_ms" (Value.list? Value.float?) }

def OperationTotal.ofValue? (value : Value) : Option OperationTotal := do
  let fields ← value.record? ["operation", "total_ticks", "count", "mean_ticks"]
  pure {
    operation := ← fields.need? "operation" Value.text?
    totalTicks := ← fields.need? "total_ticks" Value.float?
    count := ← fields.need? "count" Value.counter?
    meanTicks := ← fields.need? "mean_ticks" Value.float? }

namespace Report

/-- A model is a text, or nothing. -/
def modelOfValue? : Value → Option (Option String)
  | .null => some none
  | .string (some model) => some (some model)
  | _ => none

/-- The names of the members of a report. -/
def names : List String :=
  ["version", "source", "model", "golden", "clock", "run_count", "expected_layers", "layers",
    "dropped_layers", "end_to_end", "operations", "generated_at"]

def ofValue? (value : Value) : Option Report := do
  let fields ← value.record? names
  pure {
    version := ← fields.need? "version" Value.text?
    source := ← fields.need? "source" Value.text?
    model := ← fields.getD? "model" modelOfValue? none
    golden := ← fields.need? "golden" Verdict.ofValue?
    clock := ← fields.need? "clock" Clock.ofValue?
    runCount := ← fields.need? "run_count" Value.counter?
    expectedLayers := ← fields.need? "expected_layers" Value.counter?
    layers := ← fields.need? "layers" (Value.list? Layer.ofValue?)
    dropped := ← fields.getD? "dropped_layers" (Value.list? DroppedPosition.ofValue?) []
    endToEnd := ← fields.need? "end_to_end" Executions.ofValue?
    operations := ← fields.need? "operations" (Value.list? OperationTotal.ofValue?)
    generatedAt := ← fields.need? "generated_at" Value.text? }

def read? (bytes : List UInt8) : Option Report := (Value.read? bytes).bind ofValue?

end Report
end LayerTiming
