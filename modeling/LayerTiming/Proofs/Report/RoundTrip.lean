import LayerTiming.Proofs.Files.Writes
import LayerTiming.Proofs.Json.Grammar
import LayerTiming.Proofs.Json.Reading
import LayerTiming.Proofs.Report.Parts
import LayerTiming.Report.File

/-!
# Reports read back

A report is written as a document, and what is read from the document is the report again, with each
double read from its own text. A report with a double that is not finite is not read back.
-/
namespace LayerTiming
open Json Number Text

section Proper

theorem isProper_ofText (text : String) : (Value.ofText text).IsProper := .string _

theorem isProper_ofNat (n : Nat) : (Value.ofNat n).IsProper := .number (Scientific.isProper_ofNat n)

theorem isProper_ofWord (n : UInt64) : (ofWord n).IsProper := isProper_ofNat n.toNat

theorem isProper_ofFloat (x : Float) : (Value.ofFloat x).IsProper := by
  unfold Value.ofFloat
  split
  · exact .number (Scientific.isProper_ofBinary _)
  · exact .null

theorem isProper_ofList {α : Type} {encode : α → Value} (items : List α)
    (each : ∀ item, (encode item).IsProper) : (Value.ofList encode items).IsProper := by
  refine .array fun value member => ?_
  obtain ⟨item, _, rfl⟩ := List.mem_map.mp member
  exact each item

theorem isProper_ofMembers {members : List (String × Value)}
    (each : ∀ member ∈ members, member.2.IsProper) : (Value.ofMembers members).IsProper := by
  refine .object fun named member => ?_
  obtain ⟨field, there, rfl⟩ := List.mem_map.mp member
  exact each field there

theorem Clock.isProper_toValue (clock : Clock) : clock.toValue.IsProper :=
  isProper_ofMembers (by simp [isProper_ofWord])

theorem Layer.isProper_toValue (layer : Layer) : layer.toValue.IsProper :=
  isProper_ofMembers (by
    simp [isProper_ofWord, isProper_ofText, isProper_ofFloat, isProper_ofList _ isProper_ofWord])

theorem Disagreement.isProper_toValue (reason : Disagreement) : reason.toValue.IsProper := by
  cases reason
  all_goals
    refine isProper_ofMembers ?_
    simp [isProper_ofText, isProper_ofList _ isProper_ofNat, isProper_ofList _ isProper_ofWord,
      isProper_ofList _ isProper_ofText]

theorem DroppedPosition.isProper_toValue (drop : DroppedPosition) : drop.toValue.IsProper :=
  isProper_ofMembers (by simp [isProper_ofNat, Disagreement.isProper_toValue])

theorem Executions.isProper_toValue (found : Executions) : found.toValue.IsProper :=
  isProper_ofMembers (by
    simp [isProper_ofFloat, isProper_ofList _ isProper_ofWord, isProper_ofList _ isProper_ofFloat])

theorem OperationTotal.isProper_toValue (entry : OperationTotal) : entry.toValue.IsProper :=
  isProper_ofMembers (by simp [isProper_ofText, isProper_ofNat, isProper_ofFloat])

end Proper

def Layer.floats (layer : Layer) : List Float :=
  [layer.meanTicks, layer.stdTicks, layer.meanCycles, layer.meanMs]

def Executions.floats (found : Executions) : List Float :=
  found.meanCycles :: found.meanMs :: found.samplesMs

def OperationTotal.floats (entry : OperationTotal) : List Float :=
  [entry.totalTicks, entry.meanTicks]

theorem Layer.exists_readsAs_iff (layer : Layer) :
    (∃ back, layer.ReadsAs back) ↔ ∀ x ∈ layer.floats, ∃ back, FloatReads x back := by
  simp only [floats, List.forall_mem_cons]
  constructor
  · rintro ⟨back, reads⟩
    exact ⟨⟨_, reads.meanTicks⟩, ⟨_, reads.stdTicks⟩, ⟨_, reads.meanCycles⟩, ⟨_, reads.meanMs⟩,
      fun _ member => nomatch member⟩
  · rintro ⟨⟨a, meanTicks⟩, ⟨b, stdTicks⟩, ⟨c, meanCycles⟩, ⟨d, meanMs⟩, _⟩
    exact ⟨{ layer with meanTicks := a, stdTicks := b, meanCycles := c, meanMs := d },
      rfl, rfl, meanTicks, stdTicks, meanCycles, meanMs, rfl⟩

theorem Executions.exists_readsAs_iff (found : Executions) :
    (∃ back, found.ReadsAs back) ↔ ∀ x ∈ found.floats, ∃ back, FloatReads x back := by
  simp only [floats, List.forall_mem_cons]
  constructor
  · rintro ⟨back, reads⟩
    exact ⟨⟨_, reads.meanCycles⟩, ⟨_, reads.meanMs⟩, exists_forall₂_iff.mp ⟨_, reads.samplesMs⟩⟩
  · rintro ⟨⟨a, meanCycles⟩, ⟨b, meanMs⟩, each⟩
    obtain ⟨samplesMs, reads⟩ := exists_forall₂_iff.mpr each
    exact ⟨{ found with meanCycles := a, meanMs := b, samplesMs }, rfl, meanCycles, meanMs, reads⟩

theorem OperationTotal.exists_readsAs_iff (entry : OperationTotal) :
    (∃ back, entry.ReadsAs back) ↔ ∀ x ∈ entry.floats, ∃ back, FloatReads x back := by
  simp only [floats, List.forall_mem_cons]
  constructor
  · rintro ⟨back, reads⟩
    exact ⟨⟨_, reads.totalTicks⟩, ⟨_, reads.meanTicks⟩, fun _ member => nomatch member⟩
  · rintro ⟨⟨a, totalTicks⟩, ⟨b, meanTicks⟩, _⟩
    exact ⟨{ entry with totalTicks := a, meanTicks := b }, rfl, totalTicks, rfl, meanTicks⟩

namespace Report

def floats (report : Report) : List Float :=
  report.layers.flatMap Layer.floats ++ report.endToEnd.floats ++
    report.operations.flatMap OperationTotal.floats

/-- A report whose counts are machine words. -/
structure IsCounted (report : Report) : Prop where
  runCount : report.runCount < wordLimit
  expectedLayers : report.expectedLayers < wordLimit
  dropped : ∀ drop ∈ report.dropped, drop.IsCounted
  operations : ∀ entry ∈ report.operations, entry.count < wordLimit

/-- A report with its doubles as they are read back. -/
structure ReadsAs (report back : Report) : Prop where
  version : back.version = report.version
  source : back.source = report.source
  model : back.model = report.model
  golden : back.golden = report.golden
  clock : back.clock = report.clock
  runCount : back.runCount = report.runCount
  expectedLayers : back.expectedLayers = report.expectedLayers
  layers : List.Forall₂ Layer.ReadsAs report.layers back.layers
  dropped : back.dropped = report.dropped
  endToEnd : report.endToEnd.ReadsAs back.endToEnd
  operations : List.Forall₂ OperationTotal.ReadsAs report.operations back.operations
  generatedAt : back.generatedAt = report.generatedAt

theorem modelOfValue?_ofText (model : String) :
    modelOfValue? (.ofText model) = some (some model) := rfl

/-- All but the layers, the executions and the operations comes back as it is. -/
theorem ofValue?_toValue {report : Report} (counted : report.IsCounted) :
    ofValue? report.toValue =
      ((Value.ofList Layer.toValue report.layers).list? Layer.ofValue?).bind fun layers =>
        (Executions.ofValue? report.endToEnd.toValue).bind fun endToEnd =>
          ((Value.ofList OperationTotal.toValue report.operations).list?
            OperationTotal.ofValue?).bind fun operations =>
              some { report with layers, endToEnd, operations } := by
  have dropped : (Value.ofList DroppedPosition.toValue report.dropped).list?
      DroppedPosition.ofValue? = some report.dropped :=
    Value.list?_ofList_same fun drop member =>
      DroppedPosition.ofValue?_toValue (counted.dropped drop member)
  have runCount := Value.counter?_ofNat counted.runCount
  have expectedLayers := Value.counter?_ofNat counted.expectedLayers
  rw [ofValue?, toValue, Value.record?_ofMembers]
  · -- The model is the only member that may be missing.
    cases model : report.model <;>
      simp only [modelMember, List.append_nil, List.cons_append, List.nil_append, Fields.need?_self,
        Fields.need?_other, Fields.getD?_self, Fields.getD?_other, Fields.getD?_nil, ne_eq,
        String.reduceEq, not_false_eq_true, Option.pure_def, Option.bind_eq_bind, Option.bind_some,
        text?_ofText, verdict_ofText, modelOfValue?_ofText, Clock.ofValue?_toValue, runCount,
        expectedLayers, dropped]
  case known => cases report.model <;> simp [modelMember, names]
  case distinct => cases report.model <;> simp [modelMember]

theorem ofValue?_eq_some_iff {report back : Report} (counted : report.IsCounted) :
    ofValue? report.toValue = some back ↔ report.ReadsAs back := by
  have layers (found : List Layer) : (Value.ofList Layer.toValue report.layers).list?
      Layer.ofValue? = some found ↔ List.Forall₂ Layer.ReadsAs report.layers found :=
    Value.list?_ofList fun _ _ _ => Layer.ofValue?_toValue
  have operations (found : List OperationTotal) :
      (Value.ofList OperationTotal.toValue report.operations).list? OperationTotal.ofValue? =
        some found ↔ List.Forall₂ OperationTotal.ReadsAs report.operations found :=
    Value.list?_ofList fun entry member _ =>
      OperationTotal.ofValue?_toValue (counted.operations entry member)
  simp only [ofValue?_toValue counted, Option.bind_eq_some_iff, layers, operations,
    Executions.ofValue?_toValue, Option.some.injEq]
  constructor
  · rintro ⟨foundLayers, read_layers, found, read_found, totals, read_totals, rfl⟩
    exact ⟨rfl, rfl, rfl, rfl, rfl, rfl, rfl, read_layers, rfl, read_found, read_totals, rfl⟩
  · rintro ⟨version, source, model, golden, clock, runCount, expectedLayers, read_layers, dropped,
      read_found, read_totals, generatedAt⟩
    refine ⟨_, read_layers, _, read_found, _, read_totals, ?_⟩
    rw [← version, ← source, ← model, ← golden, ← clock, ← runCount, ← expectedLayers, ← dropped,
      ← generatedAt]

/-- What can be read back is decided by the doubles alone. -/
theorem exists_readsAs_iff (report : Report) :
    (∃ back, report.ReadsAs back) ↔ ∀ x ∈ report.floats, ∃ back, FloatReads x back := by
  have parts : (∀ x ∈ report.floats, ∃ back, FloatReads x back) ↔
      (∀ layer ∈ report.layers, ∃ back, layer.ReadsAs back) ∧
        (∃ back, report.endToEnd.ReadsAs back) ∧
        ∀ entry ∈ report.operations, ∃ back, entry.ReadsAs back := by
    simp only [floats, List.forall_mem_append, List.forall_mem_flatMap, Layer.exists_readsAs_iff,
      Executions.exists_readsAs_iff, OperationTotal.exists_readsAs_iff, and_assoc]
  rw [parts]
  constructor
  · rintro ⟨back, reads⟩
    exact ⟨exists_forall₂_iff.mp ⟨_, reads.layers⟩, ⟨_, reads.endToEnd⟩,
      exists_forall₂_iff.mp ⟨_, reads.operations⟩⟩
  · rintro ⟨each_layer, ⟨endToEnd, read_found⟩, each_entry⟩
    obtain ⟨layers, read_layers⟩ := exists_forall₂_iff.mpr each_layer
    obtain ⟨operations, read_totals⟩ := exists_forall₂_iff.mpr each_entry
    exact ⟨{ report with layers, endToEnd, operations }, rfl, rfl, rfl, rfl, rfl, rfl, rfl,
      read_layers, rfl, read_found, read_totals, rfl⟩

theorem isProper_toValue (report : Report) : report.toValue.IsProper := by
  have model : ∀ member ∈ modelMember report.model, member.2.IsProper := by
    cases report.model with
    | none => exact fun _ member => nomatch member
    | some name => exact List.forall_mem_singleton.mpr (.string _)
  refine isProper_ofMembers ?_
  simp only [List.forall_mem_append]
  refine ⟨⟨?_, model⟩, ?_⟩
  · simp [isProper_ofText]
  · simp [isProper_ofText, isProper_ofNat, Clock.isProper_toValue, Executions.isProper_toValue,
      isProper_ofList _ Layer.isProper_toValue, isProper_ofList _ DroppedPosition.isProper_toValue,
      isProper_ofList _ OperationTotal.isProper_toValue]

/-- A report is read from the bytes of its text as the report with its doubles read back. -/
theorem read?_write {report back : Report} (counted : report.IsCounted) :
    read? (Utf8.encode report.write) = some back ↔ report.ReadsAs back := by
  have document := Value.read?_encode_write (isProper_toValue report)
  rw [read?, write, document, Option.bind_some, ofValue?_eq_some_iff counted]

/-- The text of a report is a document. If every double of the report has a value that is read from
its own text, reading gives the report with these values, from the text and from a file that it was
written to. If a double is not finite, reading gives nothing. -/
theorem read_back {report : Report} (counted : report.IsCounted) :
    Grammar.IsDocument report.write ∧
    ((∀ x ∈ report.floats, ∃ back, FloatReads x back) →
      ∃ back, report.ReadsAs back ∧ read? (Utf8.encode report.write) = some back ∧
        ∀ (files after : FileSystem) (path : Path),
          files.writeOutput path report.write = (none, after) → load after path = .ok back) ∧
    ((∃ x ∈ report.floats, kind x = .nan ∨ ∃ negative, kind x = .infinite negative) →
      read? (Utf8.encode report.write) = none ∧
        ∀ (files after : FileSystem) (path : Path),
          files.writeOutput path report.write = (none, after) →
            load after path = .error .malformed) := by
  refine ⟨Grammar.isDocument_write (isProper_toValue report), ?_, ?_⟩
  · intro readable
    obtain ⟨back, reads⟩ := (exists_readsAs_iff report).mpr readable
    have found := (read?_write counted).mpr reads
    refine ⟨back, reads, found, fun files after path written => ?_⟩
    rw [load, FileSystem.read_of_writeOutput written]
    dsimp only
    rw [found]
  · rintro ⟨x, member, not_finite⟩
    have unread : ∀ back, ¬ FloatReads x back := by
      rintro back ⟨value, finite, _⟩
      rw [finite] at not_finite
      rcases not_finite with nan | ⟨negative, infinite⟩
      · cases nan
      · cases infinite
    -- A report that is read at all has a value for every double, also for this one.
    have nothing : read? (Utf8.encode report.write) = none := by
      refine Option.eq_none_iff_forall_ne_some.mpr fun back found => ?_
      have reads := (read?_write counted).mp found
      obtain ⟨y, there⟩ := (exists_readsAs_iff report).mp ⟨back, reads⟩ x member
      exact unread y there
    refine ⟨nothing, fun files after path written => ?_⟩
    rw [load, FileSystem.read_of_writeOutput written]
    dsimp only
    rw [nothing]

/-- A report with every kind of reason and with texts that need escapes. -/
theorem read_back_reasons :
    let report : Report :=
      { source := "a \"b\"\n\\", model := some "\x07é", runCount := 2, expectedLayers := 3,
        dropped := [⟨0, .tooShort [1]⟩, ⟨1, .differentIds [1, 2]⟩,
          ⟨2, .differentOperations ["", "<"]⟩],
        generatedAt := "" }
    report.IsCounted ∧ Grammar.IsDocument report.write ∧
      ∃ back, report.ReadsAs back ∧ read? (Utf8.encode report.write) = some back := by
  intro report
  have counted : report.IsCounted := by
    refine ⟨by decide, by decide, ?_, fun entry member => nomatch member⟩
    simp only [report, List.forall_mem_cons]
    exact ⟨⟨by decide, List.forall_mem_singleton.mpr (by decide)⟩, ⟨by decide, trivial⟩,
      ⟨by decide, trivial⟩, fun _ member => nomatch member⟩
  have zero : ∃ back, FloatReads 0.0 back := by
    have some_value : ((Scientific.read? (Scientific.ofBinary ⟨false, 0, -1074, false⟩).write).bind
        Scientific.float?).isSome = true := rfl
    obtain ⟨back, value⟩ := Option.isSome_iff_exists.mp some_value
    exact ⟨back, _, rfl, value⟩
  obtain ⟨document, readable, _⟩ := read_back counted
  obtain ⟨back, reads, found, _⟩ := readable (by
    simp only [report, floats, Executions.floats, List.flatMap_nil, List.nil_append, List.append_nil,
      List.forall_mem_cons]
    exact ⟨zero, zero, fun _ member => nomatch member⟩)
  exact ⟨counted, document, back, reads, found⟩

end Report
end LayerTiming
