import LayerTiming.Proofs.Report.ByName

/-!
# Reports that come back unchanged

A report comes back from its file unchanged exactly if each of its doubles is read from its own text
as itself. Finite doubles of few digits are; a mean over three runs need not be.
-/
namespace LayerTiming
open Json Number Text

/-- A double that is read as one with the same text is read as itself. -/
theorem FloatReads.eq {x back : Float} (reads : FloatReads x back)
    (same : Value.ofFloat back = Value.ofFloat x) : back = x := by
  obtain ⟨value, finite, _⟩ := reads
  unfold Value.ofFloat at same
  rw [finite] at same
  cases back_kind : kind back with
  | finite other =>
    rw [back_kind] at same
    exact Scientific.eq_of_ofBinary_eq back_kind finite (Value.number.inj same)
  | infinite negative =>
    rw [back_kind] at same
    cases same
  | nan =>
    rw [back_kind] at same
    cases same

theorem eq_of_ofList_eq {α : Type} {reads : α → α → Prop} {encode : α → Value}
    {items back : List α}
    (each : ∀ {item found}, reads item found → encode found = encode item → found = item)
    (all : List.Forall₂ reads items back)
    (same : Value.ofList encode back = Value.ofList encode items) : back = items := by
  have encoded := Value.array.inj same
  induction all with
  | nil => rfl
  | cons first _ ih =>
    obtain ⟨head, tail⟩ := List.cons.inj encoded
    rw [each first head, ih (congrArg Value.array tail) tail]

theorem Layer.ReadsAs.eq {layer back : Layer} (reads : layer.ReadsAs back)
    (same : back.toValue = layer.toValue) : back = layer := by
  obtain ⟨id, operation, meanTicks, stdTicks, meanCycles, meanMs, ticks⟩ := reads
  simp only [toValue, Value.ofMembers, List.map_cons, List.map_nil, Value.object.injEq,
    List.cons.injEq, Prod.mk.injEq, true_and, and_true] at same
  obtain ⟨_, _, same_ticks, same_std, same_cycles, same_ms, _⟩ := same
  have means := meanTicks.eq same_ticks
  have deviations := stdTicks.eq same_std
  have cycles := meanCycles.eq same_cycles
  have times := meanMs.eq same_ms
  cases layer
  cases back
  simp_all

theorem Executions.ReadsAs.eq {found back : Executions} (reads : found.ReadsAs back)
    (same : back.toValue = found.toValue) : back = found := by
  obtain ⟨samples, meanCycles, meanMs, samplesMs⟩ := reads
  simp only [toValue, Value.ofMembers, List.map_cons, List.map_nil, Value.object.injEq,
    List.cons.injEq, Prod.mk.injEq, true_and, and_true] at same
  obtain ⟨_, same_cycles, same_ms, same_samples⟩ := same
  have cycles := meanCycles.eq same_cycles
  have times := meanMs.eq same_ms
  have each := eq_of_ofList_eq FloatReads.eq samplesMs same_samples
  cases found
  cases back
  simp_all

theorem OperationTotal.ReadsAs.eq {entry back : OperationTotal} (reads : entry.ReadsAs back)
    (same : back.toValue = entry.toValue) : back = entry := by
  obtain ⟨operation, totalTicks, count, meanTicks⟩ := reads
  simp only [toValue, Value.ofMembers, List.map_cons, List.map_nil, Value.object.injEq,
    List.cons.injEq, Prod.mk.injEq, true_and, and_true] at same
  obtain ⟨_, same_total, _, same_mean⟩ := same
  have totals := totalTicks.eq same_total
  have means := meanTicks.eq same_mean
  cases entry
  cases back
  simp_all

theorem Layer.readsAs_self_iff (layer : Layer) :
    layer.ReadsAs layer ↔ ∀ x ∈ layer.floats, FloatReads x x := by
  simp only [floats, List.forall_mem_cons]
  constructor
  · rintro ⟨_, _, meanTicks, stdTicks, meanCycles, meanMs, _⟩
    exact ⟨meanTicks, stdTicks, meanCycles, meanMs, List.forall_mem_nil _⟩
  · rintro ⟨meanTicks, stdTicks, meanCycles, meanMs, _⟩
    exact ⟨rfl, rfl, meanTicks, stdTicks, meanCycles, meanMs, rfl⟩

theorem Executions.readsAs_self_iff (found : Executions) :
    found.ReadsAs found ↔ ∀ x ∈ found.floats, FloatReads x x := by
  simp only [floats, List.forall_mem_cons]
  constructor
  · rintro ⟨_, meanCycles, meanMs, samplesMs⟩
    exact ⟨meanCycles, meanMs, List.forall₂_same.mp samplesMs⟩
  · rintro ⟨meanCycles, meanMs, samplesMs⟩
    exact ⟨rfl, meanCycles, meanMs, List.forall₂_same.mpr samplesMs⟩

theorem OperationTotal.readsAs_self_iff (entry : OperationTotal) :
    entry.ReadsAs entry ↔ ∀ x ∈ entry.floats, FloatReads x x := by
  simp only [floats, List.forall_mem_cons]
  constructor
  · rintro ⟨_, totalTicks, _, meanTicks⟩
    exact ⟨totalTicks, meanTicks, List.forall_mem_nil _⟩
  · rintro ⟨totalTicks, meanTicks, _⟩
    exact ⟨rfl, totalTicks, rfl, meanTicks⟩

namespace Report

variable {report back : Report} {files after : FileSystem} {path : Path}

theorem readsAs_self_iff (report : Report) :
    report.ReadsAs report ↔ ∀ x ∈ report.floats, FloatReads x x := by
  simp only [floats, List.forall_mem_append, List.forall_mem_flatMap, ← Layer.readsAs_self_iff,
    ← Executions.readsAs_self_iff, ← OperationTotal.readsAs_self_iff]
  constructor
  · intro reads
    exact ⟨⟨List.forall₂_same.mp reads.layers, reads.endToEnd⟩,
      List.forall₂_same.mp reads.operations⟩
  · rintro ⟨⟨layers, endToEnd⟩, operations⟩
    exact ⟨rfl, rfl, rfl, rfl, rfl, rfl, rfl, List.forall₂_same.mpr layers, rfl, endToEnd,
      List.forall₂_same.mpr operations, rfl⟩

theorem ReadsAs.eq (reads : report.ReadsAs back) (same : back.toValue = report.toValue) :
    back = report := by
  obtain ⟨version, source, model, golden, clock, runCount, expectedLayers, read_layers, dropped,
    read_found, read_totals, generatedAt⟩ := reads
  have parts : Value.ofList Layer.toValue back.layers = .ofList Layer.toValue report.layers ∧
      back.endToEnd.toValue = report.endToEnd.toValue ∧
      Value.ofList OperationTotal.toValue back.operations =
        .ofList OperationTotal.toValue report.operations := by
    simp only [toValue, Value.ofMembers, Value.object.injEq, model, List.map_append,
      List.append_assoc] at same
    have rest := List.append_cancel_left (List.append_inj_right same rfl)
    simp only [List.map_cons, List.map_nil, List.cons.injEq, Prod.mk.injEq, true_and,
      and_true] at rest
    obtain ⟨_, _, _, _, same_layers, _, same_found, same_totals, _⟩ := rest
    exact ⟨same_layers, same_found, same_totals⟩
  have layers := eq_of_ofList_eq Layer.ReadsAs.eq read_layers parts.1
  have found := read_found.eq parts.2.1
  have totals := eq_of_ofList_eq OperationTotal.ReadsAs.eq read_totals parts.2.2
  cases report
  cases back
  simp_all

theorem load_written_iff (counted : report.IsCounted)
    (written : files.writeOutput path report.write = (none, after)) :
    load after path = .ok back ↔ report.ReadsAs back := by
  rw [load_of_read (FileSystem.read_of_writeOutput written), ← read?_write counted]
  cases read? (Utf8.encode report.write) <;> simp

/-- A report comes back from the file that it was written to exactly if each of its doubles is read
from its own text as itself. If its doubles are finite and have few digits, it does. What comes back
as another report has another text. -/
theorem load_unchanged_iff (counted : report.IsCounted)
    (written : files.writeOutput path report.write = (none, after)) :
    (load after path = .ok report ↔ ∀ x ∈ report.floats, FloatReads x x) ∧
      ((∀ x ∈ report.floats, FewDigits x) → load after path = .ok report) ∧
      ∀ back, load after path = .ok back → (back.write = report.write ↔ back = report) := by
  have unchanged := (load_written_iff counted written).trans (readsAs_self_iff report)
  refine ⟨unchanged, fun few => ?_, fun back loaded => ⟨fun same => ?_, congrArg write⟩⟩
  · exact unchanged.mpr fun x member => (few x member).floatReads
  · -- The text of a report holds its document.
    have document := Value.read?_encode_write (isProper_toValue back)
    rw [← write, same, write, Value.read?_encode_write (isProper_toValue report)] at document
    have reads := (load_written_iff counted written).mp loaded
    exact reads.eq (Option.some.inj document).symm

/-- The report of runs of a single layer, each with its ticks. -/
def ofTicks (ticks : List UInt64) : Report :=
  (Profile.ofRuns {} (ticks.map fun count => [⟨0, "ADD", count⟩]) []).report "a.txt" {} ""

/-- The mean of two runs has few digits. -/
theorem load_unchanged_of_halves :
    let report := ofTicks [90, 91]
    let written := ({} : FileSystem).writeOutput (.ofString "a.json") report.write
    report.IsCounted ∧ written.1 = none ∧ (∀ x ∈ report.floats, FewDigits x) ∧
      load written.2 (.ofString "a.json") = .ok report := by
  intro report written
  have counted : report.IsCounted := by
    refine ⟨by decide, by decide, List.forall_mem_nil _, ?_⟩
    decide +kernel
  have few : ∀ x ∈ report.floats, FewDigits x := by decide +kernel
  have no_fault : written.1 = none := rfl
  exact ⟨counted, no_fault, few, (load_unchanged_iff counted (Prod.ext no_fault rfl)).2.1 few⟩

/-- The mean of three runs does not come back. -/
theorem load_changed_of_thirds :
    let report := ofTicks [90, 90, 91]
    let written := ({} : FileSystem).writeOutput (.ofString "a.json") report.write
    report.IsCounted ∧ written.1 = none ∧
      (∀ x ∈ report.floats, ∃ value, kind x = .finite value) ∧
      load written.2 (.ofString "a.json") ≠ .ok report := by
  intro report written
  have counted : report.IsCounted := by
    refine ⟨by decide, by decide, List.forall_mem_nil _, ?_⟩
    decide +kernel
  have finite : ∀ x ∈ report.floats, (kind x).value?.isSome = true := by decide +kernel
  have no_fault : written.1 = none := rfl
  refine ⟨counted, no_fault, fun x member => ?_, fun unchanged => ?_⟩
  · obtain ⟨value, found⟩ := Option.isSome_iff_exists.mp (finite x member)
    exact ⟨value, Kind.value?_eq_some.mp found⟩
  · have reads := (readsAs_self_iff report).mp
      ((load_written_iff counted (Prod.ext no_fault rfl)).mp unchanged)
    -- Only the bits of doubles can be compared by evaluation.
    have bits : ∀ x ∈ report.floats, ∀ value ∈ (kind x).value?,
        (((Scientific.read? (Scientific.ofBinary value).write).bind Scientific.float?).map
          Float.toBits) = some x.toBits := by
      intro x member value found
      obtain ⟨same, finite, read⟩ := reads x member
      have this := Kind.value?_eq_some.mp found
      rw [finite] at this
      cases this
      rw [read]
      rfl
    revert bits
    decide +kernel

end Report
end LayerTiming
