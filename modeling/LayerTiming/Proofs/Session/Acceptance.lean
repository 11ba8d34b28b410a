import LayerTiming.Session.Analysis

/-!
# Analyses that are accepted

An analysis is looked at before it is begun. What is accepted has a capture that is a file, asks for
no output under the path of the capture itself, and has a clock without a zero. A chart that is asked
for has room for both of its panels.
-/
namespace LayerTiming

theorem Clock.fault?_eq_none_iff {clock : Clock} :
    clock.fault? = none ↔ clock.cyclesPerTick ≠ 0 ∧ clock.frequency ≠ 0 := by
  unfold fault?
  split
  next zero => simp [zero]
  next ticks =>
    split
    next zero => simp [zero]
    next frequency => simp [ticks, frequency]

namespace Analysis

theorem guard_eq_none_iff {α : Type} {condition : Prop} [Decidable condition] {found : α}
    {rest : Option α} :
    (if condition then some found else rest) = none ↔ ¬ condition ∧ rest = none := by
  split
  next holds => simp [holds]
  next fails => simp [fails]

/-- An analysis is accepted if all that is looked at before it is in order. -/
theorem refusal?_eq_none_iff (analysis : Analysis) (files : FileSystem) :
    analysis.refusal? files = none ↔
      analysis.input.isEmpty = false ∧ files.isFile analysis.input = true ∧
      analysis.outputPaths.any (·.same analysis.input) = false ∧
      1 ≤ analysis.summaryRows ∧ analysis.summaryRows ≤ greatestRows ∧
      analysis.settings.clock.fault? = none ∧
      (analysis.chartPath.isSome = true → analysis.chart.fault? = none) := by
  unfold refusal?
  simp only [guard_eq_none_iff, Bool.not_eq_true, Bool.not_eq_false', gt_iff_lt, Nat.not_lt,
    ← Nat.one_le_iff_ne_zero, Settings.checked]
  -- What is left is the clock, and then the size of the chart, if there is one.
  cases analysis.settings.clock.fault? with
  | some fault => simp
  | none => cases analysis.chartPath.isSome <;> simp

variable {analysis : Analysis} {files : FileSystem}

/-- The capture of an analysis that is not refused is a file. -/
theorem exists_capture_of_accepted (accepted : analysis.refusal? files = none) :
    ∃ location bytes, files.locate analysis.input = .ok location ∧
      files.lookup location = some (.file bytes) := by
  have present := ((analysis.refusal?_eq_none_iff files).mp accepted).2.1
  unfold FileSystem.isFile FileSystem.find? at present
  cases located : files.locate analysis.input with
  | error fault => simp [located] at present
  | ok location =>
    simp only [located] at present
    split at present
    next bytes found => exact ⟨location, bytes, rfl, found⟩
    · cases present

theorem frequency_ne_zero_of_accepted (accepted : analysis.refusal? files = none) :
    analysis.settings.clock.frequency ≠ 0 := by
  obtain ⟨_, _, _, _, _, sound, _⟩ := (analysis.refusal?_eq_none_iff files).mp accepted
  exact (Clock.fault?_eq_none_iff.mp sound).2

theorem chart_fault?_of_accepted (accepted : analysis.refusal? files = none) {path : Path}
    (asked : analysis.chartPath = some path) : analysis.chart.fault? = none := by
  obtain ⟨_, _, _, _, _, _, room⟩ := (analysis.refusal?_eq_none_iff files).mp accepted
  exact room (by rw [asked]; rfl)

end Analysis
end LayerTiming
