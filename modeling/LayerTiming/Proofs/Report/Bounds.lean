import LayerTiming.Proofs.Capture.Sizes
import LayerTiming.Proofs.Json.Readable
import LayerTiming.Proofs.Report.RoundTrip
import LayerTiming.Proofs.Timing.Bounds
import LayerTiming.Proofs.Timing.Reasons

/-!
# Reports that can be read

Every figure of an analysis with a running clock is a finite double far below the greatest one, and
every count is that of something in the capture. So the report of an analysis can always be read, even
where a figure comes back as its neighbour.
-/
namespace LayerTiming
open Json Number Text

theorem exists_floatReads {x : Float} (within : Within x 192) : ∃ back, FloatReads x back := by
  obtain ⟨q, bound, holds⟩ := within
  obtain ⟨value, finite, _, rfl⟩ := holds.kind
  have read_back : Scientific.read? (Scientific.ofBinary value).write =
      some (Scientific.ofBinary value) :=
    Scientific.read?_write (Scientific.isProper_ofBinary value)
  obtain ⟨back, found⟩ := Option.isSome_iff_exists.mp
    (Scientific.isSome_float?_ofBinary finite bound)
  refine ⟨back, value, finite, ?_⟩
  rw [read_back, Option.bind_some, found]

variable {clock : Clock} {runs : List Run} {samples : List UInt64}

theorem Profile.within_floats (runs_on : clock.frequency ≠ 0) {source now : String}
    {facts : CaptureFacts} :
    ∀ x ∈ ((ofRuns clock runs samples).report source facts now).floats, Within x 192 := by
  simp only [Report.floats, List.forall_mem_append, List.forall_mem_flatMap]
  -- The greatest of the bounds is that of milliseconds, and all others are brought up to it.
  refine ⟨⟨?layers, ?executions⟩, ?operations⟩
  case layers =>
    intro layer member
    change layer ∈ (ofRuns clock runs samples).layers at member
    have ticks := within_meanTicks member
    obtain ⟨std, cycles, ms⟩ := within_figures runs_on member
    simp only [Layer.floats, List.forall_mem_cons]
    exact ⟨ticks.mono (by decide), std.mono (by decide), cycles.mono (by decide), ms,
      List.forall_mem_nil _⟩
  case executions =>
    obtain ⟨cycles, ms, each⟩ := @within_executions clock samples runs_on
    simp only [Executions.floats, List.forall_mem_cons]
    refine ⟨cycles.mono (by decide), ms.mono (by decide), ?_⟩
    intro x member
    exact (each x member).mono (by decide)
  case operations =>
    intro entry member
    obtain ⟨total, ticks⟩ := within_totalTicks member
    simp only [OperationTotal.floats, List.forall_mem_cons]
    exact ⟨total.mono (by decide), ticks.mono (by decide), List.forall_mem_nil _⟩

/-- The report of runs under a running clock is read back as some report. -/
theorem Profile.exists_readsAs (runs_on : clock.frequency ≠ 0) (source : String)
    (facts : CaptureFacts) (now : String) :
    ∃ back, ((ofRuns clock runs samples).report source facts now).ReadsAs back := by
  apply (Report.exists_readsAs_iff _).mpr
  intro x member
  exact exists_floatReads (within_floats runs_on x member)

/-! ### Counts -/

theorem isCounted_of_speaksAgainst {position : Nat} {reason : Disagreement}
    (few : runs.length < wordLimit) (against : SpeaksAgainst runs position reason) :
    reason.IsCounted := by
  cases against with
  | tooShort =>
    intro index member
    obtain ⟨run, found, _⟩ := mem_shortRuns_iff.mp member
    exact (List.getElem?_eq_some_iff.mp found).1.trans few
  | differentIds => exact trivial
  | differentOperations => exact trivial

theorem isCounted_of_mem_dropped (few : runs.length < wordLimit)
    (short : ∀ run ∈ runs, run.length < wordLimit) {drop : DroppedPosition}
    (member : drop ∈ (Profile.ofRuns clock runs samples).dropped) : drop.IsCounted := by
  cases runs with
  | nil => cases member
  | cons first others =>
    -- Positions are those of the first run, and the runs named in a reason are among all runs.
    have below := position_lt_of_mem_dropped member
    exact ⟨below.trans (short first List.mem_cons_self),
      isCounted_of_speaksAgainst few (speaksAgainst_of_mem_dropped member)⟩

theorem length_layers_le : (Profile.ofRuns clock runs samples).layers.length ≤
    (runs.headD []).length := by
  cases runs with
  | nil => exact Nat.le_refl 0
  | cons first others =>
    have counted := (sharedOut_ofRuns clock first others samples).counted
    rw [List.headD_cons]
    omega

/-- As long as the runs can be counted with machine words, so can everything in their report. -/
theorem Profile.isCounted (few : runs.length < wordLimit)
    (short : ∀ run ∈ runs, run.length < wordLimit) (source : String) (facts : CaptureFacts)
    (now : String) : ((ofRuns clock runs samples).report source facts now).IsCounted := by
  have first : (runs.headD []).length < wordLimit := by
    cases runs with
    | nil => decide
    | cons first others => exact short first List.mem_cons_self
  refine ⟨few, first, ?dropped, ?operations⟩
  case dropped =>
    intro drop member
    change drop ∈ (ofRuns clock runs samples).dropped at member
    exact isCounted_of_mem_dropped few short member
  case operations =>
    intro entry member
    obtain ⟨name, _, rfl⟩ := exists_ticks_of_mem_operationTotals member
    calc (ticksOf name (ofRuns clock runs samples).layers).length
        = _ := List.length_map _
      _ ≤ (ofRuns clock runs samples).layers.length := List.length_filter_le _ _
      _ ≤ (runs.headD []).length := length_layers_le
      _ < wordLimit := first

theorem Profile.isCounted_ofText {text : List Char} (small : text.length < wordLimit)
    (policy : LeadingEvents) (source : String) (facts : CaptureFacts) (now : String) :
    ((ofRecording clock (.ofText policy text)).report source facts now).IsCounted := by
  obtain ⟨few, short⟩ := Recording.lengths_le policy text
  apply isCounted (few.trans_lt small)
  intro run member
  exact (short run member).trans_lt small

end LayerTiming
