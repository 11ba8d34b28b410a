import LayerTiming.Proofs.Items
import LayerTiming.Proofs.Number.Bounds
import LayerTiming.Proofs.Number.Order
import LayerTiming.Proofs.Timing.Alignment
import LayerTiming.Proofs.Timing.Operations

/-!
# Bounds of figures

Counter values are less than two to the power 64, and so every figure that is computed from them is a
finite double that is not negative, however many runs, samples and layers there are.
-/
namespace LayerTiming
open Number

section Statistics
variable {values : List UInt64} {ticks cycles : Float} {k : Nat}

theorem within_counters : ∀ x ∈ values.map UInt64.toFloat, Within x 64 := by
  intro x member
  obtain ⟨n, _, rfl⟩ := List.mem_map.mp member
  exact within_toFloat n

theorem within_mean (values : List UInt64) : Within (mean values) 118 := by
  unfold mean
  split
  · exact within_zero 118
  next some_value =>
    rw [List.isEmpty_iff] at some_value
    have total := within_sum (mt List.map_eq_nil_iff.mp some_value) within_counters (by decide)
    have divisor : (1 : ℚ) ≤ values.length := by
      exact_mod_cast List.length_pos_of_ne_nil some_value
    exact total.div (isRounded_ofNat values.length) divisor (by decide)

theorem within_deviation (values : List UInt64) : Within (deviation values) 145 := by
  unfold deviation
  split
  · exact within_zero 145
  next some_value =>
    rw [List.isEmpty_iff] at some_value
    extract_lets center squares
    -- Counters are within the bound of their mean, and so is their distance from it.
    have each : ∀ x ∈ squares, Within x 236 := by
      intro x member
      obtain ⟨n, _, rfl⟩ := List.mem_map.mp member
      apply ((within_toFloat n).mono _).square_sub (within_mean values) (by decide)
      decide
    have total := within_sum (mt List.map_eq_nil_iff.mp some_value) each (by decide)
    have divisor : (1 : ℚ) ≤ values.length := by
      exact_mod_cast List.length_pos_of_ne_nil some_value
    exact (total.div (isRounded_ofNat values.length) divisor (by decide)).sqrt (by decide)

theorem Clock.within_cyclesOfTicks (clock : Clock) (within : Within ticks k)
    (least : k + 64 < 1024) : Within (clock.cyclesOfTicks ticks) (k + 64) :=
  within.mul (within_toFloat clock.cyclesPerTick) least

theorem Clock.within_msOfCycles {clock : Clock} (runs : clock.frequency ≠ 0)
    (within : Within cycles k) (least : k + 10 < 1024) :
    Within (clock.msOfCycles cycles) (k + 10) := by
  have divisor : (1 : ℚ) ≤ clock.frequency.toNat := by
    have some_cycle : clock.frequency.toNat ≠ 0 :=
      fun none => runs (UInt64.toNat_inj.mp none)
    exact_mod_cast Nat.pos_of_ne_zero some_cycle
  have thousand : kind 1000.0 = .finite ⟨false, 1000 * 2 ^ 43, -43, false⟩ := rfl
  have factor : Within 1000.0 10 := ⟨_, by norm_num, isMagnitude_of_kind thousand⟩
  have seconds := within.div (isRounded_toFloat clock.frequency) divisor (by omega)
  exact seconds.mul factor least

end Statistics

section Layers
variable {clock : Clock} {runs : List Run} {samples : List UInt64} {layer : Layer}

/-- Every layer is that of a position. -/
theorem exists_layerAt (member : layer ∈ (Profile.ofRuns clock runs samples).layers) :
    ∃ position, LayerAt clock runs position layer := by
  cases runs with
  | nil => cases member
  | cons first others =>
    have aligned := (sharedOut_ofRuns clock first others samples).aligned
    exact exists_forall₂_iff.mp ⟨_, aligned.flip⟩ layer member

theorem within_meanTicks (member : layer ∈ (Profile.ofRuns clock runs samples).layers) :
    Within layer.meanTicks 118 := by
  obtain ⟨position, at_position⟩ := exists_layerAt member
  rw [at_position.meanTicks]
  exact within_mean layer.ticks

/-- The other figures of a layer. -/
theorem within_figures (runs_on : clock.frequency ≠ 0)
    (member : layer ∈ (Profile.ofRuns clock runs samples).layers) :
    Within layer.stdTicks 145 ∧ Within layer.meanCycles 182 ∧ Within layer.meanMs 192 := by
  have ticks := within_meanTicks member
  obtain ⟨position, at_position⟩ := exists_layerAt member
  have cycles := clock.within_cyclesOfTicks ticks (by decide)
  rw [← at_position.meanCycles] at cycles
  refine ⟨?_, cycles, ?_⟩
  · rw [at_position.stdTicks]
    exact within_deviation layer.ticks
  · rw [at_position.meanMs]
    exact Clock.within_msOfCycles runs_on cycles (by decide)

theorem within_executions (runs_on : clock.frequency ≠ 0) :
    Within (Executions.ofSamples clock samples).meanCycles 118 ∧
      Within (Executions.ofSamples clock samples).meanMs 128 ∧
      ∀ x ∈ (Executions.ofSamples clock samples).samplesMs, Within x 74 := by
  unfold Executions.ofSamples
  split
  · exact ⟨within_zero 118, within_zero 128, List.forall_mem_nil _⟩
  · have cycles := within_mean samples
    refine ⟨cycles, Clock.within_msOfCycles runs_on cycles (by decide), ?_⟩
    intro x member
    obtain ⟨sample, _, rfl⟩ := List.mem_map.mp member
    exact Clock.within_msOfCycles runs_on (within_toFloat sample) (by decide)

/-- The totals of an operation are taken over the layers that have it. -/
theorem exists_ticks_of_mem_operationTotals {entry : OperationTotal} {layers : List Layer}
    (member : entry ∈ operationTotals layers) : ∃ name, ticksOf name layers ≠ [] ∧
      entry =
        { operation := name
          totalTicks := (ticksOf name layers).foldl (· + ·) 0.0
          count := (ticksOf name layers).length
          meanTicks := (ticksOf name layers).foldl (· + ·) 0.0 /
            Float.ofNat (ticksOf name layers).length } := by
  obtain ⟨stored, summed, rfl⟩ := List.mem_map.mp member
  obtain ⟨name, named, rfl⟩ := (mem_totalsByBits .passingOn).mp summed
  rw [operationNames_stored] at named
  obtain ⟨layer, there, rfl⟩ := mem_operationNames.mp named
  refine ⟨layer.operation, ?_, ?_⟩
  · apply List.ne_nil_of_mem
    exact List.mem_map_of_mem (List.mem_filter.mpr ⟨there, beq_self_eq_true _⟩)
  · simp [OperationTotal.shown, OperationTotal.ofTicks, Double.toFloat_total, ticksOf_stored,
      Function.comp_def]

theorem within_ticksOf {name : String} :
    ∀ x ∈ ticksOf name (Profile.ofRuns clock runs samples).layers, Within x 118 := by
  intro x member
  obtain ⟨layer, filtered, rfl⟩ := List.mem_map.mp member
  exact within_meanTicks (List.mem_filter.mp filtered).1

theorem within_totalTicks {entry : OperationTotal}
    (member : entry ∈ operationTotals (Profile.ofRuns clock runs samples).layers) :
    Within entry.totalTicks 172 ∧ Within entry.meanTicks 172 := by
  obtain ⟨name, some_ticks, rfl⟩ := exists_ticks_of_mem_operationTotals member
  have each : ∀ x ∈ ticksOf name (Profile.ofRuns clock runs samples).layers, Within x 118 :=
    within_ticksOf
  generalize ticksOf name (Profile.ofRuns clock runs samples).layers = ticks at some_ticks each ⊢
  have total := within_total each (by decide)
  have divisor : (1 : ℚ) ≤ ticks.length := by
    exact_mod_cast List.length_pos_of_ne_nil some_ticks
  exact ⟨total, total.div (isRounded_ofNat ticks.length) divisor (by decide)⟩

end Layers

end LayerTiming
