import Mathlib.Data.List.Forall2
import Mathlib.Data.List.Induction
import LayerTiming.Timing.Profile

/-!
# Agreement of aligned runs

The positions of the first run are shared out between layers and drops. A position is kept exactly
if all runs agree there, and the layers stand in the order of the kept positions although no layer
tells its own.
-/
namespace LayerTiming

/-- Every run has an event with this id and this operation at a position. -/
def Agreed (runs : List Run) (position : Nat) (id : UInt64) (operation : String) : Prop :=
  ∀ run ∈ runs, ∃ event, run[position]? = some event ∧ event.id = id ∧ event.operation = operation

/-- What the layer of a position is: its id and operation are those of every run there, and its
figures are those of the ticks of all runs there, in the order of the runs. -/
structure LayerAt (clock : Clock) (runs : List Run) (position : Nat) (layer : Layer) : Prop where
  agreed : Agreed runs position layer.id layer.operation
  ticks : layer.ticks.map some = runs.map fun run => run[position]?.map Event.ticks
  ticks_length : layer.ticks.length = runs.length
  meanTicks : layer.meanTicks = mean layer.ticks
  stdTicks : layer.stdTicks = deviation layer.ticks
  meanCycles : layer.meanCycles = clock.cyclesOfTicks layer.meanTicks
  meanMs : layer.meanMs = clock.msOfCycles layer.meanCycles

/-! ### One position -/

theorem mem_shortRuns_iff {runs : List Run} {position index : Nat} :
    index ∈ shortRuns runs position ↔
      ∃ run, runs[index]? = some run ∧ run.length ≤ position := by
  simp only [shortRuns, List.mem_map, List.mem_filter, decide_eq_true_eq]
  constructor
  · rintro ⟨⟨run, place⟩, ⟨placed, short⟩, rfl⟩
    exact ⟨run, List.mem_zipIdx_iff_getElem?.mp placed, short⟩
  · rintro ⟨run, found, short⟩
    exact ⟨(run, index), ⟨List.mem_zipIdx_iff_getElem?.mpr found, short⟩, rfl⟩

theorem shortRuns_eq_nil_iff (runs : List Run) (position : Nat) :
    shortRuns runs position = [] ↔ ∀ run ∈ runs, position < run.length := by
  simp only [List.eq_nil_iff_forall_not_mem, mem_shortRuns_iff, not_exists, not_and, Nat.not_le]
  constructor
  · intro reaching run member
    obtain ⟨index, found⟩ := List.mem_iff_getElem?.mp member
    exact reaching index run found
  · intro reaching index run found
    exact reaching run (List.mem_of_getElem? found)

theorem Agreed.reaching {runs : List Run} {position : Nat} {id : UInt64} {operation : String}
    (agreed : Agreed runs position id operation) : ∀ run ∈ runs, position < run.length := by
  intro run member
  obtain ⟨event, found, _⟩ := agreed run member
  exact (List.getElem?_eq_some_iff.mp found).1

/-- Where all runs reach a position, their events there are one for each run. -/
theorem map_some_filterMap_getElem? (runs : List Run) (position : Nat)
    (reaching : ∀ run ∈ runs, position < run.length) :
    (runs.filterMap (·[position]?)).map some = runs.map (·[position]?) := by
  induction runs with
  | nil => rfl
  | cons run rest ih =>
    have within : position < run.length := reaching run List.mem_cons_self
    have tail := ih fun other member => reaching other (List.mem_cons_of_mem run member)
    have here : run[position]? = some run[position] := List.getElem?_eq_getElem within
    rw [List.filterMap_cons, here, List.map_cons, List.map_cons, tail, here]

/-- Where all runs reach a position, a field has a value of each run there. -/
theorem map_some_fields {α : Type} (field : Event → α) {runs : List Run} {position : Nat}
    (reaching : ∀ run ∈ runs, position < run.length) :
    ((runs.filterMap (·[position]?)).map field).map some =
      runs.map fun run => run[position]?.map field := by
  have mapped := congrArg (List.map (Option.map field))
    (map_some_filterMap_getElem? runs position reaching)
  rw [List.map_map, List.map_map] at mapped
  rw [List.map_map]
  exact mapped

theorem alignEvents_eq_ok_iff (clock : Clock) (reference : Event) (events : List Event)
    (layer : Layer) :
    alignEvents clock reference events = .ok layer ↔
      (∀ event ∈ events, event.id = reference.id ∧ event.operation = reference.operation) ∧
        Layer.ofEvents clock reference events = layer := by
  unfold alignEvents
  -- Ids are compared first, but it is only the reason that depends on this order.
  split
  next differ =>
    obtain ⟨event, member, other⟩ := List.any_eq_true.mp differ
    simp only [reduceCtorEq, false_iff]
    rintro ⟨same, _⟩
    simp [(same event member).1] at other
  next ids =>
    split
    next differ =>
      obtain ⟨event, member, other⟩ := List.any_eq_true.mp differ
      simp only [reduceCtorEq, false_iff]
      rintro ⟨same, _⟩
      simp [(same event member).2] at other
    next operations =>
      simp only [List.any_eq_true, bne_iff_ne, not_exists, not_and, not_not] at ids operations
      rw [Except.ok.injEq]
      exact ⟨fun same => ⟨fun event member => ⟨ids event member, operations event member⟩, same⟩,
        fun found => found.2⟩

/-- Alignment at a position succeeds exactly where all runs agree with the reference. -/
theorem alignPosition_eq_ok_iff (clock : Clock) (runs : List Run) (position : Nat)
    (reference : Event) (layer : Layer) :
    alignPosition clock runs position reference = .ok layer ↔
      Agreed runs position reference.id reference.operation ∧
        Layer.ofEvents clock reference (runs.filterMap (·[position]?)) = layer := by
  cases short : shortRuns runs position with
  | nil =>
    have reaching := (shortRuns_eq_nil_iff runs position).mp short
    rw [alignPosition, short, alignEvents_eq_ok_iff]
    refine and_congr_left fun _ => ?_
    constructor
    · intro same run member
      have within : position < run.length := reaching run member
      have found := List.getElem?_eq_getElem within
      exact ⟨_, found, same _ (List.mem_filterMap.mpr ⟨run, member, found⟩)⟩
    · intro agreed event member
      obtain ⟨run, run_member, found⟩ := List.mem_filterMap.mp member
      obtain ⟨other, other_found, same⟩ := agreed run run_member
      cases found.symm.trans other_found
      exact same
  | cons index others =>
    -- A run that ends before the position agrees with nothing there.
    rw [alignPosition, short]
    simp only [reduceCtorEq, false_iff]
    rintro ⟨agreed, _⟩
    rw [(shortRuns_eq_nil_iff runs position).mpr agreed.reaching] at short
    cases short

/-- The layer that is made where all runs agree is the layer of that position. -/
theorem Agreed.layerAt {runs : List Run} {position : Nat} {reference : Event}
    (agreed : Agreed runs position reference.id reference.operation) (clock : Clock) :
    LayerAt clock runs position
      (Layer.ofEvents clock reference (runs.filterMap (·[position]?))) := by
  have ticks := map_some_fields Event.ticks agreed.reaching
  have counted := congrArg List.length ticks
  simp only [List.length_map] at counted
  exact ⟨agreed, ticks, (List.length_map _).trans counted, rfl, rfl, rfl, rfl⟩

/-! ### Sharing out the positions -/

/-- What holds when the first positions have been shared out: the drops are in order and in range,
no position is lost, and the layers belong to the positions that were not dropped. -/
structure SharedOut (belongs : Nat → Layer → Prop) (count : Nat) (layers : List Layer)
    (dropped : List DroppedPosition) : Prop where
  increasing : (dropped.map DroppedPosition.position).Pairwise (· < ·)
  below : ∀ position ∈ dropped.map DroppedPosition.position, position < count
  counted : layers.length + dropped.length = count
  aligned : List.Forall₂ belongs
    ((List.range count).filter (· ∉ dropped.map DroppedPosition.position)) layers

theorem SharedOut.keep {belongs : Nat → Layer → Prop} {count : Nat} {layers : List Layer}
    {dropped : List DroppedPosition} (so_far : SharedOut belongs count layers dropped)
    (layer : Layer) (fits : belongs count layer) :
    SharedOut belongs (count + 1) (layers ++ [layer]) dropped := by
  have fresh : count ∉ dropped.map DroppedPosition.position :=
    fun member => Nat.lt_irrefl count (so_far.below count member)
  refine ⟨so_far.increasing, ?_, ?_, ?_⟩
  · intro position member
    exact Nat.lt_succ_of_lt (so_far.below position member)
  · have counted := so_far.counted
    rw [List.length_append, List.length_singleton]
    omega
  · rw [List.range_succ, List.filter_append, List.filter_cons_of_pos (by simpa using fresh)]
    exact List.rel_append so_far.aligned (.cons fits .nil)

theorem SharedOut.drop {belongs : Nat → Layer → Prop} {count : Nat} {layers : List Layer}
    {dropped : List DroppedPosition} (so_far : SharedOut belongs count layers dropped)
    (reason : Disagreement) :
    SharedOut belongs (count + 1) layers (dropped ++ [⟨count, reason⟩]) := by
  refine ⟨?_, ?_, ?_, ?_⟩
  · rw [List.map_append, List.pairwise_append]
    refine ⟨so_far.increasing, List.pairwise_singleton _ _, ?_⟩
    intro position member last last_member
    rw [List.mem_singleton.mp last_member]
    exact so_far.below position member
  · intro position member
    rw [List.map_append, List.mem_append] at member
    rcases member with old | new
    · exact Nat.lt_succ_of_lt (so_far.below position old)
    · rw [List.mem_singleton.mp new]
      exact Nat.lt_succ_self count
  · have counted := so_far.counted
    rw [List.length_append, List.length_singleton]
    omega
  · -- Below the new drop the positions that are kept stay the same.
    have unchanged : (List.range count).filter
          (· ∉ (dropped ++ [DroppedPosition.mk count reason]).map DroppedPosition.position) =
        (List.range count).filter (· ∉ dropped.map DroppedPosition.position) := by
      apply List.filter_congr
      intro position member
      have other : position ≠ count := Nat.ne_of_lt (List.mem_range.mp member)
      simp [other]
    rw [List.range_succ, List.filter_append, unchanged, List.filter_cons_of_neg (by simp),
      List.filter_nil, List.append_nil]
    exact so_far.aligned

/-- Outcomes in the order of their positions are shared out between layers and drops. -/
theorem sharedOut_outcomes (belongs : Nat → Layer → Prop)
    (outcomes : List (Except Disagreement Layer))
    (fits : ∀ position layer, outcomes[position]? = some (.ok layer) → belongs position layer) :
    SharedOut belongs outcomes.length (outcomes.filterMap keptLayer?)
      (outcomes.zipIdx.filterMap droppedPosition?) := by
  -- The induction is on the positions shared out so far, so that the last one keeps its index.
  induction outcomes using List.reverseRecOn with
  | nil => exact ⟨.nil, by simp, rfl, .nil⟩
  | append_singleton outcomes last ih =>
    have so_far := ih fun position layer found => fits position layer (by
      rw [List.getElem?_append_left (List.getElem?_eq_some_iff.mp found).1]
      exact found)
    rw [List.length_append, List.length_singleton, List.filterMap_append, List.zipIdx_append,
      List.filterMap_append]
    cases last with
    | ok layer =>
      have here : belongs outcomes.length layer := fits _ _ List.getElem?_concat_length
      simpa [List.filterMap_cons, keptLayer?, droppedPosition?] using so_far.keep layer here
    | error reason =>
      simpa [List.filterMap_cons, keptLayer?, droppedPosition?] using so_far.drop reason

/-! ### All positions of the first run -/

theorem getElem?_alignRuns (clock : Clock) (first : Run) (others : List Run) (position : Nat) :
    (alignRuns clock (first :: others))[position]? =
      first[position]?.map (alignPosition clock (first :: others) position) := by
  rw [alignRuns, List.getElem?_mapIdx]

/-- Agreement of all runs is agreement with the event of the first run. -/
theorem agreed_iff_of_first {first : Run} {others : List Run} {position : Nat} {reference : Event}
    (found : first[position]? = some reference) :
    (∃ id operation, Agreed (first :: others) position id operation) ↔
      Agreed (first :: others) position reference.id reference.operation := by
  constructor
  · rintro ⟨id, operation, agreed⟩
    obtain ⟨event, event_found, rfl, rfl⟩ := agreed first List.mem_cons_self
    cases found.symm.trans event_found
    exact agreed
  · intro agreed
    exact ⟨_, _, agreed⟩

/-- The drops are the outcomes that are reasons, each with the position it stands at. -/
theorem mem_drops_iff (outcomes : List (Except Disagreement Layer)) (drop : DroppedPosition) :
    drop ∈ outcomes.zipIdx.filterMap droppedPosition? ↔
      outcomes[drop.position]? = some (.error drop.reason) := by
  rw [List.mem_filterMap]
  constructor
  · rintro ⟨⟨outcome, index⟩, member, found⟩
    have here := List.mem_zipIdx_iff_getElem?.mp member
    cases outcome with
    | ok layer => cases found
    | error reason => cases found; exact here
  · intro here
    exact ⟨(.error drop.reason, drop.position), List.mem_zipIdx_iff_getElem?.mpr here, rfl⟩

theorem mem_dropped_iff (outcomes : List (Except Disagreement Layer)) (position : Nat) :
    position ∈ (outcomes.zipIdx.filterMap droppedPosition?).map DroppedPosition.position ↔
      ∃ reason, outcomes[position]? = some (.error reason) := by
  simp only [List.mem_map, mem_drops_iff]
  constructor
  · rintro ⟨drop, here, rfl⟩
    exact ⟨drop.reason, here⟩
  · rintro ⟨reason, here⟩
    exact ⟨⟨position, reason⟩, here, rfl⟩

/-- A position of the first run is dropped exactly if the runs do not agree there. -/
theorem mem_dropped_ofRuns_iff (clock : Clock) (first : Run) (others : List Run)
    (samples : List UInt64) (position : Nat) (within : position < first.length) :
    position ∈ (Profile.ofRuns clock (first :: others) samples).dropped.map
        DroppedPosition.position ↔
      ¬ ∃ id operation, Agreed (first :: others) position id operation := by
  have found := List.getElem?_eq_getElem within
  rw [agreed_iff_of_first found, Profile.ofRuns, mem_dropped_iff, getElem?_alignRuns, found,
    Option.map_some]
  constructor
  · rintro ⟨reason, failed⟩ agreed
    have kept := (alignPosition_eq_ok_iff clock (first :: others) position _ _).mpr ⟨agreed, rfl⟩
    rw [kept] at failed
    simp at failed
  · intro differ
    cases outcome : alignPosition clock (first :: others) position first[position] with
    | ok layer =>
      exact absurd ((alignPosition_eq_ok_iff _ _ _ _ _).mp outcome).1 differ
    | error reason => exact ⟨reason, rfl⟩

theorem sharedOut_ofRuns (clock : Clock) (first : Run) (others : List Run)
    (samples : List UInt64) :
    SharedOut (LayerAt clock (first :: others)) first.length
      (Profile.ofRuns clock (first :: others) samples).layers
      (Profile.ofRuns clock (first :: others) samples).dropped := by
  have counted : (alignRuns clock (first :: others)).length = first.length := List.length_mapIdx
  rw [← counted]
  apply sharedOut_outcomes
  intro position layer found
  rw [getElem?_alignRuns, Option.map_eq_some_iff] at found
  obtain ⟨reference, _, outcome⟩ := found
  obtain ⟨agreed, rfl⟩ := (alignPosition_eq_ok_iff _ _ _ _ _).mp outcome
  exact agreed.layerAt clock

theorem mem_positions_dropped_iff (clock : Clock) (first : Run) (others : List Run)
    (samples : List UInt64) (position : Nat) :
    position ∈ (Profile.ofRuns clock (first :: others) samples).dropped.map
        DroppedPosition.position ↔
      position < first.length ∧ ¬ ∃ id operation, Agreed (first :: others) position id operation := by
  constructor
  · intro member
    have within := (sharedOut_ofRuns clock first others samples).below position member
    exact ⟨within,
      (mem_dropped_ofRuns_iff clock first others samples position within).mp member⟩
  · rintro ⟨within, disagreed⟩
    exact (mem_dropped_ofRuns_iff clock first others samples position within).mpr disagreed

/-- The profile of runs. Its layers and drops share out the positions of the first run in order; a
position is kept if and only if all runs agree there, and the layers are those of the kept positions,
one after the other. Without runs there is neither layer nor drop, and the figures of whole
executions do not depend on the runs. -/
theorem ofRuns_aligned (clock : Clock) (samples : List UInt64) :
    (∀ (first : Run) (others : List Run),
      let runs := first :: others
      let profile := Profile.ofRuns clock runs samples
      let droppedAt := profile.dropped.map DroppedPosition.position
      let kept := (List.range first.length).filter (· ∉ droppedAt)
      profile.runCount = runs.length ∧ profile.expectedLayers = first.length ∧
      droppedAt.Pairwise (· < ·) ∧ (∀ position ∈ droppedAt, position < first.length) ∧
      profile.layers.length + profile.dropped.length = first.length ∧
      (∀ position < first.length,
        position ∈ kept ↔ ∃ id operation, Agreed runs position id operation) ∧
      List.Forall₂ (LayerAt clock runs) kept profile.layers) ∧
    ((Profile.ofRuns clock [] samples).layers = [] ∧
      (Profile.ofRuns clock [] samples).dropped = [] ∧
      (Profile.ofRuns clock [] samples).runCount = 0 ∧
      (Profile.ofRuns clock [] samples).expectedLayers = 0) ∧
    ∀ runs : List Run,
      (Profile.ofRuns clock runs samples).endToEnd = Executions.ofSamples clock samples := by
  refine ⟨?_, ⟨rfl, rfl, rfl, rfl⟩, fun _ => rfl⟩
  intro first others runs profile droppedAt kept
  have shared := sharedOut_ofRuns clock first others samples
  refine ⟨rfl, rfl, shared.increasing, shared.below, shared.counted, ?_, shared.aligned⟩
  intro position within
  have dropped_iff := mem_dropped_ofRuns_iff clock first others samples position within
  rw [List.mem_filter, decide_eq_true_eq, dropped_iff, not_not]
  exact and_iff_right (List.mem_range.mpr within)

end LayerTiming
