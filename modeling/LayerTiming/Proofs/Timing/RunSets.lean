import Mathlib.Data.List.Perm.Basic
import Mathlib.Data.List.Sort
import LayerTiming.Proofs.Items
import LayerTiming.Proofs.Timing.Reasons

/-!
# The set of runs

Which positions are kept depends on the first run and on which other runs there are, not on their
order or on how often one is repeated. With more runs there is less to agree on, so a position may be
lost but none comes back, and one that stays keeps its id and operation. Only the indices in reasons
and the ticks of layers follow the order of the runs.
-/
namespace LayerTiming

/-- A reason without what it tells. -/
inductive Disagreement.Kind
  | tooShort
  | differentIds
  | differentOperations
  deriving DecidableEq, Repr

def Disagreement.kind : Disagreement → Kind
  | .tooShort _ => .tooShort
  | .differentIds _ => .differentIds
  | .differentOperations _ => .differentOperations

namespace Profile

/-- The positions that became layers, in order. -/
def keptPositions (profile : Profile) : List Nat :=
  (List.range profile.expectedLayers).filter (· ∉ profile.dropped.map DroppedPosition.position)

/-- The layers, each with its position. -/
def keptLayers (profile : Profile) : List (Nat × Layer) := profile.keptPositions.zip profile.layers

end Profile

/-! ### What more runs change at a position -/

section Position
variable {fewer more : List Run} {position : Nat}

theorem Missed.mono (within : fewer ⊆ more) (missed : Missed fewer position) :
    Missed more position := by
  obtain ⟨run, member, nothing⟩ := missed
  exact ⟨run, within member, nothing⟩

theorem SameAt.anti {α : Type} {field : Event → α} (within : fewer ⊆ more)
    (same : SameAt field more position) : SameAt field fewer position := by
  obtain ⟨value, all⟩ := same
  exact ⟨value, fun run member => all run (within member)⟩

theorem Agreed.anti {id : UInt64} {operation : String} (within : fewer ⊆ more)
    (agreed : Agreed more position id operation) : Agreed fewer position id operation :=
  fun run member => agreed run (within member)

theorem Agreed.unique {first : Run} {others : List Run} {id other_id : UInt64}
    {operation other_operation : String} (here : Agreed (first :: fewer) position id operation)
    (there : Agreed (first :: others) position other_id other_operation) :
    id = other_id ∧ operation = other_operation := by
  obtain ⟨event, found, rfl, rfl⟩ := here first List.mem_cons_self
  obtain ⟨same, again, rfl, rfl⟩ := there first List.mem_cons_self
  cases found.symm.trans again
  exact ⟨rfl, rfl⟩

/-- What kind of reason speaks against a position depends on the set of runs alone. -/
theorem SpeaksAgainst.kind_eq {left right : Disagreement} (within : fewer ⊆ more)
    (covered : more ⊆ fewer) (here : SpeaksAgainst fewer position left)
    (there : SpeaksAgainst more position right) : left.kind = right.kind := by
  -- What one kind of reason needs in one list is carried over and rules out the other kinds.
  cases here with
  | tooShort missed =>
    have missed_there := missed.mono within
    cases there with
    | tooShort => rfl
    | differentIds reached => exact absurd missed_there reached
    | differentOperations same => exact absurd missed_there same.not_missed
  | differentIds reached differ =>
    cases there with
    | tooShort missed => exact absurd (missed.mono covered) reached
    | differentIds => rfl
    | differentOperations same => exact absurd (same.anti within) differ
  | differentOperations same =>
    have same_there := same.anti covered
    cases there with
    | tooShort missed => exact absurd missed same_there.not_missed
    | differentIds _ differ => exact absurd same_there differ
    | differentOperations => rfl

end Position

/-! ### Kept positions and their layers -/

section Kept
variable (clock : Clock) (first : Run) (others : List Run) (samples : List UInt64)

theorem forall₂_layerAt_keptPositions :
    List.Forall₂ (LayerAt clock (first :: others))
      (Profile.ofRuns clock (first :: others) samples).keptPositions
      (Profile.ofRuns clock (first :: others) samples).layers :=
  (sharedOut_ofRuns clock first others samples).aligned

theorem mem_keptPositions_iff (position : Nat) :
    position ∈ (Profile.ofRuns clock (first :: others) samples).keptPositions ↔
      position < first.length ∧ ∃ id operation, Agreed (first :: others) position id operation := by
  unfold Profile.keptPositions
  rw [List.mem_filter, decide_eq_true_eq, List.mem_range]
  refine and_congr_right fun within => ?_
  rw [mem_dropped_ofRuns_iff clock first others samples position within, not_not]

variable {clock first others samples} {position : Nat}

theorem layerAt_of_mem_keptLayers {layer : Layer}
    (member : (position, layer) ∈ (Profile.ofRuns clock (first :: others) samples).keptLayers) :
    position < first.length ∧ LayerAt clock (first :: others) position layer :=
  ⟨((mem_keptPositions_iff clock first others samples position).mp (List.of_mem_zip member).1).1,
    List.forall₂_zip (forall₂_layerAt_keptPositions clock first others samples) member⟩

/-- Where all runs agree there is a layer. -/
theorem exists_mem_keptLayers (within : position < first.length)
    (agreed : ∃ id operation, Agreed (first :: others) position id operation) :
    ∃ layer, (position, layer) ∈ (Profile.ofRuns clock (first :: others) samples).keptLayers := by
  have kept := (mem_keptPositions_iff clock first others samples position).mpr ⟨within, agreed⟩
  have counted := (forall₂_layerAt_keptPositions clock first others samples).length_eq
  rw [← List.map_fst_zip (Nat.le_of_eq counted)] at kept
  obtain ⟨⟨_, layer⟩, paired, rfl⟩ := List.mem_map.mp kept
  exact ⟨layer, paired⟩

end Kept

/-! ### Two lists of the same runs -/

section Sets
variable (clock other_clock : Clock) (samples other_samples : List UInt64) {first : Run}
  {fewer more : List Run} (within : first :: fewer ⊆ first :: more)
  (covered : first :: more ⊆ first :: fewer)
include within covered

theorem dropped_positions_eq :
    (Profile.ofRuns clock (first :: fewer) samples).dropped.map DroppedPosition.position =
      (Profile.ofRuns other_clock (first :: more) other_samples).dropped.map
        DroppedPosition.position := by
  -- Both lists are increasing, so it is enough that they hold the same positions.
  apply List.Pairwise.eq_of_mem_iff (sharedOut_ofRuns clock first fewer samples).increasing
    (sharedOut_ofRuns other_clock first more other_samples).increasing
  intro position
  have agreed_iff : (∃ id operation, Agreed (first :: fewer) position id operation) ↔
      ∃ id operation, Agreed (first :: more) position id operation :=
    exists_congr fun id => exists_congr fun operation => ⟨Agreed.anti covered, Agreed.anti within⟩
  rw [mem_positions_dropped_iff, mem_positions_dropped_iff, agreed_iff]

theorem keptPositions_eq :
    (Profile.ofRuns clock (first :: fewer) samples).keptPositions =
      (Profile.ofRuns other_clock (first :: more) other_samples).keptPositions := by
  unfold Profile.keptPositions
  rw [dropped_positions_eq clock other_clock samples other_samples within covered]
  rfl

/-- The drops of the same runs are those of the same positions, for reasons of the same kinds. -/
theorem forall₂_kinds :
    List.Forall₂ (fun drop other => drop.position = other.position ∧
        drop.reason.kind = other.reason.kind)
      (Profile.ofRuns clock (first :: fewer) samples).dropped
      (Profile.ofRuns other_clock (first :: more) other_samples).dropped := by
  have placed (drops : List DroppedPosition) :
      List.Forall₂ (fun position drop => drop ∈ drops ∧ drop.position = position)
        (drops.map DroppedPosition.position) drops := by
    rw [List.forall₂_map_left_iff, List.forall₂_same]
    exact fun drop member => ⟨member, rfl⟩
  have there := placed (Profile.ofRuns other_clock (first :: more) other_samples).dropped
  -- The positions are the same list, so the drops stand side by side.
  rw [← dropped_positions_eq clock other_clock samples other_samples within covered] at there
  refine forall₂_of_common ?_ (placed _) there
  rintro _ drop ⟨position, reason⟩ ⟨member, rfl⟩ ⟨other_member, rfl⟩
  exact ⟨rfl, (speaksAgainst_of_mem_dropped member).kind_eq within covered
    (speaksAgainst_of_mem_dropped other_member)⟩

variable {clock other_clock samples other_samples}

/-- The layers of the same runs are those of the same positions. -/
theorem forall₂_layers {R : Layer → Layer → Prop}
    (each : ∀ position layer other, LayerAt clock (first :: fewer) position layer →
      LayerAt other_clock (first :: more) position other → R layer other) :
    List.Forall₂ R (Profile.ofRuns clock (first :: fewer) samples).layers
      (Profile.ofRuns other_clock (first :: more) other_samples).layers := by
  have there := forall₂_layerAt_keptPositions other_clock first more other_samples
  rw [← keptPositions_eq clock other_clock samples other_samples within covered] at there
  exact forall₂_of_common each (forall₂_layerAt_keptPositions clock first fewer samples) there

end Sets

theorem LayerAt.ticks_perm {clock other_clock : Clock} {runs shuffled : List Run} {position : Nat}
    {layer other : Layer} (rearranged : runs.Perm shuffled)
    (here : LayerAt clock runs position layer) (there : LayerAt other_clock shuffled position other) :
    layer.ticks.Perm other.ticks := by
  rw [← List.map_perm_map_iff (Option.some_injective UInt64), here.ticks, there.ticks]
  exact rearranged.map _

/-- Two lists of runs with the same first run, the second holding every run of the first. What is kept
of the second list is kept of the first, with the same id and operation. If both hold the same runs,
they keep and drop the same positions for reasons of the same kinds, and if one is a rearrangement of
the other, so are the ticks of each layer. Neither the clock nor the samples matter. -/
theorem ofRuns_of_subset (clock other_clock : Clock) (first : Run) (fewer more : List Run)
    (samples other_samples : List UInt64) (within : first :: fewer ⊆ first :: more) :
    let least := Profile.ofRuns clock (first :: fewer) samples
    let most := Profile.ofRuns other_clock (first :: more) other_samples
    least.expectedLayers = most.expectedLayers ∧
    (∀ position layer, (position, layer) ∈ most.keptLayers →
      ∃ same, (position, same) ∈ least.keptLayers ∧
        same.id = layer.id ∧ same.operation = layer.operation) ∧
    (first :: more ⊆ first :: fewer →
      least.keptPositions = most.keptPositions ∧
      List.Forall₂ (fun layer other => layer.id = other.id ∧ layer.operation = other.operation)
        least.layers most.layers ∧
      List.Forall₂ (fun drop other => drop.position = other.position ∧
        drop.reason.kind = other.reason.kind) least.dropped most.dropped) ∧
    ((first :: fewer).Perm (first :: more) →
      List.Forall₂ (fun layer other => layer.ticks.Perm other.ticks) least.layers most.layers) := by
  intro least most
  refine ⟨rfl, ?_, ?_, ?_⟩
  · intro position layer member
    obtain ⟨reached, there⟩ := layerAt_of_mem_keptLayers member
    -- All of the second list agree there, so the runs of the first list do too.
    have agreed := there.agreed.anti within
    obtain ⟨same, kept⟩ : ∃ same, (position, same) ∈ least.keptLayers :=
      exists_mem_keptLayers reached ⟨_, _, agreed⟩
    exact ⟨same, kept, (layerAt_of_mem_keptLayers kept).2.agreed.unique agreed⟩
  · intro covered
    refine ⟨keptPositions_eq clock other_clock samples other_samples within covered, ?_,
      forall₂_kinds clock other_clock samples other_samples within covered⟩
    apply forall₂_layers within covered
    intro position layer other here there
    exact here.agreed.unique there.agreed
  · intro shuffled
    apply forall₂_layers within shuffled.symm.subset
    intro position layer other here there
    exact here.ticks_perm shuffled there

/-- Two later runs change places. One of them disagrees with the first run at its second position and
ends before its third. -/
theorem ofRuns_of_swapped :
    let first : Run := [⟨0, "CONV_2D", 10⟩, ⟨1, "ADD", 3⟩, ⟨2, "MUL", 4⟩]
    let second : Run := [⟨0, "CONV_2D", 12⟩, ⟨1, "SUB", 3⟩]
    let third : Run := [⟨0, "CONV_2D", 11⟩, ⟨1, "ADD", 5⟩, ⟨2, "MUL", 5⟩, ⟨3, "MUL", 5⟩]
    let one := Profile.ofRuns {} [first, second, third] []
    let other := Profile.ofRuns {} [first, third, second] []
    [first, second, third].Perm [first, third, second] ∧ one.keptPositions = [0] ∧
      other.keptPositions = [0] ∧
      List.Forall₂ (fun layer other => layer.id = other.id ∧ layer.operation = other.operation)
        one.layers other.layers ∧
      List.Forall₂ (fun drop other => drop.position = other.position ∧
        drop.reason.kind = other.reason.kind) one.dropped other.dropped ∧
      List.Forall₂ (fun layer other => layer.ticks.Perm other.ticks) one.layers other.layers := by
  intro first second third one other
  have swapped : [first, second, third].Perm [first, third, second] :=
    (List.Perm.swap third second []).cons first
  obtain ⟨_, _, same, shuffled⟩ :=
    ofRuns_of_subset {} {} first [second, third] [third, second] [] [] swapped.subset
  obtain ⟨kept, layers, dropped⟩ := same swapped.symm.subset
  have kept_one : one.keptPositions = [0] := by decide
  exact ⟨swapped, kept_one, kept.symm.trans kept_one, layers, dropped, shuffled swapped⟩

end LayerTiming
