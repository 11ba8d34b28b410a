import LayerTiming.Proofs.Timing.Alignment

/-!
# Reasons of drops

A position is dropped for the first of three reasons that applies to it: some run ends before it, the
ids differ, or the operations differ. The reason tells all the runs, ids or operations that speak
against the position. Since runs only ever end, the positions that some run does not reach are the
last ones of the first run, and the further back one is, the more runs miss it.
-/
namespace LayerTiming

/-- Some run has no event at a position. -/
def Missed (runs : List Run) (position : Nat) : Prop := ∃ run ∈ runs, run[position]? = none

/-- Every run has an event at a position, and a field of it has the same value in all of them. -/
def SameAt {α : Type} (field : Event → α) (runs : List Run) (position : Nat) : Prop :=
  ∃ value, ∀ run ∈ runs, run[position]?.map field = some value

/-- The values of a field at a position, one of each run in the order of the runs. -/
def ValuesAt {α : Type} (field : Event → α) (runs : List Run) (position : Nat) (values : List α) :
    Prop :=
  values.map some = runs.map fun run => run[position]?.map field

/-- No two of the values differ. -/
def AllEqual {α : Type} (values : List α) : Prop := ∀ a ∈ values, ∀ b ∈ values, a = b

/-- What a reason has to tell about a position: the runs that miss it, counted from zero and in
increasing order, or the values that differ, one of each run. -/
def Disagreement.Tells (runs : List Run) (position : Nat) : Disagreement → Prop
  | .tooShort indices =>
    indices ≠ [] ∧ 0 ∉ indices ∧ indices.Pairwise (· < ·) ∧
      ∀ index, index ∈ indices ↔ ∃ run, runs[index]? = some run ∧ run[position]? = none
  | .differentIds ids => ValuesAt Event.id runs position ids ∧ ¬ AllEqual ids
  | .differentOperations operations =>
    ValuesAt Event.operation runs position operations ∧ ¬ AllEqual operations

/-! ### Runs that miss a position -/

theorem not_missed_iff {runs : List Run} {position : Nat} :
    ¬ Missed runs position ↔ ∀ run ∈ runs, position < run.length := by
  simp only [Missed, List.getElem?_eq_none_iff, not_exists, not_and, Nat.not_le]

theorem shortRuns_ne_nil_iff {runs : List Run} {position : Nat} :
    shortRuns runs position ≠ [] ↔ Missed runs position := by
  rw [Ne, shortRuns_eq_nil_iff, ← not_missed_iff, not_not]

/-- The indices of runs that are left out of all indices stay in order. -/
theorem shortRuns_sublist_range (runs : List Run) (position : Nat) :
    (shortRuns runs position).Sublist (List.range runs.length) := by
  have all : runs.zipIdx.map Prod.snd = List.range runs.length := by
    rw [List.zipIdx_map_snd, List.range_eq_range']
  rw [← all]
  exact List.filter_sublist.map Prod.snd

/-- A run that misses a position misses every later one. -/
theorem shortRuns_sublist {position later : Nat} (runs : List Run) (order : position ≤ later) :
    (shortRuns runs position).Sublist (shortRuns runs later) := by
  apply List.Sublist.map
  apply List.monotone_filter_right
  rintro ⟨run, index⟩ short
  have ends : run.length ≤ position := of_decide_eq_true short
  exact decide_eq_true (Nat.le_trans ends order)

theorem shortRuns_tells {first : Run} {others : List Run} {position : Nat}
    (reached : position < first.length) (missed : Missed (first :: others) position) :
    Disagreement.Tells (first :: others) position
      (.tooShort (shortRuns (first :: others) position)) := by
  refine ⟨shortRuns_ne_nil_iff.mpr missed, ?_, ?_, ?_⟩
  · intro zero
    obtain ⟨run, found, short⟩ := mem_shortRuns_iff.mp zero
    cases found
    exact absurd short (Nat.not_le.mpr reached)
  · exact List.pairwise_lt_range.sublist (shortRuns_sublist_range _ position)
  · intro index
    simp only [mem_shortRuns_iff, List.getElem?_eq_none_iff]

/-! ### One position -/

section Position
variable {runs : List Run} {position : Nat}

theorem SameAt.not_missed {α : Type} {field : Event → α} (same : SameAt field runs position) :
    ¬ Missed runs position := by
  obtain ⟨value, all⟩ := same
  rintro ⟨run, member, nothing⟩
  have here := all run member
  rw [nothing] at here
  cases here

theorem valuesAt_filterMap {α : Type} (field : Event → α) (reached : ¬ Missed runs position) :
    ValuesAt field runs position ((runs.filterMap (·[position]?)).map field) :=
  map_some_fields field (not_missed_iff.mp reached)

/-- The values at a position are all equal exactly if they are the same in every run. -/
theorem ValuesAt.allEqual_iff {α : Type} {field : Event → α} {values : List α}
    (told : ValuesAt field runs position values) (some_run : runs ≠ []) :
    AllEqual values ↔ SameAt field runs position := by
  constructor
  · intro equal
    -- The value of the first run is that of all, since each run has its value in the list.
    obtain ⟨first, others, rfl⟩ := List.exists_cons_of_ne_nil some_run
    obtain ⟨value, rest, rfl⟩ : ∃ value rest, values = value :: rest := by
      apply List.exists_cons_of_ne_nil
      rintro rfl
      cases told
    refine ⟨value, fun run member => ?_⟩
    have listed : run[position]?.map field ∈ (value :: rest).map some := by
      rw [told]
      exact List.mem_map_of_mem member
    obtain ⟨other, other_listed, found⟩ := List.mem_map.mp listed
    rw [← found, equal other other_listed value List.mem_cons_self]
  · rintro ⟨value, all⟩
    have each : ∀ a ∈ values, a = value := by
      intro a member
      have listed := List.mem_map_of_mem (f := some) member
      rw [told] at listed
      obtain ⟨run, there, found⟩ := List.mem_map.mp listed
      exact Option.some.inj (found.symm.trans (all run there))
    intro a a_member b b_member
    rw [each a a_member, each b b_member]

/-- What speaks against a position: the first of three things that holds there. -/
inductive SpeaksAgainst (runs : List Run) (position : Nat) : Disagreement → Prop
  | tooShort (missed : Missed runs position) :
    SpeaksAgainst runs position (.tooShort (shortRuns runs position))
  | differentIds {ids : List UInt64} (reached : ¬ Missed runs position)
      (differ : ¬ SameAt Event.id runs position) (told : ValuesAt Event.id runs position ids) :
    SpeaksAgainst runs position (.differentIds ids)
  | differentOperations {operations : List String} (same : SameAt Event.id runs position)
      (differ : ¬ SameAt Event.operation runs position)
      (told : ValuesAt Event.operation runs position operations) :
    SpeaksAgainst runs position (.differentOperations operations)

theorem alignEvents_eq_error {clock : Clock} {reference : Event} {events : List Event}
    {reason : Disagreement} (failed : alignEvents clock reference events = .error reason) :
    (∃ event ∈ events, event.id ≠ reference.id) ∧ reason = .differentIds (events.map Event.id) ∨
      (∀ event ∈ events, event.id = reference.id) ∧
        (∃ event ∈ events, event.operation ≠ reference.operation) ∧
        reason = .differentOperations (events.map Event.operation) := by
  unfold alignEvents at failed
  split at failed
  next ids =>
    cases failed
    simp only [List.any_eq_true, bne_iff_ne] at ids
    exact .inl ⟨ids, rfl⟩
  next ids =>
    split at failed
    next operations =>
      cases failed
      simp only [List.any_eq_true, bne_iff_ne, not_exists, not_and, not_not] at ids operations
      exact .inr ⟨ids, operations, rfl⟩
    next => cases failed

/-- A position of the first run that fails to become a layer does so for the first reason that
applies. -/
theorem alignPosition_speaksAgainst {clock : Clock} {first : Run} {others : List Run}
    {position : Nat} {reference : Event} {reason : Disagreement}
    (found : first[position]? = some reference)
    (failed : alignPosition clock (first :: others) position reference = .error reason) :
    SpeaksAgainst (first :: others) position reason := by
  unfold alignPosition at failed
  split at failed
  next short =>
    have reached : ¬ Missed (first :: others) position :=
      fun missed => shortRuns_ne_nil_iff.mpr missed short
    have listed : reference ∈ (first :: others).filterMap (·[position]?) :=
      List.mem_filterMap.mpr ⟨first, List.mem_cons_self, found⟩
    have ids := valuesAt_filterMap Event.id reached
    have operations := valuesAt_filterMap Event.operation reached
    have some_run : first :: others ≠ [] := List.cons_ne_nil first others
    -- The reference is one of the events, so one that differs from it shows that not all are equal.
    rcases alignEvents_eq_error failed with
      ⟨⟨event, member, differ⟩, rfl⟩ | ⟨same, ⟨event, member, differ⟩, rfl⟩
    · refine .differentIds reached ?_ ids
      rw [← ids.allEqual_iff some_run]
      exact fun equal => differ (equal _ (List.mem_map_of_mem member) _ (List.mem_map_of_mem listed))
    · refine .differentOperations ?_ ?_ operations
      · rw [← ids.allEqual_iff some_run]
        simp only [AllEqual, List.forall_mem_map]
        exact fun a a_member b b_member => (same a a_member).trans (same b b_member).symm
      · rw [← operations.allEqual_iff some_run]
        exact fun equal =>
          differ (equal _ (List.mem_map_of_mem member) _ (List.mem_map_of_mem listed))
  next short =>
    cases failed
    exact .tooShort (shortRuns_ne_nil_iff.mp short)

namespace SpeaksAgainst
variable {reason : Disagreement}

theorem tooShort_iff (against : SpeaksAgainst runs position reason) :
    (∃ indices, reason = .tooShort indices) ↔ Missed runs position := by
  cases against with
  | tooShort missed => exact iff_of_true ⟨_, rfl⟩ missed
  | differentIds reached => exact iff_of_false nofun reached
  | differentOperations same => exact iff_of_false nofun same.not_missed

theorem differentIds_iff (against : SpeaksAgainst runs position reason) :
    (∃ ids, reason = .differentIds ids) ↔
      ¬ Missed runs position ∧ ¬ SameAt Event.id runs position := by
  cases against with
  | tooShort missed => exact iff_of_false nofun fun clear => clear.1 missed
  | differentIds reached differ => exact iff_of_true ⟨_, rfl⟩ ⟨reached, differ⟩
  | differentOperations same => exact iff_of_false nofun fun clear => clear.2 same

theorem differentOperations_iff (against : SpeaksAgainst runs position reason) :
    (∃ operations, reason = .differentOperations operations) ↔
      ¬ Missed runs position ∧ SameAt Event.id runs position := by
  cases against with
  | tooShort missed => exact iff_of_false nofun fun clear => clear.1 missed
  | differentIds reached differ => exact iff_of_false nofun fun clear => differ clear.2
  | differentOperations same => exact iff_of_true ⟨_, rfl⟩ ⟨same.not_missed, same⟩

theorem eq_shortRuns {indices : List Nat}
    (against : SpeaksAgainst runs position (.tooShort indices)) :
    indices = shortRuns runs position := by
  cases against
  rfl

theorem tells {first : Run} {others : List Run}
    (against : SpeaksAgainst (first :: others) position reason) (reached : position < first.length) :
    reason.Tells (first :: others) position := by
  have some_run : first :: others ≠ [] := List.cons_ne_nil first others
  cases against with
  | tooShort missed => exact shortRuns_tells reached missed
  | differentIds _ differ told => exact ⟨told, (told.allEqual_iff some_run).not.mpr differ⟩
  | differentOperations _ differ told => exact ⟨told, (told.allEqual_iff some_run).not.mpr differ⟩

end SpeaksAgainst

end Position

/-! ### All drops -/

section Drops
variable {clock : Clock} {first : Run} {others : List Run} {samples : List UInt64}

theorem speaksAgainst_of_mem_dropped {drop : DroppedPosition}
    (member : drop ∈ (Profile.ofRuns clock (first :: others) samples).dropped) :
    SpeaksAgainst (first :: others) drop.position drop.reason := by
  have outcome := (mem_drops_iff _ drop).mp member
  rw [getElem?_alignRuns, Option.map_eq_some_iff] at outcome
  obtain ⟨reference, found, failed⟩ := outcome
  exact alignPosition_speaksAgainst found failed

theorem position_lt_of_mem_dropped {drop : DroppedPosition}
    (member : drop ∈ (Profile.ofRuns clock (first :: others) samples).dropped) :
    drop.position < first.length :=
  (sharedOut_ofRuns clock first others samples).below _ (List.mem_map_of_mem member)

/-- A position of the first run that some run misses is dropped, and for that reason. -/
theorem exists_tooShort_iff (position : Nat) :
    (∃ indices, ⟨position, .tooShort indices⟩ ∈
        (Profile.ofRuns clock (first :: others) samples).dropped) ↔
      Missed (first :: others) position ∧ position < first.length := by
  constructor
  · rintro ⟨indices, member⟩
    have against := speaksAgainst_of_mem_dropped member
    exact ⟨against.tooShort_iff.mp ⟨indices, rfl⟩, position_lt_of_mem_dropped member⟩
  · rintro ⟨missed, within⟩
    have disagreed : ¬ ∃ id operation, Agreed (first :: others) position id operation := by
      rintro ⟨id, operation, agreed⟩
      exact not_missed_iff.mpr agreed.reaching missed
    have listed :=
      (mem_positions_dropped_iff clock first others samples position).mpr ⟨within, disagreed⟩
    obtain ⟨⟨_, reason⟩, member, rfl⟩ := List.mem_map.mp listed
    obtain ⟨indices, rfl⟩ := (speaksAgainst_of_mem_dropped member).tooShort_iff.mpr missed
    exact ⟨indices, member⟩

theorem missed_iff_min_le {runs : List Run} (some_run : runs.map List.length ≠ [])
    (position : Nat) :
    Missed runs position ↔ (runs.map List.length).min some_run ≤ position := by
  constructor
  · rintro ⟨run, member, nothing⟩
    exact Nat.le_trans (List.min_le_of_mem (List.mem_map_of_mem member))
      (List.getElem?_eq_none_iff.mp nothing)
  · intro short
    obtain ⟨run, member, least⟩ := List.mem_map.mp (List.min_mem some_run)
    rw [← least] at short
    exact ⟨run, member, List.getElem?_eq_none_iff.mpr short⟩

end Drops

/-- The reasons of the drops of runs. A position is dropped because some run misses it, else because
the ids differ there, else because the operations do; whichever it is, the reason tells exactly the
runs or the values that speak against it. The positions that some run misses are those from the
length of the shortest run on, and the runs that miss them only become more. -/
theorem dropped_ofRuns_reasons (clock : Clock) (first : Run) (others : List Run)
    (samples : List UInt64) :
    let runs := first :: others
    let dropped := (Profile.ofRuns clock runs samples).dropped
    let shortest := (runs.map List.length).min (List.cons_ne_nil _ _)
    (∀ drop ∈ dropped,
      ((∃ indices, drop.reason = .tooShort indices) ↔ Missed runs drop.position) ∧
      ((∃ ids, drop.reason = .differentIds ids) ↔
        ¬ Missed runs drop.position ∧ ¬ SameAt Event.id runs drop.position) ∧
      ((∃ operations, drop.reason = .differentOperations operations) ↔
        ¬ Missed runs drop.position ∧ SameAt Event.id runs drop.position) ∧
      drop.reason.Tells runs drop.position) ∧
    (∀ position, (∃ indices, ⟨position, .tooShort indices⟩ ∈ dropped) ↔
      shortest ≤ position ∧ position < first.length) ∧
    ∀ position later few many, ⟨position, .tooShort few⟩ ∈ dropped →
      ⟨later, .tooShort many⟩ ∈ dropped → position ≤ later → few.Sublist many := by
  intro runs dropped shortest
  refine ⟨?_, ?_, ?_⟩
  · intro drop member
    -- A drop holds what speaks against its position, and that has one shape for each reason.
    have against := speaksAgainst_of_mem_dropped member
    exact ⟨against.tooShort_iff, against.differentIds_iff, against.differentOperations_iff,
      against.tells (position_lt_of_mem_dropped member)⟩
  · intro position
    rw [exists_tooShort_iff, missed_iff_min_le]
  · intro position later few many here there order
    rw [(speaksAgainst_of_mem_dropped here).eq_shortRuns,
      (speaksAgainst_of_mem_dropped there).eq_shortRuns]
    exact shortRuns_sublist runs order

/-- A position for each reason: the ids differ at the second one, the operations at the third, and the
later runs end before the last two. -/
theorem dropped_for_each_reason :
    let first : Run :=
      [⟨0, "ADD", 1⟩, ⟨1, "MUL", 2⟩, ⟨2, "MUL", 3⟩, ⟨3, "ADD", 4⟩, ⟨4, "ADD", 5⟩]
    let second : Run := [⟨0, "ADD", 5⟩, ⟨7, "ADD", 6⟩, ⟨2, "ADD", 7⟩]
    let third : Run := [⟨0, "ADD", 5⟩, ⟨1, "MUL", 6⟩, ⟨2, "MUL", 7⟩, ⟨3, "ADD", 8⟩]
    let dropped := (Profile.ofRuns {} [first, second, third] []).dropped
    dropped = [⟨1, .differentIds [1, 7, 1]⟩, ⟨2, .differentOperations ["MUL", "ADD", "MUL"]⟩,
        ⟨3, .tooShort [1]⟩, ⟨4, .tooShort [1, 2]⟩] ∧
      (∀ drop ∈ dropped, drop.reason.Tells [first, second, third] drop.position) ∧
      [1].Sublist [1, 2] := by
  intro first second third dropped
  have drops : dropped = [⟨1, .differentIds [1, 7, 1]⟩,
      ⟨2, .differentOperations ["MUL", "ADD", "MUL"]⟩, ⟨3, .tooShort [1]⟩,
      ⟨4, .tooShort [1, 2]⟩] := by
    decide
  obtain ⟨told, _, grows⟩ := dropped_ofRuns_reasons {} first [second, third] []
  have missed_once : ⟨3, .tooShort [1]⟩ ∈ dropped := by rw [drops]; decide
  have missed_twice : ⟨4, .tooShort [1, 2]⟩ ∈ dropped := by rw [drops]; decide
  exact ⟨drops, fun drop member => (told drop member).2.2.2,
    grows 3 4 [1] [1, 2] missed_once missed_twice (by decide)⟩

end LayerTiming
