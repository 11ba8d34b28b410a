import LayerTiming.Proofs.Items
import LayerTiming.Proofs.Timing.Alignment

/-!
# The strict check

The strict check refuses a profile with a drop. What it lets pass are runs that all begin with the
events of the first run, up to their ticks; a later run may go on longer, but it may not end sooner.
The layers of such runs are the events of the first run, one after the other, and each holds the ticks
that every run has there.
-/
namespace LayerTiming

/-- What runs have to agree on at a position. -/
def Event.signature (event : Event) : UInt64 × String := (event.id, event.operation)

/-- What all runs agreed on at the position of a layer. -/
def Layer.signature (layer : Layer) : UInt64 × String := (layer.id, layer.operation)

theorem Profile.inconsistency?_eq_none_iff (profile : Profile) :
    profile.inconsistency? = none ↔ profile.dropped = [] := by
  unfold inconsistency?
  cases profile.dropped <;> simp

/-! ### Agreement of whole runs -/

theorem agreed_iff_signature {runs : List Run} {position : Nat} {event : Event} :
    Agreed runs position event.id event.operation ↔
      ∀ run ∈ runs, (run.map Event.signature)[position]? = some event.signature := by
  refine forall₂_congr fun run _ => ?_
  simp only [List.getElem?_map, Option.map_eq_some_iff, Event.signature, Prod.mk.injEq]

/-- A run departs nowhere from the first one if the first one's signatures are a prefix of its own. -/
theorem prefix_signatures_iff {first run : Run} :
    first.map Event.signature <+: run.map Event.signature ↔
      ∀ (position : Nat) (reference : Event), first[position]? = some reference →
        (run.map Event.signature)[position]? = some reference.signature := by
  rw [List.prefix_iff_getElem?]
  constructor
  · intro same position reference found
    obtain ⟨within, rfl⟩ := List.getElem?_eq_some_iff.mp found
    rw [same position (by rwa [List.length_map]), List.getElem_map]
  · intro same position within
    rw [List.length_map] at within
    rw [same position _ (List.getElem?_eq_getElem within), List.getElem_map]

section Strict
variable {clock : Clock} {first : Run} {others : List Run} {samples : List UInt64}

/-- Nothing is dropped exactly if all runs agree at every position of the first one. -/
theorem dropped_ofRuns_eq_nil_iff :
    (Profile.ofRuns clock (first :: others) samples).dropped = [] ↔
      ∀ (position : Nat) (reference : Event), first[position]? = some reference →
        Agreed (first :: others) position reference.id reference.operation := by
  rw [← List.map_eq_nil_iff (f := DroppedPosition.position), List.eq_nil_iff_forall_not_mem]
  simp only [mem_positions_dropped_iff, not_and, not_not]
  constructor
  · intro agreed position reference found
    rw [← agreed_iff_of_first found]
    exact agreed position (List.getElem?_eq_some_iff.mp found).1
  · intro agreed position within
    exact ⟨_, _, agreed position _ (List.getElem?_eq_getElem within)⟩

theorem dropped_ofRuns_eq_nil_iff_prefix :
    (Profile.ofRuns clock (first :: others) samples).dropped = [] ↔
      ∀ run ∈ first :: others, first.map Event.signature <+: run.map Event.signature := by
  simp only [dropped_ofRuns_eq_nil_iff, prefix_signatures_iff, agreed_iff_signature]
  constructor
  · intro same run member position reference found
    exact same position reference found run member
  · intro same position reference found run member
    exact same run member position reference found

/-! ### Layers of consistent runs -/

theorem LayerAt.getElem?_ticks {runs : List Run} {position index : Nat} {layer : Layer} {run : Run}
    (there : LayerAt clock runs position layer) (found : runs[index]? = some run) :
    layer.ticks[index]? = run[position]?.map Event.ticks := by
  have listed := congrArg (·[index]?) there.ticks
  simp only [List.getElem?_map, found, Option.map_some] at listed
  obtain ⟨ticks, here, same⟩ := Option.map_eq_some_iff.mp listed
  rw [here, same]

theorem forall₂_range_take {run : Run} {count : Nat} (reaching : count ≤ run.length) :
    List.Forall₂ (fun position event => run[position]? = some event) (List.range count)
      (run.take count) := by
  rw [List.forall₂_iff_get]
  refine ⟨by simp [reaching], ?_⟩
  intro index left right
  have within : index < run.length := by
    rw [List.length_range] at left
    exact Nat.lt_of_lt_of_le left reaching
  simp [within]

/-- Without a drop each position of the first run has its layer. -/
theorem forall₂_layerAt_of_no_drop
    (none_dropped : (Profile.ofRuns clock (first :: others) samples).dropped = []) :
    List.Forall₂ (LayerAt clock (first :: others)) (List.range first.length)
      (Profile.ofRuns clock (first :: others) samples).layers := by
  have aligned := (sharedOut_ofRuns clock first others samples).aligned
  simpa [none_dropped] using aligned

theorem map_signature_of_no_drop
    (none_dropped : (Profile.ofRuns clock (first :: others) samples).dropped = []) :
    (Profile.ofRuns clock (first :: others) samples).layers.map Layer.signature =
      first.map Event.signature := by
  rw [← List.forall₂_eq_eq_eq, List.forall₂_map_left_iff, List.forall₂_map_right_iff]
  have events := forall₂_range_take (Nat.le_refl first.length)
  rw [List.take_length] at events
  refine forall₂_of_common ?_ (forall₂_layerAt_of_no_drop none_dropped) events
  intro position layer event there found
  obtain ⟨reference, here, id, operation⟩ := there.agreed first List.mem_cons_self
  cases here.symm.trans found
  rw [Layer.signature, Event.signature, id, operation]

theorem map_ticks_of_no_drop
    (none_dropped : (Profile.ofRuns clock (first :: others) samples).dropped = []) {index : Nat}
    {run : Run} (found : (first :: others)[index]? = some run) :
    (Profile.ofRuns clock (first :: others) samples).layers.map (·.ticks[index]?) =
      (run.take first.length).map fun event => some event.ticks := by
  rw [← List.forall₂_eq_eq_eq, List.forall₂_map_left_iff, List.forall₂_map_right_iff]
  -- The run is at least as long as the first one, so it has an event at each of the positions.
  have begins := dropped_ofRuns_eq_nil_iff_prefix.mp none_dropped run (List.mem_of_getElem? found)
  have reaching : first.length ≤ run.length := by simpa using begins.length_le
  refine forall₂_of_common ?_ (forall₂_layerAt_of_no_drop none_dropped)
    (forall₂_range_take reaching)
  intro position layer event there here
  rw [there.getElem?_ticks found, here, Option.map_some]

end Strict

/-- What the strict check guarantees. Runs pass it exactly if there are none, or if the ids and
operations of the first run are a prefix of those of every run. Then the layers are the events of the
first run, and the ticks that the layers have from a run are the first ticks of that run. An
inconsistency counts the drops, the positions and the runs. -/
theorem inconsistency?_ofRuns (clock : Clock) (runs : List Run) (samples : List UInt64) :
    let profile := Profile.ofRuns clock runs samples
    (profile.inconsistency? = none ↔ runs = [] ∨ ∃ first, runs.head? = some first ∧
      ∀ run ∈ runs, first.map Event.signature <+: run.map Event.signature) ∧
    (profile.inconsistency? = none →
      profile.layers.length = profile.expectedLayers ∧
      profile.layers.map Layer.signature = (runs.headD []).map Event.signature ∧
      ∀ (index : Nat) (run : Run), runs[index]? = some run → profile.layers.map (·.ticks[index]?) =
        (run.take profile.expectedLayers).map fun event => some event.ticks) ∧
    ∀ found, profile.inconsistency? = some found →
      found.dropped.length = profile.dropped.length ∧ found.expected = profile.expectedLayers ∧
      found.runs = profile.runCount := by
  intro profile
  refine ⟨?_, ?_, ?_⟩
  · rw [profile.inconsistency?_eq_none_iff]
    cases runs with
    | nil => exact iff_of_true rfl (.inl rfl)
    | cons first others => simp [profile, dropped_ofRuns_eq_nil_iff_prefix]
  · intro passed
    have none_dropped := profile.inconsistency?_eq_none_iff.mp passed
    cases runs with
    | nil => exact ⟨rfl, rfl, fun _ _ found => by cases found⟩
    | cons first others =>
      -- Nothing is dropped, so the layers are all positions of the first run.
      have signatures := map_signature_of_no_drop none_dropped
      have counted := congrArg List.length signatures
      rw [List.length_map, List.length_map] at counted
      exact ⟨counted, signatures, fun index run found => map_ticks_of_no_drop none_dropped found⟩
  · intro found failed
    unfold Profile.inconsistency? at failed
    split at failed
    · cases failed
    · cases failed
      exact ⟨rfl, rfl, rfl⟩

/-- A run that goes on after the first one has ended passes the strict check. Turned around, the runs
fail it. -/
theorem inconsistency?_of_longer_run :
    let short : Run := [⟨0, "CONV_2D", 10⟩, ⟨1, "ADD", 3⟩]
    let long : Run := [⟨0, "CONV_2D", 12⟩, ⟨1, "ADD", 5⟩, ⟨2, "MUL", 4⟩]
    let passed := Profile.ofRuns {} [short, long] []
    let failed := Profile.ofRuns {} [long, short] []
    passed.inconsistency? = none ∧ passed.layers.map Layer.signature = [(0, "CONV_2D"), (1, "ADD")] ∧
      passed.layers.map (·.ticks[1]?) = [some 12, some 5] ∧
      ∃ found, failed.inconsistency? = some found ∧
        found.dropped.length = 1 ∧ found.expected = 3 ∧ found.runs = 2 := by
  intro short long passed failed
  obtain ⟨passes_iff, guaranteed, _⟩ := inconsistency?_ofRuns {} [short, long] []
  have passes : passed.inconsistency? = none :=
    passes_iff.mpr (.inr ⟨short, rfl, by decide⟩)
  obtain ⟨_, signatures, ticks⟩ := guaranteed passes
  have fails : failed.inconsistency? = some ⟨[⟨2, .tooShort [1]⟩], 3, 2⟩ := by decide
  exact ⟨passes, signatures, ticks 1 long rfl, _, fails,
    (inconsistency?_ofRuns {} [long, short] []).2.2 _ fails⟩

end LayerTiming
