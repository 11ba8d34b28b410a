import LayerTiming.Capture.Recording
import LayerTiming.Timing.Clock

/-!
# Alignment of runs

Runs are aligned by position. A position of the first run becomes a layer if every run has an event
there and all of them agree on its id and operation; any other position is dropped, with the reason.
-/
namespace LayerTiming
open Number

/-- The timings of one position over all runs. The mean of the ticks, by which layers are ranked, is
kept as a number or as it is stored. -/
structure Layer (Ticks : Type := Float) where
  id : UInt64
  operation : String
  meanTicks : Ticks
  stdTicks : Float
  meanCycles : Float
  meanMs : Float
  /-- The ticks in the order of the runs. -/
  ticks : List UInt64
  deriving Repr, Inhabited

/-- Why a position is no layer. -/
inductive Disagreement
  /-- The runs with these indices end before the position. -/
  | tooShort (runs : List Nat)
  /-- The runs disagree on the id; these are theirs. -/
  | differentIds (ids : List UInt64)
  /-- The runs disagree on the operation; these are theirs. -/
  | differentOperations (operations : List String)
  deriving DecidableEq, Repr, Inhabited

/-- The reason in words. Runs are counted from one. -/
def Disagreement.message : Disagreement → String
  | .tooShort runs =>
    "missing in run(s) " ++ ", ".intercalate (runs.map fun run => toString (run + 1))
  | .differentIds ids => "event ids differ (" ++ ", ".intercalate (ids.map toString) ++ ")"
  | .differentOperations operations => "operations differ (" ++ ", ".intercalate operations ++ ")"

/-- A position that is no layer. -/
structure DroppedPosition where
  position : Nat
  reason : Disagreement
  deriving DecidableEq, Repr, Inhabited

/-- The cycles of whole executions. All figures are zero if there are no samples. -/
structure Executions where
  samples : List UInt64 := []
  meanCycles : Float := 0.0
  meanMs : Float := 0.0
  /-- Each sample in milliseconds. -/
  samplesMs : List Float := []
  deriving Repr, Inhabited

def Executions.ofSamples (clock : Clock) (samples : List UInt64) : Executions :=
  if samples.isEmpty then {}
  else
    { samples
      meanCycles := mean samples
      meanMs := clock.msOfCycles (mean samples)
      samplesMs := samples.map fun cycles => clock.msOfCycles cycles.toFloat }

/-- Everything that one analysis finds. -/
structure Profile where
  runCount : Nat := 0
  /-- The length of the first run. -/
  expectedLayers : Nat := 0
  layers : List Layer := []
  dropped : List DroppedPosition := []
  endToEnd : Executions := {}
  clock : Clock := {}
  deriving Repr, Inhabited

/-- The layer of a list of events that agree with the first of them. -/
def Layer.ofEvents (clock : Clock) (reference : Event) (events : List Event) : Layer :=
  let ticks := events.map Event.ticks
  let meanTicks := mean ticks
  let meanCycles := clock.cyclesOfTicks meanTicks
  { id := reference.id
    operation := reference.operation
    meanTicks
    stdTicks := deviation ticks
    meanCycles
    meanMs := clock.msOfCycles meanCycles
    ticks }

/-- The indices of the runs that have no event at a position. -/
def shortRuns (runs : List Run) (position : Nat) : List Nat :=
  (runs.zipIdx.filter fun indexed => indexed.1.length ≤ position).map Prod.snd

/-- The layer at a position of runs that all reach it, or the reason against it. `reference` is the
event of the first run. -/
def alignEvents (clock : Clock) (reference : Event) (events : List Event) :
    Except Disagreement Layer :=
  if events.any fun event => event.id != reference.id then
    .error (.differentIds (events.map Event.id))
  else if events.any fun event => event.operation != reference.operation then
    .error (.differentOperations (events.map Event.operation))
  else .ok (Layer.ofEvents clock reference events)

/-- The layer at a position of the first run, or the reason against it. -/
def alignPosition (clock : Clock) (runs : List Run) (position : Nat) (reference : Event) :
    Except Disagreement Layer :=
  match shortRuns runs position with
  | [] => alignEvents clock reference (runs.filterMap (·[position]?))
  | short => .error (.tooShort short)

/-- The outcomes at the positions of the first run, in order. -/
def alignRuns (clock : Clock) (runs : List Run) : List (Except Disagreement Layer) :=
  match runs with
  | [] => []
  | run :: _ => run.mapIdx (alignPosition clock runs)

/-- The layer of an outcome, if it is one. -/
def keptLayer? : Except Disagreement Layer → Option Layer
  | .ok layer => some layer
  | .error _ => none

/-- The drop of an outcome, if it is one. -/
def droppedPosition? : Except Disagreement Layer × Nat → Option DroppedPosition
  | (.ok _, _) => none
  | (.error reason, position) => some { position, reason }

namespace Profile

/-- Align the runs and take the figures of the samples. -/
def ofRuns (clock : Clock) (runs : List Run) (samples : List UInt64) : Profile where
  runCount := runs.length
  expectedLayers := (runs.headD []).length
  layers := (alignRuns clock runs).filterMap keptLayer?
  dropped := (alignRuns clock runs).zipIdx.filterMap droppedPosition?
  endToEnd := Executions.ofSamples clock samples
  clock

/-- The profile of what a capture holds. -/
def ofRecording (clock : Clock) (found : Recording) : Profile :=
  ofRuns clock found.runs found.samples

/-- Whether there is no layer to report. -/
def isEmpty (profile : Profile) : Bool := profile.layers.isEmpty

/-- The mean ticks of all layers together. -/
def totalTicks (profile : Profile) : Float := sum (profile.layers.map Layer.meanTicks)

/-- The mean cycles of all layers together. -/
def totalCycles (profile : Profile) : Float := sum (profile.layers.map Layer.meanCycles)

end Profile

/-- The runs disagree somewhere, although they had to agree everywhere. -/
structure Inconsistency where
  dropped : List DroppedPosition
  expected : Nat
  runs : Nat
  deriving DecidableEq, Repr, Inhabited

def DroppedPosition.message (drop : DroppedPosition) : String :=
  "position " ++ toString drop.position ++ ": " ++ drop.reason.message

def Inconsistency.message (found : Inconsistency) : String :=
  toString found.dropped.length ++ " of " ++ toString found.expected
    ++ " layer positions disagree across " ++ toString found.runs ++ " runs: "
    ++ "; ".intercalate (found.dropped.map DroppedPosition.message)

/-- The strict check: an inconsistency if any position was dropped. -/
def Profile.inconsistency? (profile : Profile) : Option Inconsistency :=
  if profile.dropped.isEmpty then none
  else some ⟨profile.dropped, profile.expectedLayers, profile.runCount⟩

end LayerTiming
