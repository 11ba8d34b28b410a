import LayerTiming.Capture.Line

/-!
# Runs and samples of a capture

A header opens a run and closes the run before it; an event joins the open run; noise changes
nothing. Runs without events are not kept. End-to-end samples are collected wherever they stand.
-/
namespace LayerTiming
open Text

/-- One execution: its events in the order in which they were printed. -/
abbrev Run := List Event

/-- What becomes of events before the first header. -/
inductive LeadingEvents
  /-- Only a header opens a run, and events before the first one are left out. -/
  | leftOut
  /-- A run is open from the start. -/
  | ownRun
  deriving DecidableEq, Repr, Inhabited

/-- What a capture holds: the runs with at least one event, and the end-to-end samples in cycles. -/
structure Recording where
  runs : List Run := []
  samples : List UInt64 := []
  deriving DecidableEq, Repr, Inhabited

namespace Recording

/-- Neither a run nor a sample was found. -/
def isEmpty (found : Recording) : Bool := found.runs.isEmpty && found.samples.isEmpty

/-- Close a run whose events stand latest first. There is none, or one without events, to keep
nothing of. -/
def closed : Option (List Event) → List Run
  | none => []
  | some [] => []
  | some events => [events.reverse]

/-- The runs of the lines, given the events of the run that is open, if any, latest first. -/
def runsFrom : Option (List Event) → List Line → List Run
  | current, [] => closed current
  | current, .header :: rest => closed current ++ runsFrom (some []) rest
  | some events, .event event :: rest => runsFrom (some (event :: events)) rest
  | none, .event _ :: rest => runsFrom none rest
  | current, .sample _ :: rest => runsFrom current rest
  | current, .noise :: rest => runsFrom current rest

/-- The sample of a line, if it holds one. -/
def sample? : Line → Option UInt64
  | .sample cycles => some cycles
  | _ => none

/-- The run that is open before the first line. -/
def opening : LeadingEvents → Option (List Event)
  | .leftOut => none
  | .ownRun => some []

/-- The runs and samples of classified lines. -/
def ofLines (policy : LeadingEvents) (lines : List Line) : Recording where
  runs := runsFrom (opening policy) lines
  samples := lines.filterMap sample?

def ofText (policy : LeadingEvents) (text : List Char) : Recording :=
  ofLines policy ((lines text).map Line.ofText)

end Recording
end LayerTiming
