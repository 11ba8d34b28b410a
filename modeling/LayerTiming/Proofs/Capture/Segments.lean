import LayerTiming.Capture.Recording

/-!
# Segments of a capture

A capture is read line by line with the events of the open run at hand. The result is what cutting
the lines at their headers gives: the runs are the event lists of the segments that hold an event.
-/
namespace LayerTiming
open Text

/-- The stretches of a list between its borders. The stretch before the first border counts only if
a run is open from the start. -/
def LeadingEvents.segments {α : Type} [DecidableEq α] (policy : LeadingEvents) (border : α)
    (items : List α) : List (List α) :=
  match policy with
  | .leftOut => (items.splitOn border).tail
  | .ownRun => items.splitOn border

/-- The part of a list that its segments are cut from. -/
def LeadingEvents.covered {α : Type} [DecidableEq α] (policy : LeadingEvents) (border : α)
    (items : List α) : List α :=
  match policy with
  | .leftOut => items.dropWhile (· ≠ border)
  | .ownRun => items

namespace Recording

/-- The event of a line, if it holds one. -/
def event? : Line → Option Event
  | .event found => some found
  | _ => none

/-- The runs that segments of lines make up: their events, unless there are none. -/
def runsOfSegments (segments : List (List Line)) : List Run :=
  (segments.map (List.filterMap event?)).filter (· ≠ [])

theorem closed_some (events : List Event) :
    closed (some events) = [events.reverse].filter (· ≠ []) := by
  cases events <;> simp [closed]

private theorem runsOfSegments_cons (segment : List Line) (others : List (List Line)) :
    runsOfSegments (segment :: others) =
      closed (some (segment.filterMap event?).reverse) ++ runsOfSegments others := by
  rw [closed_some, List.reverse_reverse, runsOfSegments, runsOfSegments, ← List.filter_append,
    List.map_cons, List.singleton_append]

/-- The open run holds the events of the segment that is being read. -/
theorem runsFrom_some (lines segment : List Line) :
    runsFrom (some (segment.filterMap event?)) lines =
      runsOfSegments (List.splitOnPPrepend (· == .header) lines segment) := by
  induction lines generalizing segment with
  | nil =>
    rw [List.splitOnPPrepend_nil, runsOfSegments_cons, List.filterMap_reverse,
      List.reverse_reverse]
    simp [runsFrom, runsOfSegments]
  | cons line rest ih =>
    cases line with
    | header =>
      -- The header ends the segment, and an empty one begins.
      rw [List.splitOnPPrepend_cons_pos rfl, runsOfSegments_cons, List.filterMap_reverse,
        List.reverse_reverse, runsFrom, ← List.splitOnPPrepend_nil_right, ← ih []]
      rfl
    | event found =>
      rw [List.splitOnPPrepend_cons_neg rfl, ← ih]
      rfl
    | sample cycles =>
      rw [List.splitOnPPrepend_cons_neg rfl, ← ih]
      rfl
    | noise =>
      rw [List.splitOnPPrepend_cons_neg rfl, ← ih]
      rfl

theorem runsFrom_opened (lines : List Line) :
    runsFrom (some []) lines = runsOfSegments (lines.splitOn .header) :=
  runsFrom_some lines []

/-- Without an open run nothing is kept of the lines before the first header. -/
theorem runsFrom_none (lines : List Line) :
    runsFrom none lines = runsOfSegments (lines.splitOn .header).tail := by
  induction lines with
  | nil => rfl
  | cons line rest ih =>
    rw [List.splitOn_cons_eq_if_modifyHead]
    cases line with
    | header =>
      -- From here on a run is open.
      simp [runsFrom, closed, runsFrom_opened]
    | event found => simp [runsFrom, ih]
    | sample cycles => simp [runsFrom, ih]
    | noise => simp [runsFrom, ih]

/-- The runs of classified lines are the events of the segments between headers. -/
theorem runs_ofLines (policy : LeadingEvents) (lines : List Line) :
    (ofLines policy lines).runs = runsOfSegments (policy.segments .header lines) := by
  cases policy with
  | leftOut => exact runsFrom_none lines
  | ownRun => exact runsFrom_opened lines

/-- Leaving out empty runs loses no event. -/
theorem flatten_runsOfSegments (segments : List (List Line)) :
    (runsOfSegments segments).flatten = segments.flatten.filterMap event? := by
  rw [runsOfSegments, List.flatten_filter_ne_nil, List.filterMap_flatten]

theorem filterMap_flatten_splitOn (lines : List Line) :
    (lines.splitOn .header).flatten.filterMap event? = lines.filterMap event? := by
  induction lines with
  | nil => rfl
  | cons line rest ih =>
    rw [List.splitOn_cons_eq_if_modifyHead]
    obtain ⟨segment, others, split⟩ :=
      List.exists_cons_of_ne_nil (List.splitOn_ne_nil Line.header rest)
    rw [split] at ih ⊢
    cases line with
    | header => simpa [List.filterMap_cons, event?] using ih
    | event found => simpa [List.filterMap_cons, event?] using ih
    | sample cycles => simpa [List.filterMap_cons, event?] using ih
    | noise => simpa [List.filterMap_cons, event?] using ih

theorem flatten_tail_splitOn (lines : List Line) :
    (lines.splitOn .header).tail.flatten.filterMap event? =
      (lines.dropWhile (· ≠ .header)).filterMap event? := by
  induction lines with
  | nil => rfl
  | cons line rest ih =>
    rw [List.splitOn_cons_eq_if_modifyHead]
    cases line with
    | header =>
      change (rest.splitOn Line.header).flatten.filterMap event? = rest.filterMap event?
      exact filterMap_flatten_splitOn rest
    | event found => simpa using ih
    | sample cycles => simpa using ih
    | noise => simpa using ih

/-- The runs hold the events of the lines that the segments are cut from, each once and in order. -/
theorem flatten_runs_ofLines (policy : LeadingEvents) (lines : List Line) :
    (ofLines policy lines).runs.flatten =
      (policy.covered .header lines).filterMap event? := by
  rw [runs_ofLines, flatten_runsOfSegments]
  cases policy with
  | leftOut => exact flatten_tail_splitOn lines
  | ownRun => exact filterMap_flatten_splitOn lines

/-- A recording is cut from the classified lines of its text. No run is empty, and together the
runs hold each event of the segments that count, once and in order. The samples are those of all
lines, whatever the policy. -/
theorem ofText_segmented (policy : LeadingEvents) (text : List Char) :
    let said := (lines text).map Line.ofText
    let found := ofText policy text
    found.runs = ((policy.segments .header said).map (List.filterMap event?)).filter (· ≠ []) ∧
    (∀ run ∈ found.runs, run ≠ []) ∧
    found.runs.flatten = (policy.covered .header said).filterMap event? ∧
    found.samples = said.filterMap sample? ∧
    ∀ other : LeadingEvents, (ofText other text).samples = found.samples := by
  intro said found
  have cut : found.runs = runsOfSegments (policy.segments .header said) :=
    runs_ofLines policy said
  refine ⟨cut, ?_, flatten_runs_ofLines policy said, rfl, fun _ => rfl⟩
  intro run member
  rw [cut, runsOfSegments, List.mem_filter] at member
  simpa using member.2

end Recording
end LayerTiming
