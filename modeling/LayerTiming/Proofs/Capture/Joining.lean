import LayerTiming.Proofs.Capture.Segments
import LayerTiming.Proofs.Text.Cutting

/-!
# Captures put together

A line with a header parts a capture. What stands in front of it is recorded as if the capture ended
there, and what stands behind it as a capture with a run open from the start. So the two ways to
treat leading events differ in one run at most.
-/
namespace LayerTiming
open Text

namespace Recording

theorem runsOfSegments_append (front back : List (List Line)) :
    runsOfSegments (front ++ back) = runsOfSegments front ++ runsOfSegments back := by
  simp only [runsOfSegments, List.map_append, List.filter_append]

/-- The first segment reaches up to the first header. -/
theorem splitOn_header (lines : List Line) :
    lines.splitOn .header =
      lines.takeWhile (· ≠ .header) :: (lines.splitOn .header).tail := by
  induction lines with
  | nil => rfl
  | cons line rest ih =>
    rw [List.splitOn_cons_eq_if_modifyHead, ih]
    cases line <;> rfl

theorem runs_append_header (policy : LeadingEvents) (front back : List Line) :
    (ofLines policy (front ++ .header :: back)).runs =
      (ofLines policy front).runs ++ (ofLines .ownRun back).runs := by
  simp only [runs_ofLines, ← runsOfSegments_append]
  cases policy with
  | leftOut =>
    have some_segment : front.splitOn Line.header ≠ [] := by
      rw [splitOn_header]
      exact List.cons_ne_nil _ _
    simp only [LeadingEvents.segments, List.splitOn_append_cons_self,
      List.tail_append_of_ne_nil some_segment]
  | ownRun => simp only [LeadingEvents.segments, List.splitOn_append_cons_self]

theorem samples_append_header (policy : LeadingEvents) (front back : List Line) :
    (ofLines policy (front ++ .header :: back)).samples =
      (ofLines policy front).samples ++ (ofLines .ownRun back).samples := by
  simp only [ofLines, List.filterMap_append, List.filterMap_cons, sample?]

/-- With a run open from the start, the events in front of the first header are one run more. -/
theorem runs_ownRun (lines : List Line) :
    (ofLines .ownRun lines).runs =
      runsOfSegments [lines.takeWhile (· ≠ .header)] ++ (ofLines .leftOut lines).runs := by
  rw [runs_ofLines, runs_ofLines, ← runsOfSegments_append, LeadingEvents.segments,
    LeadingEvents.segments, List.singleton_append, ← splitOn_header]

theorem length_runsOfSegments_singleton (segment : List Line) :
    (runsOfSegments [segment]).length ≤ 1 :=
  List.length_filter_le _ _

theorem map_ofText_lines_header (back : List Char) :
    (lines (headerText ++ '\n' :: back)).map Line.ofText =
      .header :: (lines back).map Line.ofText := by
  have header : Line.ofText (dropReturn headerText) = .header := by decide
  rw [lines_append_feed headerText back (by decide), List.map_cons, header]

theorem ofText_append_header (policy : LeadingEvents) {front : List Char} (ended : EndsLine front)
    (back : List Char) :
    (ofText policy (front ++ (headerText ++ '\n' :: back))).runs =
        (ofText policy front).runs ++ (ofText .ownRun back).runs ∧
      (ofText policy (front ++ (headerText ++ '\n' :: back))).samples =
        (ofText policy front).samples ++ (ofText .ownRun back).samples := by
  rw [ofText, lines_append ended, List.map_append, map_ofText_lines_header]
  exact ⟨runs_append_header policy _ _, samples_append_header policy _ _⟩

/-- A capture with a header on a line of its own is recorded part by part. With nothing in front of
the header, a header line has the same effect as a run that is open from the start, and such a run
adds one run at most, of the events in front of the first header. -/
theorem ofText_composes (policy : LeadingEvents) {front : List Char} (ended : EndsLine front)
    (back : List Char) :
    let said := (lines back).map Line.ofText
    let whole := ofText policy (front ++ (headerText ++ '\n' :: back))
    whole.runs = (ofText policy front).runs ++ (ofText .ownRun back).runs ∧
    whole.samples = (ofText policy front).samples ++ (ofText .ownRun back).samples ∧
    (∀ other : LeadingEvents, ofText other (headerText ++ '\n' :: back) = ofText .ownRun back) ∧
    ∃ leading : List Run, leading.length ≤ 1 ∧
      leading.flatten = (said.takeWhile (· ≠ .header)).filterMap event? ∧
      (ofText .ownRun back).runs = leading ++ (ofText .leftOut back).runs := by
  intro said whole
  obtain ⟨runs, samples⟩ := ofText_append_header policy ended back
  refine ⟨runs, samples, fun other => ?_, _, length_runsOfSegments_singleton _, ?_,
    runs_ownRun said⟩
  · obtain ⟨runs, samples⟩ := ofText_append_header other (.inl rfl) back
    -- Nothing is recorded of nothing.
    have nothing : ofText other [] = {} := by cases other <;> rfl
    rw [nothing, List.nil_append, List.nil_append] at runs samples
    exact congrArg₂ Recording.mk runs samples
  · rw [flatten_runsOfSegments, List.flatten_singleton]

/-- The first part leaves a run open that has events, and the second one begins with an event. -/
theorem ofText_composes_open :
    let front := "0,ADD,1\r\n".toList
    let back := "1,MUL,2".toList
    EndsLine front ∧
      (ofText .ownRun (front ++ (headerText ++ '\n' :: back))).runs =
        [[⟨0, "ADD", 1⟩], [⟨1, "MUL", 2⟩]] := by
  intro front back
  have ended : EndsLine front := .inr (by decide)
  refine ⟨ended, ?_⟩
  rw [(ofText_composes .ownRun ended back).1]
  decide

end Recording
end LayerTiming
