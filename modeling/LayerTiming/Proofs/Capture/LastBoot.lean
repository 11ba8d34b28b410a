import LayerTiming.Capture.Facts
import LayerTiming.Proofs.Capture.Joining
import LayerTiming.Proofs.Text.Search

/-!
# Captures since the last boot

The cut in front of the last boot leaves whole lines, so every run whose header stands behind the cut
is recorded as before, and no other run is. Events behind the cut that belong to a header in front
of it go with their header.
-/
namespace LayerTiming
open Text

namespace Recording

/-- The runs that headers open, each with the number of its header's line. The lines are counted
from `first`. -/
def headedRuns (first : Nat) : List Line → List (Nat × Run)
  | [] => []
  | .header :: rest =>
    (runsOfSegments [rest.takeWhile (· ≠ .header)]).map (first, ·) ++ headedRuns (first + 1) rest
  | _ :: rest => headedRuns (first + 1) rest

theorem map_snd_headedRuns (first : Nat) (lines : List Line) :
    (headedRuns first lines).map Prod.snd = (ofLines .leftOut lines).runs := by
  induction lines generalizing first with
  | nil => rfl
  | cons line rest ih =>
    cases line with
    | header =>
      have parted := runs_append_header .leftOut [] rest
      rw [List.nil_append] at parted
      rw [parted, runs_ownRun, headedRuns, List.map_append, List.map_map, ih]
      exact congrArg (· ++ _) (List.map_id _)
    | event found => exact ih (first + 1)
    | sample cycles => exact ih (first + 1)
    | noise => exact ih (first + 1)

theorem le_of_mem_headedRuns {first : Nat} {lines : List Line} {placed : Nat × Run}
    (member : placed ∈ headedRuns first lines) : first ≤ placed.1 := by
  induction lines generalizing first with
  | nil => cases member
  | cons line rest ih =>
    cases line with
    | header =>
      rcases List.mem_append.mp member with here | later
      · obtain ⟨run, _, rfl⟩ := List.mem_map.mp here
        exact Nat.le_refl first
      · exact Nat.le_of_succ_le (ih later)
    | event found => exact Nat.le_of_succ_le (ih member)
    | sample cycles => exact Nat.le_of_succ_le (ih member)
    | noise => exact Nat.le_of_succ_le (ih member)

/-- The headers behind a cut open the same runs as without what stands in front of the cut. -/
theorem filter_headedRuns (first : Nat) (front back : List Line) :
    (headedRuns first (front ++ back)).filter (fun placed => first + front.length ≤ placed.1) =
      headedRuns (first + front.length) back := by
  induction front generalizing first with
  | nil =>
    refine List.filter_eq_self.mpr fun placed member => ?_
    exact decide_eq_true (le_of_mem_headedRuns member)
  | cons line front ih =>
    have counted : first + (line :: front).length = first + 1 + front.length := by
      rw [List.length_cons]
      omega
    rw [List.cons_append, counted]
    cases line with
    | header =>
      -- This header stands in front of the cut, wherever its events stand.
      have stale : ((runsOfSegments [(front ++ back).takeWhile (· ≠ .header)]).map
          (first, ·)).filter (fun placed => first + 1 + front.length ≤ placed.1) = [] := by
        refine List.filter_eq_nil_iff.mpr fun placed member => ?_
        obtain ⟨run, _, rfl⟩ := List.mem_map.mp member
        simp only [decide_eq_true_eq]
        omega
      rw [headedRuns, List.filter_append, stale, List.nil_append, ih]
    | event found => exact ih (first + 1)
    | sample cycles => exact ih (first + 1)
    | noise => exact ih (first + 1)

/-- Leaving lines out in front leaves a tail of the runs. -/
theorem runs_suffix (front back : List Line) :
    (ofLines .leftOut back).runs <:+ (ofLines .leftOut (front ++ back)).runs := by
  induction front with
  | nil => exact List.suffix_refl _
  | cons line front ih =>
    refine ih.trans ?_
    rw [List.cons_append, ← map_snd_headedRuns 1, ← map_snd_headedRuns 0]
    cases line with
    | header => exact (List.suffix_append _ _).map Prod.snd
    | event found => exact List.suffix_refl _
    | sample cycles => exact List.suffix_refl _
    | noise => exact List.suffix_refl _

end Recording

namespace Capture

/-- A cut in front of the line with the last boot marker. -/
structure CutsAtLastBoot (stale fresh : List Char) : Prop where
  whole_lines : EndsLine stale
  marked : ∃ before after, fresh = before ++ (bootMarker ++ after) ∧ '\n' ∉ before ∧
    occurs bootMarker after = false

theorem endsLine_flatMap (parts : List (List Char)) : EndsLine (parts.flatMap (· ++ ['\n'])) := by
  cases parts using List.reverseRecOn with
  | nil => exact .inl rfl
  | append_singleton parts last =>
    refine .inr ?_
    simp

/-- The capture is cut in front of the line with the last boot marker, if it holds one. -/
theorem exists_cut (text : List Char) :
    ∃ stale, text = stale ++ sinceLastBoot text ∧
      (CutsAtLastBoot stale (sinceLastBoot text) ∨
        stale = [] ∧ occurs bootMarker text = false) := by
  have some_char : bootMarker ≠ [] := by decide
  have unbroken : '\n' ∉ bootMarker := by decide
  have whole := joinPieces_pieces '\n' text
  unfold sinceLastBoot
  split
  next kept found =>
    obtain ⟨before, line, rest, shape, rfl, marked, unmarked⟩ := fromLast?_eq_some found
    have among : line ∈ pieces '\n' text := by simp [shape]
    have free := not_mem_of_mem_pieces among
    obtain ⟨front, back, rfl, last⟩ := exists_last_occurrence some_char marked
    refine ⟨before.flatMap (· ++ ['\n']), ?_, .inl ⟨endsLine_flatMap before, front, ?_⟩⟩
    · rw [← joinPieces_append before (List.cons_ne_nil _ _), ← shape, whole]
    · have front_free : '\n' ∉ front := fun member => free (List.mem_append_left _ member)
      cases rest with
      | nil => exact ⟨back, rfl, front_free, last⟩
      | cons next rest =>
        -- The lines behind the marked one hold no marker.
        refine ⟨back ++ '\n' :: joinPieces '\n' (next :: rest), by simp [joinPieces], front_free, ?_⟩
        rw [occurs_append_separator some_char unbroken, last,
          occurs_joinPieces some_char unbroken, unmarked, Bool.or_false]
  next nothing =>
    refine ⟨[], rfl, .inr ⟨rfl, ?_⟩⟩
    rw [← whole, occurs_joinPieces some_char unbroken, fromLast?_eq_none nothing]

/-- What is recorded since the last boot is a tail of what the whole capture holds: the runs are
exactly those whose header stands behind the cut in front of the last boot marker's line. -/
theorem recorded_sinceLastBoot (text : List Char) :
    let fresh := Recording.ofText .leftOut (sinceLastBoot text)
    let whole := Recording.ofText .leftOut text
    let placed := Recording.headedRuns 0 ((lines text).map Line.ofText)
    fresh.runs <:+ whole.runs ∧ fresh.samples <:+ whole.samples ∧
    placed.map Prod.snd = whole.runs ∧
    ∃ stale, text = stale ++ sinceLastBoot text ∧
      (CutsAtLastBoot stale (sinceLastBoot text) ∨
        stale = [] ∧ occurs bootMarker text = false) ∧
      fresh.runs =
        (placed.filter fun run => (lines stale).length ≤ run.1).map Prod.snd := by
  intro fresh whole placed
  obtain ⟨stale, shape, cut⟩ := exists_cut text
  have ended : EndsLine stale := by
    rcases cut with marked | ⟨rfl, _⟩
    · exact marked.whole_lines
    · exact .inl rfl
  -- The cut is behind a line, so it parts the lines too.
  have said : (lines text).map Line.ofText =
      (lines stale).map Line.ofText ++ (lines (sinceLastBoot text)).map Line.ofText := by
    rw [← List.map_append, ← lines_append ended, ← shape]
  refine ⟨?_, ?_, Recording.map_snd_headedRuns 0 _, stale, shape, cut, ?_⟩
  · change _ <:+ (Recording.ofLines .leftOut _).runs
    rw [said]
    exact Recording.runs_suffix _ _
  · change _ <:+ ((lines text).map Line.ofText).filterMap Recording.sample?
    rw [said, List.filterMap_append]
    exact List.suffix_append _ _
  · have kept := Recording.filter_headedRuns 0 ((lines stale).map Line.ofText)
      ((lines (sinceLastBoot text)).map Line.ofText)
    rw [← said, List.length_map, Nat.zero_add] at kept
    rw [kept, Recording.map_snd_headedRuns]
    rfl

end Capture
end LayerTiming
