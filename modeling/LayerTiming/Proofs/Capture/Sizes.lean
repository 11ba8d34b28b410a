import LayerTiming.Capture.File
import LayerTiming.Proofs.Capture.LastBoot
import LayerTiming.Proofs.Capture.Segments

/-!
# Sizes of recordings

A capture holds no more characters than bytes, no more lines than characters, and no more events than
lines. No run is empty, so neither the number of the runs nor the length of any of them exceeds the
number of bytes.
-/
namespace LayerTiming

namespace Text

theorem Utf8.length_first_le (byte : UInt8) : (first byte).1.length ≤ 1 := by
  unfold first
  dsimp only
  split_ifs <;> exact of_decide_eq_true rfl

/-- Each byte completes at most one character. Gaps do not count. -/
theorem Utf8.length_step_le (state : State) (byte : UInt8) :
    ((step state byte).1.filterMap id).length ≤ 1 := by
  have begun := (List.length_filterMap_le id (first byte).1).trans (length_first_le byte)
  cases state with
  | between => exact begun
  | inside owed low high code =>
    rw [step]
    split_ifs
    · exact Nat.le_refl 1
    · exact Nat.zero_le 1
    · exact begun

theorem Utf8.length_decodeSkipping_le (bytes : List UInt8) :
    (decodeSkipping bytes).length ≤ bytes.length := by
  -- The state in between may be any, but a character that is begun is only counted at its end.
  have from_state : ∀ state, ((run state bytes).filterMap id).length ≤ bytes.length := by
    induction bytes with
    | nil =>
      intro state
      cases state <;> exact Nat.le_refl 0
    | cons byte rest ih =>
      intro state
      have here := length_step_le state byte
      have later := ih (step state byte).2
      rw [run, List.filterMap_append, List.length_append, List.length_cons]
      omega
  exact from_state .between

theorem length_lines_le (text : List Char) : (lines text).length ≤ text.length := by
  unfold lines
  induction text with
  | nil => exact Nat.le_refl 0
  | cons c rest ih =>
    obtain ⟨piece, others, shape⟩ := List.exists_cons_of_ne_nil (pieces_ne_nil '\n' rest)
    rw [pieces, List.length_cons]
    rw [shape] at ih ⊢
    split
    · exact Nat.succ_le_succ ih
    · -- The character joins the first piece, which may have been the last one and empty.
      cases others with
      | nil => exact Nat.succ_le_succ (Nat.zero_le _)
      | cons next others => exact Nat.le_succ_of_le ih

end Text

open Text

theorem Capture.length_sinceLastBoot_le (text : List Char) :
    (sinceLastBoot text).length ≤ text.length := by
  obtain ⟨stale, shape, _⟩ := exists_cut text
  have parts := congrArg List.length shape
  rw [List.length_append] at parts
  omega

namespace Recording

theorem length_le_flatten {runs : List Run} (some_event : ∀ run ∈ runs, run ≠ []) :
    runs.length ≤ runs.flatten.length := by
  induction runs with
  | nil => exact Nat.le_refl 0
  | cons run rest ih =>
    obtain ⟨here, later⟩ := List.forall_mem_cons.mp some_event
    have first := List.length_pos_of_ne_nil here
    have others := ih later
    rw [List.flatten_cons, List.length_append, List.length_cons]
    omega

theorem ne_nil_of_mem_runs {policy : LeadingEvents} {lines : List Line} {run : Run}
    (member : run ∈ (ofLines policy lines).runs) : run ≠ [] := by
  rw [runs_ofLines, runsOfSegments, List.mem_filter] at member
  exact of_decide_eq_true member.2

theorem length_covered_le (policy : LeadingEvents) (lines : List Line) :
    (policy.covered .header lines).length ≤ lines.length := by
  cases policy with
  | leftOut => exact (List.dropWhile_sublist _).length_le
  | ownRun => exact Nat.le_refl _

/-- There are no more runs, and no more events in a run, than characters. -/
theorem lengths_le (policy : LeadingEvents) (text : List Char) :
    (ofText policy text).runs.length ≤ text.length ∧
      ∀ run ∈ (ofText policy text).runs, run.length ≤ text.length := by
  -- Events are spread over the runs, and each of them takes up a line.
  have all : (ofText policy text).runs.flatten.length ≤ text.length := by
    rw [ofText, flatten_runs_ofLines]
    calc _ ≤ (policy.covered .header ((lines text).map Line.ofText)).length :=
        List.length_filterMap_le _ _
      _ ≤ ((lines text).map Line.ofText).length := length_covered_le policy _
      _ = (lines text).length := List.length_map _
      _ ≤ text.length := length_lines_le text
  refine ⟨(length_le_flatten fun run => ne_nil_of_mem_runs).trans all, ?_⟩
  intro run member
  exact (List.sublist_flatten_of_mem member).length_le.trans all

end Recording
end LayerTiming
