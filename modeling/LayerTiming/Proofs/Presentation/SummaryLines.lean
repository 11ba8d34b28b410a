import LayerTiming.Presentation.Summary
import LayerTiming.Proofs.Number.Texts
import LayerTiming.Proofs.Ranking.Layers
import LayerTiming.Proofs.Timing.Operations

/-!
# The characters of a summary line

The words, figures and columns of the summary hold no control character, so one that stands in a line
comes from an operation or from the terminal sequences around it.
-/
namespace LayerTiming
open Number Text

section
variable {c : Char} (control : c < ' ')
include control

theorem control_not_digit : isAsciiDigit c = false := by
  have small : c.toNat < 32 := control
  rw [← Bool.not_eq_true, isAsciiDigit_iff]
  omega

/-- A text of other characters only, such as the fixed words of a line. -/
theorem control_not_mem {text : List Char} (above : text.all (fun d => decide (' ' ≤ d)) = true) :
    c ∉ text := fun member =>
  (Char.not_lt.mpr (of_decide_eq_true (List.all_eq_true.mp above c member))) control

theorem control_not_mem_numeral (n : Nat) : c ∉ numeral n :=
  not_mem_numeral n c (control_not_digit control)

theorem control_not_mem_grouped (n : Nat) : c ∉ grouped n := by
  have comma : c ∉ [','] := control_not_mem control (by decide)
  exact not_mem_grouped n (List.ne_of_not_mem_cons comma) (control_not_digit control)

theorem control_not_mem_fixed (places : Nat) (x : Float) : c ∉ fixed places x :=
  not_mem_fixed places x (control_not_digit control) (control_not_mem control (by decide))

theorem control_not_mem_plain (x : Float) : c ∉ plain x :=
  not_mem_plain x (control_not_digit control) (control_not_mem control (by decide))

theorem control_not_mem_filler (width : Nat) (text : List Char) : c ∉ filler width text := by
  refine control_not_mem control (List.all_eq_true.mpr fun d member => ?_)
  rw [List.eq_of_mem_replicate member]
  decide

theorem control_not_mem_alignRight (width : Nat) {text : List Char} (free : c ∉ text) :
    c ∉ alignRight width text :=
  List.not_mem_append (control_not_mem_filler control width text) free

theorem control_not_mem_alignLeft (width : Nat) {text : List Char} (free : c ∉ text) :
    c ∉ alignLeft width text :=
  List.not_mem_append free (control_not_mem_filler control width text)

/-- The only control character of a terminal sequence is the escape that begins it. -/
theorem control_not_mem_painted {color : Bool} (unseen : color = false ∨ c ≠ '\x1b')
    (operation : List Char) {text : List Char} (free : c ∉ text) :
    c ∉ painted color operation text := by
  unfold painted
  split
  next colored =>
    have no_escape : c ≠ '\x1b' := unseen.resolve_left (by simp [colored])
    have sequence {code : String} (above : code.toList.all (fun d => decide (' ' ≤ d)) = true) :
        c ∉ terminalSequence code := by
      have fixed : c ∉ ['[', 'm'] := control_not_mem control (by decide)
      have parameters := control_not_mem control above
      simp_all [terminalSequence]
    have begins : c ∉ terminalSequence (OperationFamily.ofName operation).terminalCode :=
      sequence (by cases OperationFamily.ofName operation <;> decide)
    exact List.not_mem_append (List.not_mem_append begins free) (sequence (by decide))
  · exact free

end

namespace SummaryLine

/-- A line whose words and operation do not hold a character. -/
def Lacks (c : Char) : SummaryLine → Prop
  | .text words => c ∉ words
  | .bottleneck layer => c ∉ layer.operation.toList
  | .operation entry => c ∉ entry.operation.toList
  | _ => True

/-- Whether a line is made of words, none of which holds a control character. -/
def isPlain : SummaryLine → Bool
  | .text words => words.all fun c => decide (' ' ≤ c)
  | _ => false

theorem lacks_text (c : Char) (words : List Char) : (text words).Lacks c ↔ c ∉ words :=
  Iff.rfl

section
variable {c : Char} (control : c < ' ')
include control

theorem lacks_of_isPlain {lines : List SummaryLine} (fixed : lines.all isPlain = true) :
    ∀ line ∈ lines, line.Lacks c := by
  intro line member
  have plain := List.all_eq_true.mp fixed line member
  cases line with
  | text words => exact control_not_mem control plain
  | _ => cases plain

theorem control_not_mem_counter (x : Float) : c ∉ counter x :=
  control_not_mem_grouped control _

theorem control_not_mem_share (percentage : Float) : c ∉ share percentage :=
  List.not_mem_append
    (control_not_mem_alignRight control 7 (control_not_mem_fixed control 1 percentage))
    (control_not_mem control (by decide))

/-- A line holds no control character but those of its operation and the escapes of its colours. -/
theorem control_not_mem_render {color : Bool} (unseen : color = false ∨ c ≠ '\x1b')
    {line : SummaryLine} (lacking : line.Lacks c) : c ∉ line.render color := by
  have blank : c ∉ [' '] := control_not_mem control (by decide)
  have column {text : List Char} (free : c ∉ text) : c ∉ ' ' :: text :=
    List.not_mem_append blank free
  have right (width : Nat) {text : List Char} (free : c ∉ text) : c ∉ ' ' :: alignRight width text :=
    column (control_not_mem_alignRight control width free)
  -- Whatever the kind of the line, its parts are words, figures, filler and the name.
  delta render
  cases line with
  | text words => exact lacking
  | execution number cycles ms =>
    simp (disch := decide) only [List.mem_append, control_not_mem_numeral control,
      control_not_mem_grouped control, control_not_mem_fixed control, control_not_mem control,
      or_false, not_false_eq_true]
  | dropped count expected =>
    simp (disch := decide) only [List.mem_append, control_not_mem_numeral control,
      control_not_mem control, or_false, not_false_eq_true]
  | truncated shown total =>
    simp (disch := decide) only [List.mem_append, control_not_mem_numeral control,
      control_not_mem control, or_false, not_false_eq_true]
  | bottleneck layer =>
    have number :=
      control_not_mem_alignRight control 3 (control_not_mem_numeral control layer.id.toNat)
    have cell := control_not_mem_painted control unseen layer.operation.toList
      (control_not_mem_alignLeft control 20 lacking)
    have ticks := right 12 (control_not_mem_counter control layer.meanTicks)
    have part := column (control_not_mem_share control layer.percentage)
    have cumulative := column (control_not_mem_share control layer.cumulativePercentage)
    exact List.not_mem_append (List.not_mem_append (List.not_mem_append (List.not_mem_append number
      (column cell)) ticks) part) cumulative
  | operation entry =>
    have cell := control_not_mem_painted control unseen entry.operation.toList
      (control_not_mem_alignLeft control 20 lacking)
    have total := right 12 (control_not_mem_counter control entry.totalTicks)
    have count := right 8 (control_not_mem_numeral control entry.count)
    have average := right 12 (control_not_mem_counter control entry.meanTicks)
    exact List.not_mem_append (List.not_mem_append (List.not_mem_append cell total) count) average

end
end SummaryLine

namespace Profile
open SummaryLine

variable {c : Char} (control : c < ' ') (profile : Profile)
include control

theorem lacks_totalLines : ∀ line ∈ profile.totalLines, line.Lacks c := by
  simp (disch := decide) only [totalLines, List.forall_mem_cons, lacks_text, List.mem_append,
    control_not_mem_numeral control, control_not_mem_counter control, control_not_mem control,
    or_false, not_false_eq_true, true_and, List.not_mem_nil, false_implies, implies_true]

theorem lacks_executionLines : ∀ line ∈ profile.executionLines, line.Lacks c := by
  unfold executionLines
  extract_lets found
  split
  · exact lacks_of_isPlain control (by decide)
  · refine List.forall_mem_append.mpr ⟨?_, fun line member => ?_⟩
    · simp (disch := decide) only [words, List.forall_mem_cons, lacks_text, List.mem_append,
        control_not_mem_counter control, control_not_mem_fixed control,
        control_not_mem_plain control, control_not_mem control, or_false, not_false_eq_true,
        true_and, List.not_mem_nil, false_implies, implies_true]
    · obtain ⟨index, bound, rfl⟩ := List.mem_mapIdx.mp member
      exact trivial

omit control in
theorem lacks_droppedLines : ∀ line ∈ profile.droppedLines, line.Lacks c := by
  unfold droppedLines
  split
  · exact List.forall_mem_nil _
  · exact List.forall_mem_singleton.mpr trivial

section
variable {profile : Profile} (free : ∀ layer ∈ profile.layers, c ∉ layer.operation.toList)
include free

theorem lacks_bottleneckLines (limit : Nat) :
    ∀ line ∈ profile.bottleneckLines limit, line.Lacks c := by
  unfold bottleneckLines
  extract_lets ranked
  refine List.forall_mem_append.mpr ⟨List.forall_mem_append.mpr ⟨?_, ?_⟩, ?_⟩
  · exact lacks_of_isPlain control (by decide)
  · intro line member
    obtain ⟨entry, kept, rfl⟩ := List.mem_map.mp member
    obtain ⟨layer, listed, named⟩ := exists_layer_of_mem_rankLayers (List.mem_of_mem_take kept)
    have layer_free := free layer listed
    rwa [named] at layer_free
  · split
    · exact List.forall_mem_singleton.mpr trivial
    · exact List.forall_mem_nil _

theorem lacks_operationLines : ∀ line ∈ profile.operationLines, line.Lacks c := by
  unfold operationLines
  extract_lets totals
  refine List.forall_mem_append.mpr ⟨List.forall_mem_append.mpr ⟨?_, ?_⟩, ?_⟩
  · exact lacks_of_isPlain control (by decide)
  · intro line member
    obtain ⟨entry, listed, rfl⟩ := List.mem_map.mp member
    obtain ⟨layer, layer_listed, named⟩ := exists_layer_of_mem_operationTotals listed
    have layer_free := free layer layer_listed
    rwa [named] at layer_free
  · simp (disch := decide) only [thinRule, List.forall_mem_cons, lacks_text, List.mem_append,
      control_not_mem_numeral control, control_not_mem_fixed control, control_not_mem control,
      or_false, not_false_eq_true, true_and, List.not_mem_nil, false_implies, implies_true]

/-- What control characters the lines of a summary hold, their operations bring. -/
theorem lacks_summaryLines (limit : Nat) :
    ∀ line ∈ profile.summaryLines limit, line.Lacks c := by
  unfold summaryLines
  split
  · exact lacks_of_isPlain control (by decide)
  · have gap : ∀ line ∈ [blank], line.Lacks c := lacks_of_isPlain control (by decide)
    simp only [List.forall_mem_append]
    exact ⟨⟨⟨⟨⟨⟨⟨lacks_of_isPlain control (by decide), lacks_totalLines control profile⟩,
      lacks_executionLines control profile⟩, lacks_droppedLines profile⟩,
      List.forall_mem_append.mpr ⟨gap, lacks_bottleneckLines control free limit⟩⟩,
      lacks_of_isPlain control (by decide)⟩, lacks_operationLines control free⟩,
      lacks_of_isPlain control (by decide)⟩

end
end Profile
end LayerTiming
