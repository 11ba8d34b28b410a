import LayerTiming.Proofs.Presentation.SummaryLines
import LayerTiming.Proofs.Text.Cutting

/-!
# Colour is presentation only

The coloured summary is the plain one with terminal sequences around the names of operations. They
stand outside of the padded cells, so a text without them is the plain summary, line by line, as long
as no operation brings an escape of its own.
-/
namespace LayerTiming
open Number Text

/-- The character that begins a terminal sequence. -/
def escapeSign : Char := '\x1b'

-- A digit or a semicolon: what may stand between the bracket and the letter of a sequence.
def isParameter (c : Char) : Bool := isAsciiDigit c || c == ';'

/-- What follows the terminal sequence that a text begins with, if it begins with one. -/
def afterSequence? (text : List Char) : Option (List Char) :=
  match after? [escapeSign, '['] text with
  | none => none
  | some rest => after? ['m'] (rest.dropWhile isParameter)

theorem length_afterSequence? {text rest : List Char} (found : afterSequence? text = some rest) :
    rest.length < text.length := by
  unfold afterSequence? at found
  split at found
  · cases found
  next behind begun =>
    have front := (after?_eq_some_iff _ _ _).mp begun
    have letter := (after?_eq_some_iff _ _ _).mp found
    have parameters : (behind.dropWhile isParameter).length ≤ behind.length :=
      (List.dropWhile_suffix isParameter).length_le
    simp only [front, letter, List.length_append, List.length_cons, List.length_nil] at parameters ⊢
    omega

/-- A text without its terminal sequences, found from left to right. -/
def withoutSequences : List Char → List Char
  | [] => []
  | c :: text =>
    match _found : afterSequence? (c :: text) with
    | some rest => withoutSequences rest
    | none => c :: withoutSequences text
termination_by text => text.length
decreasing_by
  · exact length_afterSequence? _found
  · exact Nat.lt_succ_self _

theorem withoutSequences_cons (c : Char) (text : List Char) :
    withoutSequences (c :: text) =
      match afterSequence? (c :: text) with
      | some rest => withoutSequences rest
      | none => c :: withoutSequences text := by
  rw [withoutSequences]
  split
  next found => rw [found]
  next found => rw [found]

theorem afterSequence?_of_ne {c : Char} (other : c ≠ escapeSign) (text : List Char) :
    afterSequence? (c :: text) = none := by
  have apart : escapeSign ≠ c := Ne.symm other
  simp [afterSequence?, after?, apart]

/-- Text in front that holds no escape stays as it is. -/
theorem withoutSequences_append {front : List Char} (free : escapeSign ∉ front)
    (back : List Char) : withoutSequences (front ++ back) = front ++ withoutSequences back := by
  induction front with
  | nil => rfl
  | cons c front ih =>
    have other : c ≠ escapeSign := fun same => free (same ▸ List.mem_cons_self)
    have rest_free : escapeSign ∉ front := fun member => free (List.mem_cons_of_mem c member)
    rw [List.cons_append, withoutSequences_cons, afterSequence?_of_ne other]
    dsimp only
    rw [ih rest_free, List.cons_append]

/-- A terminal sequence is dropped whole, whatever follows it. -/
theorem withoutSequences_sequence {code : String}
    (parameters : code.toList.all isParameter = true) (back : List Char) :
    withoutSequences (terminalSequence code ++ back) = withoutSequences back := by
  have letter : (code.toList ++ 'm' :: back).dropWhile isParameter = 'm' :: back := by
    rw [List.dropWhile_append_of_pos (List.all_eq_true.mp parameters)]
    exact List.dropWhile_cons_of_neg (by decide)
  have shape : terminalSequence code ++ back =
      escapeSign :: ('[' :: (code.toList ++ 'm' :: back)) := by
    simp [terminalSequence, escapeSign]
  have whole : afterSequence? (escapeSign :: '[' :: (code.toList ++ 'm' :: back)) = some back := by
    simp [afterSequence?, after?, letter]
  rw [shape, withoutSequences_cons, whole]

theorem all_isParameter_terminalCode (family : OperationFamily) :
    family.terminalCode.toList.all isParameter = true := by
  cases family <;> decide

/-- Painting puts one sequence in front of a text and one behind it, and nothing else. -/
theorem withoutSequences_painted (operation : List Char) {text : List Char}
    (free : escapeSign ∉ text) (back : List Char) :
    withoutSequences (painted true operation text ++ back) = text ++ withoutSequences back := by
  have reset : "0".toList.all isParameter = true := by decide
  rw [painted, if_pos rfl, List.append_assoc, List.append_assoc,
    withoutSequences_sequence (all_isParameter_terminalCode _), withoutSequences_append free,
    withoutSequences_sequence reset]

theorem painted_false (operation text : List Char) : painted false operation text = text :=
  if_neg Bool.false_ne_true

/-! ### Lines -/

/-- A text of both modes: the coloured one is the plain one as soon as its sequences are gone, also in
front of more text, and the plain one has none. -/
structure OnlyColored (text : Bool → List Char) : Prop where
  free : escapeSign ∉ text false
  dropped : ∀ rest, withoutSequences (text true ++ rest) = text false ++ withoutSequences rest

namespace OnlyColored
variable {front back text : Bool → List Char} {fixed : List Char}

theorem constant (free : escapeSign ∉ fixed) : OnlyColored fun _ => fixed :=
  ⟨free, withoutSequences_append free⟩

theorem painted (operation : List Char) (free : escapeSign ∉ fixed) :
    OnlyColored fun color => LayerTiming.painted color operation fixed :=
  ⟨by rwa [painted_false], fun rest => by
    rw [painted_false, withoutSequences_painted operation free]⟩

theorem append (before : OnlyColored front) (behind : OnlyColored back) :
    OnlyColored fun color => front color ++ back color where
  free := List.not_mem_append before.free behind.free
  dropped rest := by
    rw [List.append_assoc, before.dropped, behind.dropped, List.append_assoc]

/-- A blank in front of the next column. -/
theorem column (alike : OnlyColored text) : OnlyColored fun color => ' ' :: text color := by
  have blank : escapeSign ∉ [' '] := by decide
  exact (constant blank).append alike

theorem withoutSequences_true (alike : OnlyColored text) :
    withoutSequences (text true) = text false := by
  have nothing : withoutSequences [] = [] := by rw [withoutSequences]
  have dropped := alike.dropped []
  rwa [List.append_nil, nothing, List.append_nil] at dropped

/-- Pieces that are only coloured are so when they are put together. -/
theorem joinPieces {separator : Char} (plain : escapeSign ≠ separator)
    {α : Type} (write : Bool → α → List Char) {items : List α}
    (each : ∀ item ∈ items, OnlyColored fun color => write color item) :
    OnlyColored fun color => Text.joinPieces separator (items.map (write color)) := by
  induction items with
  | nil => exact constant List.not_mem_nil
  | cons first rest ih =>
    obtain ⟨first_alike, rest_alike⟩ := List.forall_mem_cons.mp each
    cases rest with
    | nil => exact first_alike
    | cons second later =>
      have seam : escapeSign ∉ [separator] := by simpa using plain
      exact first_alike.append ((constant seam).append (ih rest_alike))

end OnlyColored

namespace SummaryLine

theorem onlyColored_render {line : SummaryLine} (free : line.Lacks escapeSign) :
    OnlyColored fun color => line.render color := by
  have control : escapeSign < ' ' := by decide
  delta render
  cases line with
  | text | execution | dropped | truncated =>
    exact .constant (control_not_mem_render control (.inl rfl) free)
  -- In a row only the cell with the operation depends on the mode.
  | bottleneck layer =>
    have number :=
      control_not_mem_alignRight control 3 (control_not_mem_numeral control layer.id.toNat)
    have ticks :=
      control_not_mem_alignRight control 12 (control_not_mem_counter control layer.meanTicks)
    have part := control_not_mem_share control layer.percentage
    have cumulative := control_not_mem_share control layer.cumulativePercentage
    have cell := OnlyColored.painted layer.operation.toList
      (control_not_mem_alignLeft control 20 free)
    exact ((((OnlyColored.constant number).append cell.column).append
      (.column (.constant ticks))).append (.column (.constant part))).append
      (.column (.constant cumulative))
  | operation entry =>
    have total :=
      control_not_mem_alignRight control 12 (control_not_mem_counter control entry.totalTicks)
    have count := control_not_mem_alignRight control 8 (control_not_mem_numeral control entry.count)
    have mean :=
      control_not_mem_alignRight control 12 (control_not_mem_counter control entry.meanTicks)
    have cell := OnlyColored.painted entry.operation.toList
      (control_not_mem_alignLeft control 20 free)
    exact ((cell.append (.column (.constant total))).append (.column (.constant count))).append
      (.column (.constant mean))

end SummaryLine

namespace Profile
open SummaryLine

/-- The coloured summary without its terminal sequences is the plain summary, as a whole and line by
line, and the plain summary holds no escape. -/
theorem summaryText_without_colors (profile : Profile) (limit : Nat)
    (free : ∀ layer ∈ profile.layers, escapeSign ∉ layer.operation.toList) :
    withoutSequences (profile.summaryText limit true) = profile.summaryText limit false ∧
      escapeSign ∉ profile.summaryText limit false ∧
      ∀ line ∈ profile.summaryLines limit,
        withoutSequences (line.render true) = line.render false := by
  have lines_free := lacks_summaryLines (c := escapeSign) (by decide) free limit
  -- The summary is its lines, each of which differs between the modes in colour only.
  have newline : escapeSign ≠ '\n' := by decide
  have whole : OnlyColored fun color => profile.summaryText limit color :=
    .joinPieces newline render fun line listed => onlyColored_render (lines_free line listed)
  refine ⟨whole.withoutSequences_true, whole.free, fun line listed => ?_⟩
  exact (onlyColored_render (lines_free line listed)).withoutSequences_true

/-- An operation may hold what looks like a sequence, as long as the escape is missing. -/
theorem bracketed_operation_colored :
    let profile := Profile.ofRuns {} [[⟨0, "CONV[31m", 7⟩], [⟨0, "CONV[31m", 8⟩]] [900]
    escapeSign ∈ profile.summaryText 5 true ∧
      withoutSequences (profile.summaryText 5 true) = profile.summaryText 5 false := by
  intro profile
  have free : ∀ layer ∈ profile.layers, escapeSign ∉ layer.operation.toList := by decide +kernel
  exact ⟨by decide +kernel, (summaryText_without_colors profile 5 free).1⟩

end Profile
end LayerTiming
