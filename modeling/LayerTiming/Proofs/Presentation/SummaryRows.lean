import LayerTiming.Proofs.Presentation.RowReading
import LayerTiming.Proofs.Presentation.SummaryLines
import LayerTiming.Proofs.Text.Cutting

/-!
# The rows of the summary

The summary cut at its line feeds is, line by line, what the profile has to report: one row for each
execution, a row on dropped positions if there are any, the first ranked layers up to the limit, a
note if some are left out, and one row for each operation, between headings that are always there.
The rows say what they stand for: without colours it is read back from them.
-/
namespace LayerTiming
open Number Text

namespace Profile
open SummaryLine

variable (profile : Profile)

/-! ### Headings and rows -/

/-- The lines on executions as a whole. -/
def executionHeading : List SummaryLine :=
  if profile.endToEnd.samples.isEmpty then [words "End-to-end cycles (avg over runs): n/a"]
  else
    [ .text ("End-to-end cycles (avg over runs): ".toList ++ counter profile.endToEnd.meanCycles),
      .text ("End-to-end time (avg): ".toList ++ fixed 3 profile.endToEnd.meanMs ++ " ms @ ".toList
        ++ plain profile.clock.megahertz ++ " MHz".toList),
      words "Runs (cycles/ms):" ]

/-- The lines in front of the rows on executions. -/
def openingLines : List SummaryLine :=
  [rule, words "LAYER PROFILING SUMMARY", rule, blank] ++ profile.totalLines ++
    profile.executionHeading

/-- The lines in front of the ranked layers. -/
def bottleneckHeading : List SummaryLine :=
  [ blank, words "Top bottlenecks (by ticks):", thinRule,
    .text (alignRight 3 "ID".toList ++ ' ' :: alignLeft 20 "Operation".toList
      ++ ' ' :: alignRight 12 "Ticks".toList ++ ' ' :: alignRight 8 "%".toList
      ++ ' ' :: alignRight 8 "Cumsum".toList),
    thinRule ]

/-- The lines in front of the ranked operations. -/
def operationHeading : List SummaryLine :=
  [ blank, rule, blank, words "Operation summary:", thinRule,
    .text (alignLeft 20 "Operation".toList ++ ' ' :: alignRight 12 "Total".toList
      ++ ' ' :: alignRight 8 "Count".toList ++ ' ' :: alignRight 12 "Average".toList),
    thinRule ]

/-- The lines behind the ranked operations. -/
def closingLines : List SummaryLine :=
  [ thinRule,
    .text (numeral (coverageCount (operationTotals profile.layers) coverageMark) ++ " of ".toList
      ++ numeral (operationTotals profile.layers).length ++ " operations cover ".toList
      ++ fixed 0 coverageMark ++ "% of layer ticks".toList),
    blank, rule ]

def executionRows : List SummaryLine :=
  (profile.endToEnd.samples.zip profile.endToEnd.samplesMs).mapIdx fun index sample =>
    .execution (index + 1) sample.1 sample.2

def bottleneckRows (limit : Nat) : List SummaryLine :=
  ((rankLayers profile.layers).take limit).map .bottleneck

/-- The note on ranked layers that are left out, if there are any. -/
def truncationRows (limit : Nat) : List SummaryLine :=
  if limit < profile.layers.length then [.truncated limit profile.layers.length] else []

def operationRows : List SummaryLine := (operationTotals profile.layers).map .operation

theorem executionLines_eq :
    profile.executionLines = profile.executionHeading ++ profile.executionRows := by
  unfold executionLines executionHeading executionRows
  cases found : profile.endToEnd.samples <;> simp [found]

/-- The lines of a summary are headings and rows. -/
theorem summaryLines_eq {profile : Profile} (some_layer : profile.layers ≠ []) (limit : Nat) :
    profile.summaryLines limit =
      profile.openingLines ++ profile.executionRows ++ profile.droppedLines ++ bottleneckHeading ++
        profile.bottleneckRows limit ++ profile.truncationRows limit ++ operationHeading ++
        profile.operationRows ++ profile.closingLines := by
  have reported : profile.isEmpty = false := by simpa [isEmpty] using some_layer
  simp only [summaryLines, reported, Bool.false_eq_true, if_false, executionLines_eq,
    bottleneckLines, operationLines, openingLines, bottleneckHeading, operationHeading,
    closingLines, bottleneckRows, truncationRows, operationRows, length_rankLayers, gt_iff_lt,
    List.append_assoc, List.cons_append, List.nil_append]

end Profile

/-! ### Lines that no other line is taken for -/

/-- The character in front of the last blank of a text. -/
def beforeLastBlank? (text : List Char) : Option Char :=
  ((text.reverse.dropWhile (· != ' ')).drop 1).head?

theorem beforeLastBlank?_append (front : List Char) {word : List Char} (one_word : ' ' ∉ word) :
    beforeLastBlank? (front ++ ' ' :: word) = front.getLast? := by
  rw [beforeLastBlank?, (reverse_last_word front one_word).2]
  exact List.head?_reverse

namespace SummaryLine

/-- Behind two columns of figures the last blank has a blank or a digit in front of it. -/
theorem beforeLastBlank?_columns (front : List Char) (width n last : Nat) {text : List Char}
    (one_word : ' ' ∉ text) :
    ∃ c, (c = ' ' ∨ isAsciiDigit c = true) ∧
      beforeLastBlank? (front ++ ' ' :: alignRight width (numeral n) ++ ' ' :: alignRight last text) =
        some c := by
  have swap : ' ' :: (filler last text ++ text) = filler last text ++ ' ' :: text :=
    replicate_blanks_append _ text
  have shape : front ++ ' ' :: alignRight width (numeral n) ++ ' ' :: alignRight last text =
      (front ++ [' '] ++ (filler width (numeral n) ++ numeral n ++ filler last text)) ++
        ' ' :: text := by
    simp only [alignRight, swap, List.append_assoc, List.cons_append, List.nil_append]
  have some_digit : filler width (numeral n) ++ numeral n ++ filler last text ≠ [] := by
    simp [numeral_ne_nil]
  obtain ⟨c, found⟩ := Option.ne_none_iff_exists'.mp (mt List.getLast?_eq_none_iff.mp some_digit)
  refine ⟨c, ?_, ?_⟩
  · have member := List.mem_of_getLast? found
    simp only [List.mem_append, or_assoc] at member
    rcases member with blank | digit | blank
    · exact .inl (List.eq_of_mem_replicate blank)
    · exact .inr (isAsciiDigit_of_mem_numeral n c digit)
    · exact .inl (List.eq_of_mem_replicate blank)
  · rw [shape, beforeLastBlank?_append _ one_word, List.getLast?_append_of_ne_nil _ some_digit, found]

theorem head?_alignRight_numeral (width n : Nat) :
    ∃ c, (c = ' ' ∨ isAsciiDigit c = true) ∧ (alignRight width (numeral n)).head? = some c := by
  have some_digit : alignRight width (numeral n) ≠ [] := by simp [alignRight, numeral_ne_nil]
  obtain ⟨c, found⟩ := Option.ne_none_iff_exists'.mp (mt List.head?_eq_none_iff.mp some_digit)
  refine ⟨c, ?_, found⟩
  rcases List.mem_append.mp (List.mem_of_head? found) with blank | digit
  · exact .inl (List.eq_of_mem_replicate blank)
  · exact .inr (isAsciiDigit_of_mem_numeral n c digit)

/-- The note on layers that are left out begins with a blank and ends with a bracket. -/
def IsNote (text : List Char) : Prop := text.head? = some ' ' ∧ text.getLast? = some ')'

theorem isNote_truncated (color : Bool) (shown total : Nat) :
    IsNote ((truncated shown total).render color) := by
  constructor
  · rfl
  · exact List.getLast?_append_of_ne_nil _ (by decide)

/-- The line on dropped positions begins with a capital, and a word ends before its last blank. -/
def IsDropLine (text : List Char) : Prop :=
  text.head? = some 'D' ∧ beforeLastBlank? text = some 'f'

theorem isDropLine_dropped (color : Bool) (count expected : Nat) :
    IsDropLine ((dropped count expected).render color) := by
  refine ⟨rfl, ?_⟩
  have shape : (dropped count expected).render color =
      ("Dropped positions (runs disagree): ".toList ++ numeral count ++ " of".toList) ++
        ' ' :: numeral expected := by
    have split : " of ".toList = " of".toList ++ [' '] := by decide
    delta render
    simp only [split, List.append_assoc, List.singleton_append]
  have ends : " of".toList ≠ [] := by decide
  rw [shape, beforeLastBlank?_append _ (not_mem_numeral expected ' ' (by decide)),
    List.getLast?_append_of_ne_nil _ ends]
  decide

/-- A line that is neither the note on layers that are left out nor the line on dropped positions,
whatever its operation is called. -/
def IsOther (line : SummaryLine) : Prop :=
  ∀ color, ¬ IsNote (line.render color) ∧ ¬ IsDropLine (line.render color)

instance : DecidablePred IsNote := fun _ => inferInstanceAs (Decidable (_ ∧ _))
instance : DecidablePred IsDropLine := fun _ => inferInstanceAs (Decidable (_ ∧ _))
instance : DecidablePred IsOther := fun _ => inferInstanceAs (Decidable (∀ _ : Bool, _))

theorem isOther_text {words : List Char} {c : Char} (first : words.head? = some c)
    (other : c ≠ ' ' ∧ c ≠ 'D') : (text words).IsOther :=
  fun _ => ⟨fun note => other.1 (Option.some.inj (first.symm.trans note.1)),
    fun drop => other.2 (Option.some.inj (first.symm.trans drop.1))⟩

theorem isOther_execution (number : Nat) (cycles : UInt64) (ms : Float) :
    (execution number cycles ms).IsOther := by
  have ends : " ms".toList ≠ [] := by decide
  intro color
  constructor
  · rintro ⟨-, last⟩
    delta render at last
    dsimp only at last
    rw [List.getLast?_append_of_ne_nil _ ends] at last
    revert last
    decide
  · rintro ⟨first, -⟩
    delta render at first
    cases first

theorem isOther_bottleneck (layer : RankedLayer) : (bottleneck layer).IsOther := by
  intro color
  constructor
  · rintro ⟨-, last⟩
    delta render at last
    dsimp only at last
    rw [List.getLast?_append_of_ne_nil _ (List.cons_ne_nil _ _), share, ← List.cons_append,
      List.getLast?_concat] at last
    cases last
  · rintro ⟨first, -⟩
    delta render at first
    dsimp only at first
    obtain ⟨c, kind, found⟩ := head?_alignRight_numeral 3 layer.id.toNat
    simp only [List.head?_append, found, Option.some_or, Option.some.injEq] at first
    subst first
    revert kind
    decide

theorem isOther_operation (entry : OperationTotal) : (operation entry).IsOther := by
  intro color
  constructor
  · rintro ⟨-, last⟩
    delta render at last
    dsimp only at last
    rw [List.getLast?_append_of_ne_nil _ (List.cons_ne_nil _ _)] at last
    rcases List.mem_cons.mp (List.mem_of_getLast? last) with blank | member
    · cases blank
    · rcases List.mem_append.mp member with blank | digit
      · cases List.eq_of_mem_replicate blank
      · exact not_mem_grouped _ (by decide) (by decide) digit
  -- The name of the operation may be what a line on dropped positions says, its figures are not.
  · rintro ⟨-, before⟩
    obtain ⟨c, kind, found⟩ := beforeLastBlank?_columns
      (LayerTiming.painted color entry.operation.toList (alignLeft 20 entry.operation.toList)
        ++ ' ' :: alignRight 12 (counter entry.totalTicks)) 8 entry.count 12
        (blank_not_mem_counter entry.meanTicks)
    have same : some c = some 'f' := found.symm.trans before
    cases same
    revert kind
    decide

end SummaryLine

namespace Profile
open SummaryLine

variable (profile : Profile)

theorem isOther_openingLines : ∀ line ∈ profile.openingLines, line.IsOther := by
  have title : ∀ line ∈ [rule, words "LAYER PROFILING SUMMARY", rule, blank], line.IsOther := by
    decide
  have totals : ∀ line ∈ profile.totalLines, line.IsOther := by
    simp only [totalLines, List.forall_mem_cons]
    exact ⟨isOther_text rfl (by decide), isOther_text rfl (by decide),
      isOther_text rfl (by decide), List.forall_mem_nil _⟩
  have executions : ∀ line ∈ profile.executionHeading, line.IsOther := by
    unfold executionHeading
    split
    · decide
    · simp only [List.forall_mem_cons]
      exact ⟨isOther_text rfl (by decide), isOther_text rfl (by decide), by decide,
        List.forall_mem_nil _⟩
  exact List.forall_mem_append.mpr ⟨List.forall_mem_append.mpr ⟨title, totals⟩, executions⟩

theorem isOther_closingLines : ∀ line ∈ profile.closingLines, line.IsOther := by
  have ending : ∀ line ∈ [blank, rule], line.IsOther := by decide
  -- The line on the coverage begins with the digits of a count.
  obtain ⟨c, rest, shape, digit⟩ :=
    exists_numeral_eq_cons (coverageCount (operationTotals profile.layers) coverageMark)
  have other : c ≠ ' ' ∧ c ≠ 'D' := by constructor <;> rintro rfl <;> cases digit
  refine List.forall_mem_cons.mpr ⟨by decide, List.forall_mem_cons.mpr
    ⟨isOther_text (c := c) ?_ other, ending⟩⟩
  rw [shape]
  rfl

variable {profile} {limit : Nat} {line : SummaryLine}

theorem mem_droppedLines : line ∈ profile.droppedLines ↔
    profile.dropped ≠ [] ∧ line = .dropped profile.dropped.length profile.expectedLayers := by
  unfold droppedLines
  cases profile.dropped <;> simp

theorem mem_truncationRows : line ∈ profile.truncationRows limit ↔
    limit < profile.layers.length ∧ line = .truncated limit profile.layers.length := by
  unfold truncationRows
  split <;> simp_all

/-- Of all lines of a summary only the note is one, and only the line on dropped positions is one. -/
theorem isOther_summaryLines (some_layer : profile.layers ≠ []) (limit : Nat) :
    ∀ line ∈ profile.summaryLines limit,
      line ∈ profile.droppedLines ∨ line ∈ profile.truncationRows limit ∨ line.IsOther := by
  have heading : ∀ line ∈ bottleneckHeading, line.IsOther := by decide
  have other_heading : ∀ line ∈ operationHeading, line.IsOther := by decide
  intro line member
  simp only [summaryLines_eq some_layer, List.mem_append] at member
  rcases member with
    (((((((opening | execution) | dropped) | table) | bottleneck) | note) | table) | operation) |
      closing
  · exact .inr (.inr (isOther_openingLines profile line opening))
  · obtain ⟨index, bound, rfl⟩ := List.mem_mapIdx.mp execution
    exact .inr (.inr (isOther_execution _ _ _))
  · exact .inl dropped
  · exact .inr (.inr (heading line table))
  · obtain ⟨layer, -, rfl⟩ := List.mem_map.mp bottleneck
    exact .inr (.inr (isOther_bottleneck layer))
  · exact .inr (.inl note)
  · exact .inr (.inr (other_heading line table))
  · obtain ⟨entry, -, rfl⟩ := List.mem_map.mp operation
    exact .inr (.inr (isOther_operation entry))
  · exact .inr (.inr (isOther_closingLines profile line closing))

theorem mem_summaryLines (some_layer : profile.layers ≠ [])
    (listed : line ∈ profile.droppedLines ∨ line ∈ profile.truncationRows limit) :
    line ∈ profile.summaryLines limit := by
  simp only [summaryLines_eq some_layer, List.mem_append]
  tauto

/-! ### All lines -/

/-- What the lines of a summary are, if at most `limit` ranked layers are shown. -/
structure AccountsFor (profile : Profile) (limit : Nat) (color : Bool)
    (lines : List (List Char)) : Prop where
  /-- Five blocks of rows stand between the headings, and nothing else does. -/
  layout : lines = (profile.openingLines ++ profile.executionRows ++ profile.droppedLines ++
    bottleneckHeading ++ profile.bottleneckRows limit ++ profile.truncationRows limit ++
    operationHeading ++ profile.operationRows ++ profile.closingLines).map (render color)
  count : lines.length = (if profile.endToEnd.samples = [] then 24 else 26) +
    min profile.endToEnd.samples.length profile.endToEnd.samplesMs.length +
    (if profile.dropped = [] then 0 else 1) + min limit profile.layers.length +
    (if limit < profile.layers.length then 1 else 0) + (operationTotals profile.layers).length
  truncated : (truncated limit profile.layers.length).render color ∈ lines ↔
    limit < profile.layers.length
  dropped : (SummaryLine.dropped profile.dropped.length profile.expectedLayers).render color ∈ lines ↔
    profile.dropped ≠ []

theorem length_summaryLines {profile : Profile} (some_layer : profile.layers ≠ []) (limit : Nat) :
    (profile.summaryLines limit).length = (if profile.endToEnd.samples = [] then 24 else 26) +
      min profile.endToEnd.samples.length profile.endToEnd.samplesMs.length +
      (if profile.dropped = [] then 0 else 1) + min limit profile.layers.length +
      (if limit < profile.layers.length then 1 else 0) + (operationTotals profile.layers).length := by
  have opening : profile.openingLines.length =
      if profile.endToEnd.samples = [] then 8 else 10 := by
    unfold openingLines executionHeading
    cases profile.endToEnd.samples <;> rfl
  have dropped : profile.droppedLines.length = if profile.dropped = [] then 0 else 1 := by
    unfold droppedLines
    cases profile.dropped <;> rfl
  have note : (profile.truncationRows limit).length =
      if limit < profile.layers.length then 1 else 0 := by
    unfold truncationRows
    split <;> rfl
  have headings : bottleneckHeading.length = 5 ∧ operationHeading.length = 7 ∧
      profile.closingLines.length = 4 := ⟨rfl, rfl, rfl⟩
  simp only [summaryLines_eq some_layer, List.length_append, opening, dropped, note, headings,
    executionRows, bottleneckRows, operationRows, List.length_mapIdx, List.length_zip,
    List.length_map, List.length_take, length_rankLayers]
  split <;> omega

/-- One row for each sample, counted from one: the rows come from two lists of the same length. -/
theorem executionRows_ofRuns (clock : Clock) (runs : List Run) (samples : List UInt64) :
    (ofRuns clock runs samples).executionRows = samples.mapIdx fun index cycles =>
      .execution (index + 1) cycles (clock.msOfCycles cycles.toFloat) := by
  cases samples with
  | nil => rfl
  | cons first rest =>
    refine List.ext_getElem ?_ fun k within within' => ?_
    · simp [executionRows, ofRuns, Executions.ofSamples]
    · simp only [executionRows, ofRuns, Executions.ofSamples, List.isEmpty_cons,
        Bool.false_eq_true, if_false, List.getElem_mapIdx, List.getElem_zip, List.getElem_map]

/-- No line holds a line feed, so cutting the text at its line feeds finds the lines again. -/
theorem pieces_summaryText (some_layer : profile.layers ≠ [])
    (one_line : ∀ layer ∈ profile.layers, '\n' ∉ layer.operation.toList) (limit : Nat)
    (color : Bool) : pieces '\n' (profile.summaryText limit color) =
      (profile.summaryLines limit).map (render color) := by
  have some_line : profile.summaryLines limit ≠ [] := by
    simp [summaryLines_eq some_layer, bottleneckHeading]
  have free := lacks_summaryLines (c := '\n') (by decide) one_line limit
  refine pieces_joinPieces '\n' (mt List.map_eq_nil_iff.mp some_line) fun part member => ?_
  obtain ⟨line, listed, rfl⟩ := List.mem_map.mp member
  exact control_not_mem_render (by decide) (.inr (by decide)) (free line listed)

/-- A text that is the note is that of the note, since no operation can be called so that its row is
taken for one. -/
theorem exists_mem_truncationRows (some_layer : profile.layers ≠ []) {color : Bool}
    {text : List Char} (member : text ∈ (profile.summaryLines limit).map (render color))
    (note : IsNote text) : ∃ line, line ∈ profile.truncationRows limit := by
  obtain ⟨line, listed, rfl⟩ := List.mem_map.mp member
  rcases isOther_summaryLines some_layer limit line listed with found | found | other
  · rw [(mem_droppedLines.mp found).2] at note
    cases note.1
  · exact ⟨line, found⟩
  · exact absurd note (other color).1

theorem exists_mem_droppedLines (some_layer : profile.layers ≠ []) {color : Bool}
    {text : List Char} (member : text ∈ (profile.summaryLines limit).map (render color))
    (drop : IsDropLine text) : ∃ line, line ∈ profile.droppedLines := by
  obtain ⟨line, listed, rfl⟩ := List.mem_map.mp member
  rcases isOther_summaryLines some_layer limit line listed with found | found | other
  · exact ⟨line, found⟩
  · rw [(mem_truncationRows.mp found).2] at drop
    cases drop.1
  · exact absurd drop (other color).2

theorem accountsFor_summaryLines (some_layer : profile.layers ≠ []) (limit : Nat) (color : Bool) :
    profile.AccountsFor limit color ((profile.summaryLines limit).map (render color)) := by
  constructor
  case layout => rw [summaryLines_eq some_layer]
  case count => rw [List.length_map, length_summaryLines some_layer]
  case truncated =>
    constructor
    · intro member
      obtain ⟨line, found⟩ := exists_mem_truncationRows some_layer member (isNote_truncated ..)
      exact (mem_truncationRows.mp found).1
    · intro more
      exact List.mem_map_of_mem
        (mem_summaryLines some_layer (.inr (mem_truncationRows.mpr ⟨more, rfl⟩)))
  case dropped =>
    constructor
    · intro member
      obtain ⟨line, found⟩ := exists_mem_droppedLines some_layer member (isDropLine_dropped ..)
      exact (mem_droppedLines.mp found).1
    · intro some_drop
      exact List.mem_map_of_mem
        (mem_summaryLines some_layer (.inl (mem_droppedLines.mpr ⟨some_drop, rfl⟩)))

/-- The lines of a summary without colours, and what the rows between the headings say when they are
read back. -/
structure RowsTell (profile : Profile) (limit : Nat)
    (lines executions bottlenecks operations : List (List Char)) : Prop where
  layout : lines = profile.openingLines.map (render false) ++ executions ++
    (profile.droppedLines ++ bottleneckHeading).map (render false) ++ bottlenecks ++
    (profile.truncationRows limit ++ operationHeading).map (render false) ++ operations ++
    profile.closingLines.map (render false)
  /-- Executions are numbered from one. -/
  executions : executions.map readExecution? =
    (profile.endToEnd.samples.zip profile.endToEnd.samplesMs).mapIdx fun index sample =>
      some (index + 1, sample.1)
  bottlenecks : bottlenecks.map readBottleneck? =
    ((rankLayers profile.layers).take limit).map fun entry =>
      some (entry.id, withoutBlanks entry.operation.toList)
  operations : operations.map readOperation? =
    (operationTotals profile.layers).map fun entry =>
      some (withoutBlanks entry.operation.toList, entry.count)

theorem rowsTell_summaryLines (some_layer : profile.layers ≠ []) (limit : Nat) :
    profile.RowsTell limit ((profile.summaryLines limit).map (render false))
      (profile.executionRows.map (render false)) ((profile.bottleneckRows limit).map (render false))
      (profile.operationRows.map (render false)) := by
  constructor
  case layout => simp only [summaryLines_eq some_layer, List.map_append, List.append_assoc]
  case executions =>
    refine List.ext_getElem (by simp [executionRows]) fun index within within' => ?_
    simp only [executionRows, List.getElem_map, List.getElem_mapIdx, readExecution?_render]
  case bottlenecks =>
    rw [bottleneckRows, List.map_map, List.map_map]
    exact List.map_congr_left fun entry _ => readBottleneck?_render entry
  case operations =>
    rw [operationRows, List.map_map, List.map_map]
    exact List.map_congr_left fun entry _ => readOperation?_render entry

/-- A summary cut at its line feeds accounts for everything the profile has to report, with or without
colours, and without colours its rows can be read back. A higher limit only shows more ranked layers
behind those that are shown, and an analysis reports each of its samples. -/
theorem summaryText_accountsFor {profile : Profile} (some_layer : profile.layers ≠ [])
    (one_line : ∀ layer ∈ profile.layers, '\n' ∉ layer.operation.toList) (limit : Nat) :
    (∀ color, profile.AccountsFor limit color (pieces '\n' (profile.summaryText limit color))) ∧
      (∀ further, limit ≤ further →
        profile.bottleneckRows limit <+: profile.bottleneckRows further) ∧
      (∀ clock runs samples, profile = ofRuns clock runs samples →
        profile.executionRows = samples.mapIdx fun index cycles =>
          .execution (index + 1) cycles (clock.msOfCycles cycles.toFloat)) ∧
      ∃ executions bottlenecks operations,
        profile.RowsTell limit (pieces '\n' (profile.summaryText limit false)) executions bottlenecks
          operations := by
  refine ⟨fun color => ?_, fun further more => ?_, ?_, ?_⟩
  · rw [pieces_summaryText some_layer one_line]
    exact accountsFor_summaryLines some_layer limit color
  · exact (List.take_prefix_take_left more).map _
  · rintro clock runs samples rfl
    exact executionRows_ofRuns clock runs samples
  · rw [pieces_summaryText some_layer one_line]
    exact ⟨_, _, _, rowsTell_summaryLines some_layer limit⟩

/-- Two layers of which one is shown, a position that was dropped and two executions. -/
theorem summaryText_accountsFor_two_layers :
    let profile := ofRuns {} [[⟨0, "CONV_2D", 7⟩, ⟨1, "ADD", 3⟩, ⟨2, "MUL", 1⟩],
      [⟨0, "CONV_2D", 9⟩, ⟨1, "ADD", 4⟩]] [900, 950]
    (truncated 1 2).render true ∈ pieces '\n' (profile.summaryText 1 true) ∧
      (pieces '\n' (profile.summaryText 1 true)).length = 33 ∧
      profile.bottleneckRows 1 <+: profile.bottleneckRows 2 ∧
      ∃ row ∈ pieces '\n' (profile.summaryText 1 false), readExecution? row = some (2, 950) := by
  intro profile
  have two : profile.layers.length = 2 := by decide +kernel
  have some_layer : profile.layers ≠ [] := List.length_pos_iff.mp (by rw [two]; decide)
  have one_line : ∀ layer ∈ profile.layers, '\n' ∉ layer.operation.toList := by decide +kernel
  obtain ⟨accounts, more, -, executions, _, _, tell⟩ :=
    summaryText_accountsFor some_layer one_line 1
  refine ⟨?_, ?_, more 2 (by decide), ?_⟩
  · have note := (accounts true).truncated
    rw [two] at note
    exact note.mpr (by decide)
  · rw [(accounts true).count]
    decide +kernel
  · have read : executions.map readExecution? = [some (1, 900), some (2, 950)] := tell.executions
    have second : some (2, 950) ∈ executions.map readExecution? := by simp [read]
    obtain ⟨row, member, found⟩ := List.mem_map.mp second
    exact ⟨row, by simp [tell.layout, member], found⟩

end Profile
end LayerTiming
