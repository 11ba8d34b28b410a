import LayerTiming.Proofs.Number.Counters
import LayerTiming.Proofs.Presentation.ChartReading
import LayerTiming.Proofs.Presentation.RowReading
import LayerTiming.Proofs.Presentation.TableReading
import LayerTiming.Proofs.Ranking.Layers
import LayerTiming.Proofs.Timing.Bounds

/-!
# The texts of ticks

The same ticks are printed in four places. The rows of the summary and the labels of the bars have
the ticks as a counter value, the table and the tooltips as an exact whole number. They agree exactly
on ticks that are rounded alike in both ways.
-/
namespace LayerTiming
open Number Text

section Doubles
variable {x : Float} {value : Binary} {k : Nat}

/-- A counter value is printed with commas, which are no digits. -/
theorem filter_counter (finite : kind x = .finite value) (positive : value.negative = false) :
    (SummaryLine.counter x).filter (· ≠ ',') =
      numeral (min (value.nearest .up) greatestCounter) := by
  rw [SummaryLine.counter, filter_grouped, toCounter, finite]
  dsimp only
  rw [if_neg (by rw [positive]; decide)]

theorem count_eq (finite : kind x = .finite value) (positive : value.negative = false) :
    TableRow.count x = numeral (value.nearest .toEven) := by
  rw [TableRow.count, finite]
  dsimp only
  rw [if_neg (by rw [positive]; decide)]

theorem fixed_zero_eq (finite : kind x = .finite value) (positive : value.negative = false) :
    fixed 0 x = numeral (value.nearest .toEven) := by
  rw [fixed, finite]
  dsimp only
  rw [positive, signed, if_neg Bool.false_ne_true, pointed_zero, Binary.nearest]

theorem counter_eq_count_iff (within : Within x k) :
    (SummaryLine.counter x).filter (· ≠ ',') = TableRow.count x ↔ RoundsAlike x := by
  -- A bounded double is finite, so both texts are those of a whole number.
  obtain ⟨value, finite, positive⟩ := within.kind
  have small := (unpack_of_kind finite).1.small
  rw [filter_counter finite positive, count_eq finite positive, numeral_inj,
    Binary.counter_eq_iff small]
  constructor
  · intro alike
    exact ⟨value, finite, alike⟩
  · rintro ⟨other, other_finite, alike⟩
    cases finite.symm.trans other_finite
    exact alike

/-- Tooltip and table print the same number. -/
theorem fixed_zero_eq_count (within : Within x k) : fixed 0 x = TableRow.count x := by
  obtain ⟨value, finite, positive⟩ := within.kind
  rw [fixed_zero_eq finite positive, count_eq finite positive]

end Doubles

/-! ### Words -/

/-- The words of a text that are parted by blanks. -/
def blankWords (text : List Char) : List (List Char) := (pieces ' ' text).filter (· ≠ [])

theorem blankWords_append (front back : List Char) :
    blankWords (front ++ ' ' :: back) = blankWords front ++ blankWords back := by
  rw [blankWords, pieces_append_cons, List.filter_append, blankWords, blankWords]

theorem blankWords_singleton {word : List Char} (free : ' ' ∉ word) (some_char : word ≠ []) :
    blankWords word = [word] := by
  rw [blankWords, pieces_eq_singleton ' ' word free, List.filter_cons_of_pos (by simpa using some_char),
    List.filter_nil]

/-- Blanks in front of a word do not count. -/
theorem blankWords_filler (width : Nat) (text : List Char) {word : List Char} (free : ' ' ∉ word)
    (some_char : word ≠ []) : blankWords (filler width text ++ word) = [word] := by
  -- Each blank in front ends an empty piece, and those are left out.
  rw [filler]
  induction width - text.length with
  | zero => exact blankWords_singleton free some_char
  | succ blanks ih =>
    rw [List.replicate_succ, List.cons_append]
    exact (blankWords_append [] _).trans ih

/-- The ticks in a row of the summary without their commas: the third word from its end. -/
def rowTicks? (row : List Char) : Option (List Char) :=
  (blankWords row).reverse[2]?.map fun word => word.filter (· ≠ ',')

/-- The ticks in a tooltip: the fourth word from its end, behind a bracket. -/
def tooltipTicks? (text : List Char) : Option (List Char) :=
  (blankWords text).reverse[3]?.map fun word => word.drop 1

/-- A share is one word behind its blanks. -/
theorem blankWords_share (percentage : Float) :
    blankWords (SummaryLine.share percentage) = [fixed 1 percentage ++ ['%']] := by
  have free : ' ' ∉ fixed 1 percentage := not_mem_fixed 1 percentage (by decide) (by decide)
  have word : ' ' ∉ fixed 1 percentage ++ ['%'] := List.not_mem_append free (by decide)
  rw [SummaryLine.share, alignRight, List.append_assoc]
  exact blankWords_filler 7 _ word (by simp)

theorem rowTicks?_render (color : Bool) (entry : RankedLayer) :
    rowTicks? ((SummaryLine.bottleneck entry).render color) =
      some ((SummaryLine.counter entry.meanTicks).filter (· ≠ ',')) := by
  have ticks : blankWords (alignRight 12 (SummaryLine.counter entry.meanTicks)) = _ :=
    blankWords_filler 12 _ (blank_not_mem_counter _) (counter_ne_nil _)
  -- Only the head of the line is unfolded: the words of its cells are given above.
  delta SummaryLine.render
  dsimp only
  rw [rowTicks?, blankWords_append, blankWords_append, blankWords_append, ticks, blankWords_share,
    blankWords_share]
  simp only [List.reverse_append, List.reverse_cons, List.reverse_nil, List.nil_append,
    List.cons_append]
  rfl

/-- A row begins with the id and the operation of its layer. -/
theorem prefix_render (color : Bool) (entry : RankedLayer) :
    alignRight 3 (numeral entry.id.toNat) ++ ' '
        :: painted color entry.operation.toList (alignLeft 20 entry.operation.toList) <+:
      (SummaryLine.bottleneck entry).render color := by
  delta SummaryLine.render
  dsimp only
  have one (front back : List Char) : front <+: front ++ back := List.prefix_append front back
  exact ((one _ _).trans (one _ _)).trans (one _ _)

theorem tooltipTicks?_tooltip (entry : OperationTotal) :
    tooltipTicks? (Chart.tooltip entry) = some (fixed 0 entry.totalTicks) := by
  have free : ' ' ∉ fixed 0 entry.totalTicks := not_mem_fixed 0 _ (by decide) (by decide)
  have bracketed : ' ' ∉ '(' :: fixed 0 entry.totalTicks := by simpa using free
  have number : ' ' ∉ numeral entry.count := not_mem_numeral _ ' ' (by decide)
  have parts : Chart.tooltip entry =
      entry.operation.toList ++ ' ' :: '(' :: fixed 0 entry.totalTicks ++ ' ' :: "ticks,".toList
        ++ ' ' :: numeral entry.count ++ ' ' :: "layers)".toList := by
    simp [Chart.tooltip]
  rw [tooltipTicks?, parts, blankWords_append, blankWords_append, blankWords_append,
    blankWords_append, blankWords_singleton bracketed (List.cons_ne_nil _ _),
    blankWords_singleton number (numeral_ne_nil _)]
  simp only [List.reverse_append]
  rfl

/-! ### Rows and bars -/

/-- The rows of the summary are those of the layers in another order. -/
theorem forall₂_rankLayers (layers : List Layer) : ∃ ranked, ranked.Perm layers ∧
    List.Forall₂ (fun layer entry => entry.id = layer.id ∧ entry.operation = layer.operation ∧
      entry.meanTicks = layer.meanTicks) ranked (rankLayers layers) := by
  refine ⟨layersByTicks layers, sortDescending_perm _ layers, ?_⟩
  have rows : List.Forall₂ (· = ·) ((layersByTicks layers).map Layer.row)
      ((rankLayers layers).map RankedLayer.row) := by
    rw [List.forall₂_eq_eq_eq, map_row_rankLayers]
  rw [List.forall₂_map_left_iff, List.forall₂_map_right_iff] at rows
  refine rows.imp fun layer entry same => ?_
  simpa [RankedLayer.row, Layer.row, eq_comm] using same

/-- The nodes of a drawing in pairs, each bar with what follows it. -/
def labelledBars : List Markup → List (Markup × Markup)
  | drawn :: label :: rest =>
    if Chart.isBar drawn then (drawn, label) :: labelledBars (label :: rest)
    else labelledBars (label :: rest)
  | _ => []

theorem labelledBars_skip {node : Markup} {rest : List Markup} (other : Chart.isBar node = false) :
    labelledBars (node :: rest) = labelledBars rest := by
  cases rest with
  | nil => rfl
  | cons next rest => rw [labelledBars, other, if_neg Bool.false_ne_true]

theorem labelledBars_append {front : List Markup} (rest : List Markup)
    (others : ∀ node ∈ front, Chart.isBar node = false) :
    labelledBars (front ++ rest) = labelledBars rest := by
  induction front with
  | nil => rfl
  | cons node front ih =>
    rw [List.cons_append, labelledBars_skip (others node List.mem_cons_self)]
    exact ih fun other member => others other (List.mem_cons_of_mem node member)

/-- The ticks that are shown when a bar is pointed at. -/
def pointedTicks? (drawn : Markup) : Option (List Char) :=
  drawn.children.head?.bind fun title => tooltipTicks? title.words

/-- The ticks in the label of a bar, without their commas. -/
def labelTicks (label : Markup) : List Char := label.words.filter (· ≠ ',')

/-- What a bar and its label tell of the ticks of an operation. -/
def TellsTicks (entry : OperationTotal) (bar : Markup × Markup) : Prop :=
  Chart.TellsOperation entry bar.1 ∧ pointedTicks? bar.1 = some (fixed 0 entry.totalTicks) ∧
    bar.2.words = SummaryLine.counter entry.totalTicks

namespace Chart

theorem isBar_of_pick {nodes : List Markup} (none_picked : pick isBar nodes = []) :
    ∀ node ∈ nodes, isBar node = false := by
  intro node member
  cases node with
  | content text => rfl
  | element name attributes children =>
    have inside : Markup.element name attributes children ∈ Markup.elementsAll nodes := by
      rw [Markup.elementsAll_eq_flatMap]
      exact List.mem_flatMap.mpr ⟨_, member, List.mem_cons_self⟩
    exact Bool.eq_false_iff.mpr (List.filter_eq_nil_iff.mp none_picked _ inside)

theorem bar_parts (panel : PlotArea) (full : Float) (count index : Nat) (entry : OperationTotal) :
    ∃ drawn label slot, bar panel full count index entry = [drawn, label, slot] ∧
      isBar drawn = true ∧ isBar label = false ∧ isBar slot = false ∧
      TellsTicks entry (drawn, label) := by
  have begins : entry.operation.toList <+: tooltip entry := by
    simp [tooltip, List.append_assoc]
  have title : Markup.words (.element "title" [] [.content (tooltip entry)]) = tooltip entry := by
    simp [Markup.words, Markup.children]
  unfold bar
  extract_lets barWidth barHeight center y operation
  refine ⟨_, _, _, rfl, ?_, rfl, rfl, ⟨_, rfl, rfl, ?_⟩, ?_, ?_⟩
  · simp [isBar, Markup.isNamed, Markup.attribute?, box, styled, List.lookup_cons]
  · rw [title]
    exact begins
  · change tooltipTicks? (Markup.words _) = _
    rw [title, tooltipTicks?_tooltip]
  · simp [label, Markup.words, Markup.children]

/-- Bars with their labels and names, and no bar behind them. -/
theorem forall₂_labelledBars {α : Type} {R : α → Markup × Markup → Prop}
    {f : Nat → α → List Markup} (items : List α) {rest : List Markup}
    (others : ∀ node ∈ rest, isBar node = false)
    (each : ∀ index item, ∃ drawn label slot, f index item = [drawn, label, slot] ∧
      isBar drawn = true ∧ isBar label = false ∧ isBar slot = false ∧ R item (drawn, label)) :
    List.Forall₂ R items (labelledBars ((items.mapIdx f).flatten ++ rest)) := by
  induction items generalizing f with
  | nil =>
    have none_left := labelledBars_append [] others
    rw [List.append_nil] at none_left
    exact none_left ▸ .nil
  -- Each item brings three nodes, of which the first is a bar and the next its label.
  | cons item items ih =>
    obtain ⟨drawn, label, slot, parts, is_bar, no_label, no_slot, related⟩ := each 0 item
    rw [List.mapIdx_cons, List.flatten_cons, parts]
    simp only [List.cons_append, List.nil_append]
    rw [labelledBars, if_pos is_bar, labelledBars_skip no_label, labelledBars_skip no_slot]
    exact .cons related (ih fun index other => each (index + 1) other)

theorem forall₂_labelledBars_drawing (style : ChartStyle) (profile : Profile) :
    List.Forall₂ TellsTicks (operationTotals profile.layers)
      (labelledBars (drawing style profile).children) := by
  let left := leftPanel style.width.toFloat style.height.toFloat
  let right := rightPanel style.width.toFloat style.height.toFloat
  let totals := operationTotals profile.layers
  -- Neither the frame in front nor the line and the box behind bring a bar of their own.
  have line : pick isBar (cumulative right totals) = [] := by
    rw [pick_cumulative ignores_isBar.passesLabels, pick_isBar_line]
  have time : pick isBar (timeBox right (timeLines profile totals)) = [] :=
    pick_timeBox ignores_isBar ..
  have behind : ∀ node ∈ cumulative right totals ++ timeBox right (timeLines profile totals),
      isBar node = false :=
    isBar_of_pick (by rw [pick_append, line, time, List.append_nil])
  have frames : ∀ node ∈ frame left "Total ticks by operation (abs)" "Ticks",
      isBar node = false :=
    isBar_of_pick (pick_eq_nil (pick_frame ignores_isBar.passesLabels left _ _))
  have bars := forall₂_labelledBars totals behind
    (fun index entry => bar_parts left (fullScale totals) totals.length index entry)
  rw [drawing, Markup.children, Chart.bars, List.append_assoc, List.append_assoc,
    labelledBars_append, List.append_assoc, labelledBars_append _ frames]
  · exact bars
  · simp [isBar, Markup.isNamed, Markup.attribute?, List.lookup_cons]

end Chart

namespace Profile

/-- The rows of the bottlenecks stand together in the summary, behind their heading. -/
theorem exists_summaryLines {profile : Profile} {limit : Nat} (layers : profile.layers ≠ [])
    (all : profile.layers.length ≤ limit) :
    ∃ before after, .words "Top bottlenecks (by ticks):" ∈ before ∧ profile.summaryLines limit =
      before ++ (rankLayers profile.layers).map .bottleneck ++ after := by
  have some_layer : ¬ profile.isEmpty = true := by simpa [isEmpty] using layers
  obtain ⟨ranked, perm, related⟩ := forall₂_rankLayers profile.layers
  have count : (rankLayers profile.layers).length ≤ limit := by
    rw [← related.length_eq, perm.length_eq]
    exact all
  have parted {front head rows tail behind : List SummaryLine} {gap first : SummaryLine} :
      ∃ before after, first ∈ before ∧
        front ++ gap :: (first :: head ++ rows ++ tail) ++ behind = before ++ rows ++ after := by
    refine ⟨front ++ gap :: first :: head, tail ++ behind, by simp, ?_⟩
    simp only [List.append_assoc, List.cons_append]
  rw [summaryLines, if_neg some_layer, bottleneckLines, List.take_of_length_le count,
    List.append_assoc _ [SummaryLine.blank, .rule, .blank],
    List.append_assoc _ (_ ++ profile.operationLines)]
  exact parted

/-- How the ticks of a profile are printed. The ticks cell of a layer in the table and the ticks in
its row of the summary are the same number exactly if the mean is rounded alike in both ways. The
label of a bar and its tooltip are exactly if the total is. -/
structure PrintsTicks (profile : Profile) : Prop where
  table : ∃ table, profile.csv = .ok table ∧ Csv.read? table =
    some (TableRow.columnNames.cells
      :: profile.layers.map (fun layer => (TableRow.ofLayer layer).cells)
      ++ [(TableRow.ofTotal profile.layers).cells, (TableRow.ofEndToEnd profile.endToEnd).cells])
  rows : ∀ limit color, profile.layers.length ≤ limit → ∃ before rows after ranked,
    "Top bottlenecks (by ticks):".toList ∈ before ∧
    profile.summaryText limit color = joinPieces '\n' (before ++ rows ++ after) ∧
    ranked.Perm profile.layers ∧
    List.Forall₂ (fun layer row =>
      alignRight 3 (numeral layer.id.toNat) ++ ' '
          :: painted color layer.operation.toList (alignLeft 20 layer.operation.toList) <+: row ∧
        (rowTicks? row = (TableRow.ofLayer layer).cells[2]? ↔ RoundsAlike layer.meanTicks))
      ranked rows
  bars : ∀ style text, profile.chart style = .ok text → ∃ root, Markup.read? text = some root ∧
    List.Forall₂ (fun entry bar => Chart.TellsOperation entry bar.1 ∧
        (some (labelTicks bar.2) = pointedTicks? bar.1 ↔ RoundsAlike entry.totalTicks))
      (operationTotals profile.layers) (labelledBars root.children)

/-- The ticks of all runs that have a layer are printed so. -/
theorem printsTicks_ofRuns (clock : Clock) (runs : List Run) (samples : List UInt64)
    (layers : (ofRuns clock runs samples).layers ≠ []) :
    (ofRuns clock runs samples).PrintsTicks := by
  generalize same : ofRuns clock runs samples = profile at layers ⊢
  constructor
  case table =>
    have read := Csv.read?_write (profile.tableRows.map TableRow.cells) fun record member => by
      obtain ⟨row, _, rfl⟩ := List.mem_map.mp member
      exact List.cons_ne_nil _ _
    refine ⟨_, csv_of_layers layers, ?_⟩
    rw [read, tableRows, List.map_append, List.map_cons, List.map_map]
    rfl
  case rows =>
    intro limit color all
    obtain ⟨before, after, headed, lines⟩ := exists_summaryLines layers all
    obtain ⟨ranked, perm, related⟩ := forall₂_rankLayers profile.layers
    refine ⟨before.map (SummaryLine.render color),
      (rankLayers profile.layers).map fun entry => (SummaryLine.bottleneck entry).render color,
      after.map (SummaryLine.render color), ranked, ?_, ?_, perm, ?_⟩
    · exact List.mem_map_of_mem headed
    · rw [summaryText, lines, List.map_append, List.map_append, List.map_map]
      rfl
    · -- Means are bounded, so each of them is printed by both rules for whole numbers.
      have bounded : ∀ layer ∈ ranked, Within layer.meanTicks 118 :=
        fun layer member => within_meanTicks (same ▸ perm.mem_iff.mp member)
      rw [List.forall₂_map_right_iff]
      refine ((List.forall₂_and_left _ _).mpr ⟨bounded, related⟩).imp ?_
      rintro layer entry ⟨within, same_id, same_operation, same_ticks⟩
      refine ⟨?_, ?_⟩
      · rw [← same_id, ← same_operation]
        exact prefix_render color entry
      · rw [rowTicks?_render, same_ticks, ← counter_eq_count_iff within]
        exact Option.some_inj
  case bars =>
    intro style text made
    obtain ⟨_, rfl⟩ := chart_eq_ok made
    refine ⟨Chart.drawing style profile, Markup.read?_write (Chart.regular_drawing style profile),
      ?_⟩
    -- Totals may be greater than any counter, but are finite all the same.
    have bounded : ∀ entry ∈ operationTotals profile.layers, Within entry.totalTicks 172 :=
      fun entry member => (within_totalTicks (same ▸ member)).1
    have told := Chart.forall₂_labelledBars_drawing style profile
    refine ((List.forall₂_and_left _ _).mpr ⟨bounded, told⟩).imp ?_
    rintro entry bar ⟨within, tells, pointed, label⟩
    refine ⟨tells, ?_⟩
    rw [pointed, labelTicks, label, fixed_zero_eq_count within, ← counter_eq_count_iff within]
    exact Option.some_inj

/-- Two runs with a mean halfway above an even number and with two of the greatest counters. -/
def extremeRuns : List Run :=
  [[⟨0, "MUL", 10⟩, ⟨1, "ADD", 0xFFFFFFFFFFFFFFFF⟩, ⟨2, "ADD", 0xFFFFFFFFFFFFFFFF⟩],
    [⟨0, "MUL", 11⟩, ⟨1, "ADD", 0xFFFFFFFFFFFFFFFF⟩, ⟨2, "ADD", 0xFFFFFFFFFFFFFFFF⟩]]

theorem printsTicks_extremeRuns :
    (ofRuns {} extremeRuns []).layers ≠ [] ∧ (ofRuns {} extremeRuns []).PrintsTicks := by
  have layers : (ofRuns {} extremeRuns []).layers ≠ [] := List.cons_ne_nil _ _
  exact ⟨layers, printsTicks_ofRuns {} extremeRuns [] layers⟩

/-- In the summary and in the chart of these runs ticks are printed apart. -/
theorem extreme_ticks_apart :
    let profile := ofRuns {} extremeRuns []
    (∃ layer ∈ profile.layers, ∃ row ∈ pieces '\n' (profile.summaryText 3 false),
      alignRight 3 (numeral layer.id.toNat) ++ ' ' :: alignLeft 20 layer.operation.toList <+: row ∧
        (TableRow.ofLayer layer).cells[2]? = some "10".toList ∧ rowTicks? row = some "11".toList) ∧
    ∃ text root, profile.chart {} = .ok text ∧ Markup.read? text = some root ∧
      ∃ bar ∈ labelledBars root.children,
        pointedTicks? bar.1 = some "36893488147419103232".toList ∧
        labelTicks bar.2 = "18446744073709551615".toList := by
  intro profile
  constructor
  · decide +kernel
  · -- That the chart reads as what was drawn is known, so only the drawing is evaluated.
    have made : profile.chart {} = .ok (Chart.drawing {} profile).write := rfl
    have regular := Chart.regular_drawing {} profile
    refine ⟨_, _, made, Markup.read?_write regular, ?_⟩
    decide +kernel

end Profile

end LayerTiming
