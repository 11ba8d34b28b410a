import Mathlib
import LayerTiming.Proofs.Number.Decimals
import LayerTiming.Proofs.Presentation.ChartPanels
import LayerTiming.Proofs.Presentation.ChartReading

/-!
# Where the rectangles of a chart lie

A rectangle lies where its attributes tell. The background and the bars lie on the canvas, however
many operations there are. The box on time lies at its lower right and grows upwards with its lines,
so it lies on the canvas exactly if the height has room for all of them.
-/
namespace LayerTiming
open Number Text Markup

namespace Chart

/-- The place and the size of a rectangle. -/
structure Region where
  x : ℚ
  y : ℚ
  width : ℚ
  height : ℚ
  deriving DecidableEq

/-- Whether a region has a size and lies on a canvas. -/
structure Region.LiesOn (region : Region) (width height : ℚ) : Prop where
  wide : 0 ≤ region.width
  high : 0 ≤ region.height
  left : 0 ≤ region.x
  right : region.x + region.width ≤ width
  top : 0 ≤ region.y
  bottom : region.y + region.height ≤ height

/-- An attribute of an element, read as a number. -/
def measure? (key : String) (node : Markup) : Option ℚ := (node.attribute? key).bind readDecimal?

/-- The region that the attributes of an element tell. -/
def region? (node : Markup) : Option Region :=
  (measure? "x" node).bind fun x => (measure? "y" node).bind fun y =>
    (measure? "width" node).bind fun width => (measure? "height" node).map fun height =>
      { x, y, width, height }

/-- An element with a region that lies on the canvas of a chart. -/
def OnCanvas (style : ChartStyle) (node : Markup) : Prop :=
  ∃ region, region? node = some region ∧ region.LiesOn style.width.toNat style.height.toNat

theorem onCanvas_iff {style : ChartStyle} {node : Markup} {region : Region}
    (read : region? node = some region) :
    OnCanvas style node ↔ region.LiesOn style.width.toNat style.height.toNat := by
  constructor
  · rintro ⟨other, read', lies⟩
    rwa [Option.some.inj (read.symm.trans read')]
  · exact fun lies => ⟨region, read, lies⟩

theorem onCanvas_background (style : ChartStyle) : OnCanvas style (background style) := by
  have zero : readDecimal? ['0'] = some 0 := by
    rw [show ['0'] = numeral 0 from rfl, readDecimal?_numeral, Nat.cast_zero]
  refine ⟨⟨0, 0, style.width.toNat, style.height.toNat⟩, ?_, ?_⟩
  · simp [region?, measure?, background, attribute?, List.lookup_cons, zero, readDecimal?_numeral]
  · constructor <;> simp

/-- A coordinate is printed to hundredths. -/
theorem coordinate_le {v r : ℚ} (printed : PrintsAs 2 v r) : r ≤ v + 1 / 200 := by
  have near := (abs_le.mp printed.abs_sub_le).1
  norm_num at near
  linarith

/-- A box is read as what its sides are printed as. -/
theorem exists_region {x y width height : Float} {a b w h : ℚ} (at_x : Denotes x a)
    (at_y : Denotes y b) (wide : Denotes width w) (high : Denotes height h)
    (style : List (String × String)) (children : List Markup) :
    ∃ region, region? (box x y width height style children) = some region ∧
      PrintsAs 2 a region.x ∧ PrintsAs 2 b region.y ∧ PrintsAs 2 w region.width ∧
      PrintsAs 2 h region.height := by
  obtain ⟨a', read_x, x_printed⟩ := readDecimal?_fixed 2 at_x
  obtain ⟨b', read_y, y_printed⟩ := readDecimal?_fixed 2 at_y
  obtain ⟨w', read_width, width_printed⟩ := readDecimal?_fixed 2 wide
  obtain ⟨h', read_height, height_printed⟩ := readDecimal?_fixed 2 high
  refine ⟨⟨a', b', w', h'⟩, ?_, x_printed, y_printed, width_printed, height_printed⟩
  simp [region?, measure?, box, attribute?, coordinate, List.lookup_cons, read_x, read_y,
    read_width, read_height]

section Rectangles

variable {panel : PlotArea}

/-- The rectangle of a bar. -/
def barBox (panel : PlotArea) (full : Float) (count index : Nat) (entry : OperationTotal) :
    Markup :=
  let barWidth := panel.width / Float.ofNat count * 0.7
  let barHeight := entry.totalTicks / full * panel.height
  box (panel.slotMiddle index count - barWidth / 2.0) (panel.bottom - barHeight) barWidth barHeight
    [("fill", (OperationFamily.ofName entry.operation.toList).fill), ("class", "bar")]
    [.element "title" [] [.content (tooltip entry)]]

/-- The rectangle behind some lines on time. -/
def timeFrame (panel : PlotArea) (lines : Nat) : Markup :=
  let height := Float.ofNat lines * 14.0 + 10.0
  box (panel.left + panel.width - 230.0 - 6.0) (panel.bottom - height - 6.0) 230.0 height
    [("fill", "white"), ("fill-opacity", "0.8")] []

theorem passesLabels_isNamed_rect : PassesLabels (isNamed "rect") := by
  intro name member attributes children
  simp only [List.mem_cons, List.not_mem_nil, or_false] at member
  rcases member with rfl | rfl | rfl | rfl | rfl <;> rfl

theorem pick_rect_box (x y width height : Float) (style : List (String × String))
    {children : List Markup} (inside : pick (isNamed "rect") children = []) :
    pick (isNamed "rect") [box x y width height style children] =
      [box x y width height style children] := by
  rw [pick] at inside ⊢
  simp [box, elementsAll, elements, isNamed, inside]

theorem pick_rect_bar (full : Float) (count index : Nat) (entry : OperationTotal) :
    pick (isNamed "rect") (bar panel full count index entry) =
      [barBox panel full count index entry] := by
  have title : pick (isNamed "rect") [.element "title" [] [.content (tooltip entry)]] = [] := by
    simp [pick, elementsAll, elements, isNamed]
  have labels : ∀ node ∈ (bar panel full count index entry).tail,
      pick (isNamed "rect") [node] = [] := by
    simp [bar, slotLabel, pick_label passesLabels_isNamed_rect]
  have parted : bar panel full count index entry =
      barBox panel full count index entry :: (bar panel full count index entry).tail := rfl
  rw [parted, pick_cons, pick_eq_nil labels, List.append_nil]
  exact pick_rect_box _ _ _ _ _ title

theorem pick_flatten_mapIdx {α : Type} {p : Markup → Bool} {f : Nat → α → List Markup}
    {g : Nat → α → Markup} (items : List α)
    (each : ∀ index item, pick p (f index item) = [g index item]) :
    pick p (items.mapIdx f).flatten = items.mapIdx g := by
  induction items generalizing f g with
  | nil => rfl
  | cons item items ih =>
    rw [List.mapIdx_cons, List.flatten_cons, pick_append, each, List.mapIdx_cons,
      ih fun index other => each (index + 1) other, List.singleton_append]

theorem pick_rect_timeBox (lines : List (List Char)) :
    pick (isNamed "rect") (timeBox panel lines) = [timeFrame panel lines.length] := by
  have labels : ∀ node ∈ (timeBox panel lines).tail, pick (isNamed "rect") [node] = [] := by
    intro node member
    obtain ⟨index, in_range, rfl⟩ := List.mem_mapIdx.mp member
    exact pick_label passesLabels_isNamed_rect ..
  have parted : timeBox panel lines =
      timeFrame panel lines.length :: (timeBox panel lines).tail := rfl
  rw [parted, pick_cons, pick_eq_nil labels, List.append_nil]
  exact pick_rect_box _ _ _ _ _ rfl

/-- The rectangles of a drawing: the background, the bars, and the box on time. -/
theorem pick_rect_drawing (style : ChartStyle) (profile : Profile) :
    let totals := operationTotals profile.layers
    pick (isNamed "rect") [drawing style profile] =
      background style :: totals.mapIdx (barBox (leftPanel style.width.toFloat style.height.toFloat)
          (fullScale totals) totals.length) ++
        [timeFrame (rightPanel style.width.toFloat style.height.toFloat)
          (timeLines profile totals).length] := by
  intro totals
  have behind : pick (isNamed "rect") [background style] = [background style] := by
    simp [pick, background, elementsAll, elements, isNamed]
  have line (line : List (Float × Float)) :
      pick (isNamed "rect") (polyline line :: line.map dot) = [] := by
    refine pick_eq_nil (List.forall_mem_cons.mpr ⟨?_, fun node member => ?_⟩)
    · simp [pick, polyline, elementsAll, elements, isNamed]
    · obtain ⟨point, _, rfl⟩ := List.mem_map.mp member
      simp [pick, dot, elementsAll, elements, isNamed]
  rw [pick_parts passesLabels_isNamed_rect, behind, pick_bars passesLabels_isNamed_rect,
    pick_flatten_mapIdx _ fun index entry => pick_rect_bar _ _ index entry,
    pick_cumulative passesLabels_isNamed_rect, line, List.append_nil, pick_rect_timeBox,
    List.singleton_append]

end Rectangles

section Canvas

variable {style : ChartStyle}

variable (fine : style.fault? = none) (wide : style.width.toNat < 2 ^ 51)
  (high : style.height.toNat < 2 ^ 51)
include fine wide high

/-- However many bars there are and whatever they stand for, each of them is on the canvas. -/
theorem onCanvas_barBox {totals : List OperationTotal} {k index : Nat}
    (within : ∀ entry ∈ totals, Within entry.totalTicks k) (few : totals.length ≤ 2 ^ 64)
    (in_range : index < totals.length) :
    OnCanvas style (barBox (leftPanel style.width.toFloat style.height.toFloat) (fullScale totals)
      totals.length index totals[index]) := by
  obtain ⟨width_ge, height_ge⟩ := le_toNat_of_fault? fine
  have width_ge' : (800 : ℚ) ≤ style.width.toNat := by exact_mod_cast width_ge
  have height_ge' : (400 : ℚ) ≤ style.height.toNat := by exact_mod_cast height_ge
  have width_le : (style.width.toNat : ℚ) ≤ 2 ^ 51 := by exact_mod_cast wide.le
  have spans := spans_leftPanel wide high
  have member : totals[index] ∈ totals := List.getElem_mem in_range
  obtain ⟨f, scale, one_le, greatest⟩ := exists_fullScale within
  obtain ⟨t, t_nonneg, _, counted⟩ := (within _ member).denotes
  obtain ⟨x, w, denotes_w, denotes_x, w_nonneg, x_nonneg, right⟩ :=
    spans.exists_bar_sides (by linarith) (by linarith) few in_range (by norm_num)
      (isHalves_of (style.width.toNat - 96) (by push_cast; ring) (by omega) (by omega))
  obtain ⟨y, h, denotes_h, denotes_y, h_nonneg, y_nonneg, bottom⟩ :=
    spans.exists_bar_ends counted scale t_nonneg (greatest _ member t counted) (by linarith)
      (by norm_num) (by linarith)
      (isHalves_of (2 * style.height.toNat - 220) (by push_cast; ring) (by omega) (by omega))
  obtain ⟨region, read, printed_x, printed_y, printed_w, printed_h⟩ :=
    exists_region denotes_x denotes_y denotes_w denotes_h
      [("fill", (OperationFamily.ofName totals[index].operation.toList).fill), ("class", "bar")]
      [.element "title" [] [.content (tooltip totals[index])]]
  refine ⟨region, read, printed_w.nonneg w_nonneg, printed_h.nonneg h_nonneg,
    printed_x.nonneg x_nonneg, ?_, printed_y.nonneg y_nonneg, ?_⟩
  · linarith [coordinate_le printed_x, coordinate_le printed_w]
  · linarith [coordinate_le printed_y, coordinate_le printed_h]

/-- The box on time is on the canvas exactly if the canvas is high enough for its lines. -/
theorem onCanvas_timeFrame_iff {lines : Nat} (few : lines ≤ 2 ^ 65) :
    OnCanvas style (timeFrame (rightPanel style.width.toFloat style.height.toFloat) lines) ↔
      14 * lines + 126 ≤ style.height.toNat := by
  obtain ⟨width_ge, _⟩ := le_toNat_of_fault? fine
  have width_ge' : (800 : ℚ) ≤ style.width.toNat := by exact_mod_cast width_ge
  obtain ⟨y, tall, denotes_x, denotes_y, denotes_tall, fits, overflows⟩ :=
    exists_timeBox_sides wide high few
  obtain ⟨region, read, printed_x, printed_y, printed_w, printed_h⟩ :=
    exists_region denotes_x denotes_y denotes_box_width denotes_tall
      [("fill", "white"), ("fill-opacity", "0.8")] []
  refine (onCanvas_iff read).trans ⟨?_, ?_⟩
  · -- Without room the box begins a unit above the canvas, which is more than printing rounds off.
    intro lies
    by_contra past
    linarith [overflows (not_le.mp past), coordinate_le printed_y, lies.top]
  · intro room
    obtain ⟨rfl, rfl⟩ := fits room
    -- All sides are whole numbers, which are printed as they are.
    have x_exact := printed_x.eq (k := 100 * (style.width.toNat - 276)) (by push_cast; ring)
    have y_exact := printed_y.eq (k := 100 * (style.height.toNat - 126 - 14 * lines))
      (by push_cast; ring)
    have w_exact := printed_w.eq (k := 23000) (by norm_num)
    have h_exact := printed_h.eq (k := 100 * (14 * lines + 10)) (by push_cast; ring)
    have room : (14 * lines + 126 : ℚ) ≤ style.height.toNat := by exact_mod_cast room
    have lines_nonneg : (0 : ℚ) ≤ lines := Nat.cast_nonneg lines
    constructor <;> linarith

end Canvas

end Chart

theorem length_timeShares_le (totals : List OperationTotal) (ms : Float) :
    (timeShares totals ms).length ≤ totals.length := by
  unfold timeShares
  extract_lets total
  split
  · exact Nat.zero_le _
  · rw [List.length_map]

namespace Profile
open Chart

/-- The rectangles of a chart of runs. The background and the bars are on the canvas. The box on
time is the last of them, and it is on the canvas exactly if the canvas is high enough for its
lines. -/
theorem chart_rects_onCanvas (clock : Clock) (runs : List Run) (samples : List UInt64)
    (style : ChartStyle) (layers : (ofRuns clock runs samples).layers ≠ [])
    (fine : style.fault? = none) (wide : style.width.toNat < 2 ^ 51)
    (high : style.height.toNat < 2 ^ 51)
    (few : (operationTotals (ofRuns clock runs samples).layers).length ≤ 2 ^ 64) :
    let profile := ofRuns clock runs samples
    let totals := operationTotals profile.layers
    ∃ text root boxes timeBox, profile.chart style = .ok text ∧ Markup.read? text = some root ∧
      root.elements.filter (isNamed "rect") = boxes ++ [timeBox] ∧
      boxes.length = totals.length + 1 ∧ (∀ node ∈ boxes, OnCanvas style node) ∧
      (OnCanvas style timeBox ↔
        14 * (timeLines profile totals).length + 126 ≤ style.height.toNat) := by
  intro profile totals
  have lines : (timeLines profile totals).length ≤ 2 ^ 65 := by
    have shares := length_timeShares_le totals profile.endToEnd.meanMs
    rw [length_timeLines]
    change totals.length ≤ 2 ^ 64 at few
    omega
  refine ⟨_, _, _, _, chart_of_layers layers fine,
    Markup.read?_write (regular_drawing style profile),
    (filter_elements _).trans (pick_rect_drawing style profile), ?_, ?_,
    onCanvas_timeFrame_iff fine wide high lines⟩
  · rw [List.length_cons, List.length_mapIdx]
  · refine List.forall_mem_cons.mpr ⟨onCanvas_background style, fun node member => ?_⟩
    obtain ⟨index, in_range, rfl⟩ := List.mem_mapIdx.mp member
    have within : ∀ entry ∈ totals, Within entry.totalTicks 172 :=
      fun entry member => (within_totalTicks member).1
    exact onCanvas_barBox fine wide high within few in_range

/-- With one operation all rectangles are on the least canvas. -/
theorem chart_rects_onCanvas_one_operation :
    let profile := ofRuns {} [[⟨0, "ADD", 100⟩]] [2000000]
    let style : ChartStyle := { width := 800, height := 400 }
    ∃ text root, profile.chart style = .ok text ∧ Markup.read? text = some root ∧
      (root.elements.filter (isNamed "rect")).length = 3 ∧
      ∀ node ∈ root.elements.filter (isNamed "rect"), OnCanvas style node := by
  intro profile style
  have layers : profile.layers ≠ [] := List.cons_ne_nil _ _
  have count : (operationTotals profile.layers).length = 1 := by decide +kernel
  have lines : (timeLines profile (operationTotals profile.layers)).length = 3 := by decide +kernel
  obtain ⟨text, root, boxes, timeBox, made, read, rects, length, inside, fits⟩ :=
    chart_rects_onCanvas {} [[⟨0, "ADD", 100⟩]] [2000000] style layers rfl (by decide) (by decide)
      (count.trans_le (by decide))
  refine ⟨text, root, made, read, ?_, ?_⟩
  · rw [rects, List.length_append, length]
    exact congrArg (· + 1 + 1) count
  · rw [rects, List.forall_mem_append]
    refine ⟨inside, List.forall_mem_singleton.mpr (fits.mpr ?_)⟩
    rw [lines]
    decide

/-- One run of eighteen operations. -/
def eighteenOperations : List Run :=
  [["A", "B", "C", "D", "E", "F", "G", "H", "I", "J", "K", "L", "M", "N", "O", "P", "Q", "R"].mapIdx
    fun index name => ⟨index.toUInt64, name, 100⟩]

/-- With eighteen operations the box on time begins above the least canvas. -/
theorem chart_rect_above_canvas :
    let profile := ofRuns {} eighteenOperations [2000000]
    let style : ChartStyle := { width := 800, height := 400 }
    profile.layers ≠ [] ∧ style.fault? = none ∧
      ∃ text root, profile.chart style = .ok text ∧ Markup.read? text = some root ∧
        ∃ node ∈ root.elements.filter (isNamed "rect"),
          region? node = some ⟨524, -6, 230, 290⟩ ∧ ¬ OnCanvas style node := by
  intro profile style
  have layers : profile.layers ≠ [] := List.cons_ne_nil _ _
  have made : profile.chart style = .ok (drawing style profile).write := rfl
  have lines : (timeLines profile (operationTotals profile.layers)).length = 20 := by
    decide +kernel
  have read : region? (timeFrame (rightPanel style.width.toFloat style.height.toFloat) 20) =
      some ⟨524, -6, 230, 290⟩ := by
    decide +kernel
  refine ⟨layers, rfl, _, drawing style profile, made,
    Markup.read?_write (regular_drawing style profile),
    timeFrame (rightPanel style.width.toFloat style.height.toFloat) 20, ?_, read, ?_⟩
  · rw [filter_elements, pick_rect_drawing, lines]
    exact List.mem_append_right _ (List.mem_singleton_self _)
  · intro inside
    exact absurd ((onCanvas_iff read).mp inside).top (by norm_num)

end Profile

end LayerTiming
