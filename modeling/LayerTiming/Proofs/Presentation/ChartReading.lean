import Mathlib.Data.List.Forall2
import LayerTiming.Proofs.Number.Texts
import LayerTiming.Proofs.Presentation.ChartTags
import LayerTiming.Proofs.Text.Cutting
import LayerTiming.Proofs.Timing.Operations

/-!
# The chart read back

A chart is one element whatever the strings in it are. Its heading, the names at its bars and the
points of its line are found in the tree that its text is read back as.
-/
namespace LayerTiming
open Number Text Markup

namespace Chart

def pick (p : Markup → Bool) (nodes : List Markup) : List Markup := (elementsAll nodes).filter p

/-- A bar is drawn as a rectangle of a class of its own. -/
def isBar (node : Markup) : Bool :=
  node.isNamed "rect" && node.attribute? "class" == some "bar".toList

/-- The center of a circle, as a line has it among its points. -/
def center? (node : Markup) : Option (List Char) :=
  (node.attribute? "cx").bind fun x => (node.attribute? "cy").map fun y => x ++ ',' :: y

/-- A property that none of the elements has that only frame and name what is drawn. -/
structure Ignores (p : Markup → Bool) : Prop where
  named : ∀ name ∈ ["svg", "style", "text", "line", "title"], ∀ attributes children,
    p (.element name attributes children) = false
  boxes : ∀ attributes children, attributes.lookup "class" = none →
    p (.element "rect" attributes children) = false

/-- A property that none of the elements has that frame and name. Boxes may have it. -/
def PassesLabels (p : Markup → Bool) : Prop :=
  ∀ name ∈ ["svg", "style", "text", "line", "title"], ∀ attributes children,
    p (.element name attributes children) = false

theorem Ignores.passesLabels {p : Markup → Bool} (ignores : Ignores p) : PassesLabels p :=
  ignores.named

theorem ignores_isNamed {name : String}
    (other : name ∉ ["svg", "style", "text", "line", "title", "rect"]) : Ignores (isNamed name) := by
  simp only [List.mem_cons, List.not_mem_nil, or_false, not_or] at other
  constructor
  · intro own member attributes children
    simp only [List.mem_cons, List.not_mem_nil, or_false] at member
    rcases member with rfl | rfl | rfl | rfl | rfl <;> simp [isNamed, Ne.symm, other]
  · intro attributes children _
    simp [isNamed, Ne.symm, other]

theorem ignores_isBar : Ignores isBar := by
  constructor
  · intro own member attributes children
    simp only [List.mem_cons, List.not_mem_nil, or_false] at member
    rcases member with rfl | rfl | rfl | rfl | rfl <;> simp [isBar, isNamed]
  · intro attributes children unclassed
    simp [isBar, attribute?, unclassed]

section Picks

variable {p : Markup → Bool}

theorem pick_append (first second : List Markup) :
    pick p (first ++ second) = pick p first ++ pick p second := by
  simp [pick, elementsAll_eq_flatMap]

theorem filter_elements (tree : Markup) : (elements tree).filter p = pick p [tree] := by
  simp [pick, elementsAll]

theorem pick_cons (first : Markup) (rest : List Markup) :
    pick p (first :: rest) = pick p [first] ++ pick p rest := pick_append [first] rest

theorem pick_eq_nil {nodes : List Markup} (each : ∀ node ∈ nodes, pick p [node] = []) :
    pick p nodes = [] := by
  induction nodes with
  | nil => rfl
  | cons first rest ih =>
    rw [pick_cons, each first List.mem_cons_self,
      ih fun node member => each node (List.mem_cons_of_mem first member), List.append_nil]

section Labels

variable (passes : PassesLabels p)
include passes

theorem pick_label (x y : Float) (style : List (String × List Char)) (text : List Char) :
    pick p [label x y style text] = [] := by
  simp [pick, label, elementsAll, elements, passes "text"]

theorem pick_stroke (x1 y1 x2 y2 : Float) (style : List (String × String)) :
    pick p [stroke x1 y1 x2 y2 style] = [] := by
  simp [pick, stroke, elementsAll, elements, passes "line"]

theorem pick_frame (panel : PlotArea) (title axis : String) :
    ∀ node ∈ frame panel title axis, pick p [node] = [] := by
  simp [frame, pick_label passes, pick_stroke passes]

theorem pick_bars (panel : PlotArea) (totals : List OperationTotal) :
    pick p (bars panel totals) =
      pick p (totals.mapIdx (bar panel (fullScale totals) totals.length)).flatten := by
  rw [bars, pick_append, pick_eq_nil (pick_frame passes panel _ _), List.nil_append]

theorem pick_cumulative (panel : PlotArea) (totals : List OperationTotal) :
    pick p (cumulative panel totals) =
      pick p (polyline (points panel totals) :: (points panel totals).map dot) := by
  have grid : pick p ([0, 20, 40, 60, 80, 100].flatMap (gridLine panel)) = [] := by
    refine pick_eq_nil fun node member => ?_
    obtain ⟨percent, _, inside⟩ := List.mem_flatMap.mp member
    simp only [gridLine, List.mem_cons, List.not_mem_nil, or_false] at inside
    rcases inside with rfl | rfl
    · exact pick_stroke passes ..
    · exact pick_label passes ..
  have mark : pick p (markLine panel) = [] := by
    refine pick_eq_nil ?_
    simp [markLine, pick_label passes, pick_stroke passes]
  have names : pick p (totals.mapIdx fun index entry => slotLabel panel
      (panel.slotMiddle index totals.length) entry.operation.toList) = [] := by
    refine pick_eq_nil fun node member => ?_
    obtain ⟨index, in_range, rfl⟩ := List.mem_mapIdx.mp member
    exact pick_label passes ..
  simp only [cumulative, pick_append, pick_eq_nil (pick_frame passes panel _ _), grid, mark, names,
    List.nil_append, List.append_nil]

/-- The background of a canvas. -/
def background (style : ChartStyle) : Markup :=
  .element "rect" [("x", ['0']), ("y", ['0']), ("width", numeral style.width.toNat),
    ("height", numeral style.height.toNat), ("fill", "white".toList)] []

theorem pick_parts (style : ChartStyle) (profile : Profile) :
    pick p [drawing style profile] =
      pick p [background style] ++
        pick p (bars (leftPanel style.width.toFloat style.height.toFloat)
          (operationTotals profile.layers)) ++
        pick p (cumulative (rightPanel style.width.toFloat style.height.toFloat)
          (operationTotals profile.layers)) ++
        pick p (timeBox (rightPanel style.width.toFloat style.height.toFloat)
          (timeLines profile (operationTotals profile.layers))) := by
  have root (attributes : List (String × List Char)) (children : List Markup) :
      pick p [.element "svg" attributes children] = pick p children := by
    simp [pick, elementsAll, elements, passes "svg"]
  have rules : pick p [.element "style" [] [.content styleSheet.toList]] = [] := by
    simp [pick, elementsAll, elements, passes "style"]
  have heading (attributes : List (String × List Char)) (text : List Char) :
      pick p [.element "text" attributes [.content text]] = [] := by
    simp [pick, elementsAll, elements, passes "text"]
  rw [drawing, root, pick_append, pick_append, pick_append, pick_cons, rules, List.nil_append,
    pick_cons, heading, List.append_nil, background]

end Labels

variable (ignores : Ignores p)
include ignores

theorem pick_unclassed {attributes : List (String × List Char)}
    (unclassed : attributes.lookup "class" = none) :
    pick p [.element "rect" attributes []] = [] := by
  simp [pick, elementsAll, elements, ignores.boxes _ _ unclassed]

theorem pick_timeBox (panel : PlotArea) (lines : List (List Char)) :
    pick p (timeBox panel lines) = [] := by
  refine pick_eq_nil ?_
  simp only [timeBox, List.forall_mem_cons]
  constructor
  · exact pick_unclassed ignores (by simp [styled])
  · intro node member
    obtain ⟨index, in_range, rfl⟩ := List.mem_mapIdx.mp member
    exact pick_label ignores.passesLabels ..

theorem pick_drawing (style : ChartStyle) (profile : Profile) :
    pick p [drawing style profile] =
      pick p (bars (leftPanel style.width.toFloat style.height.toFloat)
          (operationTotals profile.layers)) ++
        pick p (cumulative (rightPanel style.width.toFloat style.height.toFloat)
          (operationTotals profile.layers)) := by
  rw [pick_parts ignores.passesLabels, background, pick_unclassed ignores (by simp),
    pick_timeBox ignores, List.nil_append, List.append_nil]

end Picks

/-- What the drawing of a bar tells of an operation. -/
def TellsOperation (entry : OperationTotal) (drawn : Markup) : Prop :=
  ∃ title, drawn.children = [title] ∧ title.isNamed "title" = true ∧
    entry.operation.toList <+: title.words

/-- The bars and their titles are the only rectangles and titles, so nothing else is there. -/
theorem pick_bars_eq_nil {p : Markup → Bool} (ignores : Ignores p)
    (no_box : ∀ attributes children, p (.element "rect" attributes children) = false)
    (panel : PlotArea) (totals : List OperationTotal) : pick p (bars panel totals) = [] := by
  rw [pick_bars ignores.passesLabels]
  refine pick_eq_nil (forall_mem_flatten_mapIdx totals fun index entry => ?_)
  simp only [bar, List.forall_mem_cons]
  refine ⟨?_, pick_label ignores.passesLabels .., pick_label ignores.passesLabels .., by simp⟩
  simp [pick, box, elementsAll, elements, no_box, ignores.named]

section Line

variable (line dots : List (Float × Float))

theorem pick_polyline :
    pick (isNamed "polyline") (polyline line :: dots.map dot) = [polyline line] := by
  have no_dot : pick (isNamed "polyline") (dots.map dot) = [] := by
    refine pick_eq_nil fun node member => ?_
    obtain ⟨point, _, rfl⟩ := List.mem_map.mp member
    simp [pick, dot, elementsAll, elements, isNamed]
  rw [pick_cons, no_dot]
  simp [pick, polyline, elementsAll, elements, isNamed]

theorem pick_isBar_line : pick isBar (polyline line :: dots.map dot) = [] := by
  refine pick_eq_nil (List.forall_mem_cons.mpr ⟨?_, fun node member => ?_⟩)
  · simp [pick, polyline, elementsAll, elements, isBar, isNamed]
  · obtain ⟨point, _, rfl⟩ := List.mem_map.mp member
    simp [pick, dot, elementsAll, elements, isBar, isNamed]

end Line

theorem length_timeLines (profile : Profile) (totals : List OperationTotal) :
    (timeLines profile totals).length = (timeShares totals profile.endToEnd.meanMs).length + 2 := by
  rw [timeLines, List.length_cons, List.length_cons, List.length_map]

/-- What a tree tells of a chart and its operations. -/
structure Tells (style : ChartStyle) (totals : List OperationTotal) (root : Markup) : Prop where
  svg : root.isNamed "svg" = true
  heading : (root.elements.find? (isNamed "text")).map words = some style.heading.toList
  bars : List.Forall₂ TellsOperation totals (root.elements.filter isBar)
  circles : (root.elements.filter (isNamed "circle")).length = totals.length
  line : ∃ line text, root.elements.filter (isNamed "polyline") = [line] ∧
    line.attribute? "points" = some text ∧
    (root.elements.filter (isNamed "circle")).map center? = (pieces ' ' text).map some

/-- The only line of a drawing goes through the cumulative shares. -/
theorem pick_polyline_drawing (style : ChartStyle) (profile : Profile) :
    pick (isNamed "polyline") [drawing style profile] =
      [polyline (points (rightPanel style.width.toFloat style.height.toFloat)
        (operationTotals profile.layers))] := by
  have ignores : Ignores (isNamed "polyline") := ignores_isNamed (by decide)
  rw [pick_drawing ignores, pick_bars_eq_nil ignores fun _ _ => rfl, List.nil_append,
    pick_cumulative ignores.passesLabels, pick_polyline]

end Chart

namespace Profile

/-- The text of the chart, if it can be drawn. -/
def chartText (profile : Profile) (style : ChartStyle) : List Char :=
  (Chart.drawing style profile).write

theorem chart_of_layers {profile : Profile} {style : ChartStyle}
    (layers : profile.layers ≠ []) (sound : style.fault? = none) :
    profile.chart style = .ok (profile.chartText style) := by
  have some_layer : ¬ profile.isEmpty = true := by simpa [isEmpty] using layers
  rw [chart, if_neg some_layer, sound]
  rfl

theorem chart_eq_ok {style : ChartStyle} {profile : Profile} {text : List Char}
    (made : profile.chart style = .ok text) :
    profile.layers ≠ [] ∧ text = (Chart.drawing style profile).write := by
  unfold chart at made
  split at made
  · cases made
  next some_layer =>
    split at made
    · cases made
    · cases made
      exact ⟨by simpa [isEmpty] using some_layer, rfl⟩

end Profile

end LayerTiming
