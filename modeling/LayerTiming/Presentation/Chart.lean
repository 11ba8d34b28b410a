import LayerTiming.Presentation.Palette
import LayerTiming.Presentation.Summary
import LayerTiming.Text.Markup

/-!
# The chart

A drawing of two panels on one canvas: a bar for the ticks of each operation, and the line of their
cumulative share. A box on the second panel tells how the end-to-end time is divided.
-/
namespace LayerTiming
open Number Text

/-- What a chart is to look like. -/
structure ChartStyle where
  title : String := "CFU Playground - Profiling Summary"
  width : UInt64 := 1600
  height : UInt64 := 600
  /-- Put after the title in parentheses. -/
  model : Option String := none
  deriving DecidableEq, Repr, Inhabited

/-- Why there is no chart. -/
inductive ChartFault
  | noLayers
  | tooSmall (width height : UInt64)
  deriving DecidableEq, Repr, Inhabited

namespace ChartStyle

/-- The least width on which both panels have room. -/
def leastWidth : UInt64 := 800

/-- The least height on which both panels have room. -/
def leastHeight : UInt64 := 400

/-- What is wrong with the size of a chart. -/
def fault? (style : ChartStyle) : Option ChartFault :=
  if style.width < leastWidth ∨ style.height < leastHeight then
    some (.tooSmall style.width style.height)
  else none

theorem least_of_fault? {style : ChartStyle} (sound : style.fault? = none) :
    leastWidth ≤ style.width ∧ leastHeight ≤ style.height := by
  unfold fault? at sound
  split at sound
  · cases sound
  next large =>
    rw [not_or] at large
    exact ⟨UInt64.not_lt.mp large.1, UInt64.not_lt.mp large.2⟩

/-- The title with the model, if there is one. -/
def heading (style : ChartStyle) : String :=
  match style.model with
  | some model => style.title ++ " (" ++ model ++ ")"
  | none => style.title

end ChartStyle

def ChartFault.message : ChartFault → String
  | .noLayers => "No layer data to chart"
  | .tooSmall width height =>
    "Chart size " ++ toString width ++ "x" ++ toString height ++ " is below the minimum "
      ++ toString ChartStyle.leastWidth ++ "x" ++ toString ChartStyle.leastHeight

namespace Chart

/-- The plot area of a panel. -/
structure PlotArea where
  left : Float
  top : Float
  width : Float
  height : Float
  deriving Repr, Inhabited

namespace PlotArea

def right (panel : PlotArea) : Float := panel.left + panel.width

def bottom (panel : PlotArea) : Float := panel.top + panel.height

/-- The middle of one of `count` slots of equal width. -/
def slotMiddle (panel : PlotArea) (index count : Nat) : Float :=
  panel.left + panel.width / Float.ofNat count * (Float.ofNat index + 0.5)

/-- Where a percentage lies on the vertical axis, which reaches a little past a hundred. -/
def percentHeight (panel : PlotArea) (percent : Float) : Float :=
  panel.bottom - percent / 105.0 * panel.height

end PlotArea

/-- A coordinate or a size: two places. -/
def coordinate (x : Float) : List Char := fixed 2 x

/-- Named attributes with fixed values. -/
def styled (attributes : List (String × String)) : List (String × List Char) :=
  attributes.map fun named => (named.1, named.2.toList)

def stroke (x1 y1 x2 y2 : Float) (style : List (String × String)) : Markup :=
  .element "line"
    ([("x1", coordinate x1), ("y1", coordinate y1), ("x2", coordinate x2), ("y2", coordinate y2)]
      ++ styled style) []

def label (x y : Float) (style : List (String × List Char)) (text : List Char) : Markup :=
  .element "text" ([("x", coordinate x), ("y", coordinate y)] ++ style) [.content text]

def box (x y width height : Float) (style : List (String × String)) (children : List Markup) :
    Markup :=
  .element "rect"
    ([("x", coordinate x), ("y", coordinate y), ("width", coordinate width),
      ("height", coordinate height)] ++ styled style) children

/-- The turn of a text about a point, as the value of an attribute. -/
def turn (degrees : String) (x y : Float) : List Char :=
  "rotate(".toList ++ degrees.toList ++ ' ' :: coordinate x ++ ' ' :: coordinate y ++ [')']

/-- The title of a panel, its axes, and the label of its vertical axis. -/
def frame (panel : PlotArea) (title axis : String) : List Markup :=
  let axisX := panel.left - 50.0
  let axisY := panel.top + panel.height / 2.0
  [ label (panel.left + panel.width / 2.0) (panel.top - 12.0)
      (styled [("font-size", "14"), ("text-anchor", "middle"), ("font-weight", "bold")])
      title.toList,
    stroke panel.left panel.top panel.left panel.bottom [("stroke", "black")],
    stroke panel.left panel.bottom panel.right panel.bottom [("stroke", "black")],
    label axisX axisY
      (styled [("font-size", "12"), ("text-anchor", "middle")]
        ++ [("transform", turn "-90" axisX axisY)])
      axis.toList ]

/-- The name of an operation under its slot, slanted. -/
def slotLabel (panel : PlotArea) (center : Float) (operation : List Char) : Markup :=
  let y := panel.bottom + 14.0
  label center y
    (styled [("font-size", "10"), ("text-anchor", "end")] ++ [("transform", turn "-20" center y)])
    operation

/-- The ticks that a bar of full height stands for. -/
def fullScale (totals : List OperationTotal) : Float :=
  let most := greatest (totals.map OperationTotal.totalTicks)
  if most < 1.0 then 1.0 else most

/-- What is shown when a bar is pointed at. -/
def tooltip (entry : OperationTotal) : List Char :=
  entry.operation.toList ++ " (".toList ++ fixed 0 entry.totalTicks ++ " ticks, ".toList
    ++ numeral entry.count ++ " layers)".toList

/-- The bar of an operation, with its ticks above it and its name below. -/
def bar (panel : PlotArea) (full : Float) (count : Nat) (index : Nat) (entry : OperationTotal) :
    List Markup :=
  let barWidth := panel.width / Float.ofNat count * 0.7
  let barHeight := entry.totalTicks / full * panel.height
  let center := panel.slotMiddle index count
  let y := panel.bottom - barHeight
  let operation := entry.operation.toList
  [ box (center - barWidth / 2.0) y barWidth barHeight
      [("fill", (OperationFamily.ofName operation).fill), ("class", "bar")]
      [.element "title" [] [.content (tooltip entry)]],
    label center (y - 4.0) (styled [("font-size", "10"), ("text-anchor", "middle")])
      (SummaryLine.counter entry.totalTicks),
    slotLabel panel center operation ]

def bars (panel : PlotArea) (totals : List OperationTotal) : List Markup :=
  frame panel "Total ticks by operation (abs)" "Ticks"
    ++ (totals.mapIdx (bar panel (fullScale totals) totals.length)).flatten

/-- A horizontal line at a percentage, with the number beside it. -/
def gridLine (panel : PlotArea) (percent : Nat) : List Markup :=
  let y := panel.percentHeight (Float.ofNat percent)
  [ stroke panel.left y panel.right y [("stroke", "#dddddd")],
    label (panel.left - 6.0) (y + 3.0) (styled [("font-size", "10"), ("text-anchor", "end")])
      (numeral percent) ]

def markLine (panel : PlotArea) : List Markup :=
  let y := panel.percentHeight coverageMark
  [ stroke panel.left y panel.right y [("stroke", "red"), ("stroke-dasharray", "6,4")],
    label (panel.right - 4.0) (y - 4.0)
      (styled [("font-size", "11"), ("fill", "red"), ("text-anchor", "end")])
      (fixed 0 coverageMark ++ "% threshold".toList) ]

/-- The cumulative shares of the operations, in percent. -/
def cumulativeShares (totals : List OperationTotal) : List Float :=
  let total := summedTicks totals
  (runningSums 0.0 (totals.map OperationTotal.totalTicks)).map fun ticks =>
    inPercent ticks total

def points (panel : PlotArea) (totals : List OperationTotal) : List (Float × Float) :=
  (cumulativeShares totals).mapIdx fun index percent =>
    (panel.slotMiddle index totals.length, panel.percentHeight percent)

def lineColor : String := "rgb(31, 119, 180)"

def polyline (points : List (Float × Float)) : Markup :=
  let text := points.map fun point => coordinate point.1 ++ ',' :: coordinate point.2
  .element "polyline"
    (("points", joinPieces ' ' text)
      :: styled [("fill", "none"), ("stroke", lineColor), ("stroke-width", "2")]) []

def dot (point : Float × Float) : Markup :=
  .element "circle"
    ([("cx", coordinate point.1), ("cy", coordinate point.2)]
      ++ styled [("r", "4"), ("fill", lineColor)]) []

def cumulative (panel : PlotArea) (totals : List OperationTotal) : List Markup :=
  let found := points panel totals
  frame panel "Pareto: where time is spent" "Cumulative % of total ticks"
    ++ [0, 20, 40, 60, 80, 100].flatMap (gridLine panel)
    ++ markLine panel ++ polyline found :: found.map dot
    ++ totals.mapIdx fun index entry =>
      slotLabel panel (panel.slotMiddle index totals.length) entry.operation.toList

def timeLines (profile : Profile) (totals : List OperationTotal) : List (List Char) :=
  let found := profile.endToEnd
  (if found.samples.isEmpty then "End-to-end avg: n/a".toList
    else "End-to-end avg: ".toList ++ fixed 2 found.meanMs ++ " ms".toList)
  :: "By operation (total):".toList
  :: (timeShares totals found.meanMs).map fun share =>
    "  • ".toList ++ share.1.toList ++ ": ".toList ++ fixed 2 share.2 ++ " ms".toList

/-- The box with the lines on the end-to-end time, in the lower right corner of a panel. -/
def timeBox (panel : PlotArea) (lines : List (List Char)) : List Markup :=
  let lineHeight : Float := 14.0
  let width : Float := 230.0
  let height := Float.ofNat lines.length * lineHeight + 10.0
  let x := panel.left + panel.width - width - 6.0
  let y := panel.bottom - height - 6.0
  box x y width height [("fill", "white"), ("fill-opacity", "0.8")] []
    :: lines.mapIdx fun index line =>
      label (x + 6.0) (y + lineHeight * (Float.ofNat index + 1.0))
        (styled [("font-size", "11"), ("xml:space", "preserve")]) line

def leftPanel (width height : Float) : PlotArea where
  left := 80.0
  top := 70.0
  width := width / 2.0 - 130.0
  height := height - 70.0 - 110.0

/-- The panel of the cumulative line on a canvas. -/
def rightPanel (width height : Float) : PlotArea where
  left := width / 2.0 + 70.0
  top := 70.0
  width := width / 2.0 - 110.0
  height := height - 70.0 - 110.0

/-- The rules of style that hold for the whole drawing. -/
def styleSheet : String :=
  ".bar:hover \x7b stroke: black; stroke-width: 1; opacity: 0.9; \x7d "
    ++ "text \x7b font-family: sans-serif; \x7d"

def drawing (style : ChartStyle) (profile : Profile) : Markup :=
  let totals := operationTotals profile.layers
  let width := style.width.toFloat
  let height := style.height.toFloat
  let wide := numeral style.width.toNat
  let high := numeral style.height.toNat
  .element "svg"
    [ ("xmlns", "http://www.w3.org/2000/svg".toList), ("width", wide), ("height", high),
      ("viewBox", "0 0 ".toList ++ wide ++ ' ' :: high) ]
    ([ .element "style" [] [.content styleSheet.toList],
      .element "rect" [("x", ['0']), ("y", ['0']), ("width", wide), ("height", high),
        ("fill", "white".toList)] [],
      .element "text"
        (("x", plain (width / 2.0))
          :: styled [("y", "32"), ("font-size", "20"), ("text-anchor", "middle"),
            ("font-weight", "bold")])
        [.content style.heading.toList] ]
    ++ bars (leftPanel width height) totals
    ++ cumulative (rightPanel width height) totals
    ++ timeBox (rightPanel width height) (timeLines profile totals))

end Chart

def Profile.chart (profile : Profile) (style : ChartStyle) : Except ChartFault (List Char) :=
  if profile.isEmpty then .error .noLayers
  else match style.fault? with
    | some fault => .error fault
    | none => .ok (Chart.drawing style profile).write

end LayerTiming
