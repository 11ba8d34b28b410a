import LayerTiming.Presentation.Chart
import LayerTiming.Proofs.Ranking.Sorting
import LayerTiming.Proofs.Text.MarkupOutline

/-!
# The tags of a chart

All tags of a chart have proper names, and they follow from how many operations and how many lines
on time there are. The strings of the chart decide nothing about them.
-/
namespace LayerTiming
open Number Text Markup

namespace Chart

section Regular

@[simp] theorem styled_map_fst (style : List (String × String)) :
    (styled style).map Prod.fst = style.map Prod.fst := by
  simp [styled]

theorem regular_label {x y : Float} {style : List (String × List Char)} {text : List Char}
    (proper : isTag "text" ("x" :: "y" :: style.map Prod.fst) = true) :
    Regular (label x y style text) := .leaf text proper

theorem regular_stroke {x1 y1 x2 y2 : Float} {style : List (String × String)}
    (proper : isTag "line" ("x1" :: "y1" :: "x2" :: "y2" :: (styled style).map Prod.fst) = true) :
    Regular (stroke x1 y1 x2 y2 style) := .branch proper (by simp)

theorem regular_box {x y width height : Float} {style : List (String × String)}
    {children : List Markup}
    (proper : isTag "rect"
      ("x" :: "y" :: "width" :: "height" :: (styled style).map Prod.fst) = true)
    (inside : ∀ child ∈ children, Regular child) :
    Regular (box x y width height style children) := .branch proper inside

theorem regular_frame (panel : PlotArea) (title axis : String) :
    ∀ node ∈ frame panel title axis, Regular node := by
  simp only [frame, List.forall_mem_cons]
  refine ⟨regular_label ?_, regular_stroke ?_, regular_stroke ?_, regular_label ?_, by simp⟩
  -- Once the values are gone, names are left, and these are the same for all panels.
  all_goals
    simp only [styled_map_fst, List.map_append, List.map_cons, List.map_nil, List.cons_append,
      List.nil_append]
    decide

theorem regular_slotLabel (panel : PlotArea) (center : Float) (operation : List Char) :
    Regular (slotLabel panel center operation) := by
  refine regular_label ?_
  simp only [styled_map_fst, List.map_append, List.map_cons, List.map_nil, List.cons_append,
    List.nil_append]
  decide

theorem regular_bar (panel : PlotArea) (full : Float) (count index : Nat) (entry : OperationTotal) :
    ∀ node ∈ bar panel full count index entry, Regular node := by
  simp only [bar, List.forall_mem_cons]
  refine ⟨regular_box ?_ ?_, regular_label ?_, regular_slotLabel .., by simp⟩
  · simp only [styled_map_fst, List.map_cons, List.map_nil]
    decide
  · simp only [List.forall_mem_singleton]
    exact .leaf _ (by decide)
  · simp only [styled_map_fst, List.map_cons, List.map_nil]
    decide

theorem forall_mem_flatten_mapIdx {α β : Type} {P : β → Prop} {f : Nat → α → List β}
    (items : List α) (each : ∀ index item, ∀ node ∈ f index item, P node) :
    ∀ node ∈ (items.mapIdx f).flatten, P node := by
  intro node member
  obtain ⟨nodes, from_item, inside⟩ := List.mem_flatten.mp member
  obtain ⟨index, in_range, rfl⟩ := List.mem_mapIdx.mp from_item
  exact each index _ node inside

theorem regular_bars (panel : PlotArea) (totals : List OperationTotal) :
    ∀ node ∈ bars panel totals, Regular node := by
  rw [bars, List.forall_mem_append]
  exact ⟨regular_frame panel _ _,
    forall_mem_flatten_mapIdx totals (regular_bar panel (fullScale totals) totals.length)⟩

theorem regular_gridLine (panel : PlotArea) (percent : Nat) :
    ∀ node ∈ gridLine panel percent, Regular node := by
  simp only [gridLine, List.forall_mem_cons]
  refine ⟨regular_stroke ?_, regular_label ?_, by simp⟩
  all_goals
    simp only [styled_map_fst, List.map_cons, List.map_nil]
    decide

theorem regular_markLine (panel : PlotArea) : ∀ node ∈ markLine panel, Regular node := by
  simp only [markLine, List.forall_mem_cons]
  refine ⟨regular_stroke ?_, regular_label ?_, by simp⟩
  all_goals
    simp only [styled_map_fst, List.map_cons, List.map_nil]
    decide

theorem regular_polyline (points : List (Float × Float)) : Regular (polyline points) := by
  refine .branch ?_ (by simp)
  simp only [styled_map_fst, List.map_cons, List.map_nil]
  decide

theorem regular_dot (point : Float × Float) : Regular (dot point) := by
  refine .branch ?_ (by simp)
  simp only [styled_map_fst, List.map_cons, List.map_nil, List.cons_append, List.nil_append]
  decide

theorem regular_cumulative (panel : PlotArea) (totals : List OperationTotal) :
    ∀ node ∈ cumulative panel totals, Regular node := by
  simp only [cumulative, List.forall_mem_append, List.forall_mem_cons]
  refine ⟨⟨⟨⟨regular_frame panel _ _, ?_⟩, regular_markLine panel⟩, regular_polyline _, ?_⟩, ?_⟩
  case refine_1 =>
    intro node member
    obtain ⟨percent, _, inside⟩ := List.mem_flatMap.mp member
    exact regular_gridLine panel percent node inside
  case refine_2 =>
    intro node member
    obtain ⟨point, _, rfl⟩ := List.mem_map.mp member
    exact regular_dot point
  case refine_3 =>
    intro node member
    obtain ⟨index, in_range, rfl⟩ := List.mem_mapIdx.mp member
    exact regular_slotLabel panel _ _

theorem regular_timeBox (panel : PlotArea) (lines : List (List Char)) :
    ∀ node ∈ timeBox panel lines, Regular node := by
  simp only [timeBox, List.forall_mem_cons]
  constructor
  · refine regular_box ?_ (by simp)
    simp only [styled_map_fst, List.map_cons, List.map_nil]
    decide
  · intro node member
    obtain ⟨index, in_range, rfl⟩ := List.mem_mapIdx.mp member
    refine regular_label ?_
    simp only [styled_map_fst, List.map_cons, List.map_nil]
    decide

/-- All tags of a drawing have proper names, and text stands alone in its element. -/
theorem regular_drawing (style : ChartStyle) (profile : Profile) :
    Regular (drawing style profile) := by
  refine .branch ?tag ?inside
  case tag =>
    simp only [List.map_cons, List.map_nil]
    decide
  case inside =>
    simp only [List.forall_mem_append, List.forall_mem_cons]
    refine ⟨⟨⟨⟨.leaf _ (by decide), .branch ?background (by simp), .leaf _ ?heading, by simp⟩,
      regular_bars _ _⟩, regular_cumulative _ _⟩, regular_timeBox _ _⟩
    case background =>
      simp only [List.map_cons, List.map_nil]
      decide
    case heading =>
      simp only [styled_map_fst, List.map_cons, List.map_nil]
      decide

end Regular

section Outline

variable (panel other : PlotArea)

variable {totals totals' : List OperationTotal} (same_count : totals.length = totals'.length)
include same_count

end Outline

end Chart
end LayerTiming
