import LayerTiming.Proofs.Number.Order
import LayerTiming.Proofs.Ranking.Sorting

/-!
# Ranked layers

The ranking shows every layer once, those with the most ticks first and those with equal ticks in
the order of their positions. Each layer comes with its share of all ticks, and with the share of
the ticks that are summed up so far.

## Main result

* `isRanking_rankByBits`: this holds for every list of layers, whatever bits their ticks have.
-/
namespace LayerTiming
open Number

section Rows
variable {Ticks : Type}

/-- What a ranking shows of a layer as it is. -/
def Layer.row (layer : Layer Ticks) : UInt64 × String × Ticks :=
  (layer.id, layer.operation, layer.meanTicks)

def RankedLayer.row (entry : RankedLayer Ticks) : UInt64 × String × Ticks :=
  (entry.id, entry.operation, entry.meanTicks)

end Rows

/-- The ticks of some layers as numbers. -/
def tickNumbers (layers : List (Layer Double)) : List Float :=
  layers.map fun layer => layer.meanTicks.toFloat

/-- A stable ranking of layers by the total order of their ticks. -/
structure IsRanking (layers : List (Layer Double)) (ranked : List (RankedLayer Double)) : Prop where
  rows : (ranked.map RankedLayer.row).Perm (layers.map Layer.row)
  descending : ranked.Pairwise fun first second => second.meanTicks.key ≤ first.meanTicks.key
  /-- As numbers the ticks do not increase either. -/
  numbers : ranked.Pairwise fun first second =>
    ¬ first.meanTicks.toFloat < second.meanTicks.toFloat
  stable : ∀ bits, (ranked.map RankedLayer.row).filter (·.2.2.bits == bits) =
    (layers.map Layer.row).filter (·.2.2.bits == bits)
  percentage : ∀ entry ∈ ranked,
    entry.percentage = inPercent entry.meanTicks.toFloat (sum (tickNumbers layers))
  cumulative : ∀ k (within : k < ranked.length), ranked[k].cumulativePercentage =
    inPercent (((ranked.map fun entry => entry.meanTicks.toFloat).take (k + 1)).foldl (· + ·) 0.0)
      (sum (tickNumbers layers))
  /-- Without a positive total there are no shares. -/
  no_total : ¬ 0.0 < sum (tickNumbers layers) ∨ (sum (tickNumbers layers)).isNaN = true →
    ∀ entry ∈ ranked, entry.percentage = 0.0 ∧ entry.cumulativePercentage = 0.0

/-- The layers in the order of the ranking. -/
def layersByBits (layers : List (Layer Double)) : List (Layer Double) :=
  sortDescending (fun layer => layer.meanTicks.key) layers

section Ranked
variable (layers : List (Layer Double))

theorem length_rankByBits : (rankByBits layers).length = (layersByBits layers).length := by
  simp [rankByBits, layersByBits, length_runningSums]

theorem getElem_rankByBits {k : Nat} (within : k < (rankByBits layers).length)
    (within' : k < (layersByBits layers).length) :
    (rankByBits layers)[k] =
      { id := (layersByBits layers)[k].id
        operation := (layersByBits layers)[k].operation
        meanTicks := (layersByBits layers)[k].meanTicks
        percentage :=
          inPercent (layersByBits layers)[k].meanTicks.toFloat (sum (tickNumbers layers))
        cumulativePercentage :=
          inPercent (((tickNumbers (layersByBits layers)).take (k + 1)).foldl (· + ·) 0.0)
            (sum (tickNumbers layers)) } := by
  simp only [rankByBits, List.getElem_zipWith, getElem_runningSums]
  rfl

theorem map_row_rankByBits :
    (rankByBits layers).map RankedLayer.row = (layersByBits layers).map Layer.row := by
  refine List.ext_getElem (by simp [length_rankByBits]) fun k within within' => ?_
  rw [List.length_map] at within within'
  rw [List.getElem_map, List.getElem_map, getElem_rankByBits layers within within']
  rfl

theorem map_meanTicks_rankByBits :
    (rankByBits layers).map RankedLayer.meanTicks = (layersByBits layers).map Layer.meanTicks := by
  simpa [RankedLayer.row, Layer.row, Function.comp_def] using
    congrArg (List.map (·.2.2)) (map_row_rankByBits layers)

theorem pairwise_rankByBits :
    (rankByBits layers).Pairwise fun first second => second.meanTicks.key ≤ first.meanTicks.key := by
  -- The order is one of the ticks alone, which are the same in both lists.
  have ticks : ((layersByBits layers).map Layer.meanTicks).Pairwise fun first second =>
      second.key ≤ first.key := List.pairwise_map.mpr (sortDescending_pairwise _ layers)
  rw [← map_meanTicks_rankByBits] at ticks
  exact List.pairwise_map.mp ticks

theorem filter_layersByBits (bits : UInt64) :
    (layersByBits layers).filter (·.meanTicks.bits == bits) =
      layers.filter (·.meanTicks.bits == bits) := by
  refine filter_sortDescending (fun x y here there => ?_) layers
  have same : x.meanTicks.bits = y.meanTicks.bits := (eq_of_beq here).trans (eq_of_beq there).symm
  simp only [Double.key, same]

/-- The layers are ranked by their ticks. -/
theorem isRanking_rankByBits : IsRanking layers (rankByBits layers) := by
  have entries (k : Nat) (within : k < (rankByBits layers).length) :=
    getElem_rankByBits layers within (length_rankByBits layers ▸ within)
  constructor
  case rows =>
    rw [map_row_rankByBits]
    exact (sortDescending_perm _ layers).map Layer.row
  case descending => exact pairwise_rankByBits layers
  case numbers =>
    -- A smaller number has a smaller place in the total order.
    refine (pairwise_rankByBits layers).imp fun order less => ?_
    exact absurd (Double.key_lt_of_lt less) (not_lt.mpr order)
  case stable =>
    intro bits
    rw [map_row_rankByBits, List.filter_map, List.filter_map]
    exact congrArg (List.map Layer.row) (filter_layersByBits layers bits)
  case percentage =>
    intro entry member
    obtain ⟨k, within, rfl⟩ := List.getElem_of_mem member
    rw [entries k within]
  case cumulative =>
    intro k within
    have ticks : (rankByBits layers).map (fun entry => entry.meanTicks.toFloat) =
        tickNumbers (layersByBits layers) := by
      simpa [tickNumbers, Function.comp_def] using
        congrArg (List.map Double.toFloat) (map_meanTicks_rankByBits layers)
    rw [entries k within, ticks]
  case no_total =>
    intro no_total entry member
    have not_pos : ¬ 0.0 < sum (tickNumbers layers) :=
      no_total.elim id fun nan => not_lt_of_nan (isNaN_iff.mp nan)
    obtain ⟨k, within, rfl⟩ := List.getElem_of_mem member
    rw [entries k within]
    exact ⟨inPercent_of_not_pos not_pos, inPercent_of_not_pos not_pos⟩

end Ranked

/-- What is no number ranks behind all numbers if it has the negative sign, and else in front. -/
example : (rankByBits
    [ { (default : Layer) with meanTicks := ⟨0xFFF8000000000001⟩ },
      { (default : Layer) with meanTicks := .ofFloat 1.0 },
      { (default : Layer) with meanTicks := ⟨0x7FF8000000000001⟩ } ]).map
    (fun entry => entry.meanTicks.bits) =
      [0x7FF8000000000001, (1.0 : Float).toBits, 0xFFF8000000000001] := by decide

/-! ### Layers as they are shown -/

section Shown
variable (layers : List Layer)

/-- Shown layers are ranked by the bits of their ticks too. -/
def layersByTicks (layers : List Layer) : List Layer :=
  sortDescending (fun layer => (Double.ofFloat layer.meanTicks).key) layers

theorem map_row_rankLayers :
    (rankLayers layers).map RankedLayer.row = (layersByTicks layers).map Layer.row := by
  have stored : layersByBits (layers.map Layer.stored) = (layersByTicks layers).map Layer.stored :=
    sortDescending_map Layer.stored layers
  have rows := map_row_rankByBits (layers.map Layer.stored)
  rw [stored, List.map_map] at rows
  have shown := congrArg (List.map fun row => (row.1, row.2.1, Double.toFloat row.2.2)) rows
  rw [List.map_map, List.map_map] at shown
  rw [rankLayers, List.map_map]
  refine shown.trans (List.map_congr_left fun layer _ => ?_)
  simp [Layer.stored, Layer.row]

theorem length_rankLayers : (rankLayers layers).length = layers.length := by
  have rows := congrArg List.length (map_row_rankLayers layers)
  rw [List.length_map, List.length_map] at rows
  exact rows.trans (sortDescending_perm _ layers).length_eq

/-- Only layers are ranked. -/
theorem exists_layer_of_mem_rankLayers {entry : RankedLayer} {layers : List Layer}
    (member : entry ∈ rankLayers layers) :
    ∃ layer ∈ layers, layer.operation = entry.operation := by
  have row : entry.row ∈ (layersByTicks layers).map Layer.row := by
    rw [← map_row_rankLayers]
    exact List.mem_map_of_mem member
  obtain ⟨layer, sorted, same⟩ := List.mem_map.mp row
  exact ⟨layer, (sortDescending_perm _ layers).mem_iff.mp sorted, congrArg (·.2.1) same⟩

end Shown
end LayerTiming
