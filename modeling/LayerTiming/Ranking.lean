import LayerTiming.Number.Double
import LayerTiming.Timing.Profile

/-!
# Rankings

Layers ranked by their ticks, operations by their totals, and the shares that follow from both. All
orders are descending and stable: elements of equal rank keep the order in which they came. Ticks
are ranked by their bits, so also those that are no number have a rank.
-/
namespace LayerTiming
open Number

/-- Insert into a list in descending order of a key, in front of the elements with the same key. -/
def insertDescending {α : Type} (key : α → Int) (x : α) : List α → List α
  | [] => [x]
  | y :: rest => if key y ≤ key x then x :: y :: rest else y :: insertDescending key x rest

/-- Sort in descending order of a key. Elements with the same key keep their order. -/
def sortDescending {α : Type} (key : α → Int) (items : List α) : List α :=
  items.foldr (insertDescending key) []

theorem insertDescending_perm {α : Type} (key : α → Int) (x : α) (items : List α) :
    (insertDescending key x items).Perm (x :: items) := by
  induction items with
  | nil => exact List.Perm.refl _
  | cons y rest ih =>
    simp only [insertDescending]
    split
    · exact List.Perm.refl _
    · exact (ih.cons y).trans (List.Perm.swap x y rest)

/-- Sorting neither loses nor adds elements. -/
theorem sortDescending_perm {α : Type} (key : α → Int) (items : List α) :
    (sortDescending key items).Perm items := by
  induction items with
  | nil => exact List.Perm.refl _
  | cons x rest ih => exact (insertDescending_perm key x _).trans (ih.cons x)

/-- The share of a part in a total, in percent, and zero of a total that is not positive. -/
def inPercent (part total : Float) : Float :=
  if total > 0.0 then part / total * 100.0 else 0.0

/-- A layer with its share of all ticks. -/
structure RankedLayer (Ticks : Type := Float) where
  id : UInt64
  operation : String
  meanTicks : Ticks
  percentage : Float
  /-- The share of this layer and all that rank above it. -/
  cumulativePercentage : Float
  deriving Repr, Inhabited

/-- The running sums of a list, begun with `start`. -/
def runningSums (start : Float) : List Float → List Float
  | [] => []
  | x :: rest => (start + x) :: runningSums (start + x) rest

/-- Layers ranked by their ticks in the total order of doubles. -/
def rankByBits (layers : List (Layer Double)) : List (RankedLayer Double) :=
  let total := sum (layers.map fun layer => layer.meanTicks.toFloat)
  let ranked := sortDescending (fun layer => layer.meanTicks.key) layers
  ranked.zipWith (fun layer cumulative =>
    { id := layer.id
      operation := layer.operation
      meanTicks := layer.meanTicks
      percentage := inPercent layer.meanTicks.toFloat total
      cumulativePercentage := inPercent cumulative total })
    (runningSums 0.0 (ranked.map fun layer => layer.meanTicks.toFloat))

def Layer.stored (layer : Layer) : Layer Double :=
  { layer with meanTicks := .ofFloat layer.meanTicks }

def RankedLayer.shown (entry : RankedLayer Double) : RankedLayer :=
  { entry with meanTicks := entry.meanTicks.toFloat }

def rankLayers (layers : List Layer) : List RankedLayer :=
  (rankByBits (layers.map Layer.stored)).map RankedLayer.shown

/-- The totals of all layers with one operation. -/
structure OperationTotal (Ticks : Type := Float) where
  operation : String
  totalTicks : Ticks
  count : Nat
  meanTicks : Float
  deriving Repr, Inhabited

/-- Insert a name into an ascending list of names, unless it is there. -/
def insertName (name : String) : List String → List String
  | [] => [name]
  | other :: rest =>
    if name = other then other :: rest
    else if name < other then name :: other :: rest
    else other :: insertName name rest

theorem mem_insertName {name found : String} {names : List String} :
    found ∈ insertName name names ↔ found = name ∨ found ∈ names := by
  induction names with
  | nil => simp [insertName]
  | cons other rest ih =>
    simp only [insertName]
    split
    · next same => simp [same]
    split
    · simp
    · simp [ih, or_left_comm]

section Groups
variable {Ticks : Type}

/-- The operations of the layers, each once, in ascending order. -/
def operationNames (layers : List (Layer Ticks)) : List String :=
  layers.foldl (fun names layer => insertName layer.operation names) []

/-- The mean ticks of the layers with one operation, in order. -/
def ticksOf (operation : String) (layers : List (Layer Ticks)) : List Ticks :=
  (layers.filter fun layer => layer.operation == operation).map Layer.meanTicks

/-- The operations of the layers in ascending order, each with the ticks of its layers. -/
def operationGroups (layers : List (Layer Ticks)) : List (String × List Ticks) :=
  (operationNames layers).map fun name => (name, ticksOf name layers)

end Groups

/-- The totals of a list of ticks under one operation. -/
def OperationTotal.ofTicks (rule : NaNRule) (operation : String) (ticks : List Double) :
    OperationTotal Double :=
  let totalTicks := rule.total ticks
  { operation
    totalTicks
    count := ticks.length
    meanTicks := totalTicks.toFloat / Float.ofNat ticks.length }

/-- Sum up the layers by operation and rank the operations by their totals in the total order of
doubles. Operations with the same total stand in ascending order of their names. -/
def totalsByBits (rule : NaNRule) (layers : List (Layer Double)) : List (OperationTotal Double) :=
  sortDescending (fun entry => entry.totalTicks.key)
    ((operationGroups layers).map fun group => .ofTicks rule group.1 group.2)

def OperationTotal.shown (entry : OperationTotal Double) : OperationTotal :=
  { entry with totalTicks := entry.totalTicks.toFloat }

def operationTotals (layers : List Layer) : List OperationTotal :=
  (totalsByBits .passingOn (layers.map Layer.stored)).map OperationTotal.shown

/-- The ticks of all operations together. -/
def summedTicks (totals : List OperationTotal) : Float :=
  sum (totals.map OperationTotal.totalTicks)

/-- The end-to-end time divided among the operations by their ticks, and nothing if there is no time
or there are no ticks to divide. -/
def timeShares (totals : List OperationTotal) (endToEndMs : Float) : List (String × Float) :=
  let total := summedTicks totals
  if endToEndMs <= 0.0 || total <= 0.0 then []
  else totals.map fun entry =>
    (entry.operation, entry.totalTicks / total * endToEndMs)

/-- How many of the first totals are needed to reach a share of `total`, where `cumulative` ticks
stand before them, and all of them if the share is never reached. -/
def leadingCount (total percent cumulative : Float) : List OperationTotal → Nat
  | [] => 0
  | entry :: rest =>
    if inPercent (cumulative + entry.totalTicks) total >= percent then 1
    else 1 + leadingCount total percent (cumulative + entry.totalTicks) rest

/-- How many leading operations reach a share of all ticks. -/
def coverageCount (totals : List OperationTotal) (percent : Float) : Nat :=
  let total := summedTicks totals
  if total <= 0.0 then 0 else leadingCount total percent 0.0 totals

/-- The ticks of a list of layers as a whole. -/
structure TickOverview where
  totalTicks : Float := 0.0
  totalCycles : Float := 0.0
  layerCount : Nat := 0
  meanTicksPerLayer : Float := 0.0
  /-- The share of the layer with the most ticks. -/
  topLayerPercentage : Float := 0.0
  deriving Repr, Inhabited

/-- The greatest of a list of doubles and zero. What is no number does not count. -/
def greatest (values : List Float) : Float :=
  values.foldl (fun best x => if best < x then x else best) 0.0

/-- The distribution of ticks over layers. -/
def TickOverview.ofLayers (layers : List Layer) : TickOverview :=
  if layers.isEmpty then {}
  else
    let totalTicks := sum (layers.map Layer.meanTicks)
    { totalTicks
      totalCycles := sum (layers.map Layer.meanCycles)
      layerCount := layers.length
      meanTicksPerLayer := totalTicks / Float.ofNat layers.length
      topLayerPercentage := inPercent (greatest (layers.map Layer.meanTicks)) totalTicks }

/-- The distribution in one line of text. -/
def TickOverview.line (found : TickOverview) : String :=
  let places (n : Nat) (x : Float) := String.ofList (fixed n x)
  "Total: " ++ places 0 found.totalTicks ++ " ticks (" ++ places 0 found.totalCycles
    ++ " cycles) | Layers: " ++ toString found.layerCount ++ " | Mean: "
    ++ places 1 found.meanTicksPerLayer ++ " | Top layer: " ++ places 1 found.topLayerPercentage
    ++ "%"

end LayerTiming
