import LayerTiming.Proofs.Number.Order
import LayerTiming.Proofs.Ranking.Sorting
import LayerTiming.Proofs.Timing.Operations

/-!
# Ranked operations

The layers are divided among their operations: each has an entry of its own, no layer is left out
and none is counted twice. Ticks are added up in the order of the layers. The entries stand in the
total order of their totals, and by name where the bits of these are equal.

## Main result

* `totalsByBits_sum_up`: this holds for every list of layers, whatever bits their ticks have and
  whatever bits a machine gives to sums that are no number, and the totals see nothing of how layers
  of different operations are mixed.
-/
namespace LayerTiming
open Number

/-- What the entry of an operation tells of the layers with this operation. -/
structure OperationTotal.SumsUp (rule : NaNRule) (layers : List (Layer Double))
    (entry : OperationTotal Double) : Prop where
  count : entry.count = layers.countP (·.operation == entry.operation)
  some_layer : 0 < entry.count
  total : entry.totalTicks = (ticksOf entry.operation layers).foldl rule.add (.ofFloat 0.0)
  /-- Whatever the rule is, as numbers the ticks are added up. -/
  number : entry.totalTicks.toFloat =
    ((ticksOf entry.operation layers).map Double.toFloat).foldl (· + ·) 0.0
  mean : entry.meanTicks = entry.totalTicks.toFloat / Float.ofNat entry.count

/-- An entry stands in front of another if its total is the greater one, or if its name comes first
and the totals are the same bit by bit. -/
def OperationTotal.Leads (first second : OperationTotal Double) : Prop :=
  second.totalTicks.key < first.totalTicks.key ∨
    second.totalTicks = first.totalTicks ∧ first.operation < second.operation

/-- The layers summed up by their operations, in order. -/
structure AreTotals (rule : NaNRule) (layers : List (Layer Double))
    (totals : List (OperationTotal Double)) : Prop where
  once : (totals.map OperationTotal.operation).Nodup
  operations : ∀ name, name ∈ totals.map OperationTotal.operation ↔
    ∃ layer ∈ layers, layer.operation = name
  entries : ∀ entry ∈ totals, entry.SumsUp rule layers
  counts : (totals.map OperationTotal.count).sum = layers.length
  ordered : totals.Pairwise OperationTotal.Leads

/-! ### The names of operations -/

section Names
variable {Ticks : Type}

/-- An ascending list of names stays one. -/
theorem insertName_ascending {name : String} {names : List String}
    (ascending : names.Pairwise (· < ·)) : (insertName name names).Pairwise (· < ·) := by
  induction names with
  | nil => exact List.pairwise_singleton _ name
  | cons other rest ih =>
    obtain ⟨other_first, rest_ascending⟩ := List.pairwise_cons.mp ascending
    rw [insertName]
    split
    · exact ascending
    next differs =>
      split
      next less =>
        refine List.pairwise_cons.mpr ⟨fun found member => ?_, ascending⟩
        rcases List.mem_cons.mp member with rfl | later
        · exact less
        · exact less.trans (other_first found later)
      next not_less =>
        refine List.pairwise_cons.mpr ⟨fun found member => ?_, ih rest_ascending⟩
        rcases mem_insertName.mp member with rfl | later
        · exact lt_of_le_of_ne (not_lt.mp not_less) (Ne.symm differs)
        · exact other_first found later

theorem operationNames_ascending (layers : List (Layer Ticks)) :
    (operationNames layers).Pairwise (· < ·) := by
  -- The run starts from any ascending names, not only from none.
  suffices run : ∀ found : List String, found.Pairwise (· < ·) →
      (layers.foldl (fun names layer => insertName layer.operation names) found).Pairwise (· < ·) by
    exact run [] .nil
  induction layers with
  | nil => exact fun found ascending => ascending
  | cons layer rest ih => exact fun found ascending => ih _ (insertName_ascending ascending)

theorem operationNames_nodup (layers : List (Layer Ticks)) : (operationNames layers).Nodup :=
  (operationNames_ascending layers).imp ne_of_lt

theorem mem_operationNames_iff_filter {name : String} {layers : List (Layer Ticks)} :
    name ∈ operationNames layers ↔ layers.filter (·.operation == name) ≠ [] := by
  rw [mem_operationNames, Ne, List.filter_eq_nil_iff]
  simp

/-- Every layer is counted under one of the operations. -/
theorem sum_countP_operationNames (layers : List (Layer Ticks)) :
    ((operationNames layers).map fun name => layers.countP (·.operation == name)).sum =
      layers.length := by
  have names : (operationNames layers).Perm (layers.map Layer.operation).dedup := by
    rw [List.perm_ext_iff_of_nodup (operationNames_nodup layers) (List.nodup_dedup _)]
    intro name
    rw [mem_operationNames, List.mem_dedup, List.mem_map]
  -- The layers with a name are as many as the names that are equal to it.
  have counted (name : String) :
      (layers.map Layer.operation).count name = layers.countP (·.operation == name) := by
    rw [List.count, List.countP_map]
    rfl
  have all := List.sum_map_count_dedup_eq_length (layers.map Layer.operation)
  simp only [counted, List.length_map] at all
  rw [(names.map _).sum_eq, all]

/-- The groups see of the layers only those of each operation. -/
theorem operationGroups_congr {others layers : List (Layer Ticks)}
    (same : ∀ name, others.filter (·.operation == name) = layers.filter (·.operation == name)) :
    operationGroups others = operationGroups layers := by
  have names : operationNames others = operationNames layers := by
    apply List.Pairwise.eq_of_mem_iff (operationNames_ascending others)
      (operationNames_ascending layers)
    intro name
    rw [mem_operationNames_iff_filter, mem_operationNames_iff_filter, same]
  have ticks (name : String) : ticksOf name others = ticksOf name layers :=
    congrArg (List.map Layer.meanTicks) (same name)
  simp only [operationGroups, names, ticks]

end Names

/-! ### The entries -/

section Totals
variable (rule : NaNRule) (layers : List (Layer Double))

theorem sumsUp_ofTicks {name : String} (named : name ∈ operationNames layers) :
    (OperationTotal.ofTicks rule name (ticksOf name layers)).SumsUp rule layers := by
  have some_layer : 0 < layers.countP (·.operation == name) := by
    rw [List.countP_eq_length_filter, List.length_pos_iff]
    exact mem_operationNames_iff_filter.mp named
  have counted : (ticksOf name layers).length = layers.countP (·.operation == name) := by
    rw [ticksOf, List.length_map, ← List.countP_eq_length_filter]
  constructor
  case count => exact counted
  case some_layer => exact some_layer.trans_eq counted.symm
  case total => rfl
  case number => exact Double.toFloat_total rule _
  case mean => rfl

theorem totalsByBits_leads : (totalsByBits rule layers).Pairwise OperationTotal.Leads := by
  -- Before the sorting the entries stand in the order of their names.
  have names : ((operationGroups layers).map fun group =>
      OperationTotal.ofTicks rule group.1 group.2).Pairwise
        fun first second => first.operation < second.operation := by
    rw [operationGroups, List.map_map]
    exact List.pairwise_map.mpr (operationNames_ascending layers)
  refine (sortDescending_precedes names).imp fun {first second} order => ?_
  rcases order with less | ⟨same, ascending⟩
  · exact .inl less
  · exact .inr ⟨Double.key_inj.mp same, ascending⟩

/-- The entries are those of the operations of the layers. -/
theorem areTotals_totalsByBits : AreTotals rule layers (totalsByBits rule layers) := by
  have names := totalsByBits_perm rule layers
  have entries : ∀ entry ∈ totalsByBits rule layers, entry.SumsUp rule layers := by
    intro entry member
    obtain ⟨name, named, rfl⟩ := (mem_totalsByBits rule).mp member
    exact sumsUp_ofTicks rule layers named
  constructor
  case once => exact names.nodup_iff.mpr (operationNames_nodup layers)
  case operations => exact fun name => names.mem_iff.trans mem_operationNames
  case entries => exact entries
  case counts =>
    rw [← sum_countP_operationNames layers, ← (names.map _).sum_eq, List.map_map]
    exact congrArg List.sum (List.map_congr_left fun entry member => (entries entry member).count)
  case ordered => exact totalsByBits_leads rule layers

end Totals

/-- The layers are summed up by their operations. The totals stay the same when layers are
reordered, as long as those of one operation keep their order. -/
theorem totalsByBits_sum_up (rule : NaNRule) (layers : List (Layer Double)) :
    AreTotals rule layers (totalsByBits rule layers) ∧
      ∀ others : List (Layer Double),
        (∀ name, others.filter (·.operation == name) = layers.filter (·.operation == name)) →
        totalsByBits rule others = totalsByBits rule layers := by
  refine ⟨areTotals_totalsByBits rule layers, fun others same => ?_⟩
  rw [totalsByBits, totalsByBits, operationGroups_congr same]

/-- A layer of which only the operation and the ticks count. -/
def Layer.timed (operation : String) (ticks : Double) : Layer Double :=
  { (default : Layer) with operation, meanTicks := ticks }

/-- Infinities that cancel each other rank below the negative infinity if the machine gives their
sum the negative sign. The layer between them may as well stand in front of both. -/
theorem totalsByBits_cancelling :
    let up := Layer.timed "ADD" (.ofFloat (1.0 / 0.0))
    let down := Layer.timed "ADD" (.ofFloat (-1.0 / 0.0))
    let other := Layer.timed "MUL" (.ofFloat (-1.0 / 0.0))
    (∀ name, [other, up, down].filter (·.operation == name) =
      [up, other, down].filter (·.operation == name)) ∧
    totalsByBits .passingOn [other, up, down] = totalsByBits .passingOn [up, other, down] ∧
    (totalsByBits .passingOn [up, other, down]).map OperationTotal.operation = ["MUL", "ADD"] := by
  intro up down other
  have same (name : String) : [other, up, down].filter (·.operation == name) =
      [up, other, down].filter (·.operation == name) := by
    by_cases added : "ADD" = name
    · subst added
      rfl
    · have apart : (up.operation == name) = false ∧ (down.operation == name) = false :=
        ⟨beq_false_of_ne added, beq_false_of_ne added⟩
      simp only [List.filter_cons, apart]
      rfl
  exact ⟨same, (totalsByBits_sum_up .passingOn [up, other, down]).2 _ same, by decide +kernel⟩

end LayerTiming
