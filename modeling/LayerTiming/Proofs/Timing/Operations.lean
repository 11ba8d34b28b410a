import LayerTiming.Ranking

/-!
# The operations of the layers

Each operation of a layer is summed up once, and nothing else is.
-/
namespace LayerTiming
open Number

section Names
variable {Ticks : Type}

theorem mem_foldl_insertName {name : String} (layers : List (Layer Ticks)) (found : List String) :
    name ∈ layers.foldl (fun names layer => insertName layer.operation names) found ↔
      name ∈ found ∨ ∃ layer ∈ layers, layer.operation = name := by
  induction layers generalizing found with
  | nil => simp
  | cons first rest ih =>
    rw [List.foldl_cons, ih, mem_insertName]
    constructor
    · rintro ((rfl | before) | ⟨layer, member, rfl⟩)
      · exact .inr ⟨first, List.mem_cons_self, rfl⟩
      · exact .inl before
      · exact .inr ⟨layer, List.mem_cons_of_mem first member, rfl⟩
    · rintro (before | ⟨layer, member, rfl⟩)
      · exact .inl (.inr before)
      · rcases List.mem_cons.mp member with rfl | later
        · exact .inl (.inl rfl)
        · exact .inr ⟨layer, later, rfl⟩

theorem mem_operationNames {name : String} {layers : List (Layer Ticks)} :
    name ∈ operationNames layers ↔ ∃ layer ∈ layers, layer.operation = name := by
  simp [operationNames, mem_foldl_insertName]

end Names

section Totals
variable (rule : NaNRule) {layers : List (Layer Double)}

theorem mem_totalsByBits {entry : OperationTotal Double} : entry ∈ totalsByBits rule layers ↔
    ∃ name ∈ operationNames layers, .ofTicks rule name (ticksOf name layers) = entry := by
  rw [totalsByBits, (sortDescending_perm _ _).mem_iff]
  simp [operationGroups]

/-- The totals are those of the operations, in another order. -/
theorem totalsByBits_perm (layers : List (Layer Double)) :
    ((totalsByBits rule layers).map OperationTotal.operation).Perm (operationNames layers) := by
  have sorted := (sortDescending_perm (fun entry => entry.totalTicks.key)
    ((operationGroups layers).map fun group => OperationTotal.ofTicks rule group.1 group.2)).map
      OperationTotal.operation
  have names : ((operationGroups layers).map fun group =>
      OperationTotal.ofTicks rule group.1 group.2).map OperationTotal.operation =
        operationNames layers := by
    simp [operationGroups, OperationTotal.ofTicks, Function.comp_def]
  rwa [names] at sorted

end Totals

/-! ### Totals as they are shown -/

section Shown
variable {layers : List Layer}

theorem operationNames_stored (layers : List Layer) :
    operationNames (layers.map Layer.stored) = operationNames layers := List.foldl_map

theorem ticksOf_stored (name : String) (layers : List Layer) :
    ticksOf name (layers.map Layer.stored) = (ticksOf name layers).map Double.ofFloat := by
  rw [ticksOf, ticksOf, List.filter_map, List.map_map, List.map_map]
  rfl

theorem operationTotals_perm (layers : List Layer) :
    ((operationTotals layers).map OperationTotal.operation).Perm (operationNames layers) := by
  rw [← operationNames_stored, operationTotals, List.map_map]
  exact totalsByBits_perm .passingOn (layers.map Layer.stored)

/-- Only operations of the layers are summed up. -/
theorem exists_layer_of_mem_operationTotals {entry : OperationTotal}
    (member : entry ∈ operationTotals layers) :
    ∃ layer ∈ layers, layer.operation = entry.operation :=
  mem_operationNames.mp ((operationTotals_perm layers).mem_iff.mp (List.mem_map_of_mem member))

end Shown
end LayerTiming
