import LayerTiming.Proofs.Number.Errors
import LayerTiming.Proofs.Presentation.TickTexts

/-!
# The total of the layer table

The cycles of a layer stand in the table as a whole number, and below them stands their sum. The sum
is taken in doubles from top to bottom, so it is the exact sum of the cells as long as the partial
sums are doubles, and past that each addition is rounded to a nearest double.

## Main results

* `csv_total`: this holds for every clock and all runs that have a layer.
* `not_addsUp_past_mantissa`: one more cycle is lost past the longest mantissa.
-/
namespace LayerTiming
open Number Text

namespace TableRow
variable {x : Float} {n k : Nat}

/-- The whole number in the cycles cell of a record. -/
def cyclesOf? (record : List (List Char)) : Option Nat := record[3]?.bind readNumeral?

/-- What the cycles cells of a table hold: whole numbers for the layers, and one for their total, in
the record behind those of the layers. -/
structure TellsCycles (layers : Nat) (records : List (List (List Char))) (counts : List Nat)
    (total : Nat) : Prop where
  counts : ((records.drop 1).take layers).map cyclesOf? = counts.map some
  label : records[layers + 1]?.bind (·[1]?) = some "TOTAL_LAYERS".toList
  total : records[layers + 1]?.bind cyclesOf? = some total

/-- A whole double is written as its numeral. -/
theorem count_of_natCast (whole : IsMagnitude x .positive n) : count x = numeral n := by
  obtain ⟨value, finite, positive, magnitude, canonical⟩ := whole.kind_positive
  rw [count_eq finite positive, Binary.nearest_of_natCast canonical.small magnitude]

end TableRow

namespace Profile
open TableRow

/-- The table as text and as the records it is read back to. -/
theorem csv_records {profile : Profile} (layers : profile.layers ≠ []) :
    ∃ text, profile.csv = .ok text ∧ Csv.read? text =
      some (columnNames.cells :: profile.layers.map (fun layer => (ofLayer layer).cells) ++
        [(ofTotal profile.layers).cells, (ofEndToEnd profile.endToEnd).cells]) := by
  have read := Csv.read?_write (profile.tableRows.map TableRow.cells) fun record member => by
    obtain ⟨row, _, rfl⟩ := List.mem_map.mp member
    exact List.cons_ne_nil _ _
  refine ⟨_, csv_of_layers layers, ?_⟩
  rw [read, tableRows, List.map_append, List.map_cons, List.map_map]
  rfl

/-- The cycles of a layer are bounded whatever the clock is. -/
theorem within_meanCycles {clock : Clock} {runs : List Run} {samples : List UInt64} {layer : Layer}
    (member : layer ∈ (ofRuns clock runs samples).layers) : Within layer.meanCycles 182 := by
  obtain ⟨position, at_position⟩ := exists_layerAt member
  rw [at_position.meanCycles]
  exact clock.within_cyclesOfTicks (within_meanTicks member) (by decide)

/-- The cells of a table whose layers have whole cycles, and the rounded sum of them. -/
theorem exists_tellsCycles {profile : Profile} {k : Nat}
    (cycles : ∀ layer ∈ profile.layers, Within layer.meanCycles k) (least : k + 55 < 1024) :
    ∃ counts total, TellsCycles profile.layers.length
      (columnNames.cells :: profile.layers.map (fun layer => (ofLayer layer).cells) ++
        [(ofTotal profile.layers).cells, (ofEndToEnd profile.endToEnd).cells]) counts total ∧
      List.Forall₂ (fun layer n => IsMagnitude (roundEven layer.meanCycles) .positive (n : Nat))
        profile.layers counts ∧
      RoundedSum 0 counts total := by
  obtain ⟨counts, whole⟩ := exists_forall₂_iff.mpr fun layer member =>
    (cycles layer member).exists_roundEven
  have terms : List.Forall₂ (fun x n => IsMagnitude x .positive (n : Nat) ∧ n ≤ 2 ^ k)
      (profile.layers.map fun layer => roundEven layer.meanCycles) counts :=
    List.forall₂_map_left_iff.mpr (whole.imp fun _ _ both => both.symm)
  have zero : IsMagnitude 0.0 .positive (0 : Nat) := by
    have parts : kind 0.0 = .finite ⟨false, 0, -1074, false⟩ := rfl
    simpa [signOf] using isMagnitude_of_kind parts
  -- The program adds up doubles that are whole numbers, and these are what the cells show.
  obtain ⟨total, summed, rounded⟩ := exists_roundedSum terms zero (Nat.zero_le _) least
  have cells : List.Forall₂ (fun layer n => cyclesOf? (ofLayer layer).cells = some n)
      profile.layers counts := by
    refine whole.imp fun layer n both => ?_
    change readNumeral? (count (roundEven layer.meanCycles)) = some n
    rw [count_of_natCast both.2, readNumeral?_numeral]
  have behind : (columnNames.cells :: profile.layers.map (fun layer => (ofLayer layer).cells) ++
      [(ofTotal profile.layers).cells, (ofEndToEnd profile.endToEnd).cells])[
        profile.layers.length + 1]? = some (ofTotal profile.layers).cells := by
    simp
  refine ⟨counts, total, ⟨?_, ?_, ?_⟩, whole.imp fun _ _ both => both.2, rounded⟩
  · rw [List.cons_append, List.drop_one, List.tail_cons, List.take_left' (by simp), List.map_map,
      ← List.forall₂_eq_eq_eq, List.forall₂_map_left_iff, List.forall₂_map_right_iff]
    exact cells
  · rw [behind]
    rfl
  · rw [behind]
    change readNumeral? (count _) = some total
    rw [List.foldl_map] at summed
    rw [List.foldl_map, count_of_natCast summed, readNumeral?_numeral]

/-- The total in the table of any runs with a layer. -/
theorem csv_total (clock : Clock) (runs : List Run) (samples : List UInt64)
    (layers : (ofRuns clock runs samples).layers ≠ []) :
    ∃ text records counts total, (ofRuns clock runs samples).csv = .ok text ∧
      Csv.read? text = some records ∧
      TellsCycles (ofRuns clock runs samples).layers.length records counts total ∧
      RoundedSum 0 counts total ∧
      ((∀ k, IsRepresentable (counts.take k).sum) → total = counts.sum) ∧
      (counts.sum ≤ 2 ^ 53 → total = counts.sum) ∧
      |(total : ℚ) - counts.sum| ≤ ((1 + unitError) ^ (counts.length - 1) - 1) * counts.sum := by
  obtain ⟨text, made, read⟩ := csv_records layers
  obtain ⟨counts, total, tells, whole, rounded⟩ := exists_tellsCycles
    (fun layer member => within_meanCycles member) (by decide)
  refine ⟨text, _, counts, total, made, read, tells, rounded, ?_, ?_, ?_⟩
  · intro exact
    rw [rounded.eq_sum fun k => by simpa using exact k, Nat.zero_add]
  · intro short
    have exact (k : Nat) : IsRepresentable (counts.take k).sum := by
      have parts := List.sum_take_add_sum_drop counts k
      simpa using isRepresentable_mul_zpow (n := (counts.take k).sum) (e := 0) (by omega) (by decide)
    rw [rounded.eq_sum fun k => by simpa using exact k, Nat.zero_add]
  · have some_count : counts ≠ [] := by
      rintro rfl
      exact layers (List.forall₂_nil_right_iff.mp whole)
    obtain ⟨first, rest, rfl⟩ := List.exists_cons_of_ne_nil some_count
    obtain ⟨_, _, holds, _, _⟩ := List.forall₂_cons_right_iff.mp whole
    -- The first cell is a double, so adding it to zero is exact.
    have error := (rounded.later_of_zero holds.isRepresentable).relative_error
    rwa [List.sum_cons, List.length_cons, Nat.add_sub_cancel]

/-- Terms of very different sizes. -/
theorem csv_total_huge :
    let profile := ofRuns {} [[⟨0, "ADD", 0xFFFFFFFFFFFFFFFF⟩, ⟨1, "MUL", 1⟩, ⟨2, "PAD", 3⟩]] []
    profile.layers ≠ [] ∧ ∃ text records counts total, profile.csv = .ok text ∧
      Csv.read? text = some records ∧ TellsCycles 3 records counts total ∧
      RoundedSum 0 counts total := by
  intro profile
  have layers : profile.layers ≠ [] := List.cons_ne_nil _ _
  obtain ⟨text, records, counts, total, made, read, tells, rounded, -⟩ := csv_total {}
    [[⟨0, "ADD", 0xFFFFFFFFFFFFFFFF⟩, ⟨1, "MUL", 1⟩, ⟨2, "PAD", 3⟩]] [] layers
  exact ⟨layers, text, records, counts, total, made, read, tells, rounded⟩

/-- A table whose total is the exact sum of the cycles above it. -/
def AddsUp (profile : Profile) : Prop :=
  ∃ text records counts, profile.csv = .ok text ∧ Csv.read? text = some records ∧
    TellsCycles profile.layers.length records counts counts.sum

/-- Past the longest mantissa one more cycle is lost. -/
theorem not_addsUp_past_mantissa :
    let profile := ofRuns ⟨1, 1⟩ [[⟨0, "ADD", 9007199254740992⟩, ⟨1, "MUL", 1⟩]] []
    profile.layers ≠ [] ∧ ¬ profile.AddsUp := by
  intro profile
  have layers : profile.layers ≠ [] := List.cons_ne_nil _ _
  refine ⟨layers, ?_⟩
  rintro ⟨text, records, counts, made, read, cells, label, sum⟩
  obtain ⟨text', made', read'⟩ := csv_records layers
  obtain rfl : text' = text := Except.ok.inj (made'.symm.trans made)
  obtain rfl := Option.some.inj (read'.symm.trans read)
  have counts_cells : counts.map some = [some 9007199254740992, some 1] := by
    rw [← cells]
    decide +kernel
  have total_cell : some counts.sum = some 9007199254740992 := by
    rw [← sum]
    decide +kernel
  obtain rfl : counts = [9007199254740992, 1] :=
    List.map_injective_iff.mpr (Option.some_injective Nat) counts_cells
  exact absurd total_cell (by decide)

end Profile

end LayerTiming
