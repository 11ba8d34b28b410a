import Mathlib.Data.List.Forall2
import LayerTiming.Proofs.Items
import LayerTiming.Proofs.Number.Texts
import LayerTiming.Proofs.Session.Commands
import LayerTiming.Proofs.Text.Cutting
import LayerTiming.Proofs.Text.Encoding
import LayerTiming.Proofs.Text.Records
import LayerTiming.Session.Analysis

/-!
# The layer table read back

The table of a profile loses nothing: whatever the operations are called, its records are found
again, and the record of a layer tells the layer's id, operation and ticks.
-/
namespace LayerTiming
open Number Text

namespace TableRow

/-- Read a counter value behind one blank. -/
def readItem? : List Char → Option UInt64
  | ' ' :: digits => readWord? digits
  | _ => none

/-- Read the cell of the ticks: counter values in brackets, with a comma and a blank between each
two. -/
def readTicks? : List Char → Option (List UInt64)
  | '[' :: rest =>
    if rest = [']'] then some []
    else if rest.getLast? = some ']' then
      (pieces ',' (' ' :: rest.dropLast)).mapM readItem?
    else none
  | _ => none

/-- Items parted by commas and blanks are pieces that begin with a blank. -/
theorem intercalate_eq_joinPieces (items : List (List Char)) (some_item : items ≠ []) :
    ' ' :: ", ".toList.intercalate items = joinPieces ',' (items.map (' ' :: ·)) := by
  induction items with
  | nil => exact absurd rfl some_item
  | cons first others ih =>
    cases others with
    | nil => simp [List.intercalate, joinPieces]
    | cons second later =>
      rw [List.map_cons, joinPieces_cons ',' _ (by simp), ← ih (List.cons_ne_nil second later)]
      simp [List.intercalate, List.intersperse]

theorem readTicks?_ticksCell (ticks : List UInt64) : readTicks? (ticksCell ticks) = some ticks := by
  cases ticks with
  | nil => rfl
  | cons n others =>
    -- With a blank in front of the first item all items are pieces of one kind.
    have joined := intercalate_eq_joinPieces ((n :: others).map fun n => numeral n.toNat) (by simp)
    rw [List.map_map] at joined
    have free : ∀ part ∈ (n :: others).map fun n => ' ' :: numeral n.toNat, ',' ∉ part := by
      intro part member
      obtain ⟨m, _, rfl⟩ := List.mem_map.mp member
      simp [not_mem_numeral m.toNat ',' (by decide)]
    have some_tick : ", ".toList.intercalate ((n :: others).map fun n => numeral n.toNat) ≠ [] := by
      obtain ⟨c, digits, shape, _⟩ := exists_numeral_eq_cons n.toNat
      cases others <;> simp [List.intercalate, shape]
    rw [ticksCell, List.cons_append, readTicks?,
      if_neg fun same => some_tick (List.append_left_eq_self.mp same), List.getLast?_concat,
      if_pos rfl, List.dropLast_concat, joined]
    have items : ((n :: others).map fun n => ' ' :: numeral n.toNat).mapM readItem? =
        some (n :: others) := mapM_map_eq_some fun m _ => readWord?_numeral m
    exact (congrArg (List.mapM readItem?) (pieces_joinPieces ',' (by simp) free)).trans items

theorem count_ne_nil (x : Float) : count x ≠ [] := by
  unfold count
  split
  · decide
  · split <;> decide
  · split
    · decide
    · exact numeral_ne_nil _

theorem decimal_ne_nil (x : Float) : decimal x ≠ [] := by
  unfold decimal
  split
  · split
    · exact fixed_ne_nil 1 x
    · exact plain_ne_nil x
  · exact plain_ne_nil x

/-- What the cells of a record tell of a layer. -/
def TellsLayer (layer : Layer) (record : List (List Char)) : Prop :=
  ∃ id ticks cycles std ticksList,
    record = [id, layer.operation.toList, ticks, cycles, std, ticksList, [], []] ∧
      readWord? id = some layer.id ∧ readTicks? ticksList = some layer.ticks

theorem tellsLayer_cells (layer : Layer) : TellsLayer layer (ofLayer layer).cells :=
  ⟨_, _, _, _, _, rfl, readWord?_numeral layer.id, readTicks?_ticksCell layer.ticks⟩

/-- What the records of a table tell of a profile: the names of the columns, one record for each
layer, the cycles of all layers, and the mean execution, which is blank without samples. -/
structure TellsProfile (profile : Profile) (records : List (List (List Char))) : Prop where
  length : records.length = profile.layers.length + 3
  cells : ∀ record ∈ records, record.length = 8
  shape : ∃ layerRecords cycles meanCycles meanMs,
    records = columnNames.cells :: layerRecords ++
      [[[], "TOTAL_LAYERS".toList, [], cycles, [], [], [], []],
        [[], "END_TO_END".toList, [], [], [], [], meanCycles, meanMs]] ∧
    List.Forall₂ TellsLayer profile.layers layerRecords ∧ cycles ≠ [] ∧
    (meanCycles = [] ↔ profile.endToEnd.samples = []) ∧
    (meanMs = [] ↔ profile.endToEnd.samples = [])

theorem tellsProfile_tableRows (profile : Profile) :
    TellsProfile profile (profile.tableRows.map cells) := by
  have blank (samples : List UInt64) (text : List Char) (some_text : text ≠ []) :
      (if samples.isEmpty then [] else text) = [] ↔ samples = [] := by
    cases samples <;> simp [some_text]
  constructor
  case length => simp [Profile.tableRows]
  case cells =>
    intro record member
    obtain ⟨row, _, rfl⟩ := List.mem_map.mp member
    rfl
  case shape =>
    refine ⟨profile.layers.map fun layer => (ofLayer layer).cells, (ofTotal profile.layers).cycles,
      (ofEndToEnd profile.endToEnd).endToEndCycles, (ofEndToEnd profile.endToEnd).endToEndMs,
      ?_, ?_, count_ne_nil _, blank _ _ (count_ne_nil _), blank _ _ (decimal_ne_nil _)⟩
    · simp only [Profile.tableRows, List.map_append, List.map_cons, List.map_map, List.map_nil]
      rfl
    · rw [List.forall₂_map_right_iff, List.forall₂_same]
      exact fun layer _ => tellsLayer_cells layer

end TableRow

namespace Profile

theorem csv_of_layers {profile : Profile} (layers : profile.layers ≠ []) :
    profile.csv = .ok (Csv.write (profile.tableRows.map TableRow.cells)) := by
  have some_layer : ¬ profile.isEmpty = true := by simpa [isEmpty] using layers
  rw [csv, if_neg some_layer]

theorem csv_of_no_layers {profile : Profile} (none_kept : profile.layers = []) :
    profile.csv = .error .noLayers := by
  have empty : profile.isEmpty = true := by simpa [isEmpty] using none_kept
  rw [csv, if_pos empty]

/-- A table that is made is written as an output is, and fails as that does. -/
theorem runOn_saveTable {analysis : Analysis} {profile : Profile} {path : Path} {text : List Char}
    (asked : analysis.tablePath = some path) (made : profile.csv = .ok text) (session : Session) :
    (analysis.saveTable profile).runOn session =
      let written := session.files.writeOutput path text
      ((match written.1 with
        | none => .ok ()
        | some fault => .error (.unwrittenTable fault)),
        { session with files := written.2 }) := by
  rw [Analysis.saveTable, asked]
  dsimp only
  rw [Command.runOn_bind, made, Command.runOn_require_ok]
  exact Command.runOn_writeOutput .unwrittenTable path text session

/-- The table of a profile, read back. Without a layer there is no table, and saving it does
nothing. With layers its records tell the profile, whatever the operations are called. Saving it
writes one output, and if that can be written, the file has exactly the bytes of the text. -/
theorem csv_read_back (profile : Profile) :
    (profile.layers = [] → profile.csv = .error .noLayers ∧
      ∀ (analysis : Analysis) (path : Path) (session : Session), analysis.tablePath = some path →
        (analysis.saveTable profile).runOn session = (.error (.unwrittenTable .noLayers), session)) ∧
    (profile.layers ≠ [] → ∃ text records, profile.csv = .ok text ∧
      Csv.read? text = some records ∧ TableRow.TellsProfile profile records ∧
      ∀ (analysis : Analysis) (path : Path) (session : Session), analysis.tablePath = some path →
        let ran := (analysis.saveTable profile).runOn session
        let written := session.files.writeOutput path text
        ran = ((match written.1 with
            | none => .ok ()
            | some fault => .error (.unwrittenTable fault)),
          { session with files := written.2 }) ∧
        (ran.1 = .ok () → ∃ bytes, ran.2.files.read path = .ok bytes ∧
          bytes.toByteArray = (String.ofList text).toUTF8)) := by
  constructor
  · intro none_kept
    have none_made := csv_of_no_layers none_kept
    refine ⟨none_made, fun analysis path session asked => ?_⟩
    simp only [Analysis.saveTable, asked, Command.runOn_bind, none_made,
      Command.runOn_require_error]
  · intro layers
    have made := csv_of_layers layers
    refine ⟨_, profile.tableRows.map TableRow.cells, made, ?_,
      TableRow.tellsProfile_tableRows profile, ?_⟩
    · refine Csv.read?_write _ fun record member => ?_
      obtain ⟨row, _, rfl⟩ := List.mem_map.mp member
      exact List.cons_ne_nil _ _
    · intro analysis path session asked ran written
      have saved : ran = _ := runOn_saveTable asked made session
      refine ⟨saved, fun ended => ?_⟩
      rw [saved] at ended ⊢
      -- An output that cannot be written is not a success of the command.
      rcases outcome : session.files.writeOutput path _ with ⟨_ | fault, after⟩
      · exact ⟨_, FileSystem.read_of_writeOutput outcome, Utf8.encode_eq_toUTF8 _⟩
      · rw [outcome] at ended
        cases ended

/-- An operation with a comma, quotes and a line break, in a table that is saved. -/
theorem csv_read_back_quoted :
    let layer : Layer := { (default : Layer) with operation := "A,\"B\"\n", ticks := [3, 5] }
    let profile : Profile := { layers := [layer] }
    let analysis : Analysis :=
      { input := .ofString "a.txt", tablePath := some (.ofString "a.csv") }
    let ran := (analysis.saveTable profile).runOn {}
    profile.layers ≠ [] ∧ ran.1 = .ok () ∧ ∃ text records bytes, profile.csv = .ok text ∧
      Csv.read? text = some records ∧ TableRow.TellsProfile profile records ∧
      ran.2.files.read (.ofString "a.csv") = .ok bytes ∧
      bytes.toByteArray = (String.ofList text).toUTF8 := by
  intro layer profile analysis ran
  have layers : profile.layers ≠ [] := List.cons_ne_nil layer []
  obtain ⟨text, records, made, read, tells, saved⟩ := (csv_read_back profile).2 layers
  obtain ⟨equation, bytes⟩ := saved analysis (.ofString "a.csv") {} rfl
  -- The text of a file does not matter to whether it can be written.
  have ended : ran.1 = .ok () := by
    change ((analysis.saveTable profile).runOn {}).1 = .ok ()
    rw [equation]
    rfl
  obtain ⟨bytes, there, encoded⟩ := bytes ended
  exact ⟨layers, ended, text, records, bytes, made, read, tells, there, encoded⟩

end Profile
end LayerTiming
