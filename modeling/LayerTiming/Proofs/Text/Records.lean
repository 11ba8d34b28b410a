import LayerTiming.Text.Csv

/-!
# Comma-separated values read back

A reader of records as RFC 4180 has them: commas part the cells, a line feed ends a record, and a
cell in quotes may hold anything, with each quote in it written twice. Outside of quotes neither a
quote nor a carriage return may stand. Records that are written read back whatever their cells hold,
so two lists of records are never written alike.
-/
namespace LayerTiming.Csv

/-- Where a reader stands in a cell. -/
inductive Place
  /-- Outside of quotes, or in front of the cell. -/
  | bare
  | quoted
  /-- Behind a quote in a quoted cell: the cell has ended, or the quote is half of a double one. -/
  | atQuote
  deriving DecidableEq, Repr

/-- What has been read, each list latest first. -/
structure ReadState where
  records : List (List (List Char)) := []
  cells : List (List Char) := []
  cell : List Char := []
  place : Place := .bare
  deriving DecidableEq, Repr

namespace ReadState

/-- The state with a character more in the cell. -/
def push (state : ReadState) (c : Char) : ReadState := { state with cell := c :: state.cell }

def endCell (state : ReadState) : ReadState :=
  { state with cells := state.cell.reverse :: state.cells, cell := [], place := .bare }

def endRecord (state : ReadState) : ReadState :=
  { records := state.endCell.cells.reverse :: state.records }

def step? (state : ReadState) (c : Char) : Option ReadState :=
  match state.place with
  | .bare =>
    if c = ',' then some state.endCell
    else if c = '\n' then some state.endRecord
    else if c = '"' then if state.cell = [] then some { state with place := .quoted } else none
    else if c = '\r' then none
    else some (state.push c)
  | .quoted => if c = '"' then some { state with place := .atQuote } else some (state.push c)
  | .atQuote =>
    if c = ',' then some state.endCell
    else if c = '\n' then some state.endRecord
    else if c = '"' then some { state.push c with place := .quoted }
    else none

def run? : ReadState → List Char → Option ReadState
  | state, [] => some state
  | state, c :: rest => (state.step? c).bind fun next => run? next rest

/-- The records, if nothing is left of one that has not ended. -/
def result? (state : ReadState) : Option (List (List (List Char))) :=
  if state.cells = [] ∧ state.cell = [] ∧ state.place = .bare then some state.records.reverse
  else none

end ReadState

/-- Read records, each ended by a line feed. -/
def read? (text : List Char) : Option (List (List (List Char))) :=
  (ReadState.run? {} text).bind ReadState.result?

namespace ReadState

variable {records : List (List (List Char))} {cells : List (List Char)}

theorem run?_bare (text before rest : List Char) (plain : text.any isSpecial = false) :
    run? ⟨records, cells, before, .bare⟩ (text ++ rest) =
      run? ⟨records, cells, text.reverse ++ before, .bare⟩ rest := by
  induction text generalizing before with
  | nil => rfl
  | cons c text ih =>
    rw [List.any_cons, Bool.or_eq_false_iff] at plain
    obtain ⟨here, later⟩ := plain
    have stepped : step? ⟨records, cells, before, .bare⟩ c =
        some ⟨records, cells, c :: before, .bare⟩ := by
      simp only [isSpecial, Bool.or_eq_false_iff, beq_eq_false_iff_ne] at here
      obtain ⟨⟨⟨comma, quote⟩, feed⟩, carriage⟩ := here
      simp [step?, comma, feed, quote, carriage, push]
    rw [List.cons_append, run?, stepped, Option.bind_some, ih (c :: before) later,
      List.reverse_cons, List.append_assoc, List.singleton_append]

theorem run?_quoted (text before rest : List Char) :
    run? ⟨records, cells, before, .quoted⟩ (doubleQuotes text ++ rest) =
      run? ⟨records, cells, text.reverse ++ before, .quoted⟩ rest := by
  induction text generalizing before with
  | nil => rfl
  | cons c text ih =>
    rw [List.reverse_cons, List.append_assoc, List.singleton_append, ← ih (c :: before)]
    by_cases quote : c = '"'
    · -- The first of two quotes may have ended the cell; the second shows that it has not.
      subst quote
      rfl
    · simp [doubleQuotes, run?, step?, quote, push]

/-- Behind a cell the reader holds the cell, and stands where the cell may end. -/
theorem run?_cell (text rest : List Char) :
    ∃ place, place ≠ .quoted ∧ run? ⟨records, cells, [], .bare⟩ (Csv.cell text ++ rest) =
      run? ⟨records, cells, text.reverse, place⟩ rest := by
  unfold Csv.cell
  cases special : text.any isSpecial with
  | false =>
    refine ⟨.bare, by decide, ?_⟩
    have ran := @run?_bare records cells text [] rest special
    rwa [List.append_nil] at ran
  | true =>
    refine ⟨.atQuote, by decide, ?_⟩
    have ran := @run?_quoted records cells text [] ('"' :: rest)
    rw [List.append_nil] at ran
    simpa [run?, step?] using ran

theorem step?_comma (text : List Char) {place : Place} (ended : place ≠ .quoted) :
    step? ⟨records, cells, text.reverse, place⟩ ',' = some ⟨records, text :: cells, [], .bare⟩ := by
  cases place <;> simp_all [step?, endCell]

theorem step?_feed (text : List Char) {place : Place} (ended : place ≠ .quoted) :
    step? ⟨records, cells, text.reverse, place⟩ '\n' =
      some { records := (text :: cells).reverse :: records } := by
  cases place <;> simp_all [step?, endRecord, endCell]

theorem run?_cells (record : List (List Char)) (rest : List Char) (some_cell : record ≠ []) :
    run? ⟨records, cells, [], .bare⟩ (Csv.cells record ++ '\n' :: rest) =
      run? { records := (cells.reverse ++ record) :: records } rest := by
  induction record generalizing cells with
  | nil => exact absurd rfl some_cell
  | cons first others ih =>
    cases others with
    | nil =>
      obtain ⟨place, ended, ran⟩ := @run?_cell records cells first ('\n' :: rest)
      rw [Csv.cells, ran, run?, step?_feed first ended, Option.bind_some, List.reverse_cons]
    | cons second later =>
      obtain ⟨place, ended, ran⟩ := @run?_cell records cells first
        (',' :: (Csv.cells (second :: later) ++ '\n' :: rest))
      rw [Csv.cells, List.append_assoc, List.cons_append, ran, run?, step?_comma first ended,
        Option.bind_some, ih (List.cons_ne_nil second later), List.reverse_cons, List.append_assoc,
        List.singleton_append]
      exact List.cons_ne_nil second later

theorem run?_write (written : List (List (List Char)))
    (some_cell : ∀ record ∈ written, record ≠ []) :
    run? { records } (write written) = some { records := written.reverse ++ records } := by
  induction written generalizing records with
  | nil => rfl
  | cons record rest ih =>
    obtain ⟨first, others⟩ := List.forall_mem_cons.mp some_cell
    rw [write, List.flatMap_cons, List.append_assoc, List.singleton_append,
      run?_cells record _ first]
    rw [List.reverse_cons, List.append_assoc, List.singleton_append]
    exact ih others

end ReadState

/-- Records of any cells are read back as they were written. -/
theorem read?_write (records : List (List (List Char)))
    (some_cell : ∀ record ∈ records, record ≠ []) :
    read? (write records) = some records := by
  rw [read?, ReadState.run?_write records some_cell, Option.bind_some]
  simp [ReadState.result?]

end LayerTiming.Csv
