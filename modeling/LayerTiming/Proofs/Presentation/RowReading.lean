import Mathlib.Data.List.DropRight
import LayerTiming.Presentation.Summary
import LayerTiming.Proofs.Number.Texts
import LayerTiming.Proofs.Text.Cutting
import LayerTiming.Proofs.Text.Numerals

/-!
# Rows of the summary read back

A row tells what it stands for: an execution by its number and cycles, a ranked layer by its id and
operation, an operation by its name and count. The figures are the last words of a row. What stands in
front of them is the name, but blanks at its end are not told from those of its column.
-/
namespace LayerTiming
open Number Text

/-- A name in its column, where blanks at its end are not seen. -/
def withoutBlanks (text : List Char) : List Char := text.rdropWhile (· == ' ')

/-- The last word of a text, behind what stands in front of it and its blanks. -/
def splitLast (text : List Char) : List Char × List Char :=
  (withoutBlanks (text.rdropWhile (· != ' ')), text.rtakeWhile (· != ' '))

/-- A word behind one blank or more. -/
structure IsColumn (word text : List Char) : Prop where
  some_char : word ≠ []
  one_word : ' ' ∉ word
  shape : ∃ blanks, text = List.replicate blanks ' ' ++ ' ' :: word

section Columns
variable {front word text : List Char}

theorem replicate_blanks_append (blanks : Nat) (text : List Char) :
    ' ' :: (List.replicate blanks ' ' ++ text) = List.replicate blanks ' ' ++ ' ' :: text := by
  rw [← List.cons_append, ← List.replicate_succ, List.replicate_succ', List.append_assoc]
  rfl

theorem isColumn_alignRight (width : Nat) (some_char : word ≠ []) (one_word : ' ' ∉ word) :
    IsColumn word (' ' :: alignRight width word) :=
  ⟨some_char, one_word, width - word.length, replicate_blanks_append _ word⟩

theorem blank_not_mem_counter (x : Float) : ' ' ∉ SummaryLine.counter x :=
  not_mem_grouped _ (by decide) (by decide)

theorem counter_ne_nil (x : Float) : SummaryLine.counter x ≠ [] := by
  obtain ⟨c, rest, shape, _⟩ := exists_numeral_eq_cons (toCounter x)
  rw [SummaryLine.counter, grouped, shape, groupDigits]
  split <;> exact List.cons_ne_nil _ _

theorem isColumn_counter (width : Nat) (x : Float) :
    IsColumn (SummaryLine.counter x) (' ' :: alignRight width (SummaryLine.counter x)) :=
  isColumn_alignRight width (counter_ne_nil x) (blank_not_mem_counter x)

theorem isColumn_share (percentage : Float) :
    IsColumn (fixed 1 percentage ++ ['%']) (' ' :: SummaryLine.share percentage) := by
  have free : ' ' ∉ fixed 1 percentage := not_mem_fixed 1 percentage (by decide) (by decide)
  refine ⟨by simp, List.not_mem_append free (by decide), 7 - (fixed 1 percentage).length, ?_⟩
  rw [← replicate_blanks_append, SummaryLine.share, alignRight, List.append_assoc]
  rfl

theorem withoutBlanks_filler (text : List Char) (blanks : Nat) :
    withoutBlanks (text ++ List.replicate blanks ' ') = withoutBlanks text := by
  induction blanks with
  | zero => simp
  | succ blanks ih =>
    rw [List.replicate_succ', ← List.append_assoc, withoutBlanks, List.rdropWhile_concat_pos _ _ _ rfl]
    exact ih

/-- From behind, a text begins with its last word, and goes on with a blank. -/
theorem reverse_last_word (front : List Char) (one_word : ' ' ∉ word) :
    (front ++ ' ' :: word).reverse.takeWhile (· != ' ') = word.reverse ∧
      (front ++ ' ' :: word).reverse.dropWhile (· != ' ') = ' ' :: front.reverse := by
  have letters : ∀ c ∈ word.reverse, (c != ' ') = true := by
    intro c member
    have other : c ≠ ' ' := fun same => one_word (same ▸ List.mem_reverse.mp member)
    simpa using other
  have behind : (front ++ ' ' :: word).reverse = word.reverse ++ ' ' :: front.reverse := by simp
  rw [behind]
  exact takeWhile_kind letters (by simp)

namespace IsColumn

/-- Behind a column there are no blanks to leave out. -/
theorem withoutBlanks_append (column : IsColumn word text) :
    withoutBlanks (front ++ text) = front ++ text := by
  obtain ⟨some_char, one_word, blanks, rfl⟩ := column
  rw [withoutBlanks, List.rdropWhile_eq_self_iff]
  intro some_text
  have last : (front ++ (List.replicate blanks ' ' ++ ' ' :: word)).getLast some_text =
      word.getLast some_char := by
    simp [List.getLast_append_of_ne_nil, some_char]
  rw [last, beq_iff_eq]
  exact fun blank => one_word (blank ▸ List.getLast_mem some_char)

theorem splitLast_append (column : IsColumn word text) :
    splitLast (front ++ text) = (withoutBlanks front, word) := by
  obtain ⟨-, one_word, blanks, rfl⟩ := column
  obtain ⟨last, before⟩ := reverse_last_word (front ++ List.replicate blanks ' ') one_word
  rw [← List.append_assoc, splitLast, List.rdropWhile, List.rtakeWhile, last, before,
    List.reverse_cons, List.reverse_reverse, List.reverse_reverse, List.append_assoc,
    ← List.replicate_succ', withoutBlanks_filler]

end IsColumn
end Columns

/-! ### Rows -/

/-- Read the number and the cycles of an execution. -/
def readExecution? (row : List Char) : Option (Nat × UInt64) := do
  let row ← after? "  Run ".toList row
  let number ← readNumeral? (row.takeWhile isAsciiDigit)
  let row ← after? ": ".toList (row.dropWhile isAsciiDigit)
  let cycles ← readWord? ((row.takeWhile (· != ' ')).filter (· ≠ ','))
  pure (number, cycles)

/-- What stands in front of the last three words of a row. -/
def readName (row : List Char) : List Char := (splitLast (splitLast (splitLast row).1).1).1

/-- Read the id and the operation of a ranked layer. -/
def readBottleneck? (row : List Char) : Option (UInt64 × List Char) := do
  let row := row.dropWhile (· == ' ')
  let id ← readWord? (row.takeWhile isAsciiDigit)
  pure (id, readName ((row.dropWhile isAsciiDigit).drop 1))

/-- Read the name and the count of an operation. -/
def readOperation? (row : List Char) : Option (List Char × Nat) := do
  let count ← readNumeral? (splitLast (splitLast row).1).2
  pure (readName row, count)

section Reading
variable {ticks count mean first second third : List Char}

/-- The words of three columns, and the name in front of them. -/
theorem splitLast_columns (front : List Char) (one : IsColumn ticks first)
    (two : IsColumn count second) (three : IsColumn mean third) :
    readName (front ++ first ++ second ++ third) = withoutBlanks front ∧
      (splitLast (splitLast (front ++ first ++ second ++ third)).1).2 = count := by
  rw [readName, three.splitLast_append, two.withoutBlanks_append, two.splitLast_append,
    one.withoutBlanks_append, one.splitLast_append]
  exact ⟨rfl, rfl⟩

theorem withoutBlanks_alignLeft (width : Nat) (text : List Char) :
    withoutBlanks (alignLeft width text) = withoutBlanks text :=
  withoutBlanks_filler text _

end Reading

namespace SummaryLine

theorem readExecution?_render (color : Bool) (number : Nat) (cycles : UInt64) (ms : Float) :
    readExecution? ((execution number cycles ms).render color) = some (number, cycles) := by
  -- What stands behind each figure is all that matters of the rest.
  obtain ⟨rest, shape⟩ : ∃ rest, (execution number cycles ms).render color =
      "  Run ".toList ++ (numeral number ++ (": ".toList ++ (grouped cycles.toNat ++ ' ' :: rest))) := by
    delta render
    simp only [List.append_assoc]
    exact ⟨_, rfl⟩
  generalize grouped_text : grouped cycles.toNat = text at shape
  have digits : (numeral number ++ (": ".toList ++ (text ++ ' ' :: rest))).takeWhile isAsciiDigit =
      numeral number ∧ (numeral number ++ (": ".toList ++ (text ++ ' ' :: rest))).dropWhile
        isAsciiDigit = ": ".toList ++ (text ++ ' ' :: rest) :=
    takeWhile_kind (isAsciiDigit_of_mem_numeral number) (by simp [isAsciiDigit])
  have one_word : ∀ c ∈ text, (c != ' ') = true := by
    intro c member
    refine bne_iff_ne.mpr fun blank => ?_
    rw [← grouped_text, blank] at member
    exact not_mem_grouped _ (by decide) (by decide) member
  have figure : (text ++ ' ' :: rest).takeWhile (· != ' ') = text ∧ _ :=
    takeWhile_kind one_word (by simp)
  have cycles_read : readWord? (text.filter (· ≠ ',')) = some cycles := by
    rw [← grouped_text, filter_grouped, readWord?_numeral]
  simp only [readExecution?, shape, after?_append, digits, figure, readNumeral?_numeral,
    cycles_read, Option.bind_eq_bind, Option.bind_some]
  rfl

theorem readBottleneck?_render (entry : RankedLayer) :
    readBottleneck? ((bottleneck entry).render false) =
      some (entry.id, withoutBlanks entry.operation.toList) := by
  obtain ⟨name, -⟩ := splitLast_columns (alignLeft 20 entry.operation.toList)
    (isColumn_counter 12 entry.meanTicks) (isColumn_share entry.percentage)
    (isColumn_share entry.cumulativePercentage)
  generalize columns : alignLeft 20 entry.operation.toList
    ++ ' ' :: alignRight 12 (counter entry.meanTicks) ++ ' ' :: share entry.percentage
    ++ ' ' :: share entry.cumulativePercentage = row at name
  have shape : (bottleneck entry).render false = filler 3 (numeral entry.id.toNat) ++
      (numeral entry.id.toNat ++ ' ' :: row) := by
    delta render
    simp [← columns, painted, alignRight]
  -- The id stands between the blanks of its column and the blank behind it.
  obtain ⟨c, digits, number, digit⟩ := exists_numeral_eq_cons entry.id.toNat
  have no_blank : c ≠ ' ' := by
    rintro rfl
    cases digit
  have blanks : (filler 3 (numeral entry.id.toNat) ++
      (numeral entry.id.toNat ++ ' ' :: row)).dropWhile (· == ' ') =
        numeral entry.id.toNat ++ ' ' :: row :=
    (takeWhile_kind (fun d member => beq_iff_eq.mpr (List.eq_of_mem_replicate member))
      (by simp [number, no_blank])).2
  have id : (numeral entry.id.toNat ++ ' ' :: row).takeWhile isAsciiDigit =
      numeral entry.id.toNat ∧ (numeral entry.id.toNat ++ ' ' :: row).dropWhile isAsciiDigit =
        ' ' :: row :=
    takeWhile_kind (isAsciiDigit_of_mem_numeral entry.id.toNat) (by simp [isAsciiDigit])
  rw [readBottleneck?, shape]
  simp only [blanks, id, List.drop_succ_cons, List.drop_zero, name, withoutBlanks_alignLeft,
    readWord?_numeral, Option.bind_eq_bind, Option.bind_some]
  rfl

theorem readOperation?_render (entry : OperationTotal) :
    readOperation? ((operation entry).render false) =
      some (withoutBlanks entry.operation.toList, entry.count) := by
  obtain ⟨name, count⟩ := splitLast_columns (alignLeft 20 entry.operation.toList)
    (isColumn_counter 12 entry.totalTicks)
    (isColumn_alignRight 8 (numeral_ne_nil entry.count) (not_mem_numeral _ ' ' (by decide)))
    (isColumn_counter 12 entry.meanTicks)
  have shape : (operation entry).render false = alignLeft 20 entry.operation.toList
      ++ ' ' :: alignRight 12 (counter entry.totalTicks) ++ ' ' :: alignRight 8 (numeral entry.count)
      ++ ' ' :: alignRight 12 (counter entry.meanTicks) := rfl
  rw [readOperation?, shape, name, count, withoutBlanks_alignLeft, readNumeral?_numeral]
  rfl

end SummaryLine
end LayerTiming
