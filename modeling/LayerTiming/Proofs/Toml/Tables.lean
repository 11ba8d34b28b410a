import Mathlib.Data.List.Nodup
import LayerTiming.Proofs.Toml.Lines

/-!
# Tables built from lines

The statements of a flat file build its table entry by entry: a pair goes to the end of the table
that is open, and a header opens the next one. Nothing is overwritten, since no key is given twice.

## Main result

`read?_document`: a flat file without a key that is given twice is read as its entries, in order.
-/
namespace LayerTiming.Toml

namespace Entries

def keys (entries : Entries) : List String := entries.map Prod.fst

theorem keys_append (front back : Entries) : keys (front ++ back) = keys front ++ keys back :=
  List.map_append

theorem lookup_eq_none_iff {entries : Entries} {key : String} :
    entries.lookup key = none ↔ key ∉ keys entries := by
  rw [List.lookup_eq_none_iff]
  constructor
  · intro others member
    obtain ⟨entry, among, same⟩ := List.mem_map.mp member
    simpa [same] using others entry among
  · intro absent entry member
    have other : key ≠ entry.1 := fun same => absent (same ▸ List.mem_map_of_mem member)
    simpa using other

/-- A key that is given once is not given earlier. -/
theorem not_mem_keys_of_nodup {front back : Entries} {entry : String × Value}
    (distinct : (keys (front ++ entry :: back)).Nodup) : entry.1 ∉ keys front := by
  rw [keys_append] at distinct
  exact fun earlier => List.disjoint_of_nodup_append distinct earlier List.mem_cons_self

theorem lookup_append_cons {front : Entries} {key : String} (fresh : key ∉ keys front)
    (value : Value) (back : Entries) : (front ++ (key, value) :: back).lookup key = some value := by
  rw [List.lookup_append, lookup_eq_none_iff.mpr fresh, Option.none_or, List.lookup_cons_self]

/-- What is entered under a key is found there. -/
theorem lookup_eq_some {entries : Entries} (distinct : (keys entries).Nodup) {key : String}
    {value : Value} (member : (key, value) ∈ entries) : entries.lookup key = some value := by
  obtain ⟨front, back, rfl⟩ := List.append_of_mem member
  exact lookup_append_cons (not_mem_keys_of_nodup distinct) value back

theorem replace_last {front : Entries} {key : String} (fresh : key ∉ keys front)
    (old value : Value) : replace key value (front ++ [(key, old)]) = front ++ [(key, value)] := by
  have kept : ∀ entry ∈ front, (if entry.1 = key then (key, value) else entry) = entry := by
    intro entry member
    have other : entry.1 ≠ key := fun same => fresh (same ▸ List.mem_map_of_mem member)
    exact if_neg other
  simp [replace, List.map_congr_left kept]

/-- The last table can be changed as if it stood alone. -/
theorem changeWithin_last (change : Entries → Option Entries) {entries : Entries} {name : String}
    (fresh : name ∉ keys entries) (inner : Entries) :
    changeWithin change [name] (entries ++ [(name, Value.table .header inner)]) =
      (change inner).map fun inner => entries ++ [(name, Value.table .header inner)] := by
  simp only [changeWithin, lookup_append_cons fresh, replace_last fresh, reduceCtorEq, if_false]

/-- Pairs under fresh keys go to the end of the table that is open, wherever it stands. -/
theorem ofStatements?_pairs (place : Entries → Entries) {current : List String}
    (opened : ∀ change inner, changeWithin change current (place inner) = (change inner).map place)
    (inner : Entries) {pairs : Entries} (distinct : (keys (inner ++ pairs)).Nodup)
    (rest : List Statement) :
    ofStatements? current (place inner)
        (pairs.map (fun entry => .pair { last := entry.1 } entry.2) ++ rest) =
      ofStatements? current (place (inner ++ pairs)) rest := by
  induction pairs generalizing inner with
  | nil => simp
  | cons entry pairs ih =>
    obtain ⟨key, value⟩ := entry
    have fresh : key ∉ keys inner := not_mem_keys_of_nodup distinct
    have inserted : insertDotted [] key value inner = some (inner ++ [(key, value)]) := by
      simp [insertDotted, lookup_eq_none_iff.mpr fresh, add]
    rw [List.append_cons] at distinct
    rw [List.map_cons, List.cons_append, ofStatements?, opened, inserted, Option.map_some,
      Option.bind_some, ih _ distinct, ← List.append_cons]

end Entries

open Entries

/-! ## Entries of a file -/

def Line.entry? : Line → Option (String × Value)
  | .silent _ => none
  | .pair written => some (written.key.name, written.scalar.value)

/-- The entries that the lines of a table give, in order. -/
def entriesOf (lines : List Line) : Entries := lines.filterMap Line.entry?

def Table.entry (table : Table) : String × Value :=
  (table.header.key.name, .table .header (entriesOf table.lines))

def Document.entries (document : Document) : Entries :=
  entriesOf document.top ++ document.tables.map Table.entry

/-- No key is given twice in one table, and no table twice. -/
structure Document.IsDistinct (document : Document) : Prop where
  outside : (keys document.entries).Nodup
  inside : ∀ table ∈ document.tables, (keys (entriesOf table.lines)).Nodup

theorem flatten_statements (lines : List Line) :
    (lines.map Line.statements).flatten =
      (entriesOf lines).map fun entry => .pair { last := entry.1 } entry.2 := by
  induction lines with
  | nil => rfl
  | cons line others ih =>
    cases line with
    | silent tail => exact ih
    | pair written => exact congrArg (_ :: ·) ih

/-- Each header opens a table of its own behind the others. -/
theorem ofStatements?_tables {tables : List Table} {entries : Entries}
    (outside : (keys (entries ++ tables.map Table.entry)).Nodup)
    (inside : ∀ table ∈ tables, (keys (entriesOf table.lines)).Nodup) (current : List String) :
    ofStatements? current entries (tables.flatMap fun table =>
        [.header { last := table.header.key.name }] :: table.lines.map Line.statements).flatten =
      some (entries ++ tables.map Table.entry) := by
  induction tables generalizing entries current with
  | nil => simp [ofStatements?]
  | cons table others ih =>
    obtain ⟨header, lines⟩ := table
    have fresh : header.key.name ∉ keys entries := not_mem_keys_of_nodup outside
    have opened : openTable header.key.name entries =
        some (entries ++ [(header.key.name, .table .header [])]) := by
      simp [openTable, lookup_eq_none_iff.mpr fresh, add]
    -- The header opens an empty table, and the pairs behind it fill it before the next one opens.
    have filled (rest : List Statement) :
        ofStatements? [header.key.name] (entries ++ [(header.key.name, .table .header [])])
            ((lines.map Line.statements).flatten ++ rest) =
          ofStatements? [header.key.name] (entries ++ [Table.entry ⟨header, lines⟩]) rest := by
      rw [flatten_statements]
      exact ofStatements?_pairs
        (fun inner => entries ++ [(header.key.name, .table .header inner)])
        (fun change inner => changeWithin_last change fresh inner)
        [] (inside _ List.mem_cons_self) rest
    rw [List.map_cons, List.append_cons] at outside ⊢
    rw [← ih outside (fun other among => inside other (List.mem_cons_of_mem _ among))
      [header.key.name]]
    simp only [List.flatMap_cons, List.flatten_append, List.flatten_cons, List.cons_append,
      List.nil_append, ofStatements?, changeWithin, opened, Option.bind_some, DottedKey.all, filled]

/-- A flat file is read as its entries. -/
theorem read?_document {document : Document} (distinct : document.IsDistinct) :
    read? document.text = some document.entries := by
  have top_distinct : (keys ([] ++ entriesOf document.top)).Nodup := by
    have outside := distinct.outside
    rw [Document.entries, keys_append] at outside
    exact outside.of_append_left
  have top (rest : List Statement) :
      ofStatements? [] [] ((document.top.map Line.statements).flatten ++ rest) =
        ofStatements? [] (entriesOf document.top) rest := by
    rw [flatten_statements]
    exact ofStatements?_pairs id (fun change inner => by simp [changeWithin]) []
      top_distinct rest
  unfold read?
  rw [statements?_document, Option.bind_some, Document.lineStatements, List.flatten_append, top]
  exact ofStatements?_tables distinct.outside distinct.inside []

end LayerTiming.Toml
