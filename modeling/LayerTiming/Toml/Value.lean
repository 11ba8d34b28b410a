/-!
# TOML values and tables

A value of a settings file, as far as anyone asks for it: what a float or a point in time is worth
is never asked. A table remembers how it came to be, because that decides how it may be extended.
-/
namespace LayerTiming.Toml

/-- How a table came to be. -/
inductive Origin
  /-- Written in braces. It is complete. -/
  | inline
  /-- Named by a header of its own. -/
  | header
  /-- Named only as part of the header of another table. -/
  | implied
  /-- Named as part of a dotted key. -/
  | dotted
  deriving DecidableEq, Repr, Inhabited

/-- A value, or a table in the place of one. -/
inductive Value
  | text (text : String)
  | integer (n : Int)
  | float
  | boolean (truth : Bool)
  | moment
  | array (items : List Value)
  | table (origin : Origin) (entries : List (String × Value))
  /-- Tables under one repeated header, the latest and those before it. -/
  | tables (latest : List (String × Value)) (earlier : List (List (String × Value)))
  deriving Repr, Inhabited

/-- The entries of a table. No two have the same key. -/
abbrev Entries := List (String × Value)

namespace Entries

/-- Put a value in the place of the one under a key. -/
def replace (key : String) (value : Value) (entries : Entries) : Entries :=
  entries.map fun entry => if entry.1 = key then (key, value) else entry

def add (key : String) (value : Value) (entries : Entries) : Entries := entries ++ [(key, value)]

/-- Put a value under a dotted key. The tables on the way are made where they are missing. A table
that was named by a header is not extended by a dotted key, nor is one in braces, and the innermost
table must itself come from a dotted key. -/
def insertDotted : List String → String → Value → Entries → Option Entries
  | [], key, value, entries =>
    match entries.lookup key with
    | none => some (add key value entries)
    | some _ => none
  | outer :: path, key, value, entries =>
    match entries.lookup outer with
    | none =>
      (insertDotted path key value []).map fun inner => add outer (.table .dotted inner) entries
    | some (.table origin inner) =>
      if origin = .dotted ∨ origin = .implied ∧ path ≠ [] then
        (insertDotted path key value inner).map fun inner =>
          replace outer (.table origin inner) entries
      else none
    | some (.tables latest earlier) =>
      if path ≠ [] then
        (insertDotted path key value latest).map fun latest =>
          replace outer (.tables latest earlier) entries
      else none
    | some _ => none

/-- Change the table that a header names. Of tables under a repeated header the latest is meant.
Tables that are missing on the way are implied, and tables in braces are not entered. -/
def changeWithin (change : Entries → Option Entries) : List String → Entries → Option Entries
  | [], entries => change entries
  | outer :: path, entries =>
    match entries.lookup outer with
    | none =>
      (changeWithin change path []).map fun inner => add outer (.table .implied inner) entries
    | some (.table origin inner) =>
      if origin = .inline then none
      else (changeWithin change path inner).map fun inner =>
        replace outer (.table origin inner) entries
    | some (.tables latest earlier) =>
      (changeWithin change path latest).map fun latest =>
        replace outer (.tables latest earlier) entries
    | some _ => none

/-- Open the table of a header. It must be new, or only implied so far. -/
def openTable (key : String) (entries : Entries) : Option Entries :=
  match entries.lookup key with
  | none => some (add key (.table .header []) entries)
  | some (.table .implied inner) => some (replace key (.table .header inner) entries)
  | some _ => none

/-- Open one more table under a repeated header. -/
def openRepeated (key : String) (entries : Entries) : Option Entries :=
  match entries.lookup key with
  | none => some (add key (.tables [] []) entries)
  | some (.tables latest earlier) => some (replace key (.tables [] (latest :: earlier)) entries)
  | some _ => none

end Entries

/-- A key with dots: the keys of the tables on the way, and the last key. -/
structure DottedKey where
  path : List String := []
  last : String
  deriving DecidableEq, Repr, Inhabited

def DottedKey.all (key : DottedKey) : List String := key.path ++ [key.last]

/-- A part of a settings file. -/
inductive Statement
  | header (key : DottedKey)
  | repeatedHeader (key : DottedKey)
  | pair (key : DottedKey) (value : Value)
  deriving Repr, Inhabited

/-- The table in braces with these pairs. -/
def Value.ofPairs? (pairs : List (DottedKey × Value)) : Option Value :=
  (pairs.foldlM (fun entries pair => Entries.insertDotted pair.1.path pair.1.last pair.2 entries)
    []).map (.table .inline)

/-- The entries of a settings file, where the pairs up to the first header belong to the table
`current`. -/
def Entries.ofStatements? (current : List String) (entries : Entries) :
    List Statement → Option Entries
  | [] => some entries
  | .header key :: rest =>
    (changeWithin (openTable key.last) key.path entries).bind fun entries =>
      ofStatements? key.all entries rest
  | .repeatedHeader key :: rest =>
    (changeWithin (openRepeated key.last) key.path entries).bind fun entries =>
      ofStatements? key.all entries rest
  | .pair key value :: rest =>
    (changeWithin (insertDotted key.path key.last value) current entries).bind fun entries =>
      ofStatements? current entries rest

end LayerTiming.Toml
