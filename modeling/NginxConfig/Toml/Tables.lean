import NginxConfig.Table
import NginxConfig.Document

/-!
# Building tables from headers and keys

A TOML text names its tables in three ways: by a header, by the keys before
the last one of a path, and by the headers of tables further inside.  What may
be added to a table later depends on how it came to be.
-/

namespace NginxConfig.Toml

/-- Something that has a key. -/
inductive Item where
  /-- A value, which nothing can be added to. -/
  | value (d : Document)
  /-- A table.  It is implied if no header of its own named it yet, and dotted
  if the path of a key brought it about. -/
  | table (implied dotted : Bool) (entries : List (String × Item))
  /-- The tables under headers in double brackets, in order. -/
  | rows (tables : List (List (String × Item)))
  deriving Inhabited

abbrev Entries := List (String × Item)

/-- Changes the table that a path leads to, and makes the tables on the way
that are missing.  The last row of several stands for all of them.  A path of
keys (`dotted`) does not lead into a table that a header named.  The change is
told whether the table is a dotted one. -/
def within (dotted : Bool) (change : Bool → Entries → Option Entries) :
    Bool → Entries → List String → Option Entries
  | isDotted, entries, [] => change isDotted entries
  | _, entries, key :: path =>
    match entries.lookup key with
    | none =>
      (within dotted change dotted [] path).map fun inner =>
        setEntry key (.table true dotted inner) entries
    | some (.value _) => none
    | some (.table implied isDotted inner) =>
      if dotted && !implied then none
      else
        (within dotted change isDotted inner path).map fun inner =>
          setEntry key (.table implied isDotted inner) entries
    | some (.rows tables) =>
      match tables.getLast? with
      | none => none
      | some last =>
        (within dotted change false last path).map fun last =>
          setEntry key (.rows (tables.dropLast ++ [last])) entries

/-- Gives a key its value, where the key is new and its table is either the one
at hand or one that only paths of keys have named. -/
def addValue (entries : Entries) (tables : List String) (key : String) (d : Document) :
    Option Entries :=
  within true
    (fun isDotted inner =>
      if isDotted == tables.isEmpty then none
      else if (inner.lookup key).isSome then none
      else some (inner ++ [(key, .value d)]))
    false entries tables

/-- Names a table by a header.  A table that was only implied so far moves to
the end of its siblings. -/
def openTable (entries : Entries) (tables : List String) (key : String) : Option Entries :=
  within false
    (fun _ inner =>
      match inner.lookup key with
      | none => some (inner ++ [(key, .table false false [])])
      | some (.table true false found) =>
        some (inner.filter (·.1 ≠ key) ++ [(key, .table false false found)])
      | some _ => none)
    false entries tables

/-- Adds a row under a header in double brackets. -/
def openRow (entries : Entries) (tables : List String) (key : String) : Option Entries :=
  within false
    (fun _ inner =>
      match inner.lookup key with
      | none => some (inner ++ [(key, .rows [[]])])
      | some (.rows rows) => some (setEntry key (.rows (rows ++ [[]])) inner)
      | some _ => none)
    false entries tables

/-- Gives a key its value inside the table that the latest header named. -/
def addValueAt (entries : Entries) (opened : List String) (tables : List String) (key : String)
    (d : Document) : Option Entries :=
  within false (fun _ inner => addValue inner tables key d) false entries opened

mutual

def Item.toDocument : Item → Document
  | .value d => d
  | .table _ _ entries => .table (entriesToDocument entries)
  | .rows tables => .list (rowsToDocument tables)

def entriesToDocument : List (String × Item) → List (String × Document)
  | [] => []
  | (key, item) :: rest => (key, item.toDocument) :: entriesToDocument rest

def rowsToDocument : List (List (String × Item)) → List Document
  | [] => []
  | entries :: rest => .table (entriesToDocument entries) :: rowsToDocument rest

end

end NginxConfig.Toml
