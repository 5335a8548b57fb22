import CachedRoutes.Toml.Value

/-!
# Tables under construction

While a document is read, a table is more than its entries: whether it was opened by a header, only
passed by a header of a table inside of it, or made by a dotted key decides what may still be added.
A table is opened once; a dotted key reaches only into tables made by dotted keys; and nothing is
added to a value that is written out.
-/

namespace CachedRoutes.Toml

/-- How a table came about. -/
inductive Origin where
  /-- By its own header. -/
  | opened
  /-- By the header of a table inside of it. -/
  | passed
  /-- By a dotted key. -/
  | dotted
  deriving DecidableEq, Repr

/-- An entry of a document under construction. -/
inductive Node where
  /-- A value that is written out. -/
  | value (value : Value)
  /-- A table. -/
  | table (origin : Origin) (entries : List (String × Node))
  /-- A list of tables, each with a header; the last one is the current one. -/
  | tables (done : List (List (String × Node))) (last : List (String × Node))

/-- The entries of a table under construction. -/
abbrev Entries := List (String × Node)

mutual

/-- The value of a finished entry. -/
def Node.finish : Node → Value
  | .value value => value
  | .table _ entries => .table (finishEntries entries)
  | .tables done last => .array (finishTables done ++ [.table (finishEntries last)])

/-- The entries of a finished table. -/
def finishEntries : List (String × Node) → List (String × Value)
  | [] => []
  | (key, node) :: rest => (key, node.finish) :: finishEntries rest

/-- The finished tables of a list. -/
def finishTables : List (List (String × Node)) → List Value
  | [] => []
  | entries :: rest => .table (finishEntries entries) :: finishTables rest

end

/-- Changes the table that a path of header keys leads to. Tables on the way are made as needed, and
of a list of tables the current one is meant. -/
def changeAt (change : Entries → Option Entries) : List String → Entries → Option Entries
  | [], entries => change entries
  | key :: rest, entries =>
    match lookup key entries with
    | none => (changeAt change rest []).map fun inner => put key (.table .passed inner) entries
    | some (.table origin inner) =>
      (changeAt change rest inner).map fun inner => put key (.table origin inner) entries
    | some (.tables done last) =>
      (changeAt change rest last).map fun last => put key (.tables done last) entries
    | some (.value _) => none

/-- Opens a table by its header: one that is new, or was only passed so far. Its place is that of
the header, after all entries so far. -/
def openTable (key : String) (entries : Entries) : Option Entries :=
  match lookup key entries with
  | none => some (entries ++ [(key, .table .opened [])])
  | some (.table .passed inner) => some (remove key entries ++ [(key, .table .opened inner)])
  | _ => none

/-- Opens a further table of a list by its header. -/
def openListed (key : String) (entries : Entries) : Option Entries :=
  match lookup key entries with
  | none => some (put key (.tables [] []) entries)
  | some (.tables done last) => some (put key (.tables (done ++ [last]) []) entries)
  | _ => none

/-- Adds an entry with a new key. -/
def addNew (key : String) (node : Node) (entries : Entries) : Option Entries :=
  match lookup key entries with
  | none => some (put key node entries)
  | some _ => none

/-- Sets a value at a dotted key, of which `path` is the part before the last key. The last table on
the way has to be made by a dotted key; `dotted` says whether the present one is. -/
def assignBelow (key : String) (value : Value) (dotted : Bool) :
    List String → Entries → Option Entries
  | [], entries => if dotted then addNew key (.value value) entries else none
  | step :: rest, entries =>
    match lookup step entries with
    | none =>
      (assignBelow key value true rest []).map fun inner => put step (.table .dotted inner) entries
    | some (.table .opened _) => none
    | some (.table origin inner) =>
      (assignBelow key value (origin == .dotted) rest inner).map fun inner =>
        put step (.table origin inner) entries
    | some (.tables done last) =>
      (assignBelow key value false rest last).map fun last => put step (.tables done last) entries
    | some (.value _) => none

/-- Sets a value at a key, dotted or not. -/
def assign (path : List String) (key : String) (value : Value) (entries : Entries) :
    Option Entries :=
  match path with
  | [] => addNew key (.value value) entries
  | _ => assignBelow key value false path entries

end CachedRoutes.Toml
