import StoryWorld.Datum.Basic

/-!
# TOML documents

A TOML document says what its tables hold in any order and piece by piece: a header opens a table,
a dotted key reaches into tables below it, a doubled header adds a table to a list. What is built
so far is a tree in which every table remembers how it came about, because that decides what may
still be added. A table is opened by one header only; a dotted key extends only tables that dotted
keys made; no key is given twice.
-/

namespace StoryWorld.Toml

/-- How a table came about: by a header of its own, on the way to another header's table, or by a
dotted key. -/
inductive Origin where
  | header
  | passing
  | dotted
  deriving DecidableEq

/-- A part of a document. -/
inductive Node where
  | value (d : Datum)
  | table (origin : Origin) (entries : List (String × Node))
  | tables (items : List (List (String × Node)))

abbrev Entries := List (String × Node)

/-- Puts a node under a key that is there, in its place, or at the end. -/
def put (key : String) (node : Node) : Entries → Entries
  | [] => [(key, node)]
  | (k, n) :: rest => if k = key then (k, node) :: rest else (k, n) :: put key node rest

/-- Changes the table at the end of a path, making tables of the given origin on the way. A path
leads through a list of tables to its last one. Dotted keys do not lead through tables that have a
header. -/
def within (origin : Origin) (change : Origin → Entries → Option Entries) :
    List String → Origin → Entries → Option Entries
  | [], here, entries => change here entries
  | key :: path, _, entries =>
    match entries.lookup key with
    | none => do
      let inner ← within origin change path origin []
      return put key (.table origin inner) entries
    | some (.value _) => none
    | some (.tables items) => do
      let last ← items.getLast?
      let inner ← within origin change path .header last
      return put key (.tables (items.dropLast ++ [inner])) entries
    | some (.table there inner) =>
      if origin = .dotted ∧ there = .header then none
      else do
        let inner ← within origin change path there inner
        return put key (.table there inner) entries

/-- Opens a table by a header. -/
def openTable (key : String) (_ : Origin) (entries : Entries) : Option Entries :=
  match entries.lookup key with
  | none => some (put key (.table .header []) entries)
  | some (.table .passing inner) => some (put key (.table .header inner) entries)
  | some _ => none

/-- Adds a table to a list of tables by a doubled header. -/
def addTable (key : String) (_ : Origin) (entries : Entries) : Option Entries :=
  match entries.lookup key with
  | none => some (put key (.tables [[]]) entries)
  | some (.tables items) => some (put key (.tables (items ++ [[]])) entries)
  | some _ => none

/-- Sets a new key. A dotted key sets it in a table that dotted keys made. -/
def setKey (dotted : Bool) (key : String) (d : Datum) (here : Origin) (entries : Entries) :
    Option Entries :=
  if dotted && here ≠ .dotted then none
  else
    match entries.lookup key with
    | none => some (put key (.value d) entries)
    | some _ => none

/-- Sets a key reached by a dotted path inside a table. -/
def setPath (path : List String) (key : String) (d : Datum) (here : Origin) (entries : Entries) :
    Option Entries :=
  within .dotted (setKey (!path.isEmpty) key d) path here entries

mutual

/-- The data a part of a document says. -/
def Node.toDatum : Node → Datum
  | .value d => d
  | .table _ entries => .object (toFields entries)
  | .tables items => .list (toItems items)

def toFields : List (String × Node) → List (String × Datum)
  | [] => []
  | (key, n) :: rest => (key, n.toDatum) :: toFields rest

def toItems : List (List (String × Node)) → List Datum
  | [] => []
  | entries :: rest => .object (toFields entries) :: toItems rest

end

end StoryWorld.Toml
