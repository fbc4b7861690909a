import Turnstile.Toml.Value

/-!
# Drafts of tables

While a document is read its tables are open. A table is opened by its own
header, or implied by the header of a table inside it, or made by a dotted key.
A header opens a table once, and an implied one counts as not yet opened. A
dotted key reaches through tables of its own making only; what a header opened
is closed to it. Inline tables and arrays are closed once they are read.
-/

namespace Turnstile.Toml

/-- How a table came to be. -/
inductive Origin where
  | header | implied | dotted
  deriving DecidableEq, Repr

inductive Node where
  | closed (v : Value)
  | table (origin : Origin) (entries : List (String × Node))
  /-- An array of tables, the latest element first. -/
  | tables (elements : List (List (String × Node)))

abbrev Entries := List (String × Node)

namespace Entries

def replace (key : String) (node : Node) (entries : Entries) : Entries :=
  entries.map fun e => if e.1 = key then (key, node) else e

def append (key : String) (node : Node) (entries : Entries) : Entries :=
  entries ++ [(key, node)]

/-- Adds a value at the end of a dotted path. -/
def put (v : Value) : (path : List String) → (key : String) → Entries → Option Entries
  | [], key, entries =>
    match entries.lookup key with
    | none => some (append key (.closed v) entries)
    | some _ => none
  | part :: path, key, entries =>
    match entries.lookup part with
    | none => (put v path key []).map fun inner => append part (.table .dotted inner) entries
    | some (.table origin inner) =>
      if origin = .header || (origin = .implied && path = []) then none
      else (put v path key inner).map fun inner => replace part (.table origin inner) entries
    | some (.tables (last :: older)) =>
      if path = [] then none
      else (put v path key last).map fun last => replace part (.tables (last :: older)) entries
    | some _ => none

/-- Changes the node at the end of a header's path; the tables on the way are implied. -/
def atPath (change : Option Node → Option Node) : List String → Entries → Option Entries
  | [], _ => none
  | [key], entries =>
    match entries.lookup key with
    | none => (change none).map fun node => append key node entries
    | some node => (change (some node)).map fun node => replace key node entries
  | part :: path, entries =>
    match entries.lookup part with
    | none => (atPath change path []).map fun inner => append part (.table .implied inner) entries
    | some (.table origin inner) =>
      (atPath change path inner).map fun inner => replace part (.table origin inner) entries
    | some (.tables (last :: older)) =>
      (atPath change path last).map fun last => replace part (.tables (last :: older)) entries
    | some _ => none

end Entries

namespace Node

/-- A table header at this place. -/
def openTable : Option Node → Option Node
  | none => some (.table .header [])
  | some (.table .implied inner) => some (.table .header inner)
  | some _ => none

/-- The header of an element of an array of tables at this place. -/
def openElement : Option Node → Option Node
  | none => some (.tables [[]])
  | some (.tables elements) => some (.tables ([] :: elements))
  | some _ => none

/-- Adds a value to the table at this place, or to the last one of an array of tables. -/
def putInside (v : Value) (path : List String) (key : String) : Option Node → Option Node
  | some (.table origin inner) => (Entries.put v path key inner).map (.table origin)
  | some (.tables (last :: older)) =>
    (Entries.put v path key last).map fun last => .tables (last :: older)
  | _ => none

mutual

def close : Node → Value
  | closed v => v
  | table _ entries => .table (closeEntries entries)
  | tables elements => .array (closeElements elements).reverse

def closeEntries : List (String × Node) → List (String × Value)
  | [] => []
  | (key, node) :: rest => (key, node.close) :: closeEntries rest

def closeElements : List (List (String × Node)) → List Value
  | [] => []
  | entries :: rest => .table (closeEntries entries) :: closeElements rest

end

end Node

/-- A document that is being read. -/
structure Draft where
  root : Entries := []
  /-- The header whose table takes the next entries; none at first. -/
  cursor : List String := []

namespace Draft

def openTable (d : Draft) (path : List String) : Option Draft :=
  (Entries.atPath Node.openTable path d.root).map fun root => ⟨root, path⟩

def openElement (d : Draft) (path : List String) : Option Draft :=
  (Entries.atPath Node.openElement path d.root).map fun root => ⟨root, path⟩

/-- Adds an entry to the table that was opened last. -/
def put (d : Draft) (path : List String) (key : String) (v : Value) : Option Draft :=
  match d.cursor with
  | [] => (Entries.put v path key d.root).map fun root => { d with root := root }
  | cursor =>
    (Entries.atPath (Node.putInside v path key) cursor d.root).map fun root =>
      { d with root := root }

def close (d : Draft) : List (String × Value) := Node.closeEntries d.root

end Draft

end Turnstile.Toml
