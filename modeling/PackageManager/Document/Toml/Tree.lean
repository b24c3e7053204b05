import PackageManager.Document.Datum

/-!
# Building the tables of a TOML document

The statements of a document add to one tree of tables. What may be added to a table depends on
how it came to be: a table with a header of its own is closed to dotted keys from elsewhere and
cannot have a second header, one that only stands on the way to another may still get a header,
and one that a dotted key introduced can be extended by dotted keys alone. Values, and with them
arrays and inline tables, are closed to everything.
-/

namespace PackageManager.Toml

/-- How a table came to be. -/
inductive Origin
  /-- By a header of its own. -/
  | header
  /-- On the way to the table of a header. -/
  | implied
  /-- By a dotted key. -/
  | dotted
deriving DecidableEq

/-- What a key leads to while a document is read. -/
inductive Node
  | value (d : Datum)
  | table (origin : Origin) (entries : List (String × Node))
  /-- Tables that share a key, in the order of their headers. -/
  | tables (elements : List (List (String × Node)))

/-- The keys of a table and what they lead to. -/
abbrev Entries := List (String × Node)

/-- What a key leads to. -/
def Entries.find (entries : Entries) (key : String) : Option Node :=
  (List.find? (fun e => e.1 = key) entries).map (·.2)

/-- The entries with something else under a key that they have. -/
def Entries.set (entries : Entries) (key : String) (node : Node) : Entries :=
  entries.map fun e => if e.1 = key then (key, node) else e

/-- Changes the table at the end of a path, introducing the tables on the way that are not there.
The path leads into the last of the tables that share a key, and not into values; with `dotted`
it does not lead into tables that have a header either. -/
def Entries.change (dotted : Bool) (f : Origin → Entries → Option Entries) (origin : Origin) :
    List String → Entries → Option Entries
  | [], entries => f origin entries
  | key :: path, entries =>
    match entries.find key with
    | none => do
      let new := if dotted then Origin.dotted else Origin.implied
      return entries ++ [(key, .table new (← Entries.change dotted f new path []))]
    | some (.value _) => none
    | some (.table o inner) =>
      if dotted ∧ o = .header then none
      else do return entries.set key (.table o (← Entries.change dotted f o path inner))
    | some (.tables elements) => do
      let last ← Entries.change dotted f .header path (elements.getLast?.getD [])
      return entries.set key (.tables (elements.dropLast ++ [last]))

/-- Adds a table with a header of its own under a key. -/
def Entries.openTable (key : String) (entries : Entries) : Option Entries :=
  match entries.find key with
  | none => some (entries ++ [(key, .table .header [])])
  | some (.table .implied inner) => some (entries.set key (.table .header inner))
  | some _ => none

/-- Adds one more of the tables that share a key. -/
def Entries.openElement (key : String) (entries : Entries) : Option Entries :=
  match entries.find key with
  | none => some (entries ++ [(key, .tables [[]])])
  | some (.tables elements) => some (entries.set key (.tables (elements ++ [[]])))
  | some _ => none

/-- Adds a value under a dotted key, given by the keys before the last one and the last one. -/
def Entries.assign (path : List String) (key : String) (d : Datum) (entries : Entries) :
    Option Entries :=
  Entries.change true (fun origin entries =>
    if (origin = .dotted) = path.isEmpty then none
    else if (entries.find key).isSome then none
    else some (entries ++ [(key, .value d)])) .header path entries

mutual

/-- The content of a node. -/
def Node.datum : Node → Datum
  | .value d => d
  | .table _ entries => .table (entriesData entries)
  | .tables elements => .list (elementsData elements)

/-- The content of the entries of a table. -/
def entriesData : List (String × Node) → List (String × Datum)
  | [] => []
  | (key, node) :: rest => (key, node.datum) :: entriesData rest

/-- The contents of tables that share a key. -/
def elementsData : List (List (String × Node)) → List Datum
  | [] => []
  | entries :: rest => .table (entriesData entries) :: elementsData rest

end

end PackageManager.Toml
