import Rundown.Json.Basic

/-!
# Tables of a configuration file

The TOML format builds its tables from headers and from dotted keys.  A table
may be opened by a header once; it may also come into being as a part of the
name of another one, and then a header may still open it.  A table that dotted
keys make belongs to them alone.  Whatever goes against this is refused.
-/

namespace Rundown.Toml

/-- How a table came into being. -/
inductive Origin where
  /-- It was opened by a header, or written between braces. -/
  | opened
  /-- It stands in the name of a table that was opened. -/
  | implied
  /-- It stands in a dotted key. -/
  | dotted
  deriving DecidableEq

/-- What a key names. -/
inductive Node where
  | value (v : Json)
  | table (origin : Origin) (entries : List (String × Node))
  /-- Tables under one header; the last one is open. -/
  | tables (items : List (List (String × Node)))

/-- The keys of a table. -/
abbrev Entries := List (String × Node)

/-- What a key names in a table. -/
def find? (entries : Entries) (key : String) : Option Node :=
  List.lookup key entries

/-- Let a key name something else. -/
def replace (entries : Entries) (key : String) (node : Node) : Entries :=
  entries.map fun entry => if entry.1 = key then (key, node) else entry

/-- Change the table at a path.  Missing tables come into being on the way; with
`byDots` the path stands in a dotted key, which must not lead through a table
that was opened. -/
def within (byDots : Bool) :
    List String → (Origin → Entries → Option Entries) → Origin → Entries → Option Entries
  | [], change, origin, entries => change origin entries
  | key :: rest, change, _, entries =>
      match find? entries key with
      | none => do
          let origin := if byDots then Origin.dotted else Origin.implied
          let inner ← within byDots rest change origin []
          some (entries ++ [(key, .table origin inner)])
      | some (.value _) => none
      | some (.tables items) => do
          let last ← items.getLast?
          let inner ← within byDots rest change .opened last
          some (replace entries key (.tables (items.dropLast ++ [inner])))
      | some (.table origin inner) =>
          if byDots && origin = .opened then none
          else do
            let changed ← within byDots rest change origin inner
            some (replace entries key (.table origin changed))

/-- Open the table that a header names. -/
def openTable (path : List String) (root : Entries) : Option Entries :=
  match path.getLast? with
  | none => none
  | some key =>
      within false path.dropLast
        (fun _ entries =>
          match find? entries key with
          | none => some (entries ++ [(key, .table .opened [])])
          | some (.table .implied inner) => some (replace entries key (.table .opened inner))
          | some _ => none)
        .opened root

/-- Open one more of the tables that a double header names. -/
def openTables (path : List String) (root : Entries) : Option Entries :=
  match path.getLast? with
  | none => none
  | some key =>
      within false path.dropLast
        (fun _ entries =>
          match find? entries key with
          | none => some (entries ++ [(key, .tables [[]])])
          | some (.tables items) => some (replace entries key (.tables (items ++ [[]])))
          | some _ => none)
        .opened root

/-- Set a key, perhaps a dotted one, of a table. -/
def assign (keys : List String) (value : Json) (origin : Origin) (entries : Entries) :
    Option Entries :=
  match keys.getLast? with
  | none => none
  | some key =>
      let path := keys.dropLast
      within true path
        (fun origin entries =>
          if !path.isEmpty && origin != .dotted then none
          else if (find? entries key).isSome then none
          else some (entries ++ [(key, .value value)]))
        origin entries

mutual

/-- What a key names, as a value. -/
def Node.toJson : Node → Json
  | .value v => v
  | .table _ entries => .obj (entriesToJson entries)
  | .tables items => .arr (itemsToJson items)

/-- The keys of a table as members. -/
def entriesToJson : List (String × Node) → List (String × Json)
  | [] => []
  | (key, node) :: rest => (key, node.toJson) :: entriesToJson rest

/-- Tables under one header as an array. -/
def itemsToJson : List (List (String × Node)) → List Json
  | [] => []
  | entries :: rest => .obj (entriesToJson entries) :: itemsToJson rest

end

end Rundown.Toml
