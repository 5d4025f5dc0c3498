import Rundown.Catalog.Database
import Rundown.Storage.Columns
import Rundown.Storage.Pages
import Rundown.Storage.Row

/-!
# The content of a database file

The first page holds the tree of a table of all tables, with their names, the
pages where their trees start, and the statements that made them.  Changes that
still stand in a log beside the file are not seen.
-/

namespace Rundown.Storage

/-- A table of a file. -/
structure StoredTable where
  name : String
  root : Nat
  columns : List String

/-- The table that a row of the table of all tables describes. -/
def tableOfCells? : List Cell → Option StoredTable
  | [.text kind, .text name, _, .whole root, .text statement] =>
      if kind = "table" then some ⟨name.toLower, root.toNat, columns statement⟩ else none
  | _ => none

/-- The tables of a file. -/
def tables? (pages : Pages) : Option (List StoredTable) := do
  let rows ← (← pages.rows? 1).mapM cells?
  some (rows.filterMap tableOfCells?)

/-- The rows of a table of a file by column. -/
def rowsOf? (pages : Pages) (tables : List StoredTable) (name : String) :
    Option (List Rundown.Row) := do
  let table ← tables.find? (·.name == name)
  let rows ← (← pages.rows? table.root).mapM cells?
  some (rows.map fun cells => table.columns.zip cells)

/-- The catalog database of a file, if it holds one. -/
def database? (bytes : ByteArray) : Option Database := do
  let pages ← Pages.ofBytes? bytes
  let tables ← tables? pages
  some (Database.ofRows (← rowsOf? pages tables "stations") (← rowsOf? pages tables "media_items")
    (← rowsOf? pages tables "playlist_items") (← rowsOf? pages tables "smart_blocks"))

end Rundown.Storage
