import Rundown.Catalog.Database

/-!
# Sessions

A command asks for files one after the other and goes on with what it is given.
A session says which file is asked for next and how to go on, so that it can be
followed with real files as well as with a table of them.  The only files that a
session makes are empty ones.
-/

namespace Rundown.Command

/-- A file that should hold a database. -/
inductive DatabaseFile where
  /-- There is no such file. -/
  | missing
  /-- The file cannot be opened. -/
  | closed
  /-- The file can be opened but holds no catalog. -/
  | damaged
  | sound (content : Database)

/-- How a file starts. -/
inductive FileStart where
  /-- There is no such file. -/
  | missing
  /-- There is something that cannot be read. -/
  | unreadable
  | empty
  | byte (b : Nat)
  deriving DecidableEq

/-- A computation that asks for files. -/
inductive Session (α : Type) where
  | done (result : α)
  /-- Go on with the text of a file, if it can be read. -/
  | askText (path : String) (next : Option String → Session α)
  /-- Go on with the database in a file. -/
  | askDatabase (path : String) (next : DatabaseFile → Session α)
  /-- Go on with how a file starts. -/
  | askStart (path : String) (next : FileStart → Session α)
  /-- Go on once a file is there, an empty one if it can be made and there was none. -/
  | ensure (path : String) (next : Session α)

/-- Files, and what sessions find in them. -/
structure FileTable (Files : Type) where
  text : Files → String → Option String
  database : Files → String → DatabaseFile
  start : Files → String → FileStart
  /-- The files with an empty one at a path that leads to none. -/
  ensure : Files → String → Files

namespace Session

/-- Go on with the result of a session. -/
def bind {α β : Type} : Session α → (α → Session β) → Session β
  | done result, next => next result
  | askText path ask, next => .askText path fun text => (ask text).bind next
  | askDatabase path ask, next => .askDatabase path fun file => (ask file).bind next
  | askStart path ask, next => .askStart path fun start => (ask start).bind next
  | ensure path rest, next => .ensure path (rest.bind next)

instance : Monad Session where
  pure := done
  bind := bind

/-- Follow a session with a table of files. -/
def follow {α Files : Type} (table : FileTable Files) (files : Files) : Session α → α
  | done result => result
  | askText path next => follow table files (next (table.text files path))
  | askDatabase path next => follow table files (next (table.database files path))
  | askStart path next => follow table files (next (table.start files path))
  | ensure path next => follow table (table.ensure files path) next

end Session

end Rundown.Command
