import Rundown.Command.FileUri

/-!
# Locations of databases

The path of a database is taken as a location.  Marks of the kind of database are
passed over, and escapes are undone; what is left is a name.  A name may be a URI
of a file, whose parameters say how the file is used.  A path without marks,
escapes and the mark of a URI is its own location.

Databases are opened for reading.  A use that a URI names may not ask for more
than the use before it granted, so writing is refused unless the database has
been made one in memory first.
-/

namespace Rundown.Command

/-- What the path of a database leads to. -/
inductive Location where
  /-- A file, which is made if there is none and `created` is set. -/
  | file (path : String) (created : Bool)
  /-- An empty database that no file backs. -/
  | transient
  deriving DecidableEq

/-- How a database is used. -/
inductive DatabaseUse where
  | readOnly
  | readWrite
  | create
  | inMemory
  deriving DecidableEq

namespace DatabaseUse

/-- The use of a word. -/
def ofWord? : String → Option DatabaseUse
  | "ro" => some readOnly
  | "rw" => some readWrite
  | "rwc" => some create
  | "memory" => some inMemory
  | _ => none

/-- How much a use asks for. -/
def asks : DatabaseUse → Nat
  | inMemory => 0
  | readOnly => 1
  | readWrite => 2
  | create => 3

/-- How much the use after it may ask for. -/
def grants : DatabaseUse → Nat
  | inMemory => create.asks
  | use => use.asks

/-- The use after a further word, if the word is known and granted. -/
def next? (use : DatabaseUse) (word : String) : Option DatabaseUse :=
  (ofWord? word).filter (·.asks ≤ use.grants)

end DatabaseUse

namespace Location

/-- The marks that may stand in front of a path, any number of times each. -/
def marks : List String := ["sqlite://", "sqlite:"]

/-- Drop a mark as often as the text starts with it, at most `fuel` times. -/
def dropMark (mark : List Char) : Nat → List Char → List Char
  | 0, cs => cs
  | fuel + 1, cs =>
      if mark.isPrefixOf cs then dropMark mark fuel (cs.drop mark.length) else cs

/-- The ways in which a database may be shared. -/
def sharings : List String := ["shared", "private"]

/-- The ways of reaching a file. -/
def fileInterfaces : List String := ["unix", "unix-none", "unix-dotfile", "unix-excl"]

/-- The way of reaching a database that no file backs. -/
def memoryInterface : String := "memdb"

/-- The location of a name that is no URI.  The empty name is that of a database
which ends with its use. -/
def ofName (name : String) (created : Bool) : Location :=
  if name = "" || name = ":memory:" then .transient else .file name created

/-- The location of a URI. -/
def ofUri? (uri : FileUri) : Option Location := do
  let use ← (uri.values "mode").foldlM DatabaseUse.next? .readOnly
  let interface := (uri.values "vfs").getLast?
  if !(uri.values "cache").all (sharings.contains ·) then none
  else if interface = some memoryInterface then some .transient
  else if !interface.all (fileInterfaces.contains ·) then none
  else if use = .inMemory then some .transient
  else uri.path.map fun path => ofName path (use = .create)

/-- Where a path leads.  One with a question mark leads nowhere, since it would name
parameters that are not known, and neither do bytes that make no text or that hold
a zero. -/
def ofPath? (path : String) : Option Location := do
  let start := marks.foldl (fun cs mark => dropMark mark.toList cs.length cs) path.toList
  if start.contains '?' then none
  else
    let name := (← Text.ofBytes? (Text.percentBytes start)).toList
    if name.contains '\x00' then none
    else if FileUri.mark.isPrefixOf name then
      ofUri? (← FileUri.read? (name.drop FileUri.mark.length))
    else some (ofName (String.ofList name) false)

/-- The elements of a path after one more: a dot and an empty element lead nowhere,
and two dots lead back.  Only a relative path can lead back beyond its start. -/
def step (isRelative : Bool) (elements : List (List Char)) (element : List Char) :
    List (List Char) :=
  if element = [] || element = ['.'] then elements
  else if element != ['.', '.'] then elements ++ [element]
  else if isRelative && elements.all (· == ['.', '.']) then elements ++ [element]
  else elements.dropLast

/-- The path without the elements that it leads back from, whether or not they
exist. -/
def straight (path : String) : String :=
  let isRelative := !path.startsWith "/"
  let elements := (Text.piecesBetween '/' path.toList).foldl (step isRelative) []
  String.ofList ((if isRelative then [] else ['/']) ++ ['/'].intercalate elements)

end Location

end Rundown.Command
