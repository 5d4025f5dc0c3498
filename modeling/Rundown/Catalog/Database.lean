import Rundown.Catalog.Basic
import Rundown.Catalog.Cell

/-!
# Catalog databases

A database keeps stations, media items, playlist entries and blocks in tables.
Its queries compare texts by means of the database alone: trimming takes away
spaces and nothing else, and lowering changes the letters A to Z only.  A query
returns its tracks in the order of their ids.
-/

namespace Rundown

/-- The cells of a row by column, as they are given; absent columns take their
default. -/
abbrev Row := List (String × Cell)

namespace Row

/-- What a column keeps of a row, or its default. -/
def cell (row : Row) (column : String) (affinity : Affinity) (default : Cell) : Cell :=
  match List.lookup column row with
  | some given => given.store affinity
  | none => default

/-- The text of a text column, or its default. -/
def text (row : Row) (column default : String) : String :=
  (row.cell column .text (.text default)).asText

/-- The text of a column that identifies the row, if it is given. -/
def key? (row : Row) (column : String) : Option String :=
  match row.cell column .text .empty with
  | .empty => none
  | given => some given.asText

/-- The content of a column of whole numbers. -/
def whole (row : Row) (column : String) (default : Int) : Cell :=
  row.cell column .whole (.whole default)

end Row

/-- A station.  One without an id is never meant. -/
structure StationRow where
  id : Option String
  active : Cell
  isPublic : Cell
  approved : Cell
  deriving Inhabited

/-- A media item.  One without an id is on no playlist. -/
structure MediaRow where
  id : Option String
  station : String
  title : String
  artist : String
  album : String
  label : String
  genre : String
  mood : String
  language : String
  year : String
  bpm : Cell
  explicit : Cell
  duration : Cell
  inArchive : Cell
  deriving Inhabited

/-- An entry of a playlist. -/
structure PlaylistRow where
  playlist : String
  media : String
  deriving DecidableEq, Inhabited

/-- A stored block, its documents as text.  One without an id is never found. -/
structure BlockRow where
  id : Option String
  name : String
  description : String
  rules : String
  sequence : String
  deriving DecidableEq, Inhabited

/-- The tables of a catalog. -/
structure Database where
  stations : List StationRow
  media : List MediaRow
  playlistItems : List PlaylistRow
  blocks : List BlockRow
  deriving Inhabited

namespace Database

/-- The station that a row describes. -/
def stationOfRow (row : Row) : StationRow :=
  ⟨row.key? "id", row.whole "active" 1, row.whole "public" 0, row.whole "approved" 0⟩

/-- The media item that a row describes. -/
def mediaOfRow (row : Row) : MediaRow where
  id := row.key? "id"
  station := row.text "station_id" ""
  title := row.text "title" ""
  artist := row.text "artist" ""
  album := row.text "album" ""
  label := row.text "label" ""
  genre := row.text "genre" ""
  mood := row.text "mood" ""
  language := row.text "language" ""
  year := row.text "year" ""
  bpm := row.cell "bpm" .real (.real 0)
  explicit := row.whole "explicit" 0
  duration := row.whole "duration_ms" 0
  inArchive := row.whole "show_in_archive" 0

/-- The playlist entry that a row describes. -/
def playlistOfRow (row : Row) : PlaylistRow :=
  ⟨row.text "playlist_id" "", row.text "media_id" ""⟩

/-- The block that a row describes. -/
def blockOfRow (row : Row) : BlockRow :=
  ⟨row.key? "id", row.text "name" "", row.text "description" "", row.text "rules" "\x7b\x7d",
    row.text "sequence" "\x7b\x7d"⟩

/-- The database of the rows of its four tables. -/
def ofRows (stations media playlistItems blocks : List Row) : Database :=
  ⟨stations.map stationOfRow, media.map mediaOfRow, playlistItems.map playlistOfRow,
    blocks.map blockOfRow⟩

/-- The station is active, public and approved. -/
def isOpen (s : StationRow) : Bool :=
  s.active.isOne && s.isPublic.isOne && s.approved.isOne

/-- The row belongs to a station of the scope, or has been released to the archive
by an open station when the scope includes the archive. -/
def inScope (d : Database) (scope : Scope) (row : MediaRow) : Bool :=
  row.station == scope.station ||
    (scope.includePublicArchive && row.inArchive.isOne &&
      d.stations.any fun s => s.id == some row.station && isOpen s)

/-- A stored text without spaces at its ends and with the letters A to Z lowered. -/
def folded (cs : List Char) : List Char :=
  (Text.dropEnds (· == ' ') cs).map Char.toLower

/-- A stored text without some characters, taken away one after the other. -/
def without (marks cs : List Char) : List Char :=
  marks.foldl (fun rest mark => rest.filter (· != mark)) cs

/-- The key under which stored names are compared. -/
def storedKey (cs : List Char) : List Char :=
  without Text.matchPunctuation (folded cs)

/-- The text of an attribute in a row. -/
def attributeText (row : MediaRow) : Attribute → String
  | .artist => row.artist
  | .title => row.title
  | .album => row.album
  | .label => row.label
  | .genre => row.genre
  | .mood => row.mood
  | .language => row.language

/-- A stored text equals the wanted one. -/
def sameText (wanted : Option String) (stored : String) : Bool :=
  wanted.all fun w => folded stored.toList == (Text.caseKey w).toList

/-- Some attribute of a row contains the text; a search for nothing or in nothing
is no condition. -/
def finds (search : TextSearch) (row : MediaRow) : Bool :=
  let needle := Text.matchChars search.text.toList
  needle.isEmpty || search.fields.isEmpty ||
    search.fields.any fun a => Text.occursIn needle (storedKey (attributeText row a).toList)

/-- The row is on one of the playlists. -/
def onPlaylist (d : Database) (playlists : List String) (row : MediaRow) : Bool :=
  d.playlistItems.any fun item => row.id == some item.media && playlists.contains item.playlist

/-- The row is in the scope of a query and meets it. -/
def meets (d : Database) (scope : Scope) (q : Query) (row : MediaRow) : Bool :=
  d.inScope scope row &&
    sameText q.genre row.genre && sameText q.mood row.mood && sameText q.language row.language &&
    q.artist.all (fun a => storedKey row.artist.toList == Text.matchChars a.toList) &&
    q.search.all (fun search => finds search row) &&
    q.slowest.all (fun bound => bound ≤ row.bpm.asReal) &&
    q.fastest.all (fun bound => row.bpm.asReal ≤ bound) &&
    (q.playlists.isEmpty || d.onPlaylist q.playlists row)

/-- The track of a row. -/
def track (row : MediaRow) : Track where
  id := row.id.getD ""
  title := row.title
  artist := row.artist
  album := row.album
  label := row.label
  genre := row.genre
  mood := row.mood
  language := row.language
  releaseYear := row.year
  bpm := row.bpm.asReal
  explicit := row.explicit.asWhole != 0
  duration := row.duration.asWhole

/-- The tracks that meet a query, in the order of the rows. -/
def matching (d : Database) (scope : Scope) (q : Query) : List Track :=
  (d.media.filter (d.meets scope q)).map track

/-- Tracks in the order of their ids. -/
def byId (tracks : List Track) : List Track :=
  tracks.mergeSort fun a b => a.id ≤ b.id

/-- The block of an id in its row, if its documents can be understood. -/
def readBlock (id : String) (row : BlockRow) : Except CatalogError Block :=
  match Document.read row.rules with
  | .error cause => .error (.malformedBlock id .rules cause)
  | .ok rules =>
      match Document.read row.sequence with
      | .error cause => .error (.malformedBlock id .sequence cause)
      | .ok sequence => .ok ⟨id, row.name, row.description, rules, sequence⟩

/-- The block of an id. -/
def block? (d : Database) (id : String) : Except CatalogError (Option Block) :=
  match d.blocks.find? (·.id == some id) with
  | none => .ok none
  | some row => (readBlock id row).map some

/-- The catalog of a database. -/
def catalog (d : Database) : Catalog where
  tracks scope q := .ok (byId (d.matching scope q))
  block? := d.block?

/-- The catalog of a database file, given its content if the file exists. -/
def open? (content : Option Database) : Except CatalogError Catalog :=
  match content with
  | none => .error .missingDatabase
  | some d => .ok d.catalog

end Database

end Rundown
