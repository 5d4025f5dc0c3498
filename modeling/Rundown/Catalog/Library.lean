import Rundown.Catalog.Order
import Rundown.Record.Track
import Rundown.Table

/-!
# Libraries

A library holds everything that a catalog serves in one stored file: the items
of all stations, their playlists, the stations that are open to the public, and
the blocks.
-/

namespace Rundown

/-- A track with the station that owns it. -/
structure LibraryItem where
  station : String
  /-- Released to the public archive. -/
  inArchive : Bool
  track : Track
  deriving Inhabited

/-- A playlist with the ids of its tracks. -/
structure Playlist where
  id : String
  members : List String
  deriving DecidableEq, Inhabited

/-- Items, playlists, public stations and blocks. -/
structure Library where
  items : List LibraryItem
  playlists : List Playlist
  publicStations : List String
  blocks : List Block
  deriving Inhabited

namespace Library

/-- The item belongs to a station of the scope, or has been released to the
archive by a public station when the scope includes the archive. -/
def inScope (l : Library) (scope : Scope) (item : LibraryItem) : Bool :=
  item.station == scope.station ||
    (scope.includePublicArchive && item.inArchive && l.publicStations.contains item.station)

/-- The track is on one of the playlists. -/
def onPlaylist (l : Library) (playlists : List String) (track : String) : Bool :=
  l.playlists.any fun p => playlists.contains p.id && p.members.contains track

/-- The item is in the scope of a query and meets it. -/
def meets (l : Library) (scope : Scope) (q : Query) (item : LibraryItem) : Bool :=
  l.inScope scope item &&
    (q.playlists.isEmpty || l.onPlaylist q.playlists item.track.id) &&
    q.admits item.track

/-- The tracks that meet a query, in the stored order. -/
def matching (l : Library) (scope : Scope) (q : Query) : List Track :=
  (l.items.filter (l.meets scope q)).map (·.track)

/-- The first block of an id. -/
def block? (l : Library) (id : String) : Option Block :=
  l.blocks.find? (·.id == id)

/-- The catalog of a library.  It never fails. -/
def catalog (l : Library) (order : ItemOrder) : Catalog where
  tracks scope q := .ok (order.arrange (l.matching scope q))
  block? id := .ok (l.block? id)

/-! ## Stored libraries -/

/-- The document of a stored value, which must be an object. -/
def document? (value : Json) : Option Document :=
  value.settle.members?.map fun members => ⟨members⟩

/-- The fields of a block in their standing order. -/
def blockFields : Json.Fields :=
  Json.plainFields ["id", "name", "description"] ++
    [(["rules"], .table), (["sequence"], .table)]

/-- The block of a stored record. -/
def blockOfJson? (value : Json) : Option Block := do
  match ← Json.fields? blockFields value with
  | [id, name, description, rules, sequence] =>
      some
        { id := ← Json.required Json.text? id
          name := ← Json.withDefault Json.text? "" name
          description := ← Json.withDefault Json.text? "" description
          rules := ← Json.withDefault document? Document.empty rules
          sequence := ← Json.withDefault document? Document.empty sequence }
  | _ => none

/-- The item of a stored object: the fields of a track beside those of the item. -/
def itemOfJson? (value : Json) : Option LibraryItem := do
  let members ← value.members?
  let station ← Json.only? ["station_id"] members
  let inArchive ← Json.only? ["show_in_archive"] members
  some
    { station := ← Json.required Json.text? station
      inArchive := ← Json.withDefault Json.bool? false inArchive
      track := ← Track.ofJson? value }

/-- The playlists of a stored object, from the ids of playlists to those of
tracks. -/
def playlistsOfJson? (value : Json) : Option (List Playlist) := do
  let members ← value.members?
  let playlists ← members.mapM fun (id, tracks) => do
    some (id, ← Json.listOf? Json.text? tracks)
  some ((Table.ofList playlists).map fun (id, tracks) => ⟨id, tracks⟩)

/-- The fields of a library in their standing order.  Items are read in full,
since a track lies among the other fields of each. -/
def fields : Json.Fields :=
  Json.plainFields ["items", "playlists", "public_stations"] ++
    [(["smart_blocks"], .list (.record blockFields))]

/-- The library of a stored record. -/
def ofJson? (value : Json) : Option Library := do
  match ← Json.fields? fields value with
  | [items, playlists, publicStations, blocks] =>
      some
        { items := ← Json.withDefault (Json.listOf? itemOfJson?) [] items
          playlists := ← Json.withDefault playlistsOfJson? [] playlists
          publicStations := ← Json.withDefault (Json.listOf? Json.text?) [] publicStations
          blocks := ← Json.withDefault (Json.listOf? blockOfJson?) [] blocks }
  | _ => none

/-- The library of a file, given its text if it can be read. -/
def read (text : Option String) : Except CatalogError Library :=
  match text with
  | none => .error .unreadable
  | some s =>
      match (Json.readAs? (.record fields) s).bind ofJson? with
      | some l => .ok l
      | none => .error .malformedLibrary

end Library

end Rundown
