import Rundown.Json.Reader
import Rundown.Track

/-!
# Tracks as records

How a track is stored.  Every field may be left out; the release year may also
be called the year.
-/

namespace Rundown.Track

/-- The fields in their standing order. -/
def fields : Json.Fields :=
  Json.plainFields ["id", "title", "artist", "album", "label", "genre", "mood", "language"] ++
    (["release_year", "year"], .any) :: Json.plainFields ["bpm", "explicit", "duration_ms"]

/-- The shape of a stored track. -/
def shape : Json.Shape := .record fields

/-- The track of a stored record. -/
def ofJson? (value : Json) : Option Track := do
  match ← Json.fields? fields value with
  | [id, title, artist, album, label, genre, mood, language, year, bpm, explicit, duration] =>
      let text := Json.withDefault Json.text? ""
      some
        { id := ← text id
          title := ← text title
          artist := ← text artist
          album := ← text album
          label := ← text label
          genre := ← text genre
          mood := ← text mood
          language := ← text language
          releaseYear := ← text year
          bpm := ← Json.withDefault Json.float? 0 bpm
          explicit := ← Json.withDefault Json.bool? false explicit
          duration := ← Json.withDefault Json.word? 0 duration }
  | _ => none

/-- The track of a stored text. -/
def read? (s : String) : Option Track :=
  (Json.readAs? shape s).bind ofJson?

/-- The record of a track. -/
def toJson (t : Track) : Json :=
  .obj
    [("id", .str t.id), ("title", .str t.title), ("artist", .str t.artist),
      ("album", .str t.album), ("label", .str t.label), ("genre", .str t.genre),
      ("mood", .str t.mood), ("language", .str t.language),
      ("release_year", .str t.releaseYear), ("bpm", .real t.bpm),
      ("explicit", .bool t.explicit), ("duration_ms", .int t.duration)]

end Rundown.Track
