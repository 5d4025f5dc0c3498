import Rundown.Text.Blank
import Rundown.Text.MatchKey
import Rundown.Text.Numeral

/-!
# Tracks and their attributes

A track is a song or an interstitial as a catalog delivers it.  Attributes are
the descriptive texts by which tracks are counted and kept apart; each has a key
under which two values count as the same.
-/

namespace Rundown

/-- What a catalog knows about one recording.  Unknown texts are empty, and a
tempo of zero is unknown. -/
structure Track where
  id : String
  title : String
  artist : String
  album : String
  label : String
  genre : String
  mood : String
  language : String
  /-- The year as tagged, perhaps a full date or empty. -/
  releaseYear : String
  /-- Beats in a minute. -/
  bpm : Float
  explicit : Bool
  /-- Milliseconds. -/
  duration : Int
  deriving Inhabited

/-- The track of which nothing is known. -/
def Track.unknown : Track :=
  ⟨"", "", "", "", "", "", "", "", "", 0, false, 0⟩

/-- The year that the release year starts with, when it starts with four digits. -/
def Track.year? (t : Track) : Option Int :=
  let digits := (Text.dropEnds Text.isBlank t.releaseYear.toList).takeWhile Text.isDigit
  if digits.length < 4 then none else some (Text.digitsValue (digits.take 4))

/-- A descriptive text of a track. -/
inductive Attribute where
  | artist
  | title
  | album
  | label
  | genre
  | mood
  | language
  deriving DecidableEq, Inhabited

namespace Attribute

/-- All attributes in their standing order. -/
def all : List Attribute :=
  [artist, title, album, label, genre, mood, language]

/-- The attributes by which tracks can be kept apart, in their standing order. -/
def separable : List Attribute :=
  [artist, title, album, label]

/-- The name of an attribute in documents. -/
def name : Attribute → String
  | artist => "artist"
  | title => "title"
  | album => "album"
  | label => "label"
  | genre => "genre"
  | mood => "mood"
  | language => "language"

/-- The attribute of a name, in any mixture of cases and with blanks around it. -/
def ofName? (text : String) : Option Attribute :=
  let wanted := Text.lowerAscii (Text.trim text)
  all.find? fun a => a.name == wanted

/-- The text of an attribute on a track. -/
def value (t : Track) : Attribute → String
  | artist => t.artist
  | title => t.title
  | album => t.album
  | label => t.label
  | genre => t.genre
  | mood => t.mood
  | language => t.language

/-- The key under which two texts of an attribute count as the same.  Artists
compare without punctuation; a text whose key is empty has none. -/
def keyFor? (a : Attribute) (text : String) : Option String :=
  let key :=
    match a with
    | artist => Text.matchKey text
    | _ => Text.caseKey text
  if key.isEmpty then none else some key

/-- The key of an attribute on a track. -/
def key? (a : Attribute) (t : Track) : Option String :=
  a.keyFor? (a.value t)

end Attribute

end Rundown
