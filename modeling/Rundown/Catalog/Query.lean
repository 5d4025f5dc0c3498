import Rundown.Track

/-!
# Queries to a catalog

A query says which stations' items are looked through and what the tracks must
be like.  What can be decided on a track alone is decided here; membership in a
playlist is known to the catalog only.
-/

namespace Rundown

/-- The stations whose items a query may return. -/
structure Scope where
  station : String
  /-- Also what other public stations have released to the archive. -/
  includePublicArchive : Bool
  deriving DecidableEq, Inhabited

/-- A search for a text in some attributes. -/
structure TextSearch where
  text : String
  fields : List Attribute
  deriving DecidableEq, Inhabited

namespace TextSearch

/-- The search for music. -/
def music (text : String) : TextSearch :=
  ⟨text, [.title, .artist, .album]⟩

/-- The search for interstitials. -/
def interstitial (text : String) : TextSearch :=
  ⟨text, [.artist, .title, .label]⟩

/-- Some attribute contains the text, both without case and punctuation; a search
for nothing finds everything. -/
def finds (s : TextSearch) (t : Track) : Bool :=
  let needle := Text.matchKey s.text
  needle.isEmpty || s.fields.any fun a => Text.contains (Text.matchKey (a.value t)) needle

end TextSearch

/-- What the tracks of a query must be like; what is absent does not bind. -/
structure Query where
  genre : Option String
  artist : Option String
  mood : Option String
  language : Option String
  search : Option TextSearch
  slowest : Option Float
  fastest : Option Float
  /-- Only members of one of these playlists, if there are any. -/
  playlists : List String
  deriving Inhabited

namespace Query

/-- The query that every track meets. -/
def any : Query :=
  ⟨none, none, none, none, none, none, none, []⟩

/-- A text equals the wanted one without regard to case. -/
def sameText (wanted : Option String) (actual : String) : Bool :=
  wanted.all fun w => Text.caseKey w == Text.caseKey actual

/-- Everything but membership in a playlist holds of a track. -/
def admits (q : Query) (t : Track) : Bool :=
  sameText q.genre t.genre && sameText q.mood t.mood && sameText q.language t.language &&
    q.artist.all (fun a => Text.matchKey a == Text.matchKey t.artist) &&
    q.search.all (·.finds t) &&
    q.slowest.all (fun bound => !(t.bpm < bound)) &&
    q.fastest.all (fun bound => !(bound < t.bpm))

end Query

end Rundown
