import Mathlib.Data.List.Forall2
import Rundown.Catalog.Library
import Rundown.Proofs.Binary64
import Rundown.Proofs.Finish
import Rundown.Proofs.Gathering
import Rundown.Proofs.PrintableText

/-!
# A library and its database

A library can be loaded into a database, an item into a row of its table, an
entry of a playlist into another, and the public stations as those that are
active, public and approved.  The two catalogs then answer every query with the
same tracks, although one compares texts by Unicode rules and the other by its
own: for printable texts the comparisons agree.

The order of the tracks is left to each catalog, and a database drops the sign
of a tempo of zero, so tracks are compared as numbers compare.  A search in no
attribute at all is left out; it finds nothing in a library and is no condition
for a database.
-/

namespace Rundown

/-! ## Loading a library -/

/-- An item as a row of the media table. -/
def LibraryItem.row (item : LibraryItem) : Row :=
  [("id", .text item.track.id), ("station_id", .text item.station),
    ("title", .text item.track.title), ("artist", .text item.track.artist),
    ("album", .text item.track.album), ("label", .text item.track.label),
    ("genre", .text item.track.genre), ("mood", .text item.track.mood),
    ("language", .text item.track.language), ("year", .text item.track.releaseYear),
    ("bpm", .real item.track.bpm), ("explicit", .whole (if item.track.explicit then 1 else 0)),
    ("duration_ms", .whole item.track.duration),
    ("show_in_archive", .whole (if item.inArchive then 1 else 0))]

/-- The rows of a playlist, one for each member. -/
def Playlist.rows (p : Playlist) : List Row :=
  p.members.map fun member => [("playlist_id", .text p.id), ("media_id", .text member)]

/-- A public station as a row of the station table. -/
def publicStationRow (id : String) : Row :=
  [("id", .text id), ("active", .whole 1), ("public", .whole 1), ("approved", .whole 1)]

/-- The database into which a library is loaded. -/
def Library.load (l : Library) : Database :=
  Database.ofRows (l.publicStations.map publicStationRow) (l.items.map (·.row))
    (l.playlists.flatMap (·.rows)) []

/-- The database holds the items, playlists and public stations of the library,
row for row in any order, and perhaps other stations. -/
structure Library.StoredIn (l : Library) (d : Database) : Prop where
  media : d.media.Perm (l.items.map fun item => Database.mediaOfRow item.row)
  playlists : ∀ entry, entry ∈ d.playlistItems ↔
    ∃ p ∈ l.playlists, p.id = entry.playlist ∧ entry.media ∈ p.members
  stations : ∀ id, id ∈ l.publicStations ↔
    ∃ s ∈ d.stations, s.id = some id ∧ Database.isOpen s = true

theorem Library.storedIn_load (l : Library) : l.StoredIn l.load where
  media := List.Perm.of_eq List.map_map
  playlists := by
    intro entry
    have hrow : ∀ p member : String, Database.playlistOfRow
        [("playlist_id", .text p), ("media_id", .text member)] = ⟨p, member⟩ := fun _ _ => rfl
    change entry ∈ (l.playlists.flatMap (·.rows)).map Database.playlistOfRow ↔ _
    simp only [List.mem_map, List.mem_flatMap, Playlist.rows]
    constructor
    · rintro ⟨_, ⟨p, hp, member, hmember, rfl⟩, rfl⟩
      rw [hrow]
      exact ⟨p, hp, rfl, hmember⟩
    · rintro ⟨p, hp, hid, hmember⟩
      refine ⟨_, ⟨p, hp, entry.media, hmember, rfl⟩, ?_⟩
      rw [hrow, hid]
  stations := by
    intro id
    have hrow : ∀ id, Database.stationOfRow (publicStationRow id) =
        ⟨some id, .whole 1, .whole 1, .whole 1⟩ := fun _ => rfl
    change id ∈ l.publicStations ↔
      ∃ s ∈ (l.publicStations.map publicStationRow).map Database.stationOfRow, _
    simp only [List.map_map, List.mem_map]
    constructor
    · intro hid
      exact ⟨_, ⟨id, hid, hrow id⟩, rfl, rfl⟩
    · rintro ⟨_, ⟨other, hother, rfl⟩, hid, _⟩
      rw [Function.comp_apply, hrow] at hid
      rw [← Option.some.inj hid]
      exact hother

/-- What a database keeps of a track. -/
def Track.stored (t : Track) : Track :=
  { t with bpm := Cell.plainZero t.bpm }

namespace Database

variable (item : LibraryItem)

theorem mediaOfRow_row : mediaOfRow item.row =
    { id := some item.track.id
      station := item.station
      title := item.track.title
      artist := item.track.artist
      album := item.track.album
      label := item.track.label
      genre := item.track.genre
      mood := item.track.mood
      language := item.track.language
      year := item.track.releaseYear
      bpm := .real (Cell.plainZero item.track.bpm)
      explicit := .whole (if item.track.explicit then 1 else 0)
      duration := .whole item.track.duration
      inArchive := .whole (if item.inArchive then 1 else 0) } := by
  rfl

theorem track_mediaOfRow : track (mediaOfRow item.row) = item.track.stored := by
  rw [mediaOfRow_row]
  cases hexplicit : item.track.explicit <;>
    simp [track, Track.stored, Cell.asReal, Cell.asWhole, hexplicit]

theorem attributeText_mediaOfRow (a : Attribute) :
    attributeText (mediaOfRow item.row) a = a.value item.track := by
  rw [mediaOfRow_row]
  cases a <;> rfl

end Database

/-! ## Tempi -/

namespace Cell

variable {x bound : Float}

theorem isNaN_plainZero (hx : x.isNaN = false) : (plainZero x).isNaN = false := by
  unfold plainZero
  split
  · decide
  · exact hx

/-- The two zeros have one place in the order. -/
theorem rank_plainZero (hx : x.isNaN = false) :
    Binary64.rank (plainZero x) = Binary64.rank x := by
  unfold plainZero
  split
  · rename_i hzero
    exact ((Binary64.beq_iff_rank_eq hx (by decide)).mp hzero).symm
  · rfl

theorem le_plainZero (hx : x.isNaN = false) (hbound : bound.isNaN = false) :
    bound ≤ plainZero x ↔ ¬ x < bound := by
  rw [Binary64.le_iff_rank_le hbound (isNaN_plainZero hx), rank_plainZero hx,
    Binary64.lt_iff_rank_lt hx hbound, not_lt]

theorem plainZero_le (hx : x.isNaN = false) (hbound : bound.isNaN = false) :
    plainZero x ≤ bound ↔ ¬ bound < x := by
  rw [Binary64.le_iff_rank_le (isNaN_plainZero hx) hbound, rank_plainZero hx,
    Binary64.lt_iff_rank_lt hbound hx, not_lt]

end Cell

/-! ## One condition after the other -/

/-- Every text that a query can ask for is printable. -/
def LibraryItem.Printable (item : LibraryItem) : Prop :=
  ∀ a : Attribute, Text.Printable (a.value item.track).toList

/-- A search names an attribute and the bounds of the tempo are numbers. -/
structure Query.Plain (q : Query) : Prop where
  search : ∀ s ∈ q.search, s.fields ≠ []
  slowest : ∀ bound ∈ q.slowest, bound.isNaN = false
  fastest : ∀ bound ∈ q.fastest, bound.isNaN = false

namespace Database

variable {l : Library} {d : Database} {item : LibraryItem}

theorem inScope_row (h : l.StoredIn d) (scope : Scope) (item : LibraryItem) :
    d.inScope scope (mediaOfRow item.row) = l.inScope scope item := by
  have hopen : (d.stations.any fun s => s.id == some item.station && isOpen s) =
      l.publicStations.contains item.station := by
    rw [Bool.eq_iff_iff, List.any_eq_true, List.contains_iff_mem, h.stations]
    simp only [Bool.and_eq_true, beq_iff_eq]
  have hreleased : (Cell.whole (if item.inArchive then 1 else 0)).isOne = item.inArchive := by
    cases item.inArchive <;> rfl
  rw [mediaOfRow_row]
  simp only [inScope, Library.inScope, hopen, hreleased]

theorem onPlaylist_row (h : l.StoredIn d) (playlists : List String) (item : LibraryItem) :
    d.onPlaylist playlists (mediaOfRow item.row) = l.onPlaylist playlists item.track.id := by
  rw [mediaOfRow_row, Bool.eq_iff_iff]
  simp only [onPlaylist, Library.onPlaylist, List.any_eq_true, Bool.and_eq_true, beq_iff_eq,
    Option.some_inj, List.contains_iff_mem]
  constructor
  · rintro ⟨entry, hentry, hmedia, hlisted⟩
    obtain ⟨p, hp, hid, hmember⟩ := (h.playlists entry).mp hentry
    exact ⟨p, hp, hid ▸ hlisted, hmedia ▸ hmember⟩
  · rintro ⟨p, hp, hlisted, hmember⟩
    exact ⟨⟨p.id, item.track.id⟩, (h.playlists _).mpr ⟨p, hp, rfl, hmember⟩, rfl, hlisted⟩

theorem sameText_eq {stored : String} (h : Text.Printable stored.toList) (wanted : Option String) :
    sameText wanted stored = Query.sameText wanted stored := by
  cases wanted with
  | none => simp only [sameText, Query.sameText, Option.all_none]
  | some w =>
      have hkey : folded stored.toList = (Text.caseKey stored).toList := by
        unfold Text.caseKey Text.lower Text.trim
        rw [String.toList_ofList, String.toList_ofList]
        exact folded_eq h
      change (folded stored.toList == (Text.caseKey w).toList) =
        (Text.caseKey w == Text.caseKey stored)
      rw [hkey, Bool.eq_iff_iff, beq_iff_eq, beq_iff_eq, String.toList_inj]
      exact eq_comm

theorem artist_eq {stored : String} (h : Text.Printable stored.toList) (wanted : String) :
    (storedKey stored.toList == Text.matchChars wanted.toList) =
      (Text.matchKey wanted == Text.matchKey stored) := by
  rw [storedKey_eq h, Text.matchKey, Text.matchKey, Bool.eq_iff_iff, beq_iff_eq, beq_iff_eq,
    String.ofList_inj, eq_comm]

theorem finds_row (h : item.Printable) {search : TextSearch} (hfields : search.fields ≠ []) :
    finds search (mediaOfRow item.row) = search.finds item.track := by
  have hempty : (Text.matchKey search.text).isEmpty =
      (Text.matchChars search.text.toList).isEmpty := by
    rw [Text.matchKey, Bool.eq_iff_iff, String.isEmpty_iff, List.isEmpty_iff, ← String.toList_inj,
      String.toList_ofList]
    rfl
  have hcontains : ∀ a : Attribute,
      Text.occursIn (Text.matchChars search.text.toList)
          (storedKey (attributeText (mediaOfRow item.row) a).toList) =
        Text.contains (Text.matchKey (a.value item.track)) (Text.matchKey search.text) := by
    intro a
    rw [attributeText_mediaOfRow, storedKey_eq (h a), Text.contains, Text.matchKey, Text.matchKey,
      String.toList_ofList, String.toList_ofList]
  have hsome : search.fields.isEmpty = false := by
    rw [List.isEmpty_eq_false_iff]
    exact hfields
  simp only [finds, TextSearch.finds, hempty, hsome, hcontains, Bool.or_false]

theorem all_congr {α : Type} {wanted : Option α} {p q : α → Bool}
    (h : ∀ x ∈ wanted, p x = q x) : wanted.all p = wanted.all q := by
  cases wanted with
  | none => rfl
  | some x => exact h x rfl

/-- An item is met in the database exactly if it is met in the library. -/
theorem meets_row (h : l.StoredIn d) (hprintable : item.Printable)
    (htempo : item.track.bpm.isNaN = false) (scope : Scope) {q : Query} (hq : q.Plain) :
    d.meets scope q (mediaOfRow item.row) = l.meets scope q item := by
  have hgenre : sameText q.genre item.track.genre = Query.sameText q.genre item.track.genre :=
    sameText_eq (hprintable .genre) q.genre
  have hmood : sameText q.mood item.track.mood = Query.sameText q.mood item.track.mood :=
    sameText_eq (hprintable .mood) q.mood
  have hlanguage : sameText q.language item.track.language =
      Query.sameText q.language item.track.language :=
    sameText_eq (hprintable .language) q.language
  have hartist : q.artist.all (fun a =>
        storedKey item.track.artist.toList == Text.matchChars a.toList) =
      q.artist.all fun a => Text.matchKey a == Text.matchKey item.track.artist :=
    all_congr fun a _ => artist_eq (hprintable .artist) a
  have hsearch : q.search.all (fun search => finds search (mediaOfRow item.row)) =
      q.search.all (·.finds item.track) :=
    all_congr fun search hsearch => finds_row hprintable (hq.search search hsearch)
  have hslowest : q.slowest.all (fun bound => bound ≤ Cell.plainZero item.track.bpm) =
      q.slowest.all fun bound => !(item.track.bpm < bound) := by
    apply all_congr
    intro bound hbound
    rw [decide_eq_decide.mpr (Cell.le_plainZero htempo (hq.slowest bound hbound)), decide_not]
  have hfastest : q.fastest.all (fun bound => Cell.plainZero item.track.bpm ≤ bound) =
      q.fastest.all fun bound => !(bound < item.track.bpm) := by
    apply all_congr
    intro bound hbound
    rw [decide_eq_decide.mpr (Cell.plainZero_le htempo (hq.fastest bound hbound)), decide_not]
  unfold meets Library.meets Query.admits
  rw [inScope_row h, onPlaylist_row h, hsearch]
  simp only [mediaOfRow_row, Cell.asReal, hgenre, hmood, hlanguage, hartist, hslowest, hfastest]
  -- The two sides have the same conditions in different places.
  ac_rfl

/-- The rows that meet a query are those of the items that do. -/
theorem matching_perm (h : l.StoredIn d) (hprintable : ∀ item ∈ l.items, item.Printable)
    (htempo : ∀ item ∈ l.items, item.track.bpm.isNaN = false) (scope : Scope) {q : Query}
    (hq : q.Plain) :
    (d.matching scope q).Perm ((l.matching scope q).map Track.stored) := by
  have hitems : l.items.filter (fun item => d.meets scope q (mediaOfRow item.row)) =
      l.items.filter (l.meets scope q) := by
    apply List.filter_congr
    intro item hitem
    exact meets_row h (hprintable item hitem) (htempo item hitem) scope hq
  have hrows := (h.media.filter (d.meets scope q)).map track
  rw [List.filter_map, List.map_map] at hrows
  unfold matching Library.matching
  rw [List.map_map, ← hitems]
  refine hrows.trans (List.Perm.of_eq ?_)
  apply List.map_congr_left
  intro item _
  exact track_mediaOfRow item

end Database

/-! ## Agreement -/

/-- The same track, tempi compared as numbers. -/
structure Track.SameAs (t u : Track) : Prop where
  tempo : (t.bpm == u.bpm) = true
  rest : t = { u with bpm := t.bpm }

/-- Two answers with the same tracks, in whatever order. -/
def SameTracks (ts us : List Track) : Prop :=
  ∃ reordered, us.Perm reordered ∧ List.Forall₂ Track.SameAs ts reordered

theorem Track.sameAs_stored {t : Track} (h : t.bpm.isNaN = false) : t.SameAs t.stored := by
  have hrank : Binary64.rank t.bpm = Binary64.rank t.stored.bpm := (Cell.rank_plainZero h).symm
  exact ⟨(Binary64.beq_iff_rank_eq h (Cell.isNaN_plainZero h)).mpr hrank, rfl⟩

theorem sameTracks_stored {ts us : List Track} (htempo : ∀ t ∈ ts, t.bpm.isNaN = false)
    (hperm : us.Perm (ts.map Track.stored)) : SameTracks ts us := by
  refine ⟨ts.map Track.stored, hperm, ?_⟩
  rw [List.forall₂_map_right_iff, List.forall₂_same]
  intro t ht
  exact Track.sameAs_stored (htempo t ht)

namespace Library

/-- A library of printable texts and its database answer every query with the
same tracks. -/
theorem catalogs_agree {l : Library} {d : Database} (h : l.StoredIn d) (order : ItemOrder)
    (hprintable : ∀ item ∈ l.items, item.Printable)
    (htempo : ∀ item ∈ l.items, item.track.bpm.isNaN = false) (scope : Scope) {q : Query}
    (hq : q.Plain) :
    ∃ fromLibrary fromDatabase, (l.catalog order).tracks scope q = .ok fromLibrary ∧
      d.catalog.tracks scope q = .ok fromDatabase ∧ SameTracks fromLibrary fromDatabase := by
  refine ⟨_, _, rfl, rfl, ?_⟩
  have harranged := order.arrange_perm (l.matching scope q)
  apply sameTracks_stored
  · intro t ht
    obtain ⟨item, hitem, rfl⟩ := List.mem_map.mp (harranged.subset ht)
    exact htempo item (List.mem_filter.mp hitem).1
  · have hbyId : (Database.byId (d.matching scope q)).Perm (d.matching scope q) :=
      List.mergeSort_perm _ _
    have hmatching := Database.matching_perm h hprintable htempo scope hq
    exact hbyId.trans (hmatching.trans (harranged.symm.map Track.stored))

end Library

namespace Sample

/-- An item of a public station that is released to the archive. -/
def released : LibraryItem :=
  ⟨"home", true, { Track.song "a" " The K-Sides" 180000 with bpm := -0.0 }⟩

/-- Its library, with a playlist that holds it. -/
def library : Library :=
  ⟨[released], [⟨"night", ["a"]⟩], ["home"], []⟩

/-- A query in other spellings, one of them with the sign of the kelvin. -/
def query : Query :=
  { Query.any with
    artist := some "the k sides"
    search := some ⟨"\u212aSIDE", [.title, .artist]⟩
    slowest := some 0
    playlists := ["night"] }

/-- A scope that reaches the item through the archive only. -/
def scope : Scope :=
  ⟨"away", true⟩

end Sample

namespace Library

/-- The item is found in both, with a tempo of zero whose sign only the library
keeps. -/
theorem catalogs_agree_sample :
    Sample.library.StoredIn Sample.library.load ∧
      (∀ item ∈ Sample.library.items, item.Printable) ∧
      (∀ item ∈ Sample.library.items, item.track.bpm.isNaN = false) ∧
      Sample.query.Plain ∧
      (Sample.library.matching Sample.scope Sample.query).length = 1 ∧
      ∃ fromLibrary fromDatabase,
        (Sample.library.catalog .stored).tracks Sample.scope Sample.query = .ok fromLibrary ∧
          Sample.library.load.catalog.tracks Sample.scope Sample.query = .ok fromDatabase ∧
          SameTracks fromLibrary fromDatabase := by
  have hstored := Sample.library.storedIn_load
  have hprintable : ∀ item ∈ Sample.library.items, item.Printable := by
    intro item hitem a
    rw [List.mem_singleton.mp hitem]
    cases a <;> decide
  have htempo : ∀ item ∈ Sample.library.items, item.track.bpm.isNaN = false := by
    decide +kernel
  have hplain : Sample.query.Plain := by
    refine ⟨?_, ?_, ?_⟩
    · intro search hsearch
      rw [← Option.some.inj hsearch]
      decide
    · intro bound hbound
      rw [← Option.some.inj hbound]
      decide
    · intro bound hbound
      contradiction
  have hfound : (Sample.library.matching Sample.scope Sample.query).length = 1 := by
    decide +kernel
  exact ⟨hstored, hprintable, htempo, hplain, hfound,
    catalogs_agree hstored .stored hprintable htempo Sample.scope hplain⟩

end Library

end Rundown
