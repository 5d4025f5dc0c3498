import Rundown.Proofs.Provenance

/-!
# What a station can tell of the others

All queries of a request are made in the scope of its station, and a scope lets
through only what is open to the station: its own items and what public stations
have released to the archive.  So a station previews the same sequences whatever
else a library holds, under every order of the items, since an order is applied
to the answer of a query and not to the library.  If neither the block nor a
fallback asks for the archive, a station previews the same sequences whatever
other stations own.

Playlists belong to no station.  A private item of another station that is named
in one stays out all the same.
-/

namespace Rundown

/-! ## Catalogs that answer alike -/

namespace Catalog

/-- Two catalogs hold the same blocks and answer every query of a station alike,
within the archive only if it is included. -/
structure AnswersAlike (station : String) (archive : Bool) (c c' : Catalog) : Prop where
  blocks : c.block? = c'.block?
  tracks : ∀ scope query, scope.station = station →
    (scope.includePublicArchive = true → archive = true) →
      c.tracks scope query = c'.tracks scope query

/-- Of the archive, the fallbacks that are followed from a block ask for no more
than is given. -/
def AsksWithin (c : Catalog) (archive : Bool) (year : Int) (block : Option String)
    (fallbacks : List Fallback) : Prop :=
  ∀ f ∈ fallbacks, ∀ found, c.referred? block f = some found →
    (Plan.ofDocuments found.rules found.sequence year).criteria.includePublicArchive = true →
      archive = true

variable {c c' : Catalog} {station : String} {archive : Bool} {year : Int}
variable {block : Option String}

theorem AnswersAlike.music (h : AnswersAlike station archive c c') {plan : Plan}
    (hasks : plan.criteria.includePublicArchive = true → archive = true) :
    c.music station plan = c'.music station plan := by
  unfold Catalog.music
  rw [h.tracks (musicScope station plan) (musicQuery plan) rfl hasks]

/-- Interstitials come from the station itself, whatever the block asks for. -/
theorem AnswersAlike.ads (h : AnswersAlike station archive c c') (plan : Plan) :
    c.ads station plan = c'.ads station plan := by
  unfold Catalog.ads
  split
  · rfl
  · rename_i source _
    have hhome : (⟨station, false⟩ : Scope).includePublicArchive = true → archive = true :=
      fun hfalse => Bool.noConfusion hfalse
    rw [h.tracks ⟨station, false⟩ (adQuery source) rfl hhome]

theorem AnswersAlike.referred? (h : AnswersAlike station archive c c') (f : Fallback) :
    c.referred? block f = c'.referred? block f := by
  unfold Catalog.referred?
  rw [h.blocks]

theorem AnswersAlike.extendAll (h : AnswersAlike station archive c c') {fallbacks : List Fallback}
    (hasks : c.AsksWithin archive year block fallbacks) (pool : List Track × List String) :
    c.extendAll station year block fallbacks pool =
      c'.extendAll station year block fallbacks pool := by
  induction fallbacks generalizing pool with
  | nil => rfl
  | cons f rest ih =>
      have hrest : c.AsksWithin archive year block rest :=
        fun g hg => hasks g (List.mem_cons_of_mem f hg)
      unfold Catalog.extendAll
      rw [← h.referred? f]
      cases hfound : c.referred? block f with
      | none => exact ih hrest pool
      | some found =>
          have hmusic := h.music (hasks f List.mem_cons_self found hfound)
          simp only [hmusic, ih hrest]

/-- Catalogs that answer alike give a block the same pools. -/
theorem AnswersAlike.pools (h : AnswersAlike station archive c c') {plan : Plan}
    (hown : plan.criteria.includePublicArchive = true → archive = true)
    (hasks : c.AsksWithin archive year block plan.fallbacks) :
    c.pools station year plan block = c'.pools station year plan block := by
  unfold Catalog.pools fallback
  simp only [h.music hown, h.ads plan, h.extendAll hasks]

end Catalog

/-! ## Libraries that differ in what is hidden -/

namespace Library

/-- The libraries agree in everything but their items. -/
structure SharesAllButItems (l l' : Library) : Prop where
  playlists : l.playlists = l'.playlists
  publicStations : l.publicStations = l'.publicStations
  blocks : l.blocks = l'.blocks

/-- The items that belong to a station. -/
def ownedBy (l : Library) (station : String) : List LibraryItem :=
  l.items.filter fun item => item.station = station

/-- The items that belong to a station or that a public station has released to
the archive. -/
def openTo (l : Library) (station : String) : List LibraryItem :=
  l.items.filter fun item =>
    item.station = station ∨ item.inArchive = true ∧ item.station ∈ l.publicStations

/-- Neither the block of a request nor a fallback that it follows asks for the
public archive. -/
def AsksNoArchive (l : Library) (year : Int) (request : PreviewRequest) : Prop :=
  (request.plan year).criteria.includePublicArchive = false ∧
    ∀ f ∈ (request.plan year).fallbacks, request.block ≠ some f.block →
      ∀ found, l.block? f.block = some found →
        (Plan.ofDocuments found.rules found.sequence year).criteria.includePublicArchive = false

variable {l l' : Library}

/-- Which items meet a query is not for the other items to decide. -/
theorem SharesAllButItems.meets (h : SharesAllButItems l l') (scope : Scope) (q : Query)
    (item : LibraryItem) : l.meets scope q item = l'.meets scope q item := by
  unfold Library.meets inScope onPlaylist
  rw [h.playlists, h.publicStations]

/-- A query has the same answer if whatever may meet it is the same. -/
theorem SharesAllButItems.matching (h : SharesAllButItems l l') {scope : Scope} {q : Query}
    {visible : LibraryItem → Bool}
    (hvisible : ∀ item, l.meets scope q item = true → visible item = true)
    (hsame : l.items.filter visible = l'.items.filter visible) :
    l.matching scope q = l'.matching scope q := by
  -- Dropping what is hidden before the query loses nothing that meets it.
  have hfirst : ∀ items : List LibraryItem,
      items.filter (l.meets scope q) = (items.filter visible).filter (l.meets scope q) := by
    intro items
    rw [List.filter_filter]
    apply List.filter_congr
    intro item _
    cases hmeets : l.meets scope q item with
    | false => rfl
    | true => exact (hvisible item hmeets).symm
  have hmeets : l.meets scope q = l'.meets scope q := funext (h.meets scope q)
  unfold Library.matching
  rw [hfirst l.items, hsame, ← hfirst l'.items, hmeets]

theorem SharesAllButItems.block? (h : SharesAllButItems l l') (id : String) :
    l.block? id = l'.block? id := by
  unfold Library.block?
  rw [h.blocks]

variable {station : String}

/-- What is not open to a station changes no answer to it. -/
theorem SharesAllButItems.alike_of_open (h : SharesAllButItems l l') (order : ItemOrder)
    (hopen : l.openTo station = l'.openTo station) :
    Catalog.AnswersAlike station true (l.catalog order) (l'.catalog order) where
  blocks := funext fun id => congrArg Except.ok (h.block? id)
  tracks := by
    intro scope q hstation _
    have hsame : l.matching scope q = l'.matching scope q := by
      unfold openTo at hopen
      rw [← h.publicStations] at hopen
      apply h.matching _ hopen
      intro item hmeets
      have hscope := (meets_of_meets hmeets).scope
      rw [hstation] at hscope
      exact decide_eq_true (hscope.imp_right fun ⟨hreleased, hpublic, _⟩ => ⟨hreleased, hpublic⟩)
    exact congrArg (fun tracks => Except.ok (order.arrange tracks)) hsame

/-- What a station does not own changes no answer outside of the archive. -/
theorem SharesAllButItems.alike_of_owned (h : SharesAllButItems l l') (order : ItemOrder)
    (howned : l.ownedBy station = l'.ownedBy station) :
    Catalog.AnswersAlike station false (l.catalog order) (l'.catalog order) where
  blocks := funext fun id => congrArg Except.ok (h.block? id)
  tracks := by
    intro scope q hstation hnoArchive
    have hsame : l.matching scope q = l'.matching scope q := by
      apply h.matching _ howned
      intro item hmeets
      rcases (meets_of_meets hmeets).scope with hown | ⟨_, _, harchive⟩
      · exact decide_eq_true (hown.trans hstation)
      · exact absurd (hnoArchive harchive) Bool.false_ne_true
    exact congrArg (fun tracks => Except.ok (order.arrange tracks)) hsame

/-- The fallbacks that a catalog follows are those that name another block. -/
theorem AsksNoArchive.asksWithin {year : Int} {request : PreviewRequest} (order : ItemOrder)
    (h : l.AsksNoArchive year request) :
    (l.catalog order).AsksWithin false year request.block (request.plan year).fallbacks := by
  intro f hf found hfound harchive
  unfold Catalog.referred? at hfound
  split at hfound
  · contradiction
  · rename_i hother
    have hblock : l.block? f.block = some found := hfound
    rw [h.2 f hf hother found hblock] at harchive
    contradiction

end Library

namespace Preview

/-- Two catalogs preview a request alike, in one sequence or in many. -/
def Alike (c c' : Catalog) (year : Int) (request : PreviewRequest) : Prop :=
  single c year request = single c' year request ∧
    ∀ count, variants c year request count = variants c' year request count

theorem alike_of_pools {c c' : Catalog} {year : Int} {request : PreviewRequest}
    (h : c.pools request.station year (request.plan year) request.block =
      c'.pools request.station year (request.plan year) request.block) :
    Alike c c' year request := by
  unfold PreviewRequest.plan at h
  unfold Alike single variants
  simp only [h, implies_true, and_self]

/-- A station previews every request alike over libraries that are alike in what is
open to it, and without the archive over libraries that are alike in what it owns. -/
theorem alike_of_hidden (l l' : Library) (order : ItemOrder) (year : Int)
    (request : PreviewRequest) (hshared : l.SharesAllButItems l') :
    (l.openTo request.station = l'.openTo request.station →
        Alike (l.catalog order) (l'.catalog order) year request) ∧
      (l.AsksNoArchive year request →
        l.ownedBy request.station = l'.ownedBy request.station →
          Alike (l.catalog order) (l'.catalog order) year request) := by
  constructor
  · intro hopen
    have halike := hshared.alike_of_open order hopen
    exact alike_of_pools (halike.pools (fun _ => rfl) fun _ _ _ _ _ => rfl)
  · intro hasks howned
    have halike := hshared.alike_of_owned order howned
    refine alike_of_pools (halike.pools ?_ (hasks.asksWithin order))
    intro harchive
    rw [hasks.1] at harchive
    contradiction

end Preview

namespace Sample

/-- A song of the station, one that a public station has released, and one of a
station that is not public; all three are on a playlist. -/
def mixedLibrary : Library where
  items := [⟨"s", false, .song "a" "X" 300000⟩, ⟨"open", true, .song "b" "Y" 280000⟩,
    ⟨"closed", true, .song "c" "Z" 270000⟩]
  playlists := [⟨"all", ["a", "b", "c"]⟩]
  publicStations := ["open"]
  blocks := []

/-- Without the song that is closed to the station. -/
def openLibrary : Library :=
  { mixedLibrary with items := mixedLibrary.items.take 2 }

/-- With the song of the station alone. -/
def ownLibrary : Library :=
  { mixedLibrary with items := mixedLibrary.items.take 1 }

/-- Ten minutes of the playlist, with or without the archive. -/
def playlistRequest (archive : Bool) : PreviewRequest :=
  ⟨none, "s", ⟨[("targetMinutes", .int 10), ("sourcePlaylists", .str "all"),
    ("includePublicArchive", .bool archive)]⟩, .empty, 7⟩

end Sample

namespace Preview

/-- The song that is on the playlist but closed to the station makes no difference;
without the archive the released one makes none either. -/
theorem alike_of_hidden_sample :
    Sample.mixedLibrary.SharesAllButItems Sample.openLibrary ∧
      Sample.mixedLibrary.openTo "s" = Sample.openLibrary.openTo "s" ∧
      Alike (Sample.mixedLibrary.catalog (.shuffled 3)) (Sample.openLibrary.catalog (.shuffled 3))
        2026 (Sample.playlistRequest true) ∧
      Sample.mixedLibrary.SharesAllButItems Sample.ownLibrary ∧
      Sample.mixedLibrary.AsksNoArchive 2026 (Sample.playlistRequest false) ∧
      Sample.mixedLibrary.ownedBy "s" = Sample.ownLibrary.ownedBy "s" ∧
      Alike (Sample.mixedLibrary.catalog .stored) (Sample.ownLibrary.catalog .stored)
        2026 (Sample.playlistRequest false) := by
  have hopenShared : Sample.mixedLibrary.SharesAllButItems Sample.openLibrary := ⟨rfl, rfl, rfl⟩
  have hopen : Sample.mixedLibrary.openTo "s" = Sample.openLibrary.openTo "s" := by rfl
  have hownShared : Sample.mixedLibrary.SharesAllButItems Sample.ownLibrary := ⟨rfl, rfl, rfl⟩
  have hasks : Sample.mixedLibrary.AsksNoArchive 2026 (Sample.playlistRequest false) :=
    ⟨by decide +kernel, fun _ hnone => absurd hnone List.not_mem_nil⟩
  have howned : Sample.mixedLibrary.ownedBy "s" = Sample.ownLibrary.ownedBy "s" := by rfl
  exact ⟨hopenShared, hopen,
    (alike_of_hidden Sample.mixedLibrary Sample.openLibrary (.shuffled 3) 2026
      (Sample.playlistRequest true) hopenShared).1 hopen,
    hownShared, hasks, howned,
    (alike_of_hidden Sample.mixedLibrary Sample.ownLibrary .stored 2026
      (Sample.playlistRequest false) hownShared).2 hasks howned⟩

end Preview

end Rundown
