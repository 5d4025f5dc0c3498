import Rundown.Proofs.Gathering
import Rundown.Proofs.History
import Rundown.Proofs.PlanFields
import Rundown.Proofs.Variants

/-!
# Where placements come from

A placement is followed back through the block, the pools and the catalog to an
item of the library.  The block takes its music and its interstitials from the
pool of their kind and trims none into another; the pools hold what a query
returned and the remaining criteria left over; and a query returns the items that
meet it.  So what the rules of a block ask for holds of every item that is played
for them, whichever of the stages decides it.

What the rules ask for is said here in terms of the documents, not of the plan
and the query that are made from them.
-/

namespace Rundown

/-! ## From placements to pools -/

/-- What laying out does not touch of a placement. -/
def Placement.origin (p : Placement) : Track × Bool × Bool :=
  (p.track, p.isAd, p.fromFallback)

/-- The track of an origin is in the pool of its kind. -/
def Pools.Supply (pools : Pools) : Track × Bool × Bool → Prop
  | (t, true, _) => t ∈ pools.ads
  | (t, false, fromFallback) => t ∈ pools.source fromFallback

/-- Every placement was taken from the pool of its kind. -/
def Pools.SupplyAll (pools : Pools) (placements : List Placement) : Prop :=
  ∀ p ∈ placements, pools.Supply p.origin

theorem Filling.Grown.supplyAll {f : Filling} {pools : Pools} {s : State}
    (h : f.Grown pools s) (hads : f.ads = pools.ads) : pools.SupplyAll s.placements := by
  induction h with
  | start =>
      intro p hp
      contradiction
  | step fromFallback _ next ih =>
      -- A step appends one placement, and its origin says which pool it was drawn from.
      obtain ⟨p, happends⟩ := next.appends
      rw [happends.placements]
      intro q hq
      rcases List.mem_append.mp hq with hold | hnew
      · exact ih q hold
      · rw [List.mem_singleton.mp hnew]
        unfold Placement.origin
        rcases happends.origin with ⟨hmusic, htake⟩ | ⟨had, hknown, _⟩
        · rw [hmusic, happends.phase]
          exact htake.known
        · rw [had]
          rw [hads] at hknown
          exact hknown

/-- The trim takes a placement away and moves the others; it brings none in. -/
theorem Sequence.build_supplyAll (r : Reckoning) (plan : Plan) (pools : Pools) (coins : Coins) :
    pools.SupplyAll (build r plan pools coins).1.placements := by
  have hgrown := Filling.grown_filled ⟨r, plan, pools.ads, coins⟩ pools
  have hfilled := hgrown.supplyAll rfl
  have hpart := map_finish_sublist Placement.origin (fun _ _ _ => rfl) r plan
    (filled ⟨r, plan, pools.ads, coins⟩ pools).state
  intro p hp
  obtain ⟨q, hq, horigin⟩ := List.mem_map.mp (hpart.mem (List.mem_map_of_mem hp))
  rw [← horigin]
  exact hfilled q hq

/-! ## From pools to answers -/

namespace Catalog

variable {c : Catalog} {station : String} {year : Int} {plan : Plan} {block : Option String}
variable {t : Track} {tracks : List Track}

theorem mem_checked (h : t ∈ checked plan tracks) :
    t ∈ tracks ∧ plan.criteria.accepts t = true := by
  unfold checked at h
  split at h
  · exact List.mem_filter.mp h
  · rename_i hunchecked
    exact ⟨h, Criteria.accepts_of_not_needsCheck (Bool.eq_false_iff.mpr hunchecked) t⟩

/-- Music was returned by the query for it, takes time, and passes what the catalog
leaves to be checked. -/
theorem exists_of_mem_music (hmusic : c.music station plan = .ok tracks) (ht : t ∈ tracks) :
    ∃ fetched, c.tracks (musicScope station plan) (musicQuery plan) = .ok fetched ∧
      t ∈ fetched ∧ 0 < t.duration ∧ plan.criteria.accepts t = true := by
  unfold music at hmusic
  obtain ⟨fetched, hfetched, hkept⟩ := bind_eq_ok.mp hmusic
  rw [← Except.ok.inj hkept] at ht
  obtain ⟨hplayable, haccepts⟩ := mem_checked ht
  obtain ⟨hmem, htimed⟩ := List.mem_filter.mp hplayable
  exact ⟨fetched, hfetched, hmem, of_decide_eq_true htimed, haccepts⟩

theorem exists_of_mem_ads (hads : c.ads station plan = .ok tracks) (ht : t ∈ tracks) :
    ∃ source fetched, adSource? plan = some source ∧
      c.tracks ⟨station, false⟩ (adQuery source) = .ok fetched ∧
        t ∈ fetched ∧ 0 < t.duration := by
  unfold ads at hads
  split at hads
  · rw [← Except.ok.inj hads] at ht
    contradiction
  · rename_i source hsource
    obtain ⟨fetched, hfetched, hkept⟩ := bind_eq_ok.mp hads
    rw [← Except.ok.inj hkept] at ht
    obtain ⟨hmem, htimed⟩ := List.mem_filter.mp ht
    exact ⟨source, fetched, hsource, hfetched, hmem, of_decide_eq_true htimed⟩

theorem mem_of_mem_extend {limit added : Nat} {pool : List Track × List String}
    (h : t ∈ (extend limit added tracks pool).1) : t ∈ pool.1 ∨ t ∈ tracks := by
  -- On the tracks still to be looked at; both the pool and the count grow on the way.
  induction tracks generalizing added pool with
  | nil => exact Or.inl h
  | cons first rest ih =>
      obtain ⟨taken, seen⟩ := pool
      unfold extend at h
      split at h
      · exact Or.inl h
      · split at h
        · exact (ih h).imp_right (List.mem_cons_of_mem first)
        · rcases ih h with htaken | hrest
          · rcases List.mem_append.mp htaken with hold | hnew
            · exact Or.inl hold
            · rw [List.mem_singleton.mp hnew]
              exact Or.inr List.mem_cons_self
          · exact Or.inr (List.mem_cons_of_mem first hrest)

/-- Music of the fallbacks is the music of a block to which one of them refers. -/
theorem exists_of_mem_extendAll {fallbacks : List Fallback} {pool after : List Track × List String}
    (hall : extendAll c station year block fallbacks pool = .ok after) (ht : t ∈ after.1) :
    t ∈ pool.1 ∨ ∃ f ∈ fallbacks, ∃ found, referred? c block f = some found ∧
      ∃ tracks, c.music station (Plan.ofDocuments found.rules found.sequence year) = .ok tracks ∧
        t ∈ tracks := by
  induction fallbacks generalizing pool with
  | nil =>
      rw [← Except.ok.inj hall] at ht
      exact Or.inl ht
  | cons f rest ih =>
      unfold extendAll at hall
      split at hall
      · -- The fallback is passed over.
        refine (ih hall).imp_right ?_
        rintro ⟨g, hg, hfound⟩
        exact ⟨g, List.mem_cons_of_mem f hg, hfound⟩
      · rename_i found hfound
        obtain ⟨tracks, hmusic, hrest⟩ := bind_eq_ok.mp hall
        rcases ih hrest with hextended | ⟨g, hg, hlater⟩
        · refine (mem_of_mem_extend hextended).imp_right ?_
          intro hmem
          exact ⟨f, List.mem_cons_self, found, hfound, tracks, hmusic, hmem⟩
        · exact Or.inr ⟨g, List.mem_cons_of_mem f hg, hlater⟩

/-- Each pool holds what its queries returned. -/
theorem pools_cases {pools : Pools} (h : c.pools station year plan block = .ok pools) :
    c.music station plan = .ok pools.music ∧ c.ads station plan = .ok pools.ads ∧
      ∀ t ∈ pools.fallback, ∃ f ∈ plan.fallbacks, ∃ found, referred? c block f = some found ∧
        ∃ tracks, c.music station (Plan.ofDocuments found.rules found.sequence year) = .ok tracks ∧
          t ∈ tracks := by
  unfold Catalog.pools at h
  obtain ⟨own, hown, h⟩ := bind_eq_ok.mp h
  obtain ⟨interstitials, hads, h⟩ := bind_eq_ok.mp h
  obtain ⟨others, hothers, h⟩ := bind_eq_ok.mp h
  unfold fallback at hothers
  obtain ⟨⟨gathered, seen⟩, hall, hgathered⟩ := bind_eq_ok.mp hothers
  have hsame : gathered = others := Except.ok.inj hgathered
  rw [← Except.ok.inj h, ← hsame]
  refine ⟨hown, hads, ?_⟩
  intro t ht
  rcases exists_of_mem_extendAll hall ht with hnone | hfound
  · contradiction
  · exact hfound

end Catalog

/-! ## From answers to items -/

namespace Library

/-- The track is a member of one of the playlists. -/
def Lists (l : Library) (playlists : List String) (track : String) : Prop :=
  ∃ p ∈ l.playlists, p.id ∈ playlists ∧ track ∈ p.members

/-- Some of the attributes of a track contains the text, without regard to case and
punctuation. -/
def Mentions (attributes : List Attribute) (text : String) (t : Track) : Prop :=
  ∃ a ∈ attributes, (Text.matchKey text).toList <:+: (Text.matchKey (a.value t)).toList

/-- What the rules of a block ask of an item that is played for them on a station. -/
structure Suits (l : Library) (station : String) (rules : Document) (year : Int)
    (item : LibraryItem) : Prop where
  scope : item.station = station ∨ item.inArchive = true ∧ item.station ∈ l.publicStations ∧
    ∃ asked, rules.firstOf? ["includePublicArchive", "include_archive"] = some asked ∧
      asked.truth = true
  playlists : ∀ named, rules.firstOf? ["sourcePlaylists", "source_playlists"] = some named →
    named.labels ≠ [] → l.Lists named.labels item.track.id
  genre : ∀ wanted, rules.label? "genre" = some wanted →
    Text.caseKey item.track.genre = Text.caseKey wanted
  mood : ∀ wanted, rules.label? "mood" = some wanted →
    Text.caseKey item.track.mood = Text.caseKey wanted
  language : ∀ wanted, rules.label? "language" = some wanted →
    Text.caseKey item.track.language = Text.caseKey wanted
  artist : ∀ wanted, rules.label? "artist" = some wanted →
    Text.matchKey item.track.artist = Text.matchKey wanted
  text : ∀ wanted, rules.label? "text_search" = some wanted →
    Mentions [.title, .artist, .album] wanted item.track
  /-- The tempo is not beyond a bound; one that is no number is beyond none. -/
  tempo : ∀ range, rules.firstOf? ["bpmRange"] = some range →
    (∀ low, range.bounds.1 = some low → ¬ item.track.bpm < low) ∧
      ∀ high, range.bounds.2 = some high → ¬ high < item.track.bpm
  /-- A missing year counts as year zero. -/
  years : ∀ range, rules.firstOf? ["yearRange"] = some range →
    (∀ low, range.bounds.1 = some low →
        Decimal.truncateToHalfWord low ≤ item.track.year?.getD 0) ∧
      ∀ high, range.bounds.2 = some high →
        item.track.year?.getD 0 ≤ Decimal.truncateToHalfWord high
  era : ∀ label range, rules.label? "era" = some label → eraRange? label year = some range →
    (∀ low, range.min = some low → low ≤ item.track.year?.getD 0) ∧
      ∀ high, range.max = some high → item.track.year?.getD 0 ≤ high
  explicit : rules.truth "excludeExplicit" = true → item.track.explicit = false
  timed : 0 < item.track.duration

/-- The item is one that a source of interstitials names. -/
def Offers (l : Library) (item : LibraryItem) : BreakSource → Prop
  | .playlist id => l.Lists [id] item.track.id
  | .genre name => Text.caseKey item.track.genre = Text.caseKey name
  | .search text => Mentions [.artist, .title, .label] text item.track

/-- What the rules of a block ask of an interstitial on a station. -/
structure SuitsBreak (l : Library) (station : String) (rules : Document) (item : LibraryItem) :
    Prop where
  owned : item.station = station
  offered : ∃ breaks source, rules.members? "interstitials" = some breaks ∧
    Json.truthAt breaks "enabled" = true ∧ Plan.breakSourceOf? breaks = some source ∧
      l.Offers item source
  timed : 0 < item.track.duration

variable {l : Library} {item : LibraryItem}

theorem caseKey_eq_of_sameText {wanted : Option String} {actual text : String}
    (h : Query.sameText wanted actual = true) (hwanted : wanted = some text) :
    Text.caseKey actual = Text.caseKey text := by
  unfold Query.sameText at h
  rw [hwanted, Option.all_some, beq_iff_eq] at h
  exact h.symm

theorem mentions_of_finds {search : TextSearch} {t : Track} (hfields : search.fields ≠ [])
    (h : search.finds t = true) : Mentions search.fields search.text t := by
  unfold TextSearch.finds at h
  rcases Bool.or_eq_true_iff.mp h with hnothing | hany
  · -- A search for nothing finds it in the first attribute.
    obtain ⟨a, rest, hsplit⟩ := List.exists_cons_of_ne_nil hfields
    have hempty : Text.matchKey search.text = "" := String.isEmpty_iff.mp hnothing
    refine ⟨a, by rw [hsplit]; exact List.mem_cons_self, ?_⟩
    rw [hempty]
    exact List.nil_infix
  · obtain ⟨a, ha, hcontains⟩ := List.any_eq_true.mp hany
    exact ⟨a, ha, Text.occursIn_iff.mp hcontains⟩

theorem lists_of_onPlaylist {playlists : List String} {track : String}
    (h : l.onPlaylist playlists track = true) : l.Lists playlists track := by
  unfold onPlaylist at h
  obtain ⟨p, hp, hboth⟩ := List.any_eq_true.mp h
  simp only [Bool.and_eq_true, List.contains_iff_mem] at hboth
  exact ⟨p, hp, hboth⟩

/-- The parts of what an item has to meet. -/
structure Meets (l : Library) (scope : Scope) (q : Query) (item : LibraryItem) : Prop where
  scope : item.station = scope.station ∨ item.inArchive = true ∧
    item.station ∈ l.publicStations ∧ scope.includePublicArchive = true
  playlists : q.playlists ≠ [] → l.Lists q.playlists item.track.id
  genre : Query.sameText q.genre item.track.genre = true
  mood : Query.sameText q.mood item.track.mood = true
  language : Query.sameText q.language item.track.language = true
  artist : ∀ wanted, q.artist = some wanted →
    Text.matchKey item.track.artist = Text.matchKey wanted
  search : ∀ search, q.search = some search → search.finds item.track = true
  slowest : ∀ bound, q.slowest = some bound → ¬ item.track.bpm < bound
  fastest : ∀ bound, q.fastest = some bound → ¬ bound < item.track.bpm

theorem meets_of_meets {scope : Scope} {q : Query} (h : l.meets scope q item = true) :
    l.Meets scope q item := by
  unfold Library.meets inScope Query.admits at h
  simp only [Bool.and_eq_true, Bool.or_eq_true, beq_iff_eq, List.contains_iff_mem,
    List.isEmpty_iff, Option.all_eq_true, Bool.not_eq_true', decide_eq_false_iff_not] at h
  obtain ⟨⟨hscope, hplaylists⟩,
    ⟨⟨⟨⟨⟨⟨hgenre, hmood⟩, hlanguage⟩, hartist⟩, hsearch⟩, hslowest⟩, hfastest⟩⟩ := h
  refine ⟨?_, ?_, hgenre, hmood, hlanguage, ?_, hsearch, hslowest, hfastest⟩
  · exact hscope.imp_right fun ⟨⟨harchive, hreleased⟩, hpublic⟩ => ⟨hreleased, hpublic, harchive⟩
  · intro hsome
    exact lists_of_onPlaylist (hplaylists.resolve_left hsome)
  · intro wanted hwanted
    exact (hartist wanted hwanted).symm

/-- An answer holds tracks of items that meet the query, in whatever order. -/
theorem exists_of_mem_answer {order : ItemOrder} {scope : Scope} {q : Query}
    {fetched : List Track} {t : Track} (hfetched : (l.catalog order).tracks scope q = .ok fetched)
    (ht : t ∈ fetched) : ∃ item ∈ l.items, item.track = t ∧ l.Meets scope q item := by
  rw [← Except.ok.inj hfetched, (order.arrange_perm _).mem_iff] at ht
  obtain ⟨item, hitem, htrack⟩ := List.mem_map.mp ht
  obtain ⟨hmem, hmeets⟩ := List.mem_filter.mp hitem
  exact ⟨item, hmem, htrack, meets_of_meets hmeets⟩

/-! ## From items to documents -/

variable {station : String} {rules sequence : Document} {year : Int}

/-- What meets the query of a block and passes its remaining criteria suits the
rules that the query and the criteria were made from. -/
theorem suits_of_meets
    (h : l.Meets (Catalog.musicScope station (Plan.ofDocuments rules sequence year))
      (Catalog.musicQuery (Plan.ofDocuments rules sequence year)) item)
    (haccepts : (Plan.ofDocuments rules sequence year).criteria.accepts item.track = true)
    (htimed : 0 < item.track.duration) : l.Suits station rules year item := by
  unfold Criteria.accepts YearRange.contains at haccepts
  simp only [Bool.and_eq_true, Option.all_eq_true, decide_eq_true_eq] at haccepts
  obtain ⟨⟨hexplicit, hyear⟩, hera⟩ := haccepts
  constructor
  case scope =>
    refine h.scope.imp_right ?_
    rintro ⟨hreleased, hpublic, harchive⟩
    refine ⟨hreleased, hpublic, ?_⟩
    change ((rules.firstOf? ["includePublicArchive", "include_archive"]).map Json.truth).getD
      false = true at harchive
    cases hasked : rules.firstOf? ["includePublicArchive", "include_archive"] with
    | none =>
        rw [hasked] at harchive
        contradiction
    | some asked =>
        rw [hasked] at harchive
        exact ⟨asked, rfl, harchive⟩
  case playlists =>
    intro named hnamed hsome
    have hplaylists : (Catalog.musicQuery (Plan.ofDocuments rules sequence year)).playlists =
        named.labels := by
      change ((rules.firstOf? ["sourcePlaylists", "source_playlists"]).map Json.labels).getD [] = _
      rw [hnamed]
      rfl
    rw [← hplaylists] at hsome ⊢
    exact h.playlists hsome
  case genre => exact fun wanted hwanted => caseKey_eq_of_sameText h.genre hwanted
  case mood => exact fun wanted hwanted => caseKey_eq_of_sameText h.mood hwanted
  case language => exact fun wanted hwanted => caseKey_eq_of_sameText h.language hwanted
  case artist => exact h.artist
  case text =>
    intro wanted hwanted
    have hsearch : (Catalog.musicQuery (Plan.ofDocuments rules sequence year)).search =
        some (TextSearch.music wanted) := by
      change (rules.label? "text_search").map TextSearch.music = _
      rw [hwanted]
      rfl
    exact mentions_of_finds (List.cons_ne_nil _ _) (h.search _ hsearch)
  case tempo =>
    intro range hrange
    obtain ⟨hmin, hmax⟩ := Plan.tempo_ofDocuments sequence year hrange
    exact ⟨fun low hlow => h.slowest low (hmin.trans hlow),
      fun high hhigh => h.fastest high (hmax.trans hhigh)⟩
  case years =>
    intro range hrange
    obtain ⟨hmin, hmax⟩ := Plan.years_ofDocuments sequence year hrange
    constructor
    · intro low hlow
      rw [hlow, Option.map_some] at hmin
      obtain ⟨years, hyears, hbound⟩ := Option.bind_eq_some_iff.mp hmin
      exact (hyear years hyears).1 _ hbound
    · intro high hhigh
      rw [hhigh, Option.map_some] at hmax
      obtain ⟨years, hyears, hbound⟩ := Option.bind_eq_some_iff.mp hmax
      exact (hyear years hyears).2 _ hbound
  case era =>
    intro label range hlabel hrange
    apply hera
    rw [Plan.era_ofDocuments sequence year hlabel]
    exact hrange
  case explicit =>
    intro hon
    change (!(rules.truth "excludeExplicit" && item.track.explicit)) = true at hexplicit
    rw [hon, Bool.true_and, Bool.not_eq_true'] at hexplicit
    exact hexplicit
  case timed => exact htimed

theorem suits_of_mem_music {order : ItemOrder} {tracks : List Track} {t : Track}
    (hmusic : (l.catalog order).music station (Plan.ofDocuments rules sequence year) = .ok tracks)
    (ht : t ∈ tracks) : ∃ item ∈ l.items, item.track = t ∧ l.Suits station rules year item := by
  obtain ⟨fetched, hfetched, hmem, htimed, haccepts⟩ := Catalog.exists_of_mem_music hmusic ht
  obtain ⟨item, hitem, htrack, hmeets⟩ := exists_of_mem_answer hfetched hmem
  rw [← htrack] at htimed haccepts
  exact ⟨item, hitem, htrack, suits_of_meets hmeets haccepts htimed⟩

theorem offers_of_meets {scope : Scope} {source : BreakSource}
    (h : l.Meets scope (Catalog.adQuery source) item) : l.Offers item source := by
  cases source with
  | playlist id => exact h.playlists (List.cons_ne_nil _ _)
  | genre name => exact caseKey_eq_of_sameText h.genre rfl
  | search text => exact mentions_of_finds (List.cons_ne_nil _ _) (h.search _ rfl)

/-- Breaks that are in force have a source, in a document that is switched on. -/
theorem exists_of_adSource? {source : BreakSource}
    (h : Catalog.adSource? (Plan.ofDocuments rules sequence year) = some source) :
    ∃ breaks, rules.members? "interstitials" = some breaks ∧
      Json.truthAt breaks "enabled" = true ∧ Plan.breakSourceOf? breaks = some source := by
  change (if (Plan.breaksOf rules).enabled then (Plan.breaksOf rules).source else none) = _ at h
  unfold Plan.breaksOf at h
  cases hbreaks : rules.members? "interstitials" with
  | none =>
      rw [hbreaks] at h
      contradiction
  | some breaks =>
      simp only [hbreaks] at h
      cases hon : Json.truthAt breaks "enabled" with
      | false =>
          rw [hon] at h
          contradiction
      | true =>
          cases hsource : Plan.breakSourceOf? breaks with
          | none =>
              rw [hon, hsource] at h
              contradiction
          | some named =>
              rw [hon, hsource] at h
              exact ⟨breaks, rfl, hon, hsource.trans h⟩

theorem suitsBreak_of_mem_ads {order : ItemOrder} {tracks : List Track} {t : Track}
    (hads : (l.catalog order).ads station (Plan.ofDocuments rules sequence year) = .ok tracks)
    (ht : t ∈ tracks) : ∃ item ∈ l.items, item.track = t ∧ l.SuitsBreak station rules item := by
  obtain ⟨source, fetched, hsource, hfetched, hmem, htimed⟩ := Catalog.exists_of_mem_ads hads ht
  obtain ⟨item, hitem, htrack, hmeets⟩ := exists_of_mem_answer hfetched hmem
  obtain ⟨breaks, hbreaks, hon, hnamed⟩ := exists_of_adSource? hsource
  rw [← htrack] at htimed
  refine ⟨item, hitem, htrack, ?_, ⟨breaks, source, hbreaks, hon, hnamed, ?_⟩, htimed⟩
  · exact hmeets.scope.resolve_right fun ⟨_, _, hfalse⟩ => Bool.noConfusion hfalse
  · exact offers_of_meets hmeets

/-! ## A library never fails -/

theorem exists_extendAll (l : Library) (order : ItemOrder) (station : String) (year : Int)
    (block : Option String) (fallbacks : List Fallback) (pool : List Track × List String) :
    ∃ after, (l.catalog order).extendAll station year block fallbacks pool = .ok after := by
  induction fallbacks generalizing pool with
  | nil => exact ⟨pool, rfl⟩
  | cons f rest ih =>
      unfold Catalog.extendAll
      split
      · exact ih pool
      · exact ih _

theorem exists_pools (l : Library) (order : ItemOrder) (station : String) (year : Int)
    (plan : Plan) (block : Option String) :
    ∃ pools, (l.catalog order).pools station year plan block = .ok pools := by
  obtain ⟨own, hown⟩ : ∃ own, (l.catalog order).music station plan = .ok own := ⟨_, rfl⟩
  obtain ⟨interstitials, hads⟩ : ∃ tracks, (l.catalog order).ads station plan = .ok tracks := by
    unfold Catalog.ads
    split
    · exact ⟨[], rfl⟩
    · exact ⟨_, rfl⟩
  obtain ⟨after, hall⟩ :=
    exists_extendAll l order station year block plan.fallbacks ([], own.map (·.id))
  have hothers : (l.catalog order).fallback station year plan block own = .ok after.1 :=
    bind_eq_ok.mpr ⟨after, hall, rfl⟩
  exact ⟨⟨own, interstitials, after.1⟩,
    bind_eq_ok.mpr ⟨own, hown, bind_eq_ok.mpr ⟨interstitials, hads,
      bind_eq_ok.mpr ⟨after.1, hothers, rfl⟩⟩⟩⟩

end Library

namespace Preview

/-- What a placement of a request goes back to: its music to an item that suits the
rules of the request, or those of another block to which a fallback refers, and its
interstitials to an item that suits the breaks. -/
structure ComesFrom (l : Library) (year : Int) (request : PreviewRequest) (p : Placement) :
    Prop where
  own : p.isAd = false → p.fromFallback = false →
    ∃ item ∈ l.items, item.track = p.track ∧
      l.Suits request.station request.rules year item
  fallback : p.isAd = false → p.fromFallback = true →
    ∃ f ∈ Plan.fallbacksOf request.rules, request.block ≠ some f.block ∧
      ∃ found, l.block? f.block = some found ∧
        ∃ item ∈ l.items, item.track = p.track ∧
          l.Suits request.station found.rules year item
  ad : p.isAd = true →
    ∃ item ∈ l.items, item.track = p.track ∧ l.SuitsBreak request.station request.rules item

variable {l : Library} {order : ItemOrder} {year : Int} {request : PreviewRequest}
variable {pools : Pools}

theorem comesFrom_of_supply
    (hpools : (l.catalog order).pools request.station year (request.plan year) request.block =
      .ok pools) {p : Placement} (hp : pools.Supply p.origin) :
    ComesFrom l year request p := by
  obtain ⟨hmusic, hads, hfallback⟩ := Catalog.pools_cases hpools
  obtain ⟨t, isAd, fromFallback, startsAt, endsAt⟩ := p
  constructor
  · rintro rfl rfl
    exact Library.suits_of_mem_music hmusic hp
  · rintro rfl rfl
    obtain ⟨f, hf, found, hreferred, tracks, htracks, ht⟩ := hfallback t hp
    unfold Catalog.referred? at hreferred
    split at hreferred
    · contradiction
    · rename_i hother
      have hblock : l.block? f.block = some found := hreferred
      exact ⟨f, hf, hother, found, hblock, Library.suits_of_mem_music htracks ht⟩
  · rintro rfl
    exact Library.suitsBreak_of_mem_ads hads hp

/-- The tracks of the pools are tracks of the library that take time. -/
theorem exists_item_of_mem_pools
    (hpools : (l.catalog order).pools request.station year (request.plan year) request.block =
      .ok pools) {t : Track} (ht : t ∈ pools.music ++ pools.ads ++ pools.fallback) :
    0 < t.duration ∧ ∃ item ∈ l.items, item.track = t := by
  obtain ⟨hmusic, hads, hfallback⟩ := Catalog.pools_cases hpools
  rcases List.mem_append.mp ht with hown | hlent
  · rcases List.mem_append.mp hown with hsong | had
    · obtain ⟨item, hitem, rfl, hsuits⟩ := Library.suits_of_mem_music hmusic hsong
      exact ⟨hsuits.timed, item, hitem, rfl⟩
    · obtain ⟨item, hitem, rfl, hsuits⟩ := Library.suitsBreak_of_mem_ads hads had
      exact ⟨hsuits.timed, item, hitem, rfl⟩
  · obtain ⟨_, _, _, _, tracks, htracks, hsong⟩ := hfallback t hlent
    obtain ⟨item, hitem, rfl, hsuits⟩ := Library.suits_of_mem_music htracks hsong
    exact ⟨hsuits.timed, item, hitem, rfl⟩

/-- Where no item of a library is half as long as 64 bits allow, no run breaks off. -/
theorem completes_of_library
    (hpools : (l.catalog order).pools request.station year (request.plan year) request.block =
      .ok pools)
    (hshort : ∀ item ∈ l.items, item.track.duration < 4611686018427387904) (index : Nat) :
    Completes (request.plan year) pools request.seed index := by
  have hdurations : ∀ t ∈ pools.music ++ pools.ads ++ pools.fallback,
      0 < t.duration ∧ t.duration < 4611686018427387904 := by
    intro t ht
    obtain ⟨htimed, item, hitem, rfl⟩ := exists_item_of_mem_pools hpools ht
    exact ⟨htimed, hshort item hitem⟩
  refine completes_of_short (fun t ht => ?_) fun t ht => (hdurations t ht).2
  obtain ⟨hpos, hless⟩ := hdurations t ht
  exact ⟨hpos, Binary64.isWord_iff.mpr ⟨by omega, by omega⟩⟩

/-- Over a library every placement of every variant that is previewed comes from an item
that suits the rules it is played for.  Every request is previewed unless the library has
an item of half the range of 64 bits. -/
theorem placements_comeFrom (l : Library) (order : ItemOrder) (year : Int)
    (request : PreviewRequest) :
    (∀ result, single (l.catalog order) year request = .ok result →
        ∀ p ∈ result.placements, ComesFrom l year request p) ∧
      (∀ count results, variants (l.catalog order) year request count = .ok results →
        results.length = count ∧
          ∀ result ∈ results, ∀ p ∈ result.placements, ComesFrom l year request p) ∧
      ((∀ item ∈ l.items, item.track.duration < 4611686018427387904) →
        (∃ result, single (l.catalog order) year request = .ok result) ∧
          ∀ count, ∃ results, variants (l.catalog order) year request count = .ok results) := by
  obtain ⟨pools, hpools⟩ :=
    Library.exists_pools l order request.station year (request.plan year) request.block
  have hbuilt : ∀ index, ∀ p ∈ (built (request.plan year) pools request.seed index).placements,
      ComesFrom l year request p := by
    intro index p hp
    exact comesFrom_of_supply hpools (Sequence.build_supplyAll _ _ _ _ p hp)
  refine ⟨?_, ?_, ?_⟩
  · intro result hresult
    obtain ⟨_, rfl⟩ := variant_eq_ok_iff.mp ((single_eq_ok_iff hpools).mp hresult)
    exact hbuilt 0
  · intro count results hresults
    obtain ⟨_, rfl⟩ := (variants_eq_ok_iff hpools).mp hresults
    constructor
    · rw [inSeedOrder, List.length_map, List.length_range]
    · intro result hresult
      obtain ⟨index, _, rfl⟩ := List.mem_map.mp hresult
      exact hbuilt index
  · intro hshort
    have hruns := completes_of_library hpools hshort
    have hfirst := variant_eq_ok_iff.mpr ⟨hruns 0, rfl⟩
    constructor
    · exact ⟨_, (single_eq_ok_iff hpools).mpr hfirst⟩
    · intro count
      exact ⟨_, (variants_eq_ok_iff hpools).mpr ⟨fun index _ => hruns index, rfl⟩⟩

end Preview

end Rundown
