import Rundown.Catalog.Basic
import Rundown.Plan.Normalize
import Rundown.Sequence.Build

/-!
# Gathering the pools of a block

Before a block is built, its pools are fetched from a catalog: the music that
its plan asks for, the interstitials of its breaks, and the music of the blocks
that it names as fallbacks.  A fallback that names the block itself, that does
not exist or that cannot be read is passed over; a failing query is an error.
Tracks without a positive duration are left out everywhere, so that each
placement makes the block longer.
-/

namespace Rundown.Catalog

/-- The tracks of a positive duration. -/
def playable (tracks : List Track) : List Track :=
  tracks.filter (0 < ·.duration)

/-- The scope of a block's own music. -/
def musicScope (station : String) (plan : Plan) : Scope :=
  ⟨station, plan.criteria.includePublicArchive⟩

/-- The query for a block's own music. -/
def musicQuery (plan : Plan) : Query where
  genre := plan.criteria.genre
  artist := plan.criteria.artist
  mood := plan.criteria.mood
  language := plan.criteria.language
  search := plan.criteria.textSearch.map TextSearch.music
  slowest := plan.criteria.tempo.bind (·.min)
  fastest := plan.criteria.tempo.bind (·.max)
  playlists := plan.criteria.sourcePlaylists

/-- The tracks that the criteria of a plan leave over. -/
def checked (plan : Plan) (tracks : List Track) : List Track :=
  if plan.criteria.needsCheck then tracks.filter plan.criteria.accepts else tracks

/-- The music that a plan asks for. -/
def music (c : Catalog) (station : String) (plan : Plan) : Except CatalogError (List Track) := do
  let fetched ← c.tracks (musicScope station plan) (musicQuery plan)
  .ok (checked plan (playable fetched))

/-- The query for the interstitials of a source. -/
def adQuery : BreakSource → Query
  | .playlist id => { Query.any with playlists := [id] }
  | .genre name => { Query.any with genre := some name }
  | .search text => { Query.any with search := some (TextSearch.interstitial text) }

/-- The source of a plan's breaks, when they are enabled. -/
def adSource? (plan : Plan) : Option BreakSource :=
  if plan.breaks.enabled then plan.breaks.source else none

/-- The interstitials of a plan, from its own station only. -/
def ads (c : Catalog) (station : String) (plan : Plan) : Except CatalogError (List Track) :=
  match adSource? plan with
  | none => .ok []
  | some source => do
      let fetched ← c.tracks ⟨station, false⟩ (adQuery source)
      .ok (playable fetched)

/-- Add tracks to a pool until it holds `limit` of them more, or all of them when
the limit is zero, leaving out those whose id was seen; the second part of the
result is what was seen. -/
def extend (limit : Nat) :
    (added : Nat) → List Track → List Track × List String → List Track × List String
  | _, [], pool => pool
  | added, t :: rest, (pool, seen) =>
      if 0 < limit && limit ≤ added then (pool, seen)
      else if seen.contains t.id then extend limit added rest (pool, seen)
      else extend limit (added + 1) rest (pool ++ [t], t.id :: seen)

/-- The block that a fallback refers to, if it is another block and can be read. -/
def referred? (c : Catalog) (block : Option String) (f : Fallback) : Option Block :=
  if block = some f.block then none
  else
    match c.block? f.block with
    | .ok found => found
    | .error _ => none

/-- Add the music of the fallbacks to a pool. -/
def extendAll (c : Catalog) (station : String) (year : Int) (block : Option String) :
    List Fallback → List Track × List String → Except CatalogError (List Track × List String)
  | [], pool => .ok pool
  | f :: rest, pool =>
      match referred? c block f with
      | none => extendAll c station year block rest pool
      | some found => do
          let tracks ← music c station (Plan.ofDocuments found.rules found.sequence year)
          extendAll c station year block rest (extend f.limit 0 tracks pool)

/-- The music of the fallbacks, without the tracks of the own pool and without
repetitions. -/
def fallback (c : Catalog) (station : String) (year : Int) (plan : Plan) (block : Option String)
    (own : List Track) : Except CatalogError (List Track) := do
  let (pool, _) ← extendAll c station year block plan.fallbacks ([], own.map (·.id))
  .ok pool

/-- The pools of a block. -/
def pools (c : Catalog) (station : String) (year : Int) (plan : Plan) (block : Option String) :
    Except CatalogError Pools := do
  let own ← music c station plan
  let interstitials ← ads c station plan
  let others ← fallback c station year plan block own
  .ok ⟨own, interstitials, others⟩

end Rundown.Catalog
