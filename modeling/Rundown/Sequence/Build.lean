import Rundown.Sequence.Fill
import Rundown.Sequence.Trim

/-!
# Building a block

The own pool comes first; the fallbacks follow when it leaves the block short of
its lower bound.  An overshoot is trimmed, the placements are laid out again,
and the result says what is remarkable about them.
-/

namespace Rundown

/-- The tracks that a block is built from. -/
structure Pools where
  music : List Track
  ads : List Track
  fallback : List Track
  deriving Inhabited

/-- No music, from the block itself or from a fallback. -/
def Pools.isEmpty (p : Pools) : Bool :=
  p.music.isEmpty && p.fallback.isEmpty

/-- What is remarkable about a result. -/
inductive Warning where
  /-- The total fell short of the lower bound. -/
  | underfilled (total lowerBound : Int)
  /-- Some music came from a fallback. -/
  | usedFallback
  /-- A quota fell short of its least share. -/
  | quotaUnmet (field value : String) (share minShare : Float)
  /-- Some track was placed in spite of the separation. -/
  | separationRelaxed
  /-- One placement was removed to correct an overshoot. -/
  | trimmed (track : String)
  deriving Inhabited

/-- The placements of a block and the time they take. -/
structure Sequence where
  placements : List Placement
  total : Int
  warnings : List Warning
  deriving Inhabited

namespace Sequence

/-- Nothing is placed. -/
def isEmpty (s : Sequence) : Bool :=
  s.placements.isEmpty

/-- How many placements are music. -/
def musicCount (s : Sequence) : Nat :=
  s.placements.countP (!·.isAd)

/-- How many placements are interstitials. -/
def adCount (s : Sequence) : Nat :=
  s.placements.countP (·.isAd)

/-- The warning of a quota that fell short among the music. -/
def quotaWarning? (music : List Track) (q : Quota) : Option Warning :=
  match q.minShare with
  | some least =>
      let share := State.percent (music.countP q.covers) music.length
      if share < least then some (.quotaUnmet q.field.name q.value share least) else none
  | none => none

/-- What is remarkable about a result; nothing when it is empty. -/
def warningsOf (plan : Plan) (placements : List Placement) (total : Int) (relaxed : Bool)
    (removed : Option Placement) : List Warning :=
  let music := (Placement.music placements).map (·.track)
  if placements.isEmpty then []
  else
    (if total < plan.lowerBound then [.underfilled total plan.lowerBound] else []) ++
    (if placements.any fun p => p.fromFallback && !p.isAd then [.usedFallback] else []) ++
    (if music.isEmpty then [] else plan.quotas.filterMap (quotaWarning? music)) ++
    (if relaxed then [.separationRelaxed] else []) ++
    (removed.toList.map fun p => .trimmed p.track.id)

/-- The block before it is trimmed. -/
def filled (f : Filling) (pools : Pools) : Run :=
  let own := f.primary pools.music f.start
  if own.state.total < f.plan.lowerBound then f.fallback pools.fallback own else own

/-- Trim a block and lay it out. -/
def finish (r : Reckoning) (plan : Plan) (s : State) : Sequence :=
  let (kept, removed) := Trim.overshoot r plan.target s.placements
  let placements := Placement.layOut r kept
  let total := Placement.total r kept
  ⟨placements, total, warningsOf plan placements total s.relaxed removed⟩

/-- The block of a plan from its pools, with the number of coins used. -/
def build (r : Reckoning) (plan : Plan) (pools : Pools) (coins : Coins) : Sequence × Nat :=
  let run := filled ⟨r, plan, pools.ads, coins⟩ pools
  (finish r plan run.state, run.coinsUsed)

end Sequence

end Rundown
