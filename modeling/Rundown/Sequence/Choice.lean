import Rundown.Sequence.Score
import Rundown.Sequence.State

/-!
# Choosing the next track

A candidate is admissible when it fits, does not repeat what was just played and
exceeds no quota.  Among the admissible candidates those without a violation of
the separation go first, and the best score wins.  Equal best scores are decided
by coins, one for each tie met on the way through the list.
-/

namespace Rundown

/-- The outcomes of the coins that decide between equals, in order. -/
abbrev Coins := Nat → Bool

/-- A track of a pool that is not used in the current pass. -/
structure Candidate where
  index : Nat
  track : Track
  deriving Inhabited

/-- A candidate with its scores. -/
structure Scored where
  candidate : Candidate
  closeness : Int
  combined : Float
  /-- By how much it violates the separation. -/
  violation : Int
  deriving Inhabited

namespace Scored

/-- A better score: closer, or as close with the higher combined score. -/
def beats (a b : Scored) : Bool :=
  b.closeness < a.closeness || (a.closeness == b.closeness && b.combined < a.combined)

/-- The same score. -/
def ties (a b : Scored) : Bool :=
  a.closeness == b.closeness && a.combined == b.combined

/-- The best of a current favourite and the rest, with the number of coins used
so far. -/
def bestFrom (coins : Coins) (best : Scored) (used : Nat) : List Scored → Scored × Nat
  | [] => (best, used)
  | s :: rest =>
      if s.beats best then bestFrom coins s used rest
      else if s.ties best then
        bestFrom coins (if coins used then s else best) (used + 1) rest
      else bestFrom coins best used rest

/-- The best of a list, with the number of coins used so far. -/
def best (coins : Coins) (used : Nat) : List Scored → Option Scored × Nat
  | [] => (none, used)
  | s :: rest =>
      let (winner, after) := bestFrom coins s used rest
      (some winner, after)

end Scored

/-- What a phase asks of its candidates beside the plan. -/
structure Limits where
  /-- Music placements within which a track may not come again; zero for none. -/
  window : Nat
  /-- Refuse the track that was just played. -/
  noRepeat : Bool

namespace State

/-- The hard conditions hold of a candidate. -/
def admits (r : Reckoning) (s : State) (plan : Plan) (limits : Limits) (t : Track) : Bool :=
  s.fits r plan t &&
    !(limits.noRepeat && s.isImmediateRepeat t) &&
    !(0 < limits.window && s.isRecent limits.window t) &&
    !s.exceedsQuota plan t

/-- The scores of a candidate. -/
def score (r : Reckoning) (s : State) (plan : Plan) (c : Candidate) : Scored :=
  let violation := s.violation r plan c.track
  let energy :=
    if plan.energyEnabled then Score.energyFit c.track plan.energyCurve s.total plan.target
    else 0
  ⟨c, Score.closeness r plan.target s.total c.track.duration,
    Score.combined violation energy, violation⟩

/-- The candidate to place next, if one is admissible, and the number of coins
used so far.  Repeats are refused only while there is another candidate. -/
def choose (r : Reckoning) (s : State) (plan : Plan) (window : Nat) (coins : Coins)
    (used : Nat) (candidates : List Candidate) : Option Scored × Nat :=
  let limits : Limits := ⟨window, 1 < candidates.length⟩
  let scored := (candidates.filter fun c => s.admits r plan limits c.track).map (s.score r plan)
  let clean := scored.filter (·.violation == 0)
  Scored.best coins used (if clean.isEmpty then scored else clean)

end State

end Rundown
