import Rundown.Reckoning
import Rundown.Track

/-!
# Placements

A placement is a track at its place in a block, with the offsets at which it
starts and ends.  Laying placements out gives each the end of the one before as
its start, so that there are no gaps.
-/

namespace Rundown

/-- A track in a block.  Offsets are milliseconds from the start of the block. -/
structure Placement where
  track : Track
  /-- An interstitial, not music. -/
  isAd : Bool
  /-- Taken from the pool of another block. -/
  fromFallback : Bool
  startsAt : Int
  endsAt : Int
  deriving Inhabited

namespace Placement

/-- Music, not an interstitial. -/
def isMusic (p : Placement) : Bool :=
  !p.isAd

/-- Placements one after the other from a given offset on. -/
def layOutFrom (r : Reckoning) (start : Int) : List Placement → List Placement
  | [] => []
  | p :: rest =>
      let finish := r.hold (start + p.track.duration)
      { p with startsAt := start, endsAt := finish } :: layOutFrom r finish rest

/-- Placements one after the other from the start of the block on. -/
def layOut (r : Reckoning) (placements : List Placement) : List Placement :=
  layOutFrom r 0 placements

/-- The time that placements take together, after a given offset. -/
def totalFrom (r : Reckoning) (start : Int) : List Placement → Int
  | [] => start
  | p :: rest => totalFrom r (r.hold (start + p.track.duration)) rest

/-- The time that placements take together. -/
def total (r : Reckoning) (placements : List Placement) : Int :=
  totalFrom r 0 placements

/-- The music among placements. -/
def music (placements : List Placement) : List Placement :=
  placements.filter isMusic

@[simp]
theorem length_layOutFrom (r : Reckoning) (start : Int) (placements : List Placement) :
    (layOutFrom r start placements).length = placements.length := by
  induction placements generalizing start with
  | nil => rfl
  | cons p rest ih => simp [layOutFrom, ih]

theorem totalFrom_append (r : Reckoning) (start : Int) (xs ys : List Placement) :
    totalFrom r start (xs ++ ys) = totalFrom r (totalFrom r start xs) ys := by
  induction xs generalizing start with
  | nil => rfl
  | cons p rest ih => simp [totalFrom, ih]

end Placement

end Rundown
